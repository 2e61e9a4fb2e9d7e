import CHeader.Proofs.Fault
import CHeader.Proofs.Macro.Table

/-
  What definitions leave behind.

  A definition changes nothing but what is known of its own name. A function-like macro whose body
  cannot be compiled has its name and its parameters all the same, with the body of an earlier
  definition or with none.

  Main declarations:
    * `Macro.Change.effect`
    * `Macro.Change.known_run`
    * `Macro.define_parts`
-/

namespace CHeader

namespace Macro

/- The meaning, the parameters and the body of a name. -/
abbrev Known := Option Meaning × Option Params × Option Body

def Table.known (table : Table) (name : String) : Known :=
  (table.find? name, lookup table.params name, lookup table.bodies name)

/- Tables with records of parameters and bodies. -/
def Table.Recorded (table : Table) : Prop :=
  table.find? paramsName = some .record ∧ table.find? bodiesName = some .record

/- A definition line, or a name that is taken out. -/
inductive Change where
  | define (line : String)
  | undef (name : String)

namespace Change

def run (table : Table) : Change → Table × Except Fault Unit
| define line => Macro.define line table
| undef name => (table.erase name, .ok ())

def name? : Change → Option String
| define line => (Definition.ofText? (Source.Directive.operandOf line)).map Definition.name
| undef name => some name

/- Changes of names other than those of the records. -/
def Ordinary (change : Change) : Prop :=
  change.name? ≠ some paramsName ∧ change.name? ≠ some bodiesName

/- What a change makes of what was known of its name, and whether it succeeds. -/
def effect (before : Known) : Change → Known × Except Fault Unit
| undef _ => ((none, before.2), .ok ())
| define line =>
    match Definition.ofText? (Source.Directive.operandOf line) with
    | none => (before, .error .outOfRange)
    | some ⟨_, none, body⟩ => ((some (.text (String.ofList body)), before.2), .ok ())
    | some ⟨_, some text, body⟩ =>
        match compileBody (paramNames text) (bodyStrands body) with
        | .ok pieces =>
            ((some .function, some (.names (paramNames text)), some (.pieces pieces)), .ok ())
        | .error fault =>
            ((some .function, some (.names (paramNames text)), before.2.2), .error fault)

variable {table : Table}

-- One change

theorem known_run (hTable : table.Recorded) {change : Change} (hName : change.Ordinary) :
    (∀ before, (change.run table).2 = (change.effect before).2) ∧
      ∀ key, (change.run table).1.known key =
        if change.name? = some key then (change.effect (table.known key)).1
        else table.known key := by
  cases change with
  | undef name =>
    refine ⟨fun _ => rfl, fun key => ?_⟩
    simp only [run, Table.known, Table.find?_erase, name?, Option.some_inj]
    split <;> rfl
  | define line =>
    rcases hReads : Definition.ofText? (Source.Directive.operandOf line) with _ | ⟨name, text, body⟩
    · simp [run, effect, hReads, Macro.define]
    simp only [Ordinary, name?, hReads, Option.map_some, ne_eq, Option.some_inj] at hName
    cases text with
    | none =>
      simp only [run, Macro.define, name?, effect, hReads, Option.map_some, Option.some_inj,
        Table.known, Table.setText, Table.find?_set]
      exact ⟨fun _ => trivial, fun key => by split <;> rfl⟩
    | some text =>
      have hOpen : (table.set name .function).openRecords = table.set name .function :=
        if_pos (by simp [Table.contains, Table.find?_set, hName, hTable.1])
      have hParams : (table.set name .function).checkRecord paramsName = .ok () := by
        simp [Table.checkRecord, Table.find?_set, hName, hTable.1]
      have hBodies : (table.set name .function).checkRecord bodiesName = .ok () := by
        simp [Table.checkRecord, Table.find?_set, hName, hTable.2]
      simp only [run, Macro.define, name?, effect, hReads, hOpen, hParams, hBodies,
        Table.checkRecord_setParams]
      cases compileBody (paramNames text) (bodyStrands body) <;>
        refine ⟨fun _ => rfl, fun key => ?_⟩ <;> by_cases hKey : name = key <;>
        simp [Table.known, Table.setBody, Table.setParams, Table.set, Table.find?, lookup_assign,
          hKey]

theorem recorded_run (hTable : table.Recorded) {change : Change} (hName : change.Ordinary) :
    (change.run table).1.Recorded := by
  have hSame := (known_run hTable hName).2
  exact ⟨(congrArg Prod.fst ((hSame _).trans (if_neg hName.1))).trans hTable.1,
    (congrArg Prod.fst ((hSame _).trans (if_neg hName.2))).trans hTable.2⟩

/- A change leaves a function with parameters, and with a body if it had or gets one. -/
theorem effect_parts (change : Change)
    (hBefore : before.1 = some .function → before.2.1.isSome = true) :
    let after := (change.effect before).1
    (after.1 = some .function → after.2.1.isSome = true) ∧ (after.2.2.isSome = true ↔
      before.2.2.isSome = true ∨ (change.effect (none, none, none)).1.2.2.isSome = true) := by
  cases change with
  | undef name => simp [effect]
  | define line =>
    rcases hReads : Definition.ofText? (Source.Directive.operandOf line) with
      _ | ⟨_, _ | text, body⟩
    · simpa [effect, hReads] using hBefore
    · simp [effect, hReads]
    · cases hBody : compileBody (paramNames text) (bodyStrands body) <;> simp [effect, hReads, hBody]

-- Many changes

/- Whether a change gives a name a body. -/
def GivesBody (change : Change) (name : String) : Prop :=
  change.name? = some name ∧ (change.effect (none, none, none)).1.2.2.isSome = true

theorem parts_foldl (changes : List Change) (hTable : table.Recorded)
    (hNames : ∀ change ∈ changes, change.Ordinary)
    (hParams : ∀ name, (table.known name).1 = some .function →
      (table.known name).2.1.isSome = true) (name : String) :
    let after := (changes.foldl (fun table change => (change.run table).1) table).known name
    (after.1 = some .function → after.2.1.isSome = true) ∧ (after.2.2.isSome = true ↔
      (table.known name).2.2.isSome = true ∨ ∃ change ∈ changes, change.GivesBody name) := by
  induction changes generalizing table with
  | nil => exact ⟨hParams name, by simp⟩
  | cons change changes ih =>
    rw [List.forall_mem_cons] at hNames
    have hStep : ∀ key, let after := (change.run table).1.known key
        (after.1 = some .function → after.2.1.isSome = true) ∧ (after.2.2.isSome = true ↔
          (table.known key).2.2.isSome = true ∨ change.GivesBody key) := by
      intro key
      rw [(known_run hTable hNames.1).2 key]
      split
      · next hName => simpa [GivesBody, hName] using change.effect_parts (hParams key)
      · next hName => simpa [GivesBody, hName] using hParams key
    obtain ⟨hFunction, hBody⟩ := ih (recorded_run hTable hNames.1) hNames.2 fun key => (hStep key).1
    refine ⟨hFunction, hBody.trans ?_⟩
    rw [(hStep name).2]
    simp [or_assoc]

end Change

/-
  A change is about its own name only, but a definition whose body is refused changes the name and
  the parameters all the same. So after any changes a function has its parameters, and it has a
  body if and only if it had one or one was accepted.
-/
theorem define_parts
    (table : Table)
    (hTable : table.Recorded) :
    (∀ change : Change, change.Ordinary →
      (∀ before, (change.run table).2 = (change.effect before).2) ∧
        ∀ key, (change.run table).1.known key =
          if change.name? = some key then (change.effect (table.known key)).1
          else table.known key) ∧
    ∀ changes : List Change, (∀ change ∈ changes, change.Ordinary) →
      (∀ name, (table.known name).1 = some .function → (table.known name).2.1.isSome = true) →
        ∀ name,
        let after := (changes.foldl (fun table change => (change.run table).1) table).known name
        (after.1 = some .function → after.2.1.isSome = true) ∧ (after.2.2.isSome = true ↔
          (table.known name).2.2.isSome = true ∨ ∃ change ∈ changes, change.GivesBody name) :=
  ⟨fun _ => Change.known_run hTable, fun changes => Change.parts_foldl changes hTable⟩

theorem define_parts_refused :
    let table : Table := { names := [(paramsName, .record), (bodiesName, .record)] }
    (define "#define F(a,b) #a ## b" table).2 = .error .missingPart ∧
      (define "#define F(a,b) #a ## b" table).1.known "F" =
        (some .function, some (.names ["a", "b"]), none) := by
  have hParts := (define_parts { names := [(paramsName, .record), (bodiesName, .record)] }
    ⟨rfl, rfl⟩).1 (.define "#define F(a,b) #a ## b") ⟨by decide +kernel, by decide +kernel⟩
  exact ⟨(hParts.1 (none, none, none)).trans (by decide +kernel),
    (hParts.2 "F").trans (by decide +kernel)⟩

end Macro

end CHeader
