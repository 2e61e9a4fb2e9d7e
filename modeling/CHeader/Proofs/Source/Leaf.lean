import CHeader.Proofs.Macro.ObjectLike
import CHeader.Proofs.Source.Reading

/-
  Lines that are no part of conditional groups.

  Two tables have the same macros if they differ at most in the line number. A leaf is a line of
  text whose expansion depends on the macros alone, or the definition or removal of a macro. It does
  the same in all sessions with the same macros.

  Main declarations:
    * `Source.SameMacros`
    * `Source.Expands`
    * `Source.expands_of_allPlain`
-/

namespace CHeader

open List hiding lookup

namespace Source

open Macro

variable {first second : Table}
variable {name line : String}

-- Tables apart from the line number

/- An entry of a table with the line number blanked. -/
def maskEntry (entry : String × Meaning) : String × Meaning :=
  if entry.1 = lineName then (entry.1, .text "") else entry

/- A table with the line number blanked. -/
def maskLine (table : Table) : Table :=
  { table with names := table.names.map maskEntry }

/- Whether two tables are the same apart from the line number. -/
def SameMacros (first second : Table) : Prop := maskLine first = maskLine second

namespace SameMacros

theorem refl (table : Table) : SameMacros table table := rfl

theorem symm (hSame : SameMacros first second) : SameMacros second first := Eq.symm hSame

theorem trans (hFirst : SameMacros first second) (hSecond : SameMacros second third) :
    SameMacros first third := Eq.trans hFirst hSecond

end SameMacros

@[simp] theorem fst_maskEntry (entry : String × Meaning) : (maskEntry entry).1 = entry.1 := by
  unfold maskEntry
  split <;> rfl

theorem maskEntry_of_ne (hOther : entry.1 ≠ lineName) : maskEntry entry = entry :=
  if_neg hOther

theorem lookup_map_maskEntry (names : List (String × Meaning)) (name : String) :
    lookup (names.map maskEntry) name = if name = lineName then
        (lookup names name).map fun _ => .text ""
      else lookup names name := by
  induction names with
  | nil => simp [lookup]
  | cons entry names ih =>
    rw [map_cons, lookup, lookup, ih]
    by_cases hEntry : entry.1 = name
    · by_cases hLine : name = lineName
      · simp [hEntry, hLine, maskEntry]
      · simp [hEntry, hLine, maskEntry]
    · simp [hEntry]

theorem find?_maskLine_of_ne (table : Table) (hOther : name ≠ lineName) :
    (maskLine table).find? name = table.find? name := by
  rw [Table.find?, maskLine, lookup_map_maskEntry, if_neg hOther]
  rfl

theorem contains_maskLine (table : Table) (name : String) :
    (maskLine table).contains name = table.contains name := by
  rw [Table.contains, Table.find?, maskLine, lookup_map_maskEntry]
  split <;> simp [Table.contains, Table.find?]

theorem SameMacros.find? (hSame : SameMacros first second) (hOther : name ≠ lineName) :
    first.find? name = second.find? name := by
  rw [← find?_maskLine_of_ne first hOther, ← find?_maskLine_of_ne second hOther, hSame]

theorem SameMacros.contains (hSame : SameMacros first second) (name : String) :
    first.contains name = second.contains name := by
  rw [← contains_maskLine first, ← contains_maskLine second, hSame]

-- Changes of a table

section

variable (table : Table) {name : String}

theorem maskLine_set (hOther : name ≠ lineName) (meaning : Meaning) :
    maskLine (table.set name meaning) = (maskLine table).set name meaning := by
  have hAssign : ∀ names : List (String × Meaning),
      (assign name meaning names).map maskEntry =
        assign name meaning (names.map maskEntry) := by
    intro names
    induction names with
    | nil => simp [assign, maskEntry_of_ne, hOther]
    | cons entry names ih =>
      rw [map_cons, assign, assign, fst_maskEntry]
      by_cases hEntry : entry.1 = name
      · simp [hEntry, maskEntry_of_ne, hOther]
      · rw [if_neg hEntry, if_neg hEntry, map_cons, ih]
        exact congrArg (· :: _) (Prod.ext (by simp) rfl)
  simp [maskLine, Table.set, hAssign]

theorem maskLine_setText_lineName (hNumber : table.contains lineName = true) :
    maskLine (table.setText lineName text) = maskLine table := by
  have hAssign : ∀ names : List (String × Meaning),
      (lookup names lineName).isSome = true → (assign lineName (.text text) names).map
          maskEntry = names.map maskEntry := by
    intro names
    induction names with
    | nil => simp [lookup]
    | cons entry names ih =>
      intro hSome
      rw [lookup] at hSome
      rw [assign]
      by_cases hEntry : entry.1 = lineName
      · simp [hEntry, maskEntry]
      · rw [if_neg hEntry] at hSome
        rw [if_neg hEntry, map_cons, map_cons, ih hSome]
  simp only [maskLine, Table.setText, Table.set, hAssign table.names hNumber]

theorem sameMacros_countLines (count : Nat) : SameMacros (countLines table count) table := by
  unfold countLines
  split
  · rename_i s hFind
    split
    · exact maskLine_setText_lineName table (by simp [Table.contains, hFind])
    · exact .refl table
  · exact .refl table

theorem maskLine_erase (name : String) : maskLine (table.erase name) =
    (maskLine table).erase name := by
  simp only [maskLine, Table.erase, remove, filter_map]
  congr 2
  apply filter_congr
  simp

theorem maskLine_openRecords : maskLine table.openRecords = (maskLine table).openRecords := by
  rw [Table.openRecords, Table.openRecords, contains_maskLine]
  split
  · rfl
  · calc
      _ = { maskLine ((table.set bodiesName .record).set paramsName .record) with
          params := [], bodies := [] } := rfl
      _ = _ := by
        rw [maskLine_set _ (by decide), maskLine_set _ (by decide)]

/- A definition does the same to a table whatever its line number is. -/
theorem maskLine_define (hName : ∀ definition, Definition.ofText? (Directive.operandOf line) =
    some definition → definition.name ≠ lineName) :
    define line (maskLine table) = (maskLine (define line table).1,
        (define line table).2) := by
  unfold define
  cases hDefinition : Definition.ofText? (Directive.operandOf line) with
  | none => rfl
  | some definition =>
    have hOther := hName definition hDefinition
    cases hParamText : definition.paramText with
    | none =>
      simp only [hParamText]
      rw [Table.setText, Table.setText, maskLine_set _ hOther]
    | some paramText =>
      simp only [hParamText]
      rw [← maskLine_set _ hOther, ← maskLine_openRecords]
      generalize (table.set definition.name .function).openRecords = named
      have hCheck : ∀ record ≠ lineName,
          (maskLine named).checkRecord record = named.checkRecord record := fun record hRecord => by
        rw [Table.checkRecord, find?_maskLine_of_ne named hRecord, Table.checkRecord]
      simp only [Table.checkRecord_setParams, hCheck paramsName (by decide),
        hCheck bodiesName (by decide)]
      split
      · rfl
      · split <;> rfl

end

theorem SameMacros.define (hSame : SameMacros first second) (hName : ∀ definition,
    Definition.ofText? (Directive.operandOf line) =
        some definition → definition.name ≠ lineName) :
    SameMacros (define line first).1 (define line second).1 ∧
      (define line first).2 = (define line second).2 := by
  have hFirst := maskLine_define first hName
  rw [show maskLine first = maskLine second from hSame, maskLine_define second hName] at hFirst
  rcases Prod.mk.inj hFirst with ⟨hTable, hResult⟩
  exact ⟨hTable.symm, hResult.symm⟩

-- Leaves

/-
  The result of expanding a line of text in every session with the given macros. The expansion
  neither reads on nor depends on the line number.
-/
def Expands (limit : Nat) (table : Table) (line : String) (result : Except Fault String) : Prop :=
  ∀ (ahead : LineStep) (session : Session), SameMacros session.table table →
      exec (Macro.expandLine limit ahead line) session = (result, session)

/-
  A line of text has such an expansion if all texts that take part in it are plain and none of them
  names the line number.
-/
theorem expands_of_allPlain (limit : Nat) (hPlain : AllPlain table line)
    (hNumber : ∀ t, Reaches table line t → lineName ∉ pieces t) :
    Expands limit table line (plainResult limit table line) := by
  intro ahead session hSame
  have hAgrees : AgreesFrom table line session.table := by
    intro t hReaches lexeme hLexeme
    apply hSame.find?
    rintro rfl
    exact hNumber t hReaches hLexeme
  have hResult : plainResult limit session.table line = plainResult limit table line := by
    rcases hAgrees.expansion ∅ with ⟨hText, hDepth⟩
    rw [plainResult, plainResult, hText, hDepth]
  rw [exec_expandLine_of_plain limit ahead session (hAgrees.allPlain hSame.contains hPlain),
    hResult]

/- Whether a name is neither the line number nor the record of the open file. -/
def Unreserved (name : String) : Prop := name ≠ lineName ∧ name ≠ readerName

def leafTable (line : String) (table : Table) : Table :=
  match Directive.ofLine? line with
  | none => table
  | some directive =>
      match directive.keyword with
      | some .define => (define line table).1
      | some .undefine => table.erase directive.argument
      | _ => table

/- The lines that are leaves of selected groups, with the text or the fault that they give. -/
inductive LeafRuns (limit : Nat) (table : Table) (line : String) :
    Except Fault String → Prop
  | text {result : Except Fault String} (hText : Directive.ofLine? line = none)
      (hExpands : Expands limit table line result) :
      LeafRuns limit table line result
  | define {directive : Directive} {result : Except Fault Unit}
      (hLine : Directive.ofLine? line = some directive)
      (hKeyword : directive.keyword = some .define)
      (hName : ∀ definition, Definition.ofText? (Directive.operandOf line) = some definition →
          Unreserved definition.name)
      (hResult : (define line table).2 = result) :
      LeafRuns limit table line (result.map fun _ => "")
  | undefine {directive : Directive} (hLine : Directive.ofLine? line = some directive)
      (hKeyword : directive.keyword = some .undefine)
      (hName : Unreserved directive.argument) :
      LeafRuns limit table line (.ok "")

namespace LeafRuns

variable {table : Table} {line : String} {result : Except Fault String}
variable {session : Session}

variable (hLeaf : LeafRuns limit table line result)
include hLeaf

/- A leaf gives its result in every session with the same macros and changes nothing but the table. -/
theorem exec_processLineWith (step : LineStep) (hSame : SameMacros session.table table) :
    exec (processLineWith limit step line) session = (result, { session with
        table := leafTable line session.table }) := by
  cases hLeaf with
  | text hText hExpands =>
    rw [processLineWith, leafTable, hText]
    exact hExpands step session hSame
  | define hLine hKeyword hName hDefine =>
    have hResult := (hSame.define fun definition hDefinition => (hName definition hDefinition).1).2
    subst hDefine
    rw [processLineWith, leafTable, hLine]
    simp only [processDirective, hKeyword, defineMacro,
      exec_bind, exec_getTable, hResult]
    cases (Macro.define line table).2 <;> rfl
  | undefine hLine hKeyword hName =>
    rw [processLineWith, leafTable, hLine]
    simp [processDirective, hKeyword, Except.map]

theorem sameMacros_leafTable (hSame : SameMacros first second) :
    SameMacros (leafTable line first) (leafTable line second) := by
  cases hLeaf with
  | text hText =>
    rw [leafTable, leafTable, hText]
    exact hSame
  | define hLine hKeyword hName =>
    rw [leafTable, leafTable, hLine]
    simp only [hKeyword]
    exact (hSame.define fun definition hDefinition => (hName definition hDefinition).1).1
  | undefine hLine hKeyword hName =>
    rw [leafTable, leafTable, hLine]
    simp only [hKeyword, SameMacros, maskLine_erase]
    rw [show maskLine first = maskLine second from hSame]

/- A leaf leaves the reserved names alone. -/
theorem find?_leafTable (current : Table)
    (hReserved : ¬ Unreserved name) (hBodies : bodiesName ≠ name) (hParams : paramsName ≠ name) :
    (leafTable line current).find? name = current.find? name := by
  have hDifferent : ∀ other, Unreserved other → other ≠ name := by
    rintro other hOther rfl
    exact hReserved hOther
  cases hLeaf with
  | text hText => rw [leafTable, hText]
  | define hLine hKeyword hName =>
    rw [leafTable, hLine]
    simp only [hKeyword]
    exact find?_define current (fun definition hDefinition =>
        hDifferent _ (hName definition hDefinition))
      hBodies hParams
  | undefine hLine hKeyword hName =>
    rw [leafTable, hLine]
    simp only [hKeyword]
    rw [Table.find?_erase, if_neg (hDifferent _ hName)]

theorem reading (hReading : Reading session lines) :
    Reading { session with
        table := leafTable line session.table }
      lines := by
  apply hReading.withTable
  · exact hLeaf.find?_leafTable _ (by simp [Unreserved]) (by decide) (by decide)
  · exact hLeaf.find?_leafTable _ (by simp [Unreserved]) (by decide) (by decide)

end LeafRuns

end Source

end CHeader
