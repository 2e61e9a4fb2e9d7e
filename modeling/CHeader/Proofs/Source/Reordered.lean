import CHeader.Proofs.Source.Compositional
import CHeader.Source.MacroValues

/-
  Values of macros under another order of their names.

  How a line expands does not depend on the order in which macros were defined. The value of a name
  that expands to the name of another macro is that of the other one only if that comes before it.
  So the values are the same in two orders in which the same names come before their aliases.

  Main declarations:
    * `Source.Agrees`
    * `Source.Reordered.compositional_agrees`
    * `Source.macroValues_reordered`
-/

namespace CHeader

open List hiding lookup

namespace Source

open Macro

open Macro (SameContents lookup)

variable {first second final : Session} {name : String} {meaning : Meaning}

-- Runs that agree

structure Reordered (first second : Session) : Prop where
  macros : SameContents first.table second.table
  reader : first.reader = second.reader
  dry : ∃ fault, exec nextLine first = (.error fault, first) ∧
      exec nextLine second = (.error fault, second)

def Agrees (first second : Session) {α : Type} (run other : Run α) : Prop :=
  ∃ result, exec run first = (result, first) ∧ exec other second = (result, second)

/- The expansion of lines agrees as long as no further line was read. -/
theorem Reordered.compositional_agrees (hSame : Reordered first second) :
    Compositional fun heard run other => heard = [] → Agrees first second run other where
  mono := by
    rintro _ heard _ _ _ hMore hRun rfl
    exact hRun (subset_nil.1 hMore)
  pure := fun a _ => ⟨.ok a, rfl, rfl⟩
  throw := fun fault _ => ⟨.error fault, rfl, rfl⟩
  bind := by
    intro _ _ _ _ _ rest more hRun hRest hHeard
    obtain ⟨result, hFirst, hSecond⟩ := hRun hHeard
    unfold Agrees
    rw [exec_bind, exec_bind, hFirst, hSecond]
    cases result with
    | error fault => exact ⟨_, rfl, rfl⟩
    | ok a => exact hRest a hHeard
  getTable := by
    intro _ _ rest more hRest hHeard
    exact hRest _ _ hSame.macros hHeard
  nextLine := by
    intro _ _ rest more _ _
    obtain ⟨fault, hFirst, hSecond⟩ := hSame.dry
    refine ⟨.error fault, ?_, ?_⟩
    · rw [exec_bind, hFirst]
    · rw [exec_bind, hSecond]
  bounded := by
    intro _ _ run other hRun _ hHeard
    have hLeft : ∃ count, exec linesLeft first = (.ok count, first) ∧
        exec linesLeft second = (.ok count, second) := by
      simp only [linesLeft, exec_bind, exec_get, hSame.reader]
      cases second.reader with
      | none => exact ⟨0, rfl, rfl⟩
      | some reader => exact ⟨_, rfl, rfl⟩
    obtain ⟨count, hFirst, hSecond⟩ := hLeft
    unfold Agrees
    rw [exec_bind, exec_bind, hFirst, hSecond]
    exact hRun _ hHeard

theorem Reordered.agrees_expandLine (hSame : Reordered first second) (line : String) :
    Agrees first second (expandLine limit line) (expandLine limit line) :=
  @Compositional.expandLine _ hSame.compositional_agrees [] (processLine limit) (processLine limit)
    (fun _ _ h hHeard => by simp [hHeard] at h) _ line rfl

-- Values in an order

/- The expansion from which the value of a macro is taken. -/
def valueText (limit : Nat) (name : String) : Meaning → Run String
| .function => do
    let params ← lift ((← getTable).params! name)
    expandLine limit (name ++ "(" ++ Text.joinWith ", " params.toList ++ ")")
| _ => expandLine limit name

/- The value of a macro by its expansion, and by the value of
  the macro that the expansion names if that is known. -/
def valueBy (meaning : Meaning) (text : String) (named : Option Expr.Operand) : Expr.Operand :=
  match meaning, named, Expr.valueOfText text with
  | .function, _, _ => .text text
  | _, some value, _ => value
  | _, none, .ok value => value
  | _, none, .error _ => .text text

theorem macroValue_eq (values : List (String × Expr.Operand)) (name : String) (meaning : Meaning) :
    macroValue limit values name meaning =
      (fun text => valueBy meaning text (lookup values text)) <$> valueText limit name meaning := by
  rw [map_eq_pure_bind]
  cases meaning with
  | function => simp [macroValue, valueText, valueBy]
  | record | text =>
    refine bind_congr fun text => ?_
    cases lookup values text with
    | some value => rfl
    | none => cases hValue : Expr.valueOfText text <;> simp [valueBy, hValue]

section

variable {session : Session} {values : List (String × Expr.Operand)}
variable {out : List (String × Expr.Operand)} {names : List (String × Meaning)}

/- The name of a hidden entry gets no value, that of another one gets its own. -/
theorem exec_macroValuesFrom_cons
    (hStill : ∀ line, (exec (expandLine limit line) session).2 = session)
    (hRun : exec (macroValuesFrom limit values ((name, meaning) :: names)) session =
      (.ok out, final)) :
    ∃ next, exec (macroValuesFrom limit next names) session = (.ok out, final) ∧
        (∀ other, (other = name → Table.isHidden name) → lookup next other = lookup values other) ∧
        (Table.isHidden name = false → ∃ text, exec (valueText limit name meaning) session =
            (.ok text, session) ∧
              lookup next name = some (valueBy meaning text (lookup values text))) := by
  have hText : (exec (valueText limit name meaning) session).2 = session := by
    cases meaning with
    | record | text => exact hStill _
    | function =>
      rw [valueText, exec_bind_getTable]
      rw [exec_bind, exec_lift]
      cases session.table.params! name with
      | error fault => rfl
      | ok params => exact hStill _
  rw [macroValuesFrom] at hRun
  split_ifs at hRun with hHidden
  · exact ⟨values, hRun, fun _ _ => rfl, by simp [hHidden]⟩
  · rw [macroValue_eq, exec_bind, exec_map, hText] at hRun
    cases hExec : (exec (valueText limit name meaning) session).1 with
    | error fault => simp [hExec, Except.map] at hRun
    | ok text =>
      refine ⟨_, by simpa [hExec, Except.map] using hRun, ?_, ?_⟩
      · intro other hOther
        rw [lookup_assign, if_neg]
        rintro rfl
        exact hHidden (hOther rfl)
      · refine fun _ => ⟨text, Prod.ext hExec hText, ?_⟩
        rw [lookup_assign, if_pos rfl]

/-
  What a run over entries adds: the value of each open name by its expansion and by the value of the
  name that the expansion spells if that comes before.
-/
theorem lookup_macroValuesFrom (hStill : ∀ line, (exec (expandLine limit line) session).2 = session)
    (hNodup : (names.map Prod.fst).Nodup)
    (hRun : exec (macroValuesFrom limit values names) session = (.ok out, final)) :
    (∀ name, (name ∈ names.map Prod.fst → Table.isHidden name) →
        lookup out name = lookup values name) ∧
      ∀ before name meaning after, names = before ++ (name, meaning) :: after →
        Table.isHidden name = false → ∃ text, exec (valueText limit name meaning) session =
            (.ok text, session) ∧
              lookup out name = some (valueBy meaning text (if text ∈ before.map Prod.fst then
                  lookup out text
                  else lookup values text)) := by
  induction names generalizing values with
  | nil =>
    cases hRun
    exact ⟨fun _ _ => rfl, by simp⟩
  | cons entry names ih =>
    rw [map_cons, nodup_cons] at hNodup
    obtain ⟨next, hNext, hOther, hKey⟩ := exec_macroValuesFrom_cons hStill hRun
    obtain ⟨hOld, hNew⟩ := ih hNodup.2 hNext
    refine ⟨?_, ?_⟩
    · intro name hName
      rw [hOld name fun hMem => hName (mem_cons_of_mem _ hMem),
        hOther name fun hEq => hEq ▸ hName (hEq ▸ mem_cons_self)]
    · have hHead : lookup out entry.1 = lookup next entry.1 :=
        hOld entry.1 fun hMem => absurd hMem hNodup.1
      intro before name meaning after hNames hOpen
      cases before with
      | nil =>
        cases hNames
        obtain ⟨text, hText, hValue⟩ := hKey hOpen
        exact ⟨text, hText, by simpa [hHead] using hValue⟩
      | cons head before =>
        obtain ⟨rfl, rfl⟩ := hNames
        obtain ⟨text, hText, hValue⟩ := hNew _ _ _ _ rfl hOpen
        refine ⟨text, hText, hValue.trans ?_⟩
        by_cases hIn : text ∈ before.map Prod.fst
        · simp [hIn]
        · by_cases hText : text = entry.1
          · simp [hText, hHead]
          · simp [hIn, hText, hOther text fun hEq => absurd hEq hText]

end

-- Orders of names

/- Whether a name comes before another one in a table. -/
def Precedes (table : Table) (name other : String) : Prop :=
  (table.names.map Prod.fst).idxOf name < (table.names.map Prod.fst).idxOf other

instance (table : Table) (name other : String) : Decidable (Precedes table name other) :=
  inferInstanceAs (Decidable (_ < _))

theorem precedes_iff {table : Table} {before after : List (String × Meaning)}
    (hNodup : (table.names.map Prod.fst).Nodup)
    (hNames : table.names = before ++ (other, meaning) :: after) :
    Precedes table name other ↔ name ∈ before.map Prod.fst := by
  rw [hNames, map_append, map_cons] at hNodup
  rw [Precedes, hNames, map_append, map_cons]
  have hOther : other ∉ before.map Prod.fst := fun hMem =>
    (nodup_append.1 hNodup).2.2 _ hMem _ mem_cons_self rfl
  rw [idxOf_append_of_notMem hOther, idxOf_cons_self]
  by_cases hName : name ∈ before.map Prod.fst
  · have hLess := idxOf_lt_length_of_mem hName
    simp only [hName, iff_true, idxOf_append_of_mem hName]
    omega
  · simp only [hName, iff_false, idxOf_append_of_notMem hName]
    omega

theorem Reordered.agrees_valueText
    (hSame : Reordered first second) (limit : Nat) (name : String) (meaning : Meaning) :
    Agrees first second (valueText limit name meaning) (valueText limit name meaning) := by
  cases meaning with
  | record | text => exact hSame.agrees_expandLine _
  | function =>
    have hRel := hSame.compositional_agrees
    refine @Compositional.getTable _ hRel _ [] _ _ (fun _ _ hAlike => ?_) rfl
    rw [hAlike.params!]
    exact @Compositional.bind _ hRel _ _ [] _ _ _ _ (@Compositional.lift _ hRel [] _ _)
      fun _ _ => hSame.agrees_expandLine _

/-
  Whether values are those of the macros of a session in their order. Each is taken from the
  expansion of its name, or it is that of the macro that the expansion spells if that comes before.
-/
structure Valued (limit : Nat) (session : Session) (values : List (String × Expr.Operand)) :
    Prop where
  only : ∀ name, (∀ meaning, session.table.find? name = some meaning → Table.isHidden name) →
      lookup values name = none
  value : ∀ name meaning, session.table.find? name = some meaning →
      Table.isHidden name = false → ∃ text,
          exec (valueText limit name meaning) session = (.ok text, session) ∧
            lookup values name = some (valueBy meaning text
                (if Precedes session.table text name then
                  lookup values text
                else none))

section

variable {session : Session} {values : List (String × Expr.Operand)}
variable (hNodup : (session.table.names.map Prod.fst).Nodup)

include hNodup

theorem valued_of_exec (hStill : ∀ line, (exec (expandLine limit line) session).2 = session)
    (hRun : exec (macroValues limit) session = (.ok values, final)) :
    Valued limit session values := by
  obtain ⟨hOld, hNew⟩ := lookup_macroValuesFrom hStill hNodup hRun
  refine ⟨fun name hName => hOld name fun hMem => ?_, ?_⟩
  · obtain ⟨⟨_, meaning⟩, hPair, rfl⟩ := mem_map.1 hMem
    exact hName meaning (lookup_of_mem hNodup hPair)
  intro name meaning hFind hOpen
  obtain ⟨before, after, hNames⟩ := append_of_mem (mem_of_lookup hFind)
  obtain ⟨text, hText, hValue⟩ := hNew _ _ _ _ hNames hOpen
  refine ⟨text, hText, hValue.trans ?_⟩
  simp only [precedes_iff hNodup hNames]
  rfl

/- The run over the rest of the names adds their values. -/
theorem Valued.exec_macroValuesFrom (hValued : Valued limit session values)
    (before rest : List (String × Meaning)) (hNames : session.table.names = before ++ rest)
    {done : List (String × Expr.Operand)} (hDone : ∀ name, lookup done name =
        if name ∈ before.map Prod.fst then lookup values name
        else none) :
    ∃ others, exec (macroValuesFrom limit done rest) session = (.ok others, session) ∧
        ∀ name, lookup others name = lookup values name := by
  induction rest generalizing before done with
  | nil =>
    refine ⟨done, rfl, fun name => ?_⟩
    rw [append_nil] at hNames
    rw [hDone]
    split_ifs with hMem
    · rfl
    · refine (hValued.only name fun meaning hFind => ?_).symm
      have hIn := mem_map_of_mem (f := Prod.fst) (mem_of_lookup hFind)
      exact absurd (hNames ▸ hIn) hMem
  | cons entry rest ih =>
    obtain ⟨name, meaning⟩ := entry
    have hFind : session.table.find? name = some meaning :=
      lookup_of_mem hNodup (by simp [hNames])
    have hNew : name ∉ before.map Prod.fst := fun hMem =>
      Nat.lt_irrefl _ ((precedes_iff hNodup hNames).2 hMem)
    have hNext : ∀ next, lookup next name = lookup values name →
        (∀ other ≠ name, lookup next other = lookup done other) →
        ∃ others, exec (macroValuesFrom limit next rest) session = (.ok others, session) ∧
            ∀ name, lookup others name = lookup values name := by
      intro next hHere hOther
      refine ih (before ++ [(name, meaning)]) (by simp [hNames]) fun other => ?_
      by_cases hName : other = name
      · simp [hName, hHere]
      · simp only [map_append, mem_append, map_cons,
          map_nil, mem_singleton, hName, or_false, hOther other hName, hDone]
    rw [macroValuesFrom]
    split_ifs with hHidden
    · refine hNext done ?_ fun _ _ => rfl
      rw [hDone, if_neg hNew, hValued.only name fun _ _ => hHidden]
    · obtain ⟨text, hText, hValue⟩ := hValued.value name meaning hFind (by simpa using hHidden)
      rw [macroValue_eq, exec_bind, exec_map, hText]
      refine hNext _ ?_ fun other hOther => ?_
      · simp only [hValue, precedes_iff hNodup hNames, hDone]
        exact lookup_assign _ _ _ _ |>.trans (if_pos rfl)
      · exact lookup_assign _ _ _ _ |>.trans (if_neg hOther.symm)

end

/- In two orders in which the same macros come before their aliases all values are the same. -/
theorem macroValues_reordered
    (limit : Nat)
    (first second : Session)
    (hSame : Reordered first second)
    (hFirst : (first.table.names.map Prod.fst).Nodup)
    (hSecond : (second.table.names.map Prod.fst).Nodup)
    (hAliases :
      ∀ name meaning other,
        first.table.find? name = some meaning →
        meaning ≠ .function →
        exec (expandLine limit name) first = (.ok other, first) →
          (Precedes first.table other name ↔
            Precedes second.table other name))
    (values : List (String × Expr.Operand))
    (hValues : exec (macroValues limit) first = (.ok values, first)) :
    Valued limit first values ∧
      ∃ others,
        exec (macroValues limit) second = (.ok others, second) ∧
          ∀ name, lookup others name = lookup values name := by
  have hValued : Valued limit first values := by
    refine valued_of_exec hFirst (fun line => ?_) hValues
    obtain ⟨_, hExec, -⟩ := hSame.agrees_expandLine line
    rw [hExec]
  have hAgain : Valued limit second values := by
    refine ⟨hSame.macros.find? ▸ hValued.only, ?_⟩
    intro name meaning hFind hOpen
    rw [← hSame.macros.find?] at hFind
    obtain ⟨text, hText, hValue⟩ := hValued.value name meaning hFind hOpen
    obtain ⟨_, hHere, hThere⟩ := hSame.agrees_valueText limit name meaning
    cases hText.symm.trans hHere
    refine ⟨text, hThere, hValue.trans ?_⟩
    cases meaning with
    | function => rfl
    | record | text =>
      simp only [hAliases name _ text hFind (by simp) hText]
  exact ⟨hValued, hAgain.exec_macroValuesFrom hSecond [] _ rfl fun _ => rfl⟩

/- A name for a number and a name for the first one. -/
def numberTable : Table := { names := [("A", .text "1"), ("B", .text "A")] }

/- The names in the other order. -/
def reversedTable : Table := { names := [("B", .text "A"), ("A", .text "1")] }

theorem macroValues_reordered_number :
    ∃ values others,
      exec (macroValues 3) { table := numberTable } =
          (.ok values, { table := numberTable }) ∧
        exec (macroValues 3) { table := reversedTable } =
          (.ok others, { table := reversedTable }) ∧
        ∀ name, lookup others name = lookup values name := by
  have hValues : exec (macroValues 3) { table := numberTable } =
      (.ok [("A", .int 1), ("B", .int 1)], { table := numberTable }) := by
    decide +kernel
  have hLines : ∀ name ∈ numberTable.names.map Prod.fst,
      exec (expandLine 3 name) { table := numberTable } =
        (.ok "1", { table := numberTable }) := by
    decide +kernel
  refine ⟨_, (macroValues_reordered 3 { table := numberTable }
    { table := reversedTable } ⟨⟨?_, rfl, rfl⟩, rfl, _, rfl, rfl⟩
    (by decide) (by decide) ?_ _ hValues).2.imp fun _ hOthers => ⟨hValues, hOthers⟩⟩
  · funext name
    by_cases hName : "A" = name
    · subst hName
      rfl
    · simp [numberTable, reversedTable, Macro.Table.find?, lookup, hName]
  · intro name meaning other hFind _ hExec
    have hName : name ∈ numberTable.names.map Prod.fst :=
      List.mem_map.2 ⟨_, Macro.mem_of_lookup hFind, rfl⟩
    cases (hLines name hName).symm.trans hExec
    clear hFind hExec
    revert name
    decide

end Source

end CHeader
