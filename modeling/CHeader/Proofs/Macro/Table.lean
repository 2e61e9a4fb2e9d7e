import Mathlib
import CHeader.Macro.Define

/-
  Laws of macro tables.

  Giving a name a meaning or taking it out changes what that name means and nothing else.

  Main declarations:
    * `Macro.lookup_assign`
    * `Macro.nodup_assign`
    * `Macro.Table.find?_set`
-/

namespace CHeader

namespace Macro

open List

-- Ordered maps

section

variable {α : Type} (name key : String) (map : List (String × α))

theorem lookup_assign (value : α) : lookup (assign name value map) key =
    if name = key then some value else lookup map key := by
  induction map with
  | nil => rfl
  | cons entry map ih =>
    rw [assign]
    by_cases hEntry : entry.1 = name
    · rw [if_pos hEntry, lookup, lookup, hEntry]
      by_cases hKey : name = key <;> simp [hKey]
    · rw [if_neg hEntry, lookup, lookup, ih]
      grind

theorem lookup_remove : lookup (remove name map) key =
    if name = key then none else lookup map key := by
  induction map with
  | nil => simp [remove, lookup]
  | cons entry map ih =>
    unfold remove at ih ⊢
    by_cases hEntry : entry.1 = name
    · rw [filter_cons_of_neg (by simpa using hEntry), ih, lookup, hEntry]
      by_cases hKey : name = key <;> simp [hKey]
    · rw [filter_cons_of_pos (by simpa using hEntry), lookup, lookup, ih]
      grind

end

section

variable {α : Type} {name : String} {value : α} {map : List (String × α)}

theorem mem_of_lookup (hLookup : lookup map name = some value) : (name, value) ∈ map := by
  induction map with
  | nil => cases hLookup
  | cons entry map ih =>
    rw [lookup] at hLookup
    split at hLookup
    · rename_i hEntry
      cases hLookup
      exact hEntry ▸ mem_cons_self
    · exact mem_cons_of_mem _ (ih hLookup)

theorem lookup_of_mem (hNodup : (map.map Prod.fst).Nodup) (hMem : (name, value) ∈ map) :
    lookup map name = some value := by
  induction map with
  | nil => cases hMem
  | cons entry map ih =>
    rw [map_cons, nodup_cons] at hNodup
    rw [lookup]
    rcases mem_cons.1 hMem with rfl | hRest
    · exact if_pos rfl
    · have hOther : ¬ entry.1 = name := by
        rintro rfl
        exact hNodup.1 (mem_map.2 ⟨_, hRest, rfl⟩)
      rw [if_neg hOther]
      exact ih hNodup.2 hRest

theorem mem_assign (hMem : entry ∈ assign name value map) :
    entry = (name, value) ∨ entry ∈ map := by
  induction map with
  | nil => exact .inl (mem_singleton.1 hMem)
  | cons first map ih =>
    rw [assign] at hMem
    split at hMem
    · rcases mem_cons.1 hMem with hFirst | hRest
      · exact .inl hFirst
      · exact .inr (mem_cons_of_mem _ hRest)
    · rcases mem_cons.1 hMem with hFirst | hRest
      · exact .inr (hFirst ▸ mem_cons_self)
      · exact (ih hRest).imp id (mem_cons_of_mem _)

theorem assign_of_not_mem (hNew : name ∉ map.map Prod.fst) :
    assign name value map = map ++ [(name, value)] := by
  induction map with
  | nil => rfl
  | cons entry map ih =>
    rw [map_cons, mem_cons, not_or] at hNew
    rw [assign, if_neg (Ne.symm hNew.1), ih hNew.2]
    rfl

theorem keys_assign_of_mem (hOld : name ∈ map.map Prod.fst) :
    (assign name value map).map Prod.fst = map.map Prod.fst := by
  induction map with
  | nil => cases hOld
  | cons entry map ih =>
    rw [assign]
    by_cases hEntry : entry.1 = name
    · rw [if_pos hEntry, map_cons, map_cons, hEntry]
    · rw [map_cons, mem_cons] at hOld
      rw [if_neg hEntry, map_cons, map_cons, ih (hOld.resolve_left (Ne.symm hEntry))]

theorem nodup_assign (hNodup : (map.map Prod.fst).Nodup) :
    ((assign name value map).map Prod.fst).Nodup := by
  by_cases hOld : name ∈ map.map Prod.fst
  · rw [keys_assign_of_mem hOld]
    exact hNodup
  · rw [assign_of_not_mem hOld, map_append, nodup_append]
    refine ⟨hNodup, nodup_singleton _, ?_⟩
    rintro key hKey last hLast rfl
    rw [mem_singleton.1 hLast] at hKey
    exact hOld hKey

theorem lookup_append (first second : List (String × α)) (key : String) :
    lookup (first ++ second) key = (lookup first key).or (lookup second key) := by
  induction first with
  | nil => rfl
  | cons entry first ih =>
    rw [cons_append, lookup, lookup, ih]
    by_cases hKey : entry.1 = key
    · rw [if_pos hKey, if_pos hKey]
      rfl
    · rw [if_neg hKey, if_neg hKey]

end

-- Tables

namespace Table

variable (table : Table) (name key : String)

theorem find?_set (meaning : Meaning) : (table.set name meaning).find? key =
    if name = key then some meaning else table.find? key :=
  lookup_assign name key table.names meaning

theorem find?_erase : (table.erase name).find? key =
    if name = key then none else table.find? key :=
  lookup_remove name key table.names

theorem find?_openRecords (hBodies : bodiesName ≠ key) (hParams : paramsName ≠ key) :
    table.openRecords.find? key = table.find? key := by
  unfold openRecords
  split
  · rfl
  · calc
      _ = ((table.set bodiesName .record).set paramsName .record).find? key := rfl
      _ = table.find? key := by
        rw [find?_set, find?_set, if_neg hParams, if_neg hBodies]

theorem checkRecord_set {name : String} (hOther : name ≠ key) (meaning : Meaning) :
    (table.set name meaning).checkRecord key = table.checkRecord key := by
  rw [checkRecord, find?_set, if_neg hOther, checkRecord]

@[simp] theorem checkRecord_setParams (params : Params) :
    (table.setParams name params).checkRecord key = table.checkRecord key := rfl

end Table

/- A table with the name of a definition, before the parts of a function are kept. -/
def Definition.named (definition : Definition) (table : Table) : Table :=
  match definition.paramText with
  | none => table.setText definition.name (String.ofList definition.body)
  | some _ => (table.set definition.name .function).openRecords

theorem find?_define_eq (table : Table) (hReads :
    Definition.ofText? (Source.Directive.operandOf line) = some definition) :
    (define line table).1.find? = (definition.named table).find? := by
  unfold define Definition.named
  rw [hReads]
  cases hParamText : definition.paramText with
  | none => simp only [hParamText]
  | some paramText =>
    simp only [hParamText]
    split
    · rfl
    · split <;> rfl

theorem Definition.find?_named (definition : Definition) (table : Table)
    (hBodies : bodiesName ≠ key) (hParams : paramsName ≠ key) :
    (definition.named table).find? key = if definition.name = key then
      some (if definition.paramText.isSome then .function else .text (String.ofList definition.body))
      else table.find? key := by
  unfold named
  split
  · next hText =>
    rw [Table.setText, Table.find?_set, hText]
    rfl
  · next hText =>
    rw [Table.find?_openRecords _ _ hBodies hParams, Table.find?_set, hText]
    rfl

/- A definition leaves all names alone but its own and those of the records. -/
theorem find?_define (table : Table) (hName : ∀ definition,
    Definition.ofText? (Source.Directive.operandOf line) =
        some definition → definition.name ≠ key) (hBodies : bodiesName ≠ key)
    (hParams : paramsName ≠ key) : (define line table).1.find? key = table.find? key := by
  cases hReads : Definition.ofText? (Source.Directive.operandOf line) with
  | none =>
    unfold define
    rw [hReads]
  | some definition =>
    rw [find?_define_eq table hReads, definition.find?_named table hBodies hParams,
      if_neg (hName definition hReads)]

theorem find?_define_ne_record (table : Table)
    (hDefinition : Definition.ofText? (Source.Directive.operandOf line) = some definition)
    (hBodies : bodiesName ≠ definition.name) (hParams : paramsName ≠ definition.name) :
    (define line table).1.find? definition.name ≠ some .record := by
  rw [find?_define_eq table hDefinition, definition.find?_named table hBodies hParams, if_pos rfl]
  split <;> nofun

end Macro

end CHeader
