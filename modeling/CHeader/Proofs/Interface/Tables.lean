import CHeader.Interface.Names
import CHeader.Proofs.Macro.Table

/-
  Laws of the tables of an interface.

  A table of tags holds each tag once, and setting a tag
  changes what it stands for and nothing else.

  Main declarations:
    * `TagTable.find?_put`
    * `TagTable.nodup_put`
    * `Interface.plain?_of_not_part`
-/

namespace CHeader

open List

-- Tables of tags

namespace TagTable

variable {table : TagTable} {tag other : Option String} {value : Value}

theorem put_of_not_any (hNew : List.any table (fun entry => entry.1 = tag) = false) :
    table.put tag value = table ++ [(tag, value)] := by
  unfold put
  rw [hNew]
  rfl

theorem put_of_any (hOld : List.any table (fun entry => entry.1 = tag) = true) :
    table.put tag value = List.map (fun entry =>
        if entry.1 = tag then (tag, value) else entry)
        table := by
  unfold put
  rw [hOld]
  rfl

theorem find?_eq_none_iff : table.find? tag = none ↔
    List.any table (fun entry => entry.1 = tag) = false := by
  unfold find?
  rw [Option.map_eq_none_iff, find?_eq_none, any_eq_false]

theorem find?_put : (table.put tag value).find? other =
    if tag = other then some value else table.find? other := by
  cases hAny : List.any table (fun entry => entry.1 = tag) with
  | false =>
    have hNone := find?_eq_none_iff.2 hAny
    rw [put_of_not_any hAny]
    unfold find? at hNone ⊢
    rw [Option.map_eq_none_iff] at hNone
    by_cases hSame : tag = other
    · subst hSame
      simp [hNone]
    · simp [hSame]
  | true =>
    have hKeys : (fun entry : Option String × Value =>
        decide (entry.1 = other)) ∘ (fun entry =>
        if entry.1 = tag then (tag, value) else entry) =
          fun entry => decide (entry.1 = other) := by
      funext entry
      by_cases hEntry : entry.1 = tag
      · simp [hEntry]
      · simp [hEntry]
    rw [put_of_any hAny]
    unfold find?
    rw [find?_map, hKeys, Option.map_map]
    by_cases hSame : tag = other
    · subst hSame
      obtain ⟨entry, hMem, hEntry⟩ := any_eq_true.1 hAny
      cases hFind : List.find? (fun entry => decide (entry.1 = tag)) table with
      | none =>
        exact absurd hEntry (find?_eq_none.1 hFind entry hMem)
      | some found =>
        have hFound := find?_some hFind
        rw [decide_eq_true_eq] at hFound
        simp [hFound]
    · rw [if_neg hSame]
      refine Option.map_congr fun entry hEntry => ?_
      have hFound := find?_some hEntry
      rw [decide_eq_true_eq] at hFound
      have hNot : ¬ entry.1 = tag := by
        rw [hFound]
        exact fun hEq => hSame hEq.symm
      simp [hNot]

theorem mem_of_find? (hFind : table.find? tag = some value) : (tag, value) ∈ table := by
  obtain ⟨entry, hEntry, rfl⟩ := Option.map_eq_some_iff.1 hFind
  have hTag := find?_some hEntry
  have hMem := mem_of_find?_eq_some hEntry
  rw [decide_eq_true_eq] at hTag
  exact hTag ▸ hMem

/- What is in a table is what its tag stands for, if no tag is there twice. -/
theorem find?_of_mem (hNodup : (table.map Prod.fst).Nodup) (hMem : (tag, value) ∈ table) :
    table.find? tag = some value := by
  induction table with
  | nil => cases hMem
  | cons entry rest ih =>
    rw [map_cons, nodup_cons] at hNodup
    unfold find?
    rcases mem_cons.1 hMem with rfl | hRest
    · simp
    · have hOther : ¬ entry.1 = tag := by
        rintro rfl
        exact hNodup.1 (mem_map.2 ⟨_, hRest, rfl⟩)
      rw [find?_cons_of_neg (by simpa using hOther)]
      exact ih hNodup.2 hRest

theorem nodup_put (hNodup : (table.map Prod.fst).Nodup) :
    ((table.put tag value).map Prod.fst).Nodup := by
  cases hAny : List.any table (fun entry => entry.1 = tag) with
  | false =>
    rw [put_of_not_any hAny, map_append, nodup_append]
    refine ⟨hNodup, nodup_singleton _, ?_⟩
    rintro key hKey last hLast rfl
    rw [any_eq_false] at hAny
    obtain ⟨entry, hEntry, rfl⟩ := mem_map.1 hKey
    exact hAny entry hEntry (decide_eq_true (mem_singleton.1 hLast))
  | true =>
    have hKeys : (table.put tag value).map Prod.fst = table.map Prod.fst := by
      rw [put_of_any hAny, map_map]
      refine map_congr_left fun entry _ => ?_
      by_cases hEntry : entry.1 = tag
      · simp [hEntry]
      · simp [hEntry]
    rw [hKeys]
    exact hNodup

/- What is in a table after a tag was set. -/
theorem mem_put (hMem : entry ∈ table.put tag value) : entry = (tag, value) ∨ entry ∈ table := by
  cases hAny : List.any table (fun entry => entry.1 = tag) with
  | false =>
    rw [put_of_not_any hAny, mem_append, mem_singleton] at hMem
    exact hMem.symm
  | true =>
    rw [put_of_any hAny, mem_map] at hMem
    obtain ⟨old, hOld, rfl⟩ := hMem
    by_cases hEntry : old.1 = tag
    · exact .inl (if_pos hEntry)
    · rw [if_neg hEntry]
      exact .inr hOld

end TagTable

-- Parts of interfaces

namespace Interface

def partNames : List String := [exportedName, librariesName, "struct", "union", "enum"]

def table (iface : Interface) : RecordKind → TagTable
| .struct => iface.structs.getD []
| .union => iface.unions.getD []

theorem plain?_of_not_part (iface : Interface) (hName : name ∉ partNames) :
    iface.plain? name = Macro.lookup iface.entries name := by
  simp only [partNames, mem_cons, not_mem_nil, or_false, not_or] at hName
  obtain ⟨hExported, hLibraries, hStruct, hUnion, hEnum⟩ := hName
  unfold plain?
  rw [if_neg hExported, if_neg hLibraries]
  split
  · exact absurd rfl hStruct
  · exact absurd rfl hUnion
  · exact absurd rfl hEnum
  · rfl

end Interface

namespace Work

theorem setPlain_of_not_part (hName : name ∉ Interface.partNames) (value : Value) :
    setPlain name value = modifyIface (fun iface =>
        { iface with
          entries := Macro.assign name value iface.entries }) := by
  simp only [Interface.partNames, mem_cons, not_mem_nil, or_false, not_or] at hName
  obtain ⟨-, -, hStruct, hUnion, hEnum⟩ := hName
  unfold setPlain
  split
  · exact absurd rfl hStruct
  · exact absurd rfl hUnion
  · exact absurd rfl hEnum
  · exact absurd rfl hStruct
  · exact absurd rfl hUnion
  · exact absurd rfl hEnum
  · rfl

end Work

end CHeader
