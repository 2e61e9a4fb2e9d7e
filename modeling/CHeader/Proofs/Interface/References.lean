import CHeader.Interface.Restore
import CHeader.Proofs.Interface.NameSpaces

/-
  References to names of an interface.

  A type is saved as a reference with the number of pointers that it has more than what its name
  stands for. The reference is restored as so many pointers to what the name stands for. If the
  named type has more pointers the number is negative, and restoring does not come to an end.

  Main declarations:
    * `TypeTable.eq_iterate_of_pointedType`
    * `Saving.reference?_of_pointedType`
    * `Work.restoreItem_of_reference`
-/

namespace CHeader

open Step

variable {type core : CType} {above : Nat} {name : String}

/- A type is its pointers on top of what it points to in the end. -/
theorem TypeTable.eq_iterate_of_pointedType {table : TypeTable}
    (hPointed : table.pointedType type = .ok (above, some core)) :
    type = CType.pointer^[above] core := by
  induction type generalizing above with
  | pointer target ih =>
    rw [pointedType, Fault.bind_eq_ok_iff] at hPointed
    obtain ⟨⟨depth, inner⟩, hTarget, hPure⟩ := hPointed
    cases hPure
    rw [Function.iterate_succ_apply', ← ih hTarget]
  | scalar kind =>
    cases kind <;> cases hPointed <;> rfl
  | _ =>
    rw [pointedType] at hPointed
    · split_ifs at hPointed
      cases hPointed
      rfl
    all_goals simp

/- What points to a type that is no array is referred to by its name if that is known. -/
theorem Saving.reference?_of_pointedType {saving : Saving} {named : CType} {inner : Option CType}
    {own : Nat} (hType : saving.types.pointedType type = .ok (above, some core))
    (hCore : ∀ item count, core ≠ .array item count) (hName : name ∈ saving.names)
    (hItem : saving.item name = .ok (.type named))
    (hNamed : saving.types.pointedType named = .ok (own, inner)) :
    saving.reference? (.type type) name = .ok (some (tagged "ref" [("name", .text name),
        ("pointers", .int ((above : Int) - own))])) := by
  have hHere : saving.types.pointed (.type type) = _ := hType
  have hThere : saving.types.pointed (.type named) = _ := hNamed
  unfold reference?
  rw [hHere]
  cases core with
  | array item count => exact absurd rfl (hCore item count)
  | _ =>
    simp only [Fault.ok_bind, List.contains_eq_mem, hName,
      hItem, hThere]
    rfl

namespace Work

variable {value : Value}

theorem entryOf_of_find? (hFind : Value.find? entries name = some value) :
    entryOf entries name = pure ⟨value, Value.sizeOf_find?_lt hFind⟩ := by
  unfold entryOf
  split
  · rename_i found hFound
    cases hFound.symm.trans hFind
    rfl
  · rename_i hNone
    rw [hNone] at hFind
    cases hFind

theorem pointers_pointerTo (hType : type ≠ .ellipsis) (count : Nat) :
    pointers pointerTo count (.type type) = .ok (.type (CType.pointer^[count] type)) := by
  induction count generalizing type with
  | zero => rfl
  | succ count ih =>
    have hTo : pointerTo (.type type) = .ok (.type (.pointer type)) := by
      cases type with
      | ellipsis => exact absurd rfl hType
      | _ => rfl
    rw [pointers, hTo]
    exact ih (by simp)

/- A reference to a name that is there puts its pointers on top of what the name stands for. -/
theorem exec_restoreItem_reference (hFree : work.iface.exported? name = none)
    (hPlain : work.iface.plain? name = some value) (unit : Option Entries) (left : Nat)
    (key : Option String) (count : Int) :
    exec (restoreItem unit left key (Saving.tagged "ref"
        [("name", .text name), ("pointers", .int count)])) work = (if count < 0 then .error .endless
        else pointers pointerTo count.toNat value, work) := by
  have hItem := Workspace.exec_item_of_unexported hFree hPlain
  have hPart : exec (hasPart name) work = (.ok true, work) := by
    rw [hasPart, exec_bind_of_ok _ (Workspace.exec_item?_of_unexported hFree hPlain)]
    simp
  unfold Saving.tagged
  rw [restoreItem, entryOf_of_find? rfl, pure_bind]
  split
  case h_5 =>
    rw [entryOf_of_find? rfl, pure_bind]
    change exec (pure name >>= _) work = _
    rw [pure_bind, exec_bind_of_ok _ hPart, if_pos rfl,
      exec_bind_of_ok _ hItem, entryOf_of_find? rfl, pure_bind]
    dsimp only [pointerCount]
    split_ifs
    · rfl
    · rw [pure_bind, exec_lift]
  case h_6 =>
    rename_i hNot hWord
    cases hWord
    exact absurd rfl hNot
  case h_7 =>
    rename_i hNot
    exact absurd rfl (hNot _)
  all_goals
    rename_i hWord
    exact absurd (Value.text.inj hWord) (by decide)

/-
  A type is restored from a reference exactly if it has no fewer pointers than what its name stands
  for. It is then the named type with the missing pointers, which is the type itself if both point
  to the same in the end.
-/
theorem restoreItem_of_reference
    (saving : Saving)
    (work : Workspace)
    (type core named : CType)
    (inner : Option CType)
    (above own : Nat)
    (name : String)
    (hType :
      saving.types.pointedType type = .ok (above, some core))
    (hCore : ∀ item count, core ≠ .array item count)
    (hName : name ∈ saving.names)
    (hItem : saving.item name = .ok (.type named))
    (hNamed : saving.types.pointedType named = .ok (own, inner))
    (hThing : named ≠ .ellipsis)
    (hFree : work.iface.exported? name = none)
    (hPlain : work.iface.plain? name = some (.type named)) :
    ∃ data,
      saving.reference? (.type type) name = .ok (some data) ∧
        (own ≤ above →
          ∃ made,
            (∀ unit left key,
              exec (restoreItem unit left key data) work =
                (.ok (.type made), work)) ∧
              made = CType.pointer^[above - own] named ∧
              (inner = some core → made = type)) ∧
        (above < own →
          ∀ unit left key,
            exec (restoreItem unit left key data) work =
              (.error .endless, work)) := by
  refine ⟨_, Saving.reference?_of_pointedType hType hCore hName hItem hNamed, ?_, ?_⟩
  · intro hOwn
    refine ⟨_, fun unit left key => ?_, rfl, ?_⟩
    · rw [exec_restoreItem_reference hFree hPlain, if_neg (by omega),
        pointers_pointerTo hThing, Int.toNat_sub]
    · rintro rfl
      rw [TypeTable.eq_iterate_of_pointedType hType, TypeTable.eq_iterate_of_pointedType hNamed,
        ← Function.iterate_add_apply, Nat.sub_add_cancel hOwn]
  · intro hOwn unit left key
    rw [exec_restoreItem_reference hFree hPlain, if_pos (by omega)]

/- A workspace with the name `P` for pointers to numbers. -/
def pointerWorkspace : Workspace :=
  { iface := { entries := [("P", .type (.pointer (.scalar .int)))] } }

def pointerSaving : Saving where
  types := pointerWorkspace.heap.types
  names := ["P"]
  item := fun _ => .ok (.type (.pointer (.scalar .int)))

theorem restoreItem_of_reference_twofold :
    ∃ data,
      pointerSaving.reference?
          (.type (.pointer (.pointer (.scalar .int)))) "P" =
        .ok (some data) ∧
        exec (restoreItem none 0 none data) pointerWorkspace =
          (.ok (.type (.pointer (.pointer (.scalar .int)))),
            pointerWorkspace) := by
  obtain ⟨data, hData, hMade, -⟩ := restoreItem_of_reference pointerSaving pointerWorkspace
      (.pointer (.pointer (.scalar .int))) (.scalar .int)
      (.pointer (.scalar .int)) (some (.scalar .int)) 2 1 "P" rfl
      (by simp) (by decide) rfl rfl (by simp) rfl rfl
  obtain ⟨_, hExec, -, hSame⟩ := hMade (by decide)
  exact ⟨data, hData, hSame rfl ▸ hExec none 0 none⟩

end Work

end CHeader
