import CHeader.Proofs.CType.Table
import CHeader.Proofs.Step
import CHeader.Value.Number

/-
  What steps on the heap do to the types.

  A calm step leaves the types as they are. Reading values and writing them to memory is calm;
  repeating a type makes an array type.

  Main declarations:
    * `OnHeap.Calm`
    * `OnHeap.calm_assign`
    * `OnHeap.calm_reference`
-/

namespace CHeader

namespace OnHeap

open Step

variable {type : CType} {heap : Heap}
variable {value : Value} {count : Int} {next : Heap}

-- Calm steps

def Calm {α : Type} (step : OnHeap α) : Prop := ∀ heap, (exec step heap).2.types = heap.types

namespace Calm

variable {α : Type}

theorem pure (a : α) : Calm (Pure.pure a : OnHeap α) := fun _ => rfl

theorem throw (fault : Fault) : Calm (throw fault : OnHeap α) := fun _ => rfl

theorem lift (result : Except Fault α) : Calm (liftM result : OnHeap α) := by
  intro heap
  cases result <;> rfl

theorem bind (hFirst : Calm first) (hRest : ∀ a, Calm (rest a)) : Calm (first >>= rest) := by
  intro heap
  have hStart := hFirst heap
  rw [exec_bind]
  rcases hExec : exec first heap with ⟨fault | a, next⟩
  · rwa [hExec] at hStart
  · rw [hExec] at hStart
    exact (hRest a next).trans hStart

end Calm

theorem calm_write (address : Nat) (bytes : List UInt8) : Calm (write address bytes) := fun _ => rfl

theorem calm_store (bytes : List UInt8) : Calm (store bytes) := fun _ => rfl

theorem calm_copy (address : Nat) (object : Object) : Calm (copy address object) := fun _ => rfl

theorem calm_encodeScalar (kind : Scalar) (value : Value) : Calm (encodeScalar kind value) := by
  unfold encodeScalar
  split
  · exact .bind (fun heap => rfl) fun _ => .pure _
  · exact .lift _
  · split
    · exact .pure _
    · exact .throw _
  · exact .throw _
  · exact .pure _
  · exact .bind (calm_store _) fun _ => .pure _
  · exact .pure _
  · exact .bind (calm_store _) fun _ => .pure _
  · exact .pure _
  · split
    · exact .bind (.lift _) fun _ => .pure _
    · exact .bind (.lift _) fun _ => .pure _

theorem calm_assign (type : CType) (address : Nat)
    (value : Value) : Calm (assign type address value) := by
  unfold assign
  split
  · split
    · exact calm_copy _ _
    · split
      · split
        · exact calm_write _ _
        · exact .throw _
      · exact .throw _
  · split
    · exact .bind (calm_encodeScalar _ _) fun _ => calm_write _ _
    · exact calm_write _ _
    · exact .throw _

theorem calm_reference (object : Object) : Calm (reference object) := fun _ => rfl

theorem exec_sizeOfValue_snd (value : Value) (heap : Heap) :
    (exec (sizeOfValue value) heap).2 = heap := by
  unfold sizeOfValue
  split <;> rfl

-- Repeating

/- What is no type is repeated by arithmetic. -/
theorem exec_times_of_ne (count : Int) (hValue : ∀ type, value ≠ .type type) (heap : Heap) :
    exec (times count value) heap = (Value.binary .mul (.int count) value, heap) := by
  unfold times
  split
  · exact absurd rfl (hValue _)
  · exact absurd rfl (hValue _)
  · cases Value.binary .mul (.int count) value <;> rfl

theorem exec_extentOf (type : CType) (heap : Heap) : exec (extentOf type) heap =
    (.ok (heap.types.extent type), heap) := rfl

theorem exec_arrayOf (item : CType) (count : Nat) (heap : Heap) :
    exec (arrayOf item count) heap = (.ok (.array item count), { heap with
        types := (heap.types.makeArray item count).1 }) := by
  rw [← TypeTable.makeArray_snd]
  rfl

/- A type is repeated if the count is in range and there is room for the array. -/
theorem exec_times (count : Int) (hTold : type ≠ .ellipsis) (heap : Heap) :
    exec (times count (.type type)) heap =
      if count ≥ sizeLimit ∨ count < -(sizeLimit : Int) then (.error .overflow, heap)
      else if count < 0 then (.error .badValue, heap)
      else if count.toNat * (heap.types.extent type).size ≥ sizeLimit then (.error .overflow, heap)
      else (.ok (.type (.array type count.toNat)), { heap with
          types := (heap.types.makeArray type count.toNat).1 }) := by
  have hTimes : times count (.type type) = (do
      if count ≥ sizeLimit || count < -(sizeLimit : Int) then
        throw .overflow
      if count < 0 then throw .badValue
      let size := (← extentOf type).size
      if count.toNat * size ≥ sizeLimit then throw .overflow
      return .type (← arrayOf type count.toNat)) := by
    cases type with
    | ellipsis => exact absurd rfl hTold
    | _ => rfl
  rw [hTimes]
  by_cases hLarge : count ≥ sizeLimit ∨ count < -(sizeLimit : Int)
  · rw [if_pos hLarge, if_pos (by simpa using hLarge)]
    rfl
  · rw [if_neg hLarge, if_neg (by simpa using hLarge)]
    by_cases hNegative : count < 0
    · rw [if_pos hNegative, if_pos hNegative]
      rfl
    · rw [if_neg hNegative, if_neg hNegative]
      by_cases hRoom : count.toNat * (heap.types.extent type).size ≥ sizeLimit
      · rw [if_pos hRoom]
        rw [exec_bind_of_ok _ (exec_extentOf type heap), if_pos hRoom]
        rfl
      · rw [if_neg hRoom]
        rw [exec_bind_of_ok _ (exec_extentOf type heap), if_neg hRoom,
          exec_bind_of_ok _ (exec_arrayOf type _ heap)]
        rfl

theorem exec_times_eq_ok (hExec : exec (times count (.type type)) heap = (.ok value, next)) :
    type ≠ .ellipsis ∧ value = .type (.array type count.toNat) ∧ next = { heap with
        types := (heap.types.makeArray type count.toNat).1 } := by
  by_cases hTold : type = .ellipsis
  · subst hTold
    cases (Prod.mk.inj hExec).1
  · refine ⟨hTold, ?_⟩
    rw [exec_times count hTold] at hExec
    split at hExec
    · cases (Prod.mk.inj hExec).1
    · split at hExec
      · cases (Prod.mk.inj hExec).1
      · split at hExec
        · cases (Prod.mk.inj hExec).1
        · obtain ⟨hValue, hNext⟩ := Prod.mk.inj hExec
          exact ⟨(Except.ok.inj hValue).symm, hNext.symm⟩

theorem exec_times_eq_error (hExec : exec (times count (.type type)) heap = (.error fault, next)) :
    next = heap := by
  by_cases hTold : type = .ellipsis
  · subst hTold
    exact (Prod.mk.inj hExec).2.symm
  · rw [exec_times count hTold] at hExec
    split at hExec
    · exact (Prod.mk.inj hExec).2.symm
    · split at hExec
      · exact (Prod.mk.inj hExec).2.symm
      · split at hExec
        · exact (Prod.mk.inj hExec).2.symm
        · cases (Prod.mk.inj hExec).1

end OnHeap

end CHeader
