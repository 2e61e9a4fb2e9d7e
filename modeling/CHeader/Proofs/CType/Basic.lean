import Mathlib
import CHeader.CType.Basic

/-
  Types over records.

  A type is made over records that are known if all records in it are, every pointer has a target,
  and an open end stands for no target or item.

  Main declarations:
    * `CType.induct`
    * `CType.Over`
-/

namespace CHeader

namespace CType

variable {known : Nat → Prop} {type : CType}

/- Induction on types: a function type has the statement for
  its result and for each of its parameters. -/
@[induction_eliminator] theorem induct {motive : CType → Prop}
    (scalar : ∀ kind, motive (scalar kind))
    (pointer : ∀ target, motive target → motive (pointer target))
    (blankPointer : motive blankPointer)
    (array : ∀ item count, motive item → motive (array item count))
    (function : ∀ result params, (∀ type, result = some type → motive type) →
        (∀ param ∈ params, motive param) → motive (function result params))
    (record : ∀ number, motive (record number))
    (ellipsis : motive ellipsis) (type : CType) : motive type :=
  match type with
  | .scalar kind => scalar kind
  | .pointer target =>
    pointer target (induct scalar pointer blankPointer array function record ellipsis target)
  | .blankPointer => blankPointer
  | .array item count =>
    array item count (induct scalar pointer blankPointer array function record ellipsis item)
  | .function result params =>
    function result params (fun type _hType =>
        induct scalar pointer blankPointer array function
          record ellipsis type) (fun param _hParam =>
        induct scalar pointer blankPointer array function record ellipsis param)
  | .record number => record number
  | .ellipsis => ellipsis
termination_by sizeOf type
decreasing_by
  · simp
  · simp; omega
  · simp [_hType]; omega
  · have := List.sizeOf_lt_of_mem _hParam
    simp; omega

theorem beq_record_iff (type : CType) (number : Nat) :
    (type == record number) = true ↔ type = record number := by
  change same type (record number) = true ↔ _
  cases type <;> simp [same]

-- Types over known records

/- The types that are made over known records. -/
inductive Over (known : Nat → Prop) : CType → Prop where
  | scalar (kind : Scalar) : Over known (scalar kind)
  | pointer {target : CType} (hTold : target ≠ .ellipsis) (hTarget : Over known target) :
      Over known (pointer target)
  | array {item : CType} (hTold : item ≠ .ellipsis) (hItem : Over known item) (count : Nat) :
      Over known (array item count)
  | function {result : Option CType} {params : List CType}
      (hResult : ∀ type, result = some type → Over known type)
      (hParams : ∀ param ∈ params, Over known param) :
      Over known (function result params)
  | record {number : Nat} (hKnown : known number) : Over known (record number)
  | ellipsis : Over known ellipsis

theorem Over.mono {more : Nat → Prop} (hMore : ∀ number, known number → more number)
    (hOver : Over known type) : Over more type := by
  induction hOver with
  | scalar kind => exact .scalar kind
  | pointer hTold _ ih => exact .pointer hTold ih
  | array hTold _ count ih => exact .array hTold ih count
  | function _ _ ihResult ihParams =>
    exact .function ihResult ihParams
  | record hKnown => exact .record (hMore _ hKnown)
  | ellipsis => exact .ellipsis

end CType

end CHeader
