import CHeader.Interface.Arguments
import CHeader.Proofs.Step

/-
  Nested lists as pointers to pointers.

  A number inside lists of one item each stands for pointers on top of each other. They are built
  from the inside out, each in a block of its own, so what a pointer leads to is out of reach of the
  blocks that come later.

  Main declarations:
    * `Memory.Reaches`
    * `OnHeap.dereference`
    * `Workspace.exec_convertEach_nested`
-/

namespace CHeader

open Step Work OnHeap Bytes

def CType.pointers : Nat → CType → CType
| 0, type => type
| depth + 1, type => .pointer (pointers depth type)

/- A value inside so many lists of one item each. -/
def Value.nested : Nat → Value → Value
| 0, value => value
| depth + 1, value => .list [nested depth value]

def Value.IsNumber : Value → Prop
| .int _ | .bool _ | .real _ => True
| _ => False

def Scalar.IsNumeric (kind : Scalar) : Prop := kind.hasBits ∨ kind.isReal

-- Blocks of memory

namespace Memory

variable {memory : Memory} {bytes block : List UInt8} {address count depth : Nat}

/- A new block lies after all earlier ones, and takes up little more than its bytes. -/
theorem store_bounds (memory : Memory) (bytes : List UInt8) : memory.free ≤ (memory.store bytes).2 ∧
    (memory.store bytes).2 + bytes.length ≤ (memory.store bytes).1.free ∧
    (memory.store bytes).1.free ≤ memory.free + 16 + bytes.length := by
  simp only [store, allocate, write]
  omega

theorem read_store (memory : Memory) (bytes : List UInt8) :
    (memory.store bytes).1.read (memory.store bytes).2 bytes.length = bytes := read_write _ _ _

theorem read_store_of_le (bytes : List UInt8) (hOld : address + count ≤ memory.free) :
    (memory.store bytes).1.read address count = memory.read address count := by
  refine List.map_congr_left fun i hIndex => ?_
  have hBefore : address + i < (memory.store bytes).2 :=
    lt_of_lt_of_le (Nat.add_lt_add_left (List.mem_range.1 hIndex) address)
      (hOld.trans (store_bounds memory bytes).1)
  exact byte_write_of_lt _ bytes hBefore

/- Whether a number of pointers, the first one at an address, leads to a block of bytes. -/
def Reaches (memory : Memory) (block : List UInt8) : Nat → Nat → Prop
| 0, address =>
    address + block.length ≤ memory.free ∧ memory.read address block.length = block
| depth + 1, address =>
    address + 8 ≤ memory.free ∧ toNat (memory.read address 8) ≠ 0 ∧
      Reaches memory block depth (toNat (memory.read address 8))

namespace Reaches

theorem le_free (hReaches : memory.Reaches block depth address) : address ≤ memory.free := by
  cases depth with
  | zero => exact (Nat.le_add_right _ _).trans hReaches.1
  | succ depth => exact (Nat.le_add_right _ _).trans hReaches.1

/- A new block changes nothing of what pointers lead to. -/
theorem store (bytes : List UInt8) (hReaches : memory.Reaches block depth address) :
    (memory.store bytes).1.Reaches block depth address := by
  obtain ⟨hFirst, hSecond, -⟩ := store_bounds memory bytes
  have hFree : memory.free ≤ (memory.store bytes).1.free := by omega
  induction depth generalizing address with
  | zero => exact ⟨hReaches.1.trans hFree, (read_store_of_le bytes hReaches.1).trans hReaches.2⟩
  | succ depth ih =>
    rw [Reaches, read_store_of_le bytes hReaches.1]
    exact ⟨hReaches.1.trans hFree, hReaches.2.1, ih hReaches.2.2⟩

/- A block that holds the address of a pointer is one more pointer. -/
theorem pointer (hReaches : memory.Reaches block depth address) (hAddress : 0 < address)
    (hFree : memory.free < 2 ^ 64) :
    (memory.store (addressBytes address)).1.Reaches block (depth + 1)
      (memory.store (addressBytes address)).2 := by
  have hLength : (addressBytes address).length = 8 := length_ofNat 8 address
  have hRead := read_store memory (addressBytes address)
  have hTarget : toNat (addressBytes address) = address := by
    rw [addressBytes, toNat_ofNat]
    exact Nat.mod_eq_of_lt (hReaches.le_free.trans_lt hFree)
  have hBounds := (store_bounds memory (addressBytes address)).2.1
  rw [hLength] at hRead hBounds
  rw [Reaches, hRead, hTarget]
  exact ⟨hBounds, hAddress.ne', hReaches.store _⟩

end Reaches

end Memory

-- Objects

namespace OnHeap

variable {kind : Scalar} {value x : Value} {heap : Heap} {block : List UInt8}
variable {address depth : Nat} {type : CType}

/- The object that so many pointers lead to. -/
def dereference : Nat → Object → OnHeap Object
| 0, object => pure object
| depth + 1, object => do
    dereference depth (← contents object)

def valueOf (object : Object) : OnHeap Value := load object.type object.address

theorem fix_pointers (types : TypeTable) (kind : Scalar) (depth : Nat) :
    types.fix (.pointers depth (.scalar kind)) = types := by
  cases depth <;> rfl

theorem exec_contents (hFix : heap.types.fix type = heap.types)
    (hTarget : toNat (heap.memory.read address 8) ≠ 0) :
    exec (contents ⟨.pointer type, address⟩) heap =
      (.ok ⟨type, toNat (heap.memory.read address 8)⟩, heap) := by
  have hContents : exec (contents? ⟨.pointer type, address⟩) heap =
      (.ok (some ⟨type, toNat (heap.memory.read address 8)⟩), heap) := by
    have hFixed : exec (fix type) heap = (.ok (), heap) := by
      rw [fix, exec_modify, hFix]
    unfold contents?
    rw [exec_bind_of_ok _ (show exec (target _) heap = (.ok _, heap) from rfl), if_neg hTarget,
      exec_bind_of_ok _ hFixed]
    rfl
  exact exec_bind_of_ok _ hContents

theorem exec_dereference (heap : Heap) (kind : Scalar)
    (hReaches : heap.memory.Reaches block depth address) :
    ∃ inner, exec (dereference depth ⟨.pointers depth (.scalar kind), address⟩) heap =
        (.ok ⟨.scalar kind, inner⟩, heap) ∧ heap.memory.read inner block.length = block := by
  induction depth generalizing address with
  | zero => exact ⟨address, rfl, hReaches.2⟩
  | succ depth ih =>
    obtain ⟨inner, hExec, hBlock⟩ := ih hReaches.2.2
    refine ⟨inner, Eq.trans (exec_bind_of_ok _ ?_) hExec, hBlock⟩
    exact exec_contents (fix_pointers _ kind depth) hReaches.2.1

/- Turning a number into bytes leaves the heap as it is. -/
theorem exec_encodeScalar (hKind : kind.IsNumeric) (value : Value) (heap : Heap) :
    ∃ result, exec (encodeScalar kind value) heap = (result, heap) ∧
      ∀ block, result = .ok block → block.length = kind.size := by
  cases kind with
  | char | wideChar | charPointer | wideCharPointer | voidPointer => cases hKind <;> contradiction
  | bool =>
    refine ⟨_, rfl, ?_⟩
    rintro block ⟨⟩
    rfl
  | float | double | longDouble =>
    unfold encodeScalar
    dsimp only [Scalar.isReal]
    cases hReal : realOf value with
    | error fault => exact ⟨_, rfl, nofun⟩
    | ok x =>
      refine ⟨_, rfl, ?_⟩
      simp [encodeReal, length_ofNat, Scalar.size, Extended.ofDouble]
  | _ =>
    unfold encodeScalar
    dsimp only [Scalar.isReal]
    cases hInt : intOf value with
    | error fault => exact ⟨_, rfl, nofun⟩
    | ok n =>
      refine ⟨_, rfl, ?_⟩
      rintro block ⟨⟩
      exact length_ofNat _ _

theorem exec_decodeScalar (hKind : kind.IsNumeric) (block : List UInt8) :
    ∃ value, ∀ heap, exec (decodeScalar kind block) heap = (.ok value, heap) := by
  cases kind with
  | char | wideChar | charPointer | wideCharPointer | voidPointer => cases hKind <;> contradiction
  | _ => exact ⟨_, fun _ => rfl⟩

/- An object made of a number is a block that is read back as the value of the object. -/
theorem exec_make_scalar (hKind : kind.IsNumeric)
    (hValue : (exec (make (.scalar kind) [x] >>= valueOf) heap).1 = .ok value) :
    ∃ block, exec (make (.scalar kind) [x]) heap = (.ok ⟨.scalar kind, (heap.memory.store block).2⟩,
        { heap with memory := (heap.memory.store block).1 }) ∧
      block.length = kind.size ∧
      ∀ heap, exec (decodeScalar kind block) heap = (.ok value, heap) := by
  rcases hExec : exec (make (.scalar kind) [x] >>= valueOf) heap with ⟨result, last⟩
  rw [hExec] at hValue
  cases hValue
  obtain ⟨object, next, hMake, hLoad⟩ := exec_bind_eq_ok hExec
  obtain ⟨block, hLength, hStore⟩ : ∃ block, block.length = kind.size ∧
      exec (make (.scalar kind) [x]) heap = (.ok ⟨.scalar kind, (heap.memory.store block).2⟩,
        { heap with memory := (heap.memory.store block).1 }) := by
    unfold make at hMake ⊢
    dsimp only at hMake ⊢
    cases hSource : scalarSource kind x with
    | error fault =>
      rw [hSource] at hMake
      cases hMake
    | ok source =>
      rw [hSource] at hMake
      obtain ⟨result, hResult, hSize⟩ := exec_encodeScalar hKind source heap
      cases result with
      | error fault => cases (exec_bind_of_error _ hResult).symm.trans hMake
      | ok block =>
        refine ⟨block, hSize block rfl, (exec_bind_of_ok _ hResult).trans ?_⟩
        rw [Memory.store, hSize block rfl]
        rfl
  refine ⟨block, hStore, hLength, ?_⟩
  obtain ⟨found, hFound⟩ := exec_decodeScalar hKind block
  have hSame : exec (valueOf object) next = (.ok found, next) := by
    cases hStore.symm.trans hMake
    change exec (decodeScalar kind (Memory.read _ _ kind.size)) _ = _
    rw [← hLength, Memory.read_store, hFound]
  cases hSame.symm.trans hLoad
  exact hFound

end OnHeap

namespace Workspace

variable {kind : Scalar} {x value : Value} {work : Workspace} {block : List UInt8}
variable {memory : Memory} {address depth index : Nat}

-- Levels

theorem stripped_pointers (type : CType) (depth height : Nat) :
    stripped depth (.pointers (depth + height) type) = .ok (some (.pointers height type)) := by
  induction depth with
  | zero => rw [Nat.zero_add, stripped]
  | succ depth ih => rw [Nat.succ_add, CType.pointers, stripped, ih]

def withMemory (work : Workspace) (memory : Memory) : Workspace :=
  { work with heap := { work.heap with memory := memory } }

theorem addLevel_of_no_type (other : Nat → Value → Work Value) (index depth : Nat)
    (hValue : value.type? = none) : addLevel false other index depth value = other depth value := by
  cases value with
  | type type => cases hValue
  | _ => rfl

/- A level on top of a pointer is a pointer to it. -/
theorem exec_pointerFor_pointer (work : Workspace) (memory : Memory) (kind : Scalar)
    (depth height address : Nat) :
    exec (pointerFor (.pointers (depth + (height + 1)) (.scalar kind)) depth
        (.object ⟨.pointers (height + 1) (.scalar kind), address⟩)) (work.withMemory memory) =
      (.ok (.object ⟨.pointers (height + 2) (.scalar kind),
          (memory.store (addressBytes address)).2⟩),
        work.withMemory (memory.store (addressBytes address)).1) := by
  unfold pointerFor
  rw [stripped_pointers]
  rfl

/- Levels on top of a pointer lead to what the pointer leads to. -/
theorem exec_addLevels_pointer (work : Workspace) (kind : Scalar) (index depth height : Nat)
    (hReaches : memory.Reaches block (height + 1) address) (hAddress : 0 < address)
    (hRoom : memory.free + 32 * depth < 2 ^ 64) :
    ∃ top final, final.Reaches block (depth + (height + 1)) top ∧
      exec (addLevels (addLevel false (pointerFor (.pointers (depth + (height + 1)) (.scalar kind)))
          index) depth (.object ⟨.pointers (height + 1) (.scalar kind), address⟩))
          (work.withMemory memory) =
        (.ok (.object ⟨.pointers (depth + (height + 1)) (.scalar kind), top⟩),
          work.withMemory final) := by
  induction depth generalizing memory address height with
  | zero =>
    rw [Nat.zero_add]
    exact ⟨address, memory, hReaches, rfl⟩
  | succ depth ih =>
    have hBounds := Memory.store_bounds memory (addressBytes address)
    rw [addressBytes, length_ofNat, ← addressBytes] at hBounds
    obtain ⟨top, final, hTop, hExec⟩ := ih (height + 1)
      (hReaches.pointer hAddress (by omega))
      (hAddress.trans_le (hReaches.le_free.trans hBounds.1)) (by omega)
    rw [show depth + (height + 1 + 1) = depth + 1 + (height + 1) by omega] at hExec hTop
    refine ⟨top, final, hTop, ?_⟩
    rw [addLevels, addLevel_of_no_type _ _ _ rfl,
      exec_bind_of_ok _ (exec_pointerFor_pointer work memory kind _ _ _)]
    exact hExec

-- Lists

/- Lists of one item each only add to the depth of what is inside. -/
theorem innermost_nested (depth : Nat) (value : Value) : innermost (.nested depth value) =
    (innermost value).map fun found => (found.1 + depth, found.2) := by
  induction depth with
  | zero => cases hValue : innermost value <;> rw [Value.nested, hValue] <;> rfl
  | succ depth ih =>
    rw [Value.nested, innermost, ih]
    cases innermost value <;> rfl

theorem innermost_number (hNumber : x.IsNumber) : innermost x = .ok (0, x) ∧ x.type? = none := by
  cases x <;> first | contradiction | exact ⟨by simp [innermost], rfl⟩

/- A list becomes the pointer on top of its levels, and holds what this refers to. -/
theorem exec_convertList_nested (hNumber : x.IsNumber) (hPointer : object.type.isPointer)
    (hLevels : exec (addLevels (addLevel false other index) depth x) work =
        (.ok (.object object), next))
    (hHeld : exec (contents object) next.heap = (.ok held, next.heap)) :
    exec (convertList false other index (.nested depth x)) work = (.ok (.object object), { next with
        arguments := next.arguments.set index (.list [.object held]) }) := by
  have hOnHeap : exec (onHeap (contents object)) next = (.ok held, next) := by
    rw [exec_onHeap, hHeld]
  unfold convertList
  rw [innermost_nested, (innermost_number hNumber).1, Except.map, Nat.zero_add,
    exec_bind_of_ok _ (exec_lift work _), exec_bind_of_ok _ hLevels]
  dsimp only
  rw [if_pos hPointer, exec_bind_of_ok _ hOnHeap]
  rfl

/- All levels on top of a number lead to a block that is read as the value of the number. -/
theorem exec_addLevels_number (hKind : kind.IsNumeric) (hNumber : x.IsNumber)
    (hValue : (exec (make (.scalar kind) [x] >>= valueOf) work.heap).1 = .ok value)
    (hFree : 0 < work.heap.memory.free)
    (hRoom : work.heap.memory.free + 32 * (depth + 2) < 2 ^ 64) (index : Nat) :
    ∃ block top final, final.Reaches block (depth + 1) top ∧ block.length = kind.size ∧
      (∀ heap, exec (decodeScalar kind block) heap = (.ok value, heap)) ∧
      exec (addLevels (addLevel false (pointerFor (.pointers (depth + 1) (.scalar kind))) index)
          (depth + 1) x) work =
        (.ok (.object ⟨.pointers (depth + 1) (.scalar kind), top⟩), work.withMemory final) := by
  obtain ⟨block, hMake, hLength, hDecode⟩ := exec_make_scalar hKind hValue
  rcases hStore : work.heap.memory.store block with ⟨memory, address⟩
  have hFirst := Memory.store_bounds work.heap.memory block
  have hRead := Memory.read_store work.heap.memory block
  rw [hStore] at hMake hFirst hRead
  dsimp only at hFirst hRead
  have hSecond := Memory.store_bounds memory (addressBytes address)
  rw [addressBytes, length_ofNat, ← addressBytes] at hSecond
  have hSize : kind.size ≤ 16 := by
    cases kind <;> decide
  have hBlock : memory.Reaches block 0 address := ⟨hFirst.2.1, hRead⟩
  have hPointer := hBlock.pointer (by omega) (by omega)
  obtain ⟨top, final, hTop, hExec⟩ :=
    exec_addLevels_pointer work kind index depth 0 hPointer (by omega) (by omega)
  -- The innermost level finds no pointer left in the type and makes the object of the number.
  have hObject : exec (onHeap (make (.scalar kind) [x])) work =
      (.ok ⟨.scalar kind, address⟩, work.withMemory memory) := by
    rw [exec_onHeap, hMake]
    rfl
  have hInner : exec (pointerFor (.pointers (depth + 1) (.scalar kind)) (depth + 1) x) work =
      (.ok (.object ⟨.pointers 1 (.scalar kind), (memory.store (addressBytes address)).2⟩),
        work.withMemory (memory.store (addressBytes address)).1) := by
    have hStripped := stripped_pointers (.scalar kind) (depth + 1) 0
    unfold pointerFor
    rw [hStripped]
    exact exec_bind_of_ok _ hObject
  refine ⟨block, top, final, hTop, hLength, hDecode, ?_⟩
  rw [addLevels, addLevel_of_no_type _ _ _ (innermost_number hNumber).2, exec_bind_of_ok _ hInner]
  exact hExec

/-
  A number inside lists becomes pointers on top of each other: an object of the type that is asked
  for, from which as many steps lead to the value of the number. The list then holds what the
  pointer refers to. Lists with more than one item are refused.
-/
theorem exec_convertEach_nested
    (hKind : kind.IsNumeric)
    (hNumber : x.IsNumber)
    (hValue : (exec (OnHeap.make (.scalar kind) [x] >>= OnHeap.valueOf) work.heap).1 = .ok value)
    (hFree : 0 < work.heap.memory.free)
    (depth : Nat)
    (hRoom : work.heap.memory.free + 32 * (depth + 2) < 2 ^ 64)
    (index : Nat)
    (args : List Value)
    (types : List CType) :
    (∃ object held next,
      exec (convertEach index (.nested (depth + 1) x :: args)
          (.pointers (depth + 1) (.scalar kind) :: types)) work =
        exec (do return .object object :: (← convertEach (index + 1) args types)) next ∧
      object.type = .pointers (depth + 1) (.scalar kind) ∧
      exec (OnHeap.contents object) next.heap = (.ok held, next.heap) ∧
      next.arguments = work.arguments.set index (.list [.object held]) ∧
      exec (OnHeap.dereference (depth + 1) object >>= OnHeap.valueOf) next.heap =
        (.ok value, next.heap)) ∧
    ∀ outer type first second rest,
      exec (convertEach index (.nested outer (.list (first :: second :: rest)) :: args)
        (type :: types)) work = (.error manyItems, work) := by
  constructor
  · obtain ⟨block, top, final, hTop, hLength, hDecode, hLevels⟩ :=
      exec_addLevels_number hKind hNumber hValue hFree hRoom index
    have hHeld : exec (OnHeap.contents ⟨.pointers (depth + 1) (.scalar kind), top⟩)
        (work.withMemory final).heap = (.ok ⟨.pointers depth (.scalar kind), _⟩, _) :=
      OnHeap.exec_contents (OnHeap.fix_pointers _ kind depth) hTop.2.1
    have hConvert := exec_convertList_nested hNumber rfl hLevels hHeld
    obtain ⟨inner, hInner, hBlock⟩ := OnHeap.exec_dereference (work.withMemory final).heap kind hTop
    refine ⟨_, _, _, exec_bind_of_ok _ hConvert, rfl, hHeld, rfl, ?_⟩
    rw [exec_bind_of_ok _ hInner]
    change exec (OnHeap.decodeScalar kind
      ((work.withMemory final).heap.memory.read inner kind.size)) _ = _
    rw [← hLength, hBlock, hDecode]
  · intro outer type first second rest
    obtain ⟨items, hItems⟩ : ∃ items,
        Value.nested outer (.list (first :: second :: rest)) = .list items := by
      cases outer <;> exact ⟨_, rfl⟩
    have hMany : innermost (.list items) = .error manyItems := by
      rw [← hItems, innermost_nested]
      simp [innermost, Except.map]
    rw [hItems]
    refine exec_bind_of_error _ ?_
    unfold convertArgument convertList
    dsimp only
    rw [hMany]
    rfl

def nestedCall : Workspace :=
  { (default : Workspace) with arguments := [.nested 2 (.int (-7))] }

theorem exec_convertEach_nested_twice : ∃ object held next,
    exec (convertEach 0 nestedCall.arguments [.pointers 2 (.scalar .unsignedInt)]) nestedCall =
        (.ok [.object object], next) ∧
      object.type = .pointers 2 (.scalar .unsignedInt) ∧
      exec (OnHeap.contents object) next.heap = (.ok held, next.heap) ∧
      next.arguments = [.list [.object held]] ∧
      exec (OnHeap.dereference 2 object >>= OnHeap.valueOf) next.heap =
        (.ok (.int 4294967289), next.heap) := by
  have hValue : (exec (OnHeap.make (.scalar .unsignedInt) [.int (-7)] >>= OnHeap.valueOf)
      nestedCall.heap).1 = .ok (.int 4294967289) := rfl
  have hNumber : (Value.int (-7)).IsNumber := trivial
  exact (exec_convertEach_nested (.inl rfl) hNumber hValue (by decide) 1 (by decide) 0 [] []).1

end Workspace

end CHeader
