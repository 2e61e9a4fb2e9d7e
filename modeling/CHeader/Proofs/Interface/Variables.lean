import CHeader.Proofs.Interface.NestedPointers
import CHeader.Proofs.Interface.Tables

/-
  Exported variables and other names as a store.

  An exported variable lies in the memory of its library, and every other name stands for the value
  it was given. However the names are read and written, as items or as parts, each of them keeps
  what was last written to it.

  Main declarations:
    * `Workspace.held?`
    * `Workspace.Keeps.access`
    * `Workspace.after_reads`
-/

namespace CHeader

open Step Work

-- Whole numbers in memory

namespace Bytes

/- Bytes hold a whole number up to multiples of what they have room for. -/
theorem toNat_reduce (count : Nat) (n : Int) :
    (toNat (ofNat count (reduce (8 * count) n)) : Int) = n % (2 ^ (8 * count) : Nat) := by
  have hReduce : (reduce (8 * count) n : Int) = n % (2 ^ (8 * count) : Nat) :=
    Int.toNat_of_nonneg (Int.emod_nonneg n (by simp))
  have hLess : reduce (8 * count) n < Nat.pow 256 count := by
    rw [← Int.ofNat_lt, hReduce, Nat.pow_eq, ← Nat.pow_mul 2 8 count]
    exact Int.emod_lt_of_pos n (by positivity)
  rw [toNat_ofNat, Nat.mod_eq_of_lt hLess, hReduce]

theorem signedOf_eq_bmod {m : Nat} {n : Int} (hBits : 0 < bits) (hSame : m = n % (2 ^ bits : Nat)) :
    signedOf bits m = n.bmod (2 ^ bits) := by
  have hHalf : 2 ^ bits = Nat.pow 2 (bits - 1) * 2 := (Nat.pow_pred_mul hBits).symm
  have hMod := Int.emod_lt_of_pos n (show (0 : Int) < (2 ^ bits : Nat) by positivity)
  have hLess : m < 2 ^ bits := by omega
  unfold signedOf Int.bmod
  rw [← hSame, Nat.pow_eq, Nat.mod_eq_of_lt hLess]
  simp only [Bool.and_eq_true, decide_eq_true_eq]
  split_ifs <;> omega

end Bytes

/- What a type of whole numbers holds of a number: its remainder within the width of the type, with
  or without a sign, or whether it is other than zero. -/
def Scalar.reduced (kind : Scalar) (n : Int) : Value :=
  if kind = .bool then .bool (n ≠ 0)
  else if kind.signed? = some true then .int (n.bmod (2 ^ (8 * kind.size)))
  else .int (n % (2 ^ (8 * kind.size) : Nat))

theorem Memory.read_write_of_apart (memory : Memory) (bytes : List UInt8)
    (hApart : address + bytes.length ≤ other ∨ other + count ≤ address) :
    (memory.write address bytes).read other count = memory.read other count := by
  refine List.map_congr_left fun i hIndex => ?_
  have hLess := List.mem_range.1 hIndex
  rcases hApart with hAfter | hBefore
  · have hNone : bytes[other + i - address]? = none := List.getElem?_eq_none (by omega)
    simp [write, hNone]
  · exact byte_write_of_lt memory bytes (by omega)

namespace OnHeap

variable {kind : Scalar} (hKind : kind.hasBits)
include hKind

/- A number is written as bytes that are read as what its type holds of it. -/
theorem exec_assign_whole (hWhole : intOf value = .ok n) (address : Nat) (heap : Heap) :
    ∃ block, exec (assign (.scalar kind) address value) heap =
        (.ok (), { heap with memory := heap.memory.write address block }) ∧
      block.length = kind.size ∧
      ∀ heap, exec (decodeScalar kind block) heap = (.ok (kind.reduced n), heap) := by
  suffices hEncodes : ∃ block, exec (encodeScalar kind value) heap = (.ok block, heap) ∧
      block.length = kind.size ∧
      ∀ heap, exec (decodeScalar kind block) heap = (.ok (kind.reduced n), heap) by
    obtain ⟨block, hEncode, hBlock⟩ := hEncodes
    refine ⟨block, ?_, hBlock⟩
    cases value with
    | int | bool => exact exec_bind_of_ok _ hEncode
    | _ => cases hWhole
  have hNat := Bytes.toNat_reduce kind.size n
  have hSigned := Bytes.signedOf_eq_bmod (by cases kind <;> decide) hNat
  have hTruth : exec (truth value) heap = (.ok (n ≠ 0 : Bool), heap) := by
    cases value with
    | int => cases hWhole; rfl
    | bool b => cases hWhole; cases b <;> rfl
    | _ => cases hWhole
  have hLifted : exec (liftM (intOf value) : OnHeap Int) heap = (.ok n, heap) := by
    rw [hWhole]
    rfl
  have hHeld : ∀ {m k : Int} (heap : Heap), m = k →
      (Except.ok (Value.int m), heap) = ((.ok (.int k), heap) : Except Fault Value × Heap) :=
    fun _ hSame => hSame ▸ rfl
  cases kind with
  | bool =>
    refine ⟨_, exec_bind_of_ok _ hTruth, rfl, fun heap => ?_⟩
    change (_, _) = (Except.ok (Value.bool (decide (n ≠ 0))), heap)
    cases decide (n ≠ 0) <;> rfl
  | unsignedChar | unsignedShort | unsignedInt | unsignedLong =>
    exact ⟨_, exec_bind_of_ok _ hLifted, Bytes.length_ofNat _ _, fun heap => hHeld heap hNat⟩
  | signedChar | short | int | long =>
    exact ⟨_, exec_bind_of_ok _ hLifted, Bytes.length_ofNat _ _, fun heap => hHeld heap hSigned⟩
  | _ => contradiction

/- What a variable holds is told by its bytes. -/
theorem valueOf_congr {before after : Heap} (hRead : after.memory.read address kind.size =
      before.memory.read address kind.size) :
    (exec (valueOf ⟨.scalar kind, address⟩) after).1 =
      (exec (valueOf ⟨.scalar kind, address⟩) before).1 := by
  obtain ⟨value, hValue⟩ := exec_decodeScalar (.inl hKind) (before.memory.read address kind.size)
  change (exec (decodeScalar kind (after.memory.read address kind.size)) after).1 =
    (exec (decodeScalar kind _) before).1
  rw [hRead, hValue, hValue]

end OnHeap

-- Names

/- Setting a name that the libraries are not kept under changes what stands under it only. -/
theorem Work.exec_setPlain (hExported : name ≠ Interface.exportedName)
    (hLibraries : name ≠ Interface.librariesName) (value : Value) (work : Workspace) :
    ∃ iface, exec (setPlain name value) work = (.ok (), { work with iface := iface }) ∧
      iface.exported = work.iface.exported ∧ ∀ other,
        iface.plain? other = if name = other then some value else work.iface.plain? other := by
  unfold setPlain
  split <;> refine ⟨_, rfl, rfl, fun other => ?_⟩
  all_goals
    simp only [Interface.plain?, Interface.exportedTable, Macro.lookup_assign]
    grind

namespace Workspace

/- The variable of whole numbers that a name is exported for: its type and its address. -/
def cell? (work : Workspace) (name : String) : Option (Scalar × Nat) :=
  match work.iface.exported? name with
  | some (.type (.scalar kind), library) =>
      if kind.hasBits then (work.address? library name).map (kind, ·) else none
  | _ => none

/- What reading a name gives: the variable, or the value that stands under the name. -/
def found? (work : Workspace) (name : String) : Option Value :=
  match work.cell? name with
  | some (kind, address) => some (.object ⟨.scalar kind, address⟩)
  | none => work.iface.plain? name

/- What a name holds: the value of the variable, or the value that stands under the name. -/
def held? (work : Workspace) (name : String) : Option Value :=
  match work.cell? name with
  | some (kind, address) => (exec (OnHeap.valueOf ⟨.scalar kind, address⟩) work.heap).1.toOption
  | none => work.iface.plain? name

/- What a name holds of a value that is written to it. -/
def heldOf (work : Workspace) (name : String) (value : Value) : Value :=
  match work.cell? name, OnHeap.intOf value with
  | some (kind, _), .ok n => kind.reduced n
  | _, _ => value

/- Whether a name is that of a variable of whole numbers or an ordinary one: it is not exported and
  the libraries are not kept under it. -/
def Named (work : Workspace) (name : String) : Prop :=
  (work.cell? name).isSome ∨ work.iface.exported? name = none ∧
    name ≠ Interface.exportedName ∧ name ≠ Interface.librariesName

def readAs (asPart : Bool) (name : String) : Work Value :=
  if asPart then part name else item name

def writeAs (asPart : Bool) (name : String) (value : Value) : Work Unit :=
  if asPart then setPart name value else setItem name value

/- Reading or writing a name, as a part or as an item. -/
inductive Access where
  | read (asPart : Bool) (name : String)
  | write (asPart : Bool) (name : String) (value : Value)

/- The workspace after an access, whether or not it succeeds. -/
def access (work : Workspace) : Access → Workspace
| .read asPart name => (exec (readAs asPart name) work).2
| .write asPart name value => (exec (writeAs asPart name value) work).2

def after (work : Workspace) (accesses : List Access) : Workspace := accesses.foldl access work

def Access.written? (name : String) : Access → Option Value
| .write _ other value => if other = name then some value else none
| .read _ _ => none

def lastWritten? (name : String) : List Access → Option Value
| [] => none
| access :: rest => (lastWritten? name rest).or (access.written? name)

/- Whether an access is to a name, and writes a whole number if it writes to a variable. -/
def Admits (work : Workspace) : Access → Prop
| .read _ name => work.Named name
| .write _ name value =>
    work.Named name ∧ ((work.cell? name).isSome → ∃ n, OnHeap.intOf value = .ok n)

/- Whether the variables lie in memory that is taken, one apart from the other. -/
structure Separate (work : Workspace) : Prop where
  taken : work.cell? name = some (kind, address) → address + kind.size ≤ work.heap.memory.free
  apart : first ≠ second → work.cell? first = some (kind, address) →
    work.cell? second = some (other, place) →
      address + kind.size ≤ place ∨ place + other.size ≤ address

/- Whether the variables are still where they were. -/
structure Keeps (work now : Workspace) : Prop where
  exported : now.iface.exported = work.iface.exported
  loaded : now.loaded = work.loaded
  free : work.heap.memory.free ≤ now.heap.memory.free

/- Whether a workspace follows from another one by writes, given what is last written to a name. -/
structure Follows (work before : Workspace) (written? : String → Option Value) (now : Workspace) :
    Prop extends Keeps work now where
  held : ∀ name, now.held? name = ((written? name).map (work.heldOf name)).or (before.held? name)
  plain : ∀ name, work.iface.exported? name ≠ none →
    now.iface.plain? name = before.iface.plain? name

section

variable {work now : Workspace} {name : String}

theorem exported_of_cell? (hCell : work.cell? name = some (kind, address)) :
    kind.hasBits ∧ ∃ library, work.iface.exported? name = some (.type (.scalar kind), library) ∧
      work.address? library name = some address := by
  unfold cell? at hCell
  split at hCell
  · rename_i library hExported
    split_ifs at hCell with hBits
    obtain ⟨address, hAddress, ⟨⟩⟩ := Option.map_eq_some_iff.1 hCell
    exact ⟨hBits, library, hExported, hAddress⟩
  · cases hCell

namespace Named

variable (hNamed : work.Named name) (asPart : Bool)
include hNamed

theorem exec_exportedObject? : exec (exportedObject? name) work =
      (.ok ((work.cell? name).map fun (kind, address) => ⟨.scalar kind, address⟩), work) := by
  rcases hNamed with hCell | ⟨hNone, -, -⟩
  · obtain ⟨⟨kind, address⟩, hCell⟩ := Option.isSome_iff_exists.1 hCell
    obtain ⟨-, library, hExported, hAddress⟩ := exported_of_cell? hCell
    have hAt := exec_variableAt work (show CType.scalar kind ≠ .ellipsis from nofun) library name
    rw [hAddress] at hAt
    unfold exportedObject?
    rw [exec_bind_of_ok _ (exec_iface work), hCell, hExported]
    exact exec_bind_of_ok _ hAt
  · rw [exec_exportedObject?_of_unexported _ hNone, cell?, hNone]
    rfl

theorem exec_item? : exec (item? name) work = (.ok (work.found? name), work) := by
  refine (exec_bind_of_ok _ hNamed.exec_exportedObject?).trans ?_
  unfold found?
  cases work.cell? name <;> rfl

theorem exec_readAs (hFound : work.found? name = some value) :
    exec (readAs asPart name) work = (.ok value, work) := by
  have hItem := hNamed.exec_item?
  rw [hFound] at hItem
  cases asPart <;> exact exec_bind_of_ok _ hItem

/- Reading leaves the workspace as it is, also where nothing stands under the name. -/
theorem access_read : work.access (.read asPart name) = work := by
  have hItem := hNamed.exec_item?
  cases hFound : work.found? name with
  | some value => exact congrArg Prod.snd (hNamed.exec_readAs asPart hFound)
  | none =>
    rw [hFound] at hItem
    cases asPart
    · exact congrArg Prod.snd (exec_bind_of_ok _ hItem)
    · refine (congrArg Prod.snd (exec_bind_of_ok _ hItem)).trans ?_
      dsimp only
      split_ifs <;> rfl

theorem exec_writeAs (value : Value) :
    exec (writeAs asPart name value) work = match work.cell? name with
      | some (kind, address) => exec (do
          let _ ← onHeap (OnHeap.reference ⟨.scalar kind, address⟩)
          onHeap (OnHeap.assign (.scalar kind) address value)) work
      | none => exec (setPlain name value) work := by
  have hObject := hNamed.exec_exportedObject?
  cases hCell : work.cell? name
  all_goals
    rw [hCell] at hObject
    cases asPart <;> simp only [writeAs, setPart, setItem, Bool.false_eq_true, if_true, if_false,
      exec_bind_of_ok _ hObject, Option.map_none, Option.map_some]

end Named

theorem held?_of_write {next : Workspace} (hName : next.held? name = some (work.heldOf name value))
    (hOther : ∀ other ≠ name, next.held? other = now.held? other) (other : String) :
    next.held? other = ((if name = other then some value else none).map (work.heldOf other)).or
      (now.held? other) := by
  split_ifs with hSame
  · rw [← hSame]
    exact hName
  · exact hOther other (Ne.symm hSame)

namespace Keeps

variable (hKeeps : Keeps work now)
include hKeeps

theorem cell? (name : String) : now.cell? name = work.cell? name := by
  unfold Workspace.cell? Interface.exported? address?
  rw [hKeeps.exported, hKeeps.loaded]

theorem named (hNamed : work.Named name) : now.Named name := by
  unfold Named Interface.exported? at hNamed ⊢
  rwa [hKeeps.cell?, hKeeps.exported]

/- A value that is written to an ordinary name stands under it. -/
theorem exec_setPlain (hCell : work.cell? name = none) (hNamed : work.Named name) (value : Value) :
    ∃ next, exec (setPlain name value) now = (.ok (), next) ∧
      Follows work now (fun other => if name = other then some value else none) next := by
  obtain ⟨hNone, hExported, hLibraries⟩ := hNamed.resolve_left (by simp [hCell])
  obtain ⟨iface, hExec, hSame, hPlain⟩ := Work.exec_setPlain hExported hLibraries value now
  have hNext : Keeps work { now with iface := iface } :=
    ⟨hSame.trans hKeeps.exported, hKeeps.loaded, hKeeps.free⟩
  refine ⟨_, hExec, hNext, held?_of_write ?_ fun other hOther => ?_, fun other hIs => ?_⟩
  · unfold held? heldOf
    rw [hNext.cell?, hCell]
    exact (hPlain name).trans (if_pos rfl)
  · unfold held?
    rw [hNext.cell?, hKeeps.cell?, hPlain, if_neg hOther.symm]
  · refine (hPlain other).trans (if_neg ?_)
    rintro rfl
    exact hIs hNone

variable (hSeparate : work.Separate)
include hSeparate

/- A number that is written to a variable is what it holds, reduced to its type. -/
theorem exec_assign (hCell : work.cell? name = some (kind, address))
    (hWhole : OnHeap.intOf value = .ok n) : ∃ next, exec (do
          let _ ← onHeap (OnHeap.reference ⟨.scalar kind, address⟩)
          onHeap (OnHeap.assign (.scalar kind) address value)) now = (.ok (), next) ∧
      Follows work now (fun other => if name = other then some value else none) next := by
  obtain ⟨hBits, -⟩ := exported_of_cell? hCell
  let stored := now.withMemory (now.heap.memory.store (OnHeap.addressBytes address)).1
  have hReference : exec (onHeap (OnHeap.reference ⟨.scalar kind, address⟩)) now =
      (.ok ⟨.pointer (.scalar kind), (now.heap.memory.store (OnHeap.addressBytes address)).2⟩,
        stored) := rfl
  obtain ⟨block, hAssign, hLength, hBlock⟩ :=
    OnHeap.exec_assign_whole hBits hWhole address stored.heap
  obtain ⟨hStart, hEnd, -⟩ := Memory.store_bounds now.heap.memory (OnHeap.addressBytes address)
  have hNext : Keeps work (stored.withMemory (stored.heap.memory.write address block)) :=
    ⟨hKeeps.exported, hKeeps.loaded,
      hKeeps.free.trans (hStart.trans ((Nat.le_add_right _ _).trans hEnd))⟩
  refine ⟨_, ?_, hNext, held?_of_write ?_ fun other hOther => ?_, fun _ _ => rfl⟩
  · rw [exec_bind_of_ok _ hReference, exec_onHeap, hAssign]
    rfl
  · unfold held? heldOf
    rw [hNext.cell?, hCell, hWhole]
    change (exec (OnHeap.decodeScalar kind (Memory.read _ address kind.size)) _).1.toOption = _
    rw [← hLength]
    change (exec (OnHeap.decodeScalar kind
      ((Memory.write _ address block).read address _)) _).1.toOption = _
    rw [Memory.read_write, hBlock]
    rfl
  · unfold held?
    rw [hNext.cell?, hKeeps.cell?]
    cases hPlace : work.cell? other with
    | none => rfl
    | some cell =>
      obtain ⟨hOtherBits, -⟩ := exported_of_cell? hPlace
      have hTaken := (hSeparate.taken hPlace).trans hKeeps.free
      refine congrArg Except.toOption (OnHeap.valueOf_congr hOtherBits
        ((Memory.read_write_of_apart _ _ ?_).trans (Memory.read_store_of_le _ hTaken)))
      rw [hLength]
      exact hSeparate.apart hOther.symm hCell hPlace

theorem exec_writeAs (asPart : Bool) (hAdmits : work.Admits (.write asPart name value)) :
    ∃ next, exec (writeAs asPart name value) now = (.ok (), next) ∧
      Follows work now (fun other => if name = other then some value else none) next := by
  rw [(hKeeps.named hAdmits.1).exec_writeAs, hKeeps.cell?]
  cases hCell : work.cell? name with
  | none => exact hKeeps.exec_setPlain hCell hAdmits.1 value
  | some cell =>
    obtain ⟨n, hWhole⟩ := hAdmits.2 (by simp [hCell])
    exact hKeeps.exec_assign hSeparate hCell hWhole

/- One access. -/
theorem access {access : Access} (hAdmits : work.Admits access) :
    Follows work now access.written? (now.access access) := by
  cases access with
  | read asPart name =>
    rw [(hKeeps.named hAdmits).access_read]
    exact ⟨hKeeps, fun _ => rfl, fun _ _ => rfl⟩
  | write asPart name value =>
    obtain ⟨next, hExec, hFollows⟩ := hKeeps.exec_writeAs hSeparate asPart hAdmits
    rw [Workspace.access, hExec]
    exact hFollows

theorem after (hAdmits : ∀ access ∈ accesses, work.Admits access) :
    Follows work now (lastWritten? · accesses) (now.after accesses) := by
  induction accesses generalizing now with
  | nil => exact ⟨hKeeps, fun _ => rfl, fun _ _ => rfl⟩
  | cons access rest ih =>
    obtain ⟨hFirst, hRest⟩ := List.forall_mem_cons.1 hAdmits
    have hNext := hKeeps.access hSeparate hFirst
    have hLast := ih hNext.toKeeps hRest
    refine ⟨hLast.toKeeps, fun name => ?_, fun name hName =>
      (hLast.plain name hName).trans (hNext.plain name hName)⟩
    rw [lastWritten?, Option.map_or, Option.or_assoc, ← hNext.held]
    exact hLast.held name

end Keeps

/-
  After any reads and writes of ordinary names and of variables of whole numbers, as items or as
  parts, a name holds what was last written to it, reduced to its type if it is that of a variable,
  or else what it held at first. Reading it gives the variable or the value, and writing it
  succeeds. Nothing was entered under the name of a variable.
-/
theorem after_reads
    (hSeparate : work.Separate)
    (hAdmits : ∀ access ∈ accesses, work.Admits access) :
    (∀ name, work.Named name → (work.after accesses).held? name =
        ((lastWritten? name accesses).map (work.heldOf name)).or (work.held? name) ∧
      ∀ asPart value, (work.after accesses).found? name = some value →
        exec (readAs asPart name) (work.after accesses) = (.ok value, work.after accesses)) ∧
    (∀ name kind address, work.cell? name = some (kind, address) →
      (work.after accesses).found? name = some (.object ⟨.scalar kind, address⟩)) ∧
    (∀ asPart name value, work.Admits (.write asPart name value) →
      (exec (writeAs asPart name value) (work.after accesses)).1 = .ok ()) ∧
    ∀ name, work.iface.exported? name ≠ none →
      (work.after accesses).iface.plain? name = work.iface.plain? name := by
  have hFollows := Keeps.after ⟨rfl, rfl, le_rfl⟩ hSeparate hAdmits
  have hKeeps := hFollows.toKeeps
  refine ⟨fun name hNamed => ⟨hFollows.held name, fun asPart value =>
      (hKeeps.named hNamed).exec_readAs asPart⟩, fun name kind address hCell => ?_,
    fun asPart name value hWrite => ?_, hFollows.plain⟩
  · rw [found?, hKeeps.cell?, hCell]
  · obtain ⟨next, hExec, -⟩ := hKeeps.exec_writeAs hSeparate asPart hWrite
    rw [hExec]

end

/- Two variables of one library, and a name of the interface's own. -/
def counted : Workspace := {
  loaded := [{ name := "meter", file := "meter.so", symbols := [("count", 64), ("full", 65)] }],
  iface := {
    exported := [("count", .type (.scalar .signedChar), "meter"),
      ("full", .type (.scalar .bool), "meter")],
    entries := [("limit", .int 7)] } }

def countedAccesses : List Access := [.write false "count" (.int 200),
  .write true "limit" (.int 9), .write true "full" (.bool true), .read true "count"]

theorem counted_cell? (hCell : counted.cell? name = some (kind, address)) :
    name = "count" ∧ kind = .signedChar ∧ address = 64 ∨
      name = "full" ∧ kind = .bool ∧ address = 65 := by
  obtain ⟨-, library, hExported, hAddress⟩ := exported_of_cell? hCell
  simp only [counted, Interface.exported?, Macro.lookup] at hExported
  split_ifs at hExported with hCount hFull
  all_goals
    cases hExported
    subst name
    cases hAddress
    simp

theorem separate_counted : counted.Separate := by
  refine ⟨fun hCell => ?_, fun hOther hFirst hSecond => ?_⟩
  · rcases counted_cell? hCell with ⟨-, rfl, rfl⟩ | ⟨-, rfl, rfl⟩ <;> decide
  · rcases counted_cell? hFirst with ⟨rfl, rfl, rfl⟩ | ⟨rfl, rfl, rfl⟩ <;>
      rcases counted_cell? hSecond with ⟨rfl, rfl, rfl⟩ | ⟨rfl, rfl, rfl⟩ <;>
      first | contradiction | decide

theorem after_reads_counted : counted.Separate ∧
    (∀ access ∈ countedAccesses, counted.Admits access) ∧
    (counted.after countedAccesses).held? "count" = some (.int (-56)) ∧
    exec (readAs true "limit") (counted.after countedAccesses) =
      (.ok (.int 9), counted.after countedAccesses) ∧
    (counted.after countedAccesses).iface.plain? "full" = none := by
  have hLimit : counted.Named "limit" := .inr ⟨rfl, by decide, by decide⟩
  have hAdmits : ∀ access ∈ countedAccesses, counted.Admits access := by
    simp only [countedAccesses, List.forall_mem_cons, List.not_mem_nil, false_implies, implies_true,
      and_true]
    exact ⟨⟨.inl rfl, fun _ => ⟨200, rfl⟩⟩, ⟨hLimit, nofun⟩, ⟨.inl rfl, fun _ => ⟨1, rfl⟩⟩,
      .inl rfl⟩
  obtain ⟨hNames, -, -, hPlain⟩ := after_reads separate_counted hAdmits
  exact ⟨separate_counted, hAdmits, (hNames "count" (.inl rfl)).1,
    (hNames "limit" hLimit).2 true (.int 9) (hNames "limit" hLimit).1, hPlain "full" nofun⟩

end Workspace

end CHeader
