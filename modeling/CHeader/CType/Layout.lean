import CHeader.CType.Basic
import CHeader.Fault

/-
  Records and the layout of types in memory.

  A record gets its members once. The members are placed one after the other, each on its alignment;
  members with a width share a unit of memory while it lasts. A unit is continued by a member of a
  smaller or equal type, widened by one of a larger type, and otherwise a new unit begins. The
  members of a union all begin at the start.

  A record is fixed when it has got its members, when it is the type of a member, or when an object
  of it exists; from then on it gets no members. An array is measured when it is made, so an array
  of a record that has no members yet stays empty.

  Key definitions include:
    * `Record`
    * `Layout.place`
    * `Layout.ofMembers`
-/

namespace CHeader

-- Records

structure Member where
  name : String
  type : CType
  bits : Option Nat := none
  deriving Inhabited, Repr

/- Where a member lies: its first byte, the bits before it in its unit, and its width if it has one. -/
structure Place where
  offset : Int
  shift : Nat := 0
  bits : Option Nat := none
  deriving DecidableEq, Inhabited, Repr

structure Extent where
  size : Nat := 0
  align : Nat := 0
  deriving DecidableEq, Inhabited, Repr

structure Record where
  kind : RecordKind
  name : String
  members : Option (List Member) := none
  descriptions : Option (List String) := none
  places : List Place := []
  extent : Extent := {}
  isFixed : Bool := false
  deriving Inhabited, Repr

-- Layout

namespace Layout

/- The least multiple of an alignment from a place on. -/
def roundUp (n align : Nat) : Nat :=
  if align = 0 then n else (n + align - 1) / align * align

/- How far a layout has come: the end of the last member, the size so far, the alignment of the last
  member placed, the bits of the open unit, and how many are in use. -/
structure State where
  offset : Nat := 0
  size : Nat := 0
  align : Nat := 0
  unit : Nat := 0
  used : Nat := 0
  deriving DecidableEq, Inhabited, Repr

def placePlain (state : State) (extent : Extent) : State :=
  let start := roundUp state.offset extent.align
  { state with
    offset := start + extent.size,
    size := state.size + (start - state.offset) + extent.size,
    align := extent.align }

/- Place a member of the given extent, with its width in bits or none. -/
def place (state : State) (extent : Extent) : Option Nat → State × Place
| none =>
    let next := placePlain { state with unit := 0, used := 0 } extent
    (next, { offset := (next.offset - extent.size : Int) })
| some bits =>
    let whole := 8 * extent.size
    if state.unit > 0 && whole ≤ state.unit && state.used + bits ≤ state.unit then
      ({ state with used := state.used + bits },
        { offset := (state.offset : Int) - extent.size,
          shift := state.used, bits := some bits })
    else if state.unit > 0 && whole ≥ state.unit && state.used + bits ≤ whole then
      let growth := extent.size - state.unit / 8
      ({ state with
          offset := state.offset + growth,
          size := state.size + growth,
          unit := whole,
          used := state.used + bits },
        { offset := (state.offset + growth : Int) - extent.size,
          shift := state.used, bits := some bits })
    else
      let next := placePlain { state with unit := whole, used := bits } extent
      (next,
        { offset := (next.offset : Int) - extent.size,
          bits := some bits })

def placeStruct : State → Nat → List (Extent × Option Nat) → State × Nat × List Place
| state, align, [] => (state, align, [])
| state, align, (extent, bits) :: rest =>
    let (next, spot) := place state extent bits
    let (last, total, places) := placeStruct next (max align next.align) rest
    (last, total, spot :: places)

/- The places of members that share their start, with the largest size and alignment. -/
def placeUnion : State → Extent → List (Extent × Option Nat) → Extent × List Place
| _, total, [] => (total, [])
| state, total, (extent, bits) :: rest =>
    let (next, spot) := place { state with offset := 0, size := 0, align := 0 } extent bits
    let (whole, places) := placeUnion next
        { size := max next.size total.size,
          align := max next.align total.align }
        rest
    (whole, spot :: places)

def ofMembers (kind : RecordKind) (members : List (Extent × Option Nat)) : Extent × List Place :=
  match kind with
  | .struct =>
      let (state, align, places) := placeStruct {} 1 members
      ({ size := roundUp state.size align, align := align }, places)
  | .union =>
      let (total, places) := placeUnion {} { size := 0, align := 1 } members
      ({ size := roundUp total.size total.align,
         align := total.align },
        places)

end Layout

-- Tables of types

/- The records that exist, and the extents of arrays that were made of records without members. -/
structure TypeTable where
  records : List Record := []
  arrays : List (CType × Extent) := []
  deriving Inhabited

namespace TypeTable

variable (table : TypeTable)

variable (number : Nat)

def record? : Option Record := table.records[number]?

def record : Record :=
  (table.record? number).getD { kind := .struct, name := "" }

def modify (table : TypeTable) (number : Nat) (change : Record → Record) : TypeTable :=
  { table with records := table.records.modify number change }

def add (kind : RecordKind) (name : String) : TypeTable × Nat :=
  ({ table with
      records := table.records ++ [{ kind := kind, name := name }] },
    table.records.length)

def extent (table : TypeTable) : CType → Extent
| .scalar kind => { size := kind.size, align := kind.size }
| .pointer _ => { size := 8, align := 8 }
| .blankPointer => { size := 8, align := 8 }
| .function _ _ => { size := 8, align := 8 }
| .record number => (table.record number).extent
| .ellipsis => {}
| .array item count =>
    match table.arrays.find? (fun entry => entry.1 == .array item count) with
    | some (_, extent) => extent
    | none =>
        let one := extent table item
        { size := count * one.size, align := one.align }

/- Whether a type may still change its size. -/
def isOpen (table : TypeTable) : CType → Bool
| .record number => (table.record number).members.isNone
| .array item count =>
    !(table.arrays.any (fun entry => entry.1 == .array item count)) &&
    isOpen table item
| _ => false

/- Make an array, which is measured now. -/
def makeArray (item : CType) (count : Nat) : TypeTable × CType :=
  let type : CType := .array item count
  if table.isOpen type then
    ({ table with
        arrays := table.arrays ++ [(type, table.extent type)] },
      type)
  else (table, type)

def fix : CType → TypeTable
| .record number =>
    table.modify number (fun record => { record with isFixed := true })
| _ => table

def checkBits (type : CType) : Option Nat → Except Fault Unit
| none => .ok ()
| some bits =>
    match type with
    | .scalar kind =>
        if bits ≥ Nat.pow 2 31 then .error .wrongKind
        else if !kind.hasBits then .error .wrongKind
        else if bits = 0 || bits > 8 * (table.extent type).size
        then .error .badValue
        else .ok ()
    | _ => .error .wrongKind

/- Check the members in order, fixing the types of those that have been reached. -/
def checkMembers (table : TypeTable) : List Member → TypeTable × Except Fault Unit
| [] => (table, .ok ())
| member :: rest =>
    match member.type with
    | .ellipsis => (table, .error .wrongKind)
    | type =>
        let table := table.fix type
        match table.checkBits type member.bits with
        | .error fault => (table, .error fault)
        | .ok () => table.checkMembers rest

/-
  Give a record its members. The members are noted even if they are refused: when the record is
  fixed already, when a type or width is not allowed, or when the record would contain itself.
-/
def setMembers (members : List Member) : TypeTable × Except Fault Unit :=
  let wasFixed := (table.record number).isFixed
  let table := table.modify number (fun record => { record with members := some members })
  if wasFixed then (table, .error .missingPart)
  else
    match table.checkMembers members with
    | (table, .error fault) => (table, .error fault)
    | (table, .ok ()) =>
        let (extent, places) := Layout.ofMembers (table.record number).kind (members.map
            (fun member =>
              (table.extent member.type, member.bits)))
        let table' := table.modify number (fun record =>
            { record with
              extent := extent,
              places := places,
              isFixed := true })
        if (table.record number).isFixed then
          (table', .error .missingPart)
        else (table', .ok ())

def describe (descriptions : List String) : TypeTable :=
  table.modify number (fun record =>
      { record with descriptions := some descriptions })

end TypeTable

end CHeader
