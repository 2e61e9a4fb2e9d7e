import CHeader.Value.Object

/-
  Questions about what a value is.

  A type or object is a pointer if it has contents. Records can have a member of that name: then
  objects of the record count as pointers, and unions do as types as well.
-/

namespace CHeader

namespace Value

-- Arrays and functions

def ownType? : Value → Option CType
| .type t => some t
| .object o => some o.type
| _ => Option.none

def isArray (value : Value) : Bool :=
  match value.ownType? with
  | some (.array _ _) => true
  | _ => false

def isFunction (value : Value) : Bool :=
  match value.ownType? with
  | some (.function _ _) => true
  | _ => false

end Value

namespace TypeTable

-- Pointers

/- The name of what a pointer refers to. -/
def contentsName : String := "contents"

variable (table : TypeTable)

def hasMember (number : Nat) (name : String) : Bool :=
  ((table.record number).members.getD []).any (·.name = name)

def hasContents : CType → Bool
| .pointer _ | .blankPointer => true
| .record number => table.hasMember number contentsName
| _ => false

def isPointerType : CType → Bool
| .scalar .charPointer | .scalar .voidPointer => true
| .record number =>
    (table.record number).kind ≠ .struct && table.hasContents (.record number)
| type => table.hasContents type

def isPointer : Value → Bool
| .type t => table.isPointerType t
| .object o => table.hasContents o.type
| _ => false

/- What a type points to in the end, below how many pointers. Texts and pointers to anything point
  to no type. -/
def pointedType (table : TypeTable) : CType → Except Fault (Nat × Option CType)
| .pointer target => do
    let (depth, type) ← pointedType table target
    return (depth + 1, type)
| .scalar .charPointer | .scalar .voidPointer => .ok (1, none)
| type =>
    if table.isPointerType type then .error .missingPart
    else .ok (0, some type)

def pointed : Value → Except Fault (Nat × Option CType)
| .type t => table.pointedType t
| .object o =>
    match o.type with
    | .pointer target => do
        let (depth, type) ← table.pointedType target
        return (depth + 1, type)
    | type =>
        if table.hasContents type then .error .missingPart
        else .ok (0, none)
| _ => .ok (0, none)

end TypeTable

namespace OnHeap

-- Pointers on the heap

def isNull (value : Value) : OnHeap Bool := do
  match value with
  | .object object =>
      return object.type.isPointer && (← target object) = 0
  | _ => return false

def pointerToValue (value : Value) : OnHeap Value := do
  match value with
  | .type .ellipsis => throw .wrongKind
  | .type t => return .type (.pointer t)
  | .object object => return .object (← reference object)
  | _ => throw .wrongKind

end OnHeap

end CHeader
