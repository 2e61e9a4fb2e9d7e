/-
  C types.

  A structure or union is known by its number in the table of records, not by its name: two records
  may bear one name. No value is of type void, so void is the absence of a type where a function
  gives a result.
-/

namespace CHeader

-- Scalars

/- The types that are not made of others, and the pointers to text and to anything. -/
inductive Scalar where
  | char
  | signedChar
  | unsignedChar
  | short
  | unsignedShort
  | int
  | unsignedInt
  | long
  | unsignedLong
  | float
  | double
  | longDouble
  | bool
  | wideChar
  | charPointer
  | wideCharPointer
  | voidPointer
  deriving DecidableEq, Repr, Inhabited

namespace Scalar

def size : Scalar → Nat
| char | signedChar | unsignedChar | bool => 1
| short | unsignedShort => 2
| int | unsignedInt | float | wideChar => 4
| long | unsignedLong | double => 8
| charPointer | wideCharPointer | voidPointer => 8
| longDouble => 16

/- Whether the type is one of integers, and if so whether these have a sign. -/
def signed? : Scalar → Option Bool
| signedChar | short | int | long => some true
| unsignedChar | unsignedShort | unsignedInt
| unsignedLong => some false
| _ => none

def isReal : Scalar → Bool
| float | double | longDouble => true
| _ => false

def hasBits (s : Scalar) : Bool := s.signed?.isSome || s = bool

def isAddress : Scalar → Bool
| charPointer | wideCharPointer | voidPointer => true
| _ => false

end Scalar

-- Types

inductive RecordKind where
  | struct
  | union
  deriving DecidableEq, Repr, Inhabited

inductive CType where
  | scalar (kind : Scalar)
  | pointer (target : CType)
  /- A pointer whose target is never told. -/
  | blankPointer
  | array (item : CType) (count : Nat)
  | function (result : Option CType) (params : List CType)
  | record (number : Nat)
  /- The open end of a parameter list. -/
  | ellipsis
  deriving Inhabited, Repr

namespace CType

mutual

def same : CType → CType → Bool
| scalar a, scalar b => a = b
| pointer a, pointer b => same a b
| array a m, array b n => m = n && same a b
| function a as, function b bs =>
    sameResult a b && sameList as bs
| record m, record n => m = n
| ellipsis, ellipsis => true
| _, _ => false

def sameResult : Option CType → Option CType → Bool
| none, none => true
| some a, some b => same a b
| _, _ => false

def sameList : List CType → List CType → Bool
| [], [] => true
| a :: as, b :: bs => same a b && sameList as bs
| _, _ => false

end

instance : BEq CType := ⟨same⟩

def pointerTo : Option CType → CType
| some target => pointer target
| none => scalar .voidPointer

def isPointer : CType → Bool
| pointer _ => true
| blankPointer => true
| _ => false

def record? : CType → Option Nat
| record number => some number
| _ => none

end CType

end CHeader
