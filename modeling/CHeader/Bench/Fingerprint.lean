import CHeader.Digest.Sha256
import CHeader.Text.Encoding
import CHeader.Value.Written

/-
  Fingerprints of the values that benches give.

  A value is laid out as a row of bytes, and its fingerprint is the digest of that row. The entries
  of a table stand in the order of their keys' fingerprints, and a set is the sorted fingerprints of
  its members, so that neither depends on the order in which it was filled. The layout is inferred
  from the fingerprints of some values. No statement is made about it.
-/

namespace CHeader

namespace Bench

-- Samples

inductive Sample where
  | nothing
  | bool (value : Bool)
  | int (value : Int)
  | real (value : Float)
  | complex (re im : Float)
  | text (value : String)
  | bytes (value : List UInt8)
  | list (items : List Sample)
  | table (entries : List (Sample × Sample))
  | set (members : List Sample)
  /- Numbers of one type in rows. -/
  | grid (typeName shape : String) (content : List UInt8)
  /- A value that is told by its written form. -/
  | written (form : String)
  /- A value of which only the type is told. -/
  | untold (typeName : String)
  deriving Inhabited

namespace Sample

def fraction (above below : Int) : Sample :=
  let part : Int := Int.gcd above below
  let sign : Int := if below < 0 then -1 else 1
  .written ("Fraction(" ++ toString (sign * above / part) ++ ", " ++
      toString (sign * below / part) ++ ")")

def decimal (digits : String) : Sample := .written ("Decimal('" ++ digits ++ "')")

def date (year month day : Int) : Sample :=
  .written ("datetime.date(" ++ toString year ++ ", " ++
      toString month ++ ", " ++ toString day ++ ")")

-- Streams

/- Values that lie deeper are left out. -/
def deepest : Nat := 8

/- Items of a list after so many are left out. -/
def longest : Nat := 2000

def bytesOf (s : String) : List UInt8 := s.toList.flatMap Text.Encoding.utf8Bytes

def counted (mark : String) (count : Nat) : List UInt8 := bytesOf (mark ++ toString count)

def isBefore (a b : List UInt8) : Bool := decide (a ≤ b)

/- The row of a value at a depth; values that lie too deep have one row for all. -/
def cut (depth : Nat) (row : List UInt8) : List UInt8 :=
  if deepest < depth then bytesOf "..." else row

mutual

def streamAt (depth : Nat) : Sample → List UInt8
| .nothing => cut depth (bytesOf "None")
| .bool b => cut depth (bytesOf (Value.writtenBool b))
| .int n => cut depth (bytesOf (toString n))
| .real x => cut depth (bytesOf (Value.writtenReal x))
| .complex re im =>
    cut depth (bytesOf ("c" ++ Value.writtenReal re ++ Value.writtenReal im))
| .text s => cut depth (bytesOf ("s" ++ s))
| .bytes b => cut depth (bytesOf "b" ++ b)
| .list items =>
    cut depth (counted "L" items.length ++ itemsAt (depth + 1) longest items)
| .table entries =>
    cut depth (counted "D" entries.length ++ ((entriesAt (depth + 1) entries).mergeSort
        (fun x y => isBefore x.1 y.1)).flatMap Prod.snd)
| .set members =>
    cut depth (counted "S" members.length ++ ((digestsOf members).mergeSort isBefore).flatten)
| .grid typeName shape content =>
    cut depth (bytesOf ("A" ++ typeName ++ shape) ++ content)
| .written form => cut depth (bytesOf form)
| .untold typeName =>
    cut depth (bytesOf ("<" ++ typeName ++ ">"))

def itemsAt (depth : Nat) : Nat → List Sample → List UInt8
| 0, _ => []
| _, [] => []
| limit + 1, item :: rest =>
    streamAt depth item ++ itemsAt depth limit rest

def entriesAt (depth : Nat) : List (Sample × Sample) → List (List UInt8 × List UInt8)
| [] => []
| (key, value) :: rest =>
    (bytesOf (Digest.sha256Text (streamAt 0 key)), streamAt depth key ++ streamAt depth value) ::
      entriesAt depth rest

def digestsOf : List Sample → List (List UInt8)
| [] => []
| member :: rest =>
    bytesOf (Digest.sha256Text (streamAt 0 member)) :: digestsOf rest

end

def stream (sample : Sample) : List UInt8 := streamAt 0 sample

def fingerprint (sample : Sample) : String := Digest.sha256Text sample.stream

end Sample

end Bench

end CHeader
