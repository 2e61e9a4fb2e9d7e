import CHeader.CType.Basic

/-
  Conversion specifiers of formatted output.

  A specifier starts with a percent sign and may give a flag, a width, a precision and a length
  before the letter of the conversion. A star for the width or the precision takes an argument of
  its own, before the one that is converted. A length that does not go with the conversion takes no
  argument for it.
-/

namespace CHeader

namespace Format

-- Specifiers

/- How long the converted argument is. -/
inductive Length where
  | usual
  | byte
  | short
  | long
  | longLong
  | largest
  | size
  | difference
  | longReal
  deriving DecidableEq, Repr, Inhabited

/- What an argument is converted from. -/
inductive Conversion where
  | signed
  | unsigned
  | real
  | character
  | text
  | address
  | count
  deriving DecidableEq, Repr, Inhabited

/- A conversion specifier, as far as it tells arguments. -/
structure Specifier where
  takesWidth : Bool
  takesPrecision : Bool
  length : Length
  conversion : Conversion
  deriving DecidableEq, Repr, Inhabited

-- Reading

def skipFlag : List Char → List Char
| c :: rest =>
    if ['-', '+', ' ', '#', '0'].contains c then rest
    else c :: rest
| [] => []

/- Skip a width; tell whether it is a star. -/
def readWidth : List Char → Bool × List Char
| '*' :: rest => (true, rest)
| c :: rest =>
    if c.isDigit && c ≠ '0' then
      (false, rest.dropWhile Char.isDigit)
    else (false, c :: rest)
| [] => (false, [])

/- Skip a precision; tell whether it is a star. -/
def readPrecision : List Char → Bool × List Char
| '.' :: '*' :: rest => (true, rest)
| '.' :: rest => (false, rest.dropWhile Char.isDigit)
| cs => (false, cs)

def readLength : List Char → Length × List Char
| 'h' :: 'h' :: rest => (.byte, rest)
| 'h' :: rest => (.short, rest)
| 'l' :: 'l' :: rest => (.longLong, rest)
| 'l' :: rest => (.long, rest)
| 'j' :: rest => (.largest, rest)
| 'z' :: rest => (.size, rest)
| 't' :: rest => (.difference, rest)
| 'L' :: rest => (.longReal, rest)
| cs => (.usual, cs)

def conversion? (c : Char) : Option Conversion :=
  if ['d', 'i'].contains c then some .signed
  else if ['u', 'o', 'x', 'X'].contains c then some .unsigned
  else if ['f', 'F', 'e', 'E', 'g', 'G', 'a', 'A'].contains c
  then some .real
  else if c = 'c' then some .character
  else if c = 's' then some .text
  else if c = 'p' then some .address
  else if c = 'n' then some .count
  else none

def read? : List Char → Option Specifier
| '%' :: rest =>
    let (takesWidth, rest) := readWidth (skipFlag rest)
    let (takesPrecision, rest) := readPrecision rest
    let (length, rest) := readLength rest
    rest.head?.bind conversion? |>.map (fun conversion =>
        { takesWidth, takesPrecision, length, conversion })
| _ => none

-- Arguments

namespace Length

def integers? : Length → Option (Scalar × Scalar)
| .usual => some (.int, .unsignedInt)
| .byte => some (.signedChar, .unsignedChar)
| .short => some (.short, .unsignedShort)
| .long | .longLong | .largest => some (.long, .unsignedLong)
| .size => some (.unsignedLong, .unsignedLong)
| .difference => some (.long, .long)
| .longReal => none

def real? : Length → Option Scalar
| .usual | .long => some .double
| .longReal => some .longDouble
| _ => none

end Length

namespace Specifier

def converted? (specifier : Specifier) : Option CType :=
  let length := specifier.length
  match specifier.conversion with
  | .signed => length.integers?.map (fun pair => .scalar pair.1)
  | .unsigned =>
      length.integers?.map (fun pair => .scalar pair.2)
  | .real => length.real?.map .scalar
  | .count =>
      length.integers?.map (fun pair => .pointer (.scalar pair.1))
  | .character =>
      match length with
      | .usual => some (.scalar .char)
      | .long => some (.scalar .wideChar)
      | _ => none
  | .text =>
      match length with
      | .usual => some (.scalar .charPointer)
      | .long => some (.scalar .wideCharPointer)
      | _ => none
  | .address =>
      if length = .usual then some (.scalar .voidPointer)
      else none

def argumentTypes (specifier : Specifier) : List CType :=
  let star (isTaken : Bool) : List CType :=
    if isTaken then [.scalar .int] else []
  star specifier.takesWidth ++ star specifier.takesPrecision ++ specifier.converted?.toList

end Specifier

def argumentTypes (cs : List Char) : List CType := ((read? cs).map Specifier.argumentTypes).getD []

end Format

end CHeader
