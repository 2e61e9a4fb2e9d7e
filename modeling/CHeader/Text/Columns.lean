import CHeader.Text.Decimal

/-
  Numbers and texts for the columns of a table.

  A real number is written with a fixed number of places. It is rounded from its exact value, and a
  half goes to the even neighbour.
-/

namespace CHeader

namespace Text

-- Widths

variable (width : Nat)

def fill (s : String) : String :=
  String.ofList (List.replicate (width - s.length) ' ')

def padRight (s : String) : String := s ++ fill width s

def padLeft (s : String) : String := fill width s ++ s

def cutTo (s : String) : String := String.ofList (s.toList.take width)

-- Places

/- A quotient rounded to the nearest whole number; a half goes to the even neighbour. -/
def roundHalfEven (above below : Nat) : Nat :=
  let whole := above / below
  let rest := 2 * (above % below)
  if rest < below then whole
  else if below < rest then whole + 1
  else whole + whole % 2

/- The number of units of a place in a real number above zero, which is given by its bits. -/
def unitsAt (places bits : Nat) : Nat :=
  let x := Decimal.Binary.ofBits bits
  roundHalfEven (x.whole * Nat.pow 2 x.power.toNat * Nat.pow 10 places) (Nat.pow 2 (-x.power).toNat)

def pointBefore (places units : Nat) : String :=
  let digits := Nat.toDigits 10 units
  let digits := List.replicate (places + 1 - digits.length) '0' ++ digits
  let before := digits.length - places
  String.ofList (if places = 0 then digits
    else digits.take before ++ '.' :: digits.drop before)

def fixed (places : Nat) (x : Float) : String :=
  let bits := x.toBits.toNat
  let sign := if Nat.pow 2 63 ≤ bits then "-" else ""
  if x.isNaN then "nan"
  else if x.isInf then sign ++ "inf"
  else
    sign ++ pointBefore places (unitsAt places (bits % Nat.pow 2 63))

/- The real number nearest to one with a number of places. -/
def roundTo (places : Nat) (x : Float) : Float :=
  let bits := x.toBits.toNat
  if x.isNaN || x.isInf then x
  else
    let size := Float.ofScientific (unitsAt places (bits % Nat.pow 2 63)) true places
    if Nat.pow 2 63 ≤ bits then -size else size

end Text

end CHeader
