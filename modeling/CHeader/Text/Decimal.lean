/-
  Decimals for binary real numbers.

  A real number is a whole number times a power of two. Of the decimals that are rounded to it when
  they are read, those with the fewest digits are taken, and of these the one that is nearest.

  Key definitions include:
    * `Decimal`
    * `Decimal.Binary`
    * `Decimal.shortest`
-/

namespace CHeader

-- Decimals

structure Decimal where
  digits : List Char
  power : Int
  deriving Inhabited, Repr

namespace Decimal

/- A whole number times a power of two, which is above zero;
  the numbers next to it may lie closer below. -/
structure Binary where
  whole : Nat
  power : Int
  isClose : Bool
  deriving Inhabited, Repr

/- The bits of a real number above zero as a whole number times a power of two. -/
def Binary.ofBits (bits : Nat) : Binary :=
  let fraction := bits % Nat.pow 2 52
  let exponent : Nat := bits / Nat.pow 2 52 % Nat.pow 2 11
  if exponent = 0 then
    { whole := fraction, power := -1074, isClose := false }
  else
    { whole := Nat.pow 2 52 + fraction,
      power := (exponent : Int) - 1075,
      isClose := fraction = 0 && exponent > 1 }

-- The interval that is rounded to a number

/- Three numbers over one divisor: a number and the ends of the interval that is rounded to it. -/
structure Interval where
  low : Nat
  value : Nat
  high : Nat
  divisor : Nat
  /- Whether the ends are rounded to the number as well. -/
  hasEnds : Bool
  deriving Inhabited, Repr

/- The interval of a number: half the way to the numbers next to it. -/
def Binary.interval (x : Binary) : Interval :=
  let power := x.power - 2
  let factor := Nat.pow 2 power.toNat
  { low := (4 * x.whole - (if x.isClose then 1 else 2)) * factor,
    value := 4 * x.whole * factor,
    high := (4 * x.whole + 2) * factor,
    divisor := Nat.pow 2 (-power).toNat,
    hasEnds := x.whole % 2 = 0 }

variable (i : Interval)

/- Multiply the numbers of an interval by a power of ten. -/
def Interval.scale (power : Int) : Interval :=
  let factor := Nat.pow 10 power.toNat
  { i with
    low := i.low * factor,
    value := i.value * factor,
    high := i.high * factor,
    divisor := i.divisor * Nat.pow 10 (-power).toNat }

def Interval.holds (n : Nat) : Bool :=
  let n := n * i.divisor
  if i.hasEnds then i.low ≤ n && n ≤ i.high
  else i.low < n && n < i.high

/- Of the two whole numbers next to the value of an interval, the one that lies in it; of both the
  nearer, and the even one if they are equally near. -/
def Interval.choose? : Option Nat :=
  let below := i.value / i.divisor
  let above := below + 1
  match i.holds below, i.holds above with
  | false, false => none
  | true, false => some below
  | false, true => some above
  | true, true =>
      let rest := 2 * (i.value % i.divisor)
      if rest < i.divisor then some below
      else if i.divisor < rest then some above
      else some (if below % 2 = 0 then below else above)

-- The fewest digits

def Interval.firstPower : Int :=
  if i.divisor ≤ i.value then
    ((Nat.toDigits 10 (i.value / i.divisor)).length : Int) - 1
  else
    let steps := (List.range 400).find? (fun k => i.divisor ≤ i.value * Nat.pow 10 (k + 1))
    Int.negSucc (steps.getD 0)

def Interval.withDigits? (count : Nat) : Option Decimal :=
  let shift := (count : Int) - 1 - i.firstPower
  (i.scale shift).choose?.map (fun n =>
    let digits := Nat.toDigits 10 n
    { digits := digits,
      power := (digits.length : Int) - 1 - shift })

/- Drop zeros at the end, but not the first digit. -/
def dropZeros : List Char → List Char
| [] => []
| first :: rest =>
    first :: (rest.reverse.dropWhile (· = '0')).reverse

/- The decimal with the fewest digits for a number. -/
def shortest (x : Binary) : Decimal :=
  let interval := x.interval
  match (List.range 17).findSome? (fun n => interval.withDigits? (n + 1)) with
  | some decimal =>
      { decimal with digits := dropZeros decimal.digits }
  | none => { digits := ['0'], power := 0 }

-- Layout

/- How numbers are laid out: which powers of ten of the first digit are written with a point in
  place, and with how many digits others are written at least. -/
structure Layout where
  least : Int
  most : Int
  powerDigits : Nat
  deriving Inhabited, Repr

/- Digits with a point after so many of them. -/
def pointed (digits : List Char) (before : Nat) : List Char :=
  let whole := digits.take before
  let zeros := List.replicate (before - digits.length) '0'
  let part := digits.drop before
  whole ++ zeros ++ ('.' :: (if part.isEmpty then ['0'] else part))

/- A power of ten after its mark. -/
def powerText (width : Nat) (power : Int) : List Char :=
  let digits := Nat.toDigits 10 power.natAbs
  'e' :: (if power < 0 then '-' else '+') :: (List.replicate (width - digits.length) '0' ++ digits)

def text (layout : Layout) (decimal : Decimal) : List Char :=
  let power := decimal.power
  if layout.least ≤ power && power ≤ layout.most then
    if power < 0 then
      '0' :: '.' :: (List.replicate ((-power).toNat - 1) '0' ++ decimal.digits)
    else pointed decimal.digits (power.toNat + 1)
  else
    let digits :=
      match decimal.digits with
      | first :: second :: rest =>
          first :: '.' :: second :: rest
      | digits => digits
    digits ++ powerText layout.powerDigits power

end Decimal

end CHeader
