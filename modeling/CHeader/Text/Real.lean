import CHeader.Text.Integer

/-
  Real numbers written as text.

  A number may stand between blanks and may carry a sign, a decimal point and a power of ten. Single
  underscores may stand between digits. Infinity and the number that is none are written as words.
-/

namespace CHeader

namespace Text

-- Digits

/- Whether every underscore stands between digits. -/
def underscoresFit : Bool → List Char → Bool
| _, [] => true
| afterDigit, '_' :: rest =>
    afterDigit && (match rest with
      | c :: _ => c.isDigit
      | [] => false) &&
      underscoresFit false rest
| _, c :: rest => underscoresFit c.isDigit rest

/- Digits of any script as ASCII digits. -/
def plainDigit (c : Char) : Char :=
  match decimalValue? c with
  | some n => Char.ofNat (48 + n)
  | none => c

def digitsValue (digits : List Char) : Nat := digits.foldl (fun n c => 10 * n + (c.toNat - 48)) 0

-- Values

/- Digits times a power of ten, rounded to the nearest real
  number. Powers beyond all real numbers are cut first. -/
def scaled (digits : List Char) (power : Int) : Float :=
  let value := digitsValue digits
  let top := power + (digits.length : Int)
  if value = 0 then 0.0
  else if top > 400 then Float.ofScientific 1 false 400
  else if top < -400 then 0.0
  else if power ≥ 0 then
    Float.ofScientific value false power.toNat
  else Float.ofScientific value true (-power).toNat

def readPower? : List Char → Option Int
| [] => some 0
| c :: rest =>
    if c = 'e' || c = 'E' then
      let (negative, digits) := takeSign rest
      if digits.isEmpty || !digits.all Char.isDigit then none
      else some (withSign negative (digitsValue digits))
    else none

def readUnsigned? (cs : List Char) : Option Float :=
  let word := (String.ofList cs).toLower
  if word = "inf" || word = "infinity" then
    some (1.0 / 0.0)
  else if word = "nan" then some (0.0 / 0.0)
  else
    let whole := cs.takeWhile Char.isDigit
    let rest := cs.dropWhile Char.isDigit
    let (part, rest) :=
      match rest with
      | '.' :: more =>
          (more.takeWhile Char.isDigit, more.dropWhile Char.isDigit)
      | _ => ([], rest)
    if whole.isEmpty && part.isEmpty then none
    else
      (readPower? rest).map (fun power =>
          scaled (whole ++ part) (power - (part.length : Int)))

def readReal? (s : String) : Option Float :=
  let cs := (dropEnds isNumberBlank s.toList).map plainDigit
  if !underscoresFit false cs then none
  else
    let (negative, digits) := takeSign cs
    (readUnsigned? (digits.filter (· ≠ '_'))).map (fun x => if negative then -x else x)

end Text

end CHeader
