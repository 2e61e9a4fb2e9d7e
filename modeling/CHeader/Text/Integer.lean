import CHeader.Text.Trim

/-
  Whole numbers written as text.

  A number may stand between blanks, may carry a sign and may have single underscores between its
  digits. Digits of any script are read. In base zero the text itself names the base by `0x`, `0o`
  or `0b`, and a decimal number other than zero has no leading zero.
-/

namespace CHeader

namespace Text

-- Digits

/-
  Digits in a base with single underscores between them.
  The flag tells whether an underscore may come next.
-/
def readDigits (base : Nat) (value : Nat) (count : Nat) (afterDigit : Bool) :
    List Char → Option (Nat × Nat)
| [] => if afterDigit then some (value, count) else none
| '_' :: rest =>
    if afterDigit then
      match rest with
      | [] => none
      | _ => readDigits base value count false rest
    else none
| c :: rest =>
    match digitValue? c with
    | some digit =>
        if digit < base then
          readDigits base (value * base + digit) (count + 1) true rest
        else none
    | none => none

/- The longest decimal text that is read as a number. -/
def decimalDigitLimit : Nat := 4300

def isNumberBlank (c : Char) : Bool :=
  if c.toNat < 128 then
    c = ' ' || (9 ≤ c.toNat && c.toNat ≤ 13)
  else isSpace c

def takeSign : List Char → Bool × List Char
| '-' :: rest => (true, rest)
| '+' :: rest => (false, rest)
| cs => (false, cs)

def readMagnitude? (base : Nat) (cs : List Char) : Option Nat :=
  match readDigits base 0 0 false cs with
  | some (value, count) =>
      if base = 10 ∧ decimalDigitLimit < count then none
      else some value
  | none => none

def withSign (negative : Bool) (n : Nat) : Int :=
  if negative then -(n : Int) else n

-- Numbers

def readInteger? (s : String) : Option Int :=
  let (negative, digits) := takeSign (dropEnds isNumberBlank s.toList)
  (readMagnitude? 10 digits).map (withSign negative)

/- The text of a number in base ten, unless it is longer than a text that is read. -/
def writeInteger? (n : Int) : Option String :=
  if decimalDigitLimit < n.natAbs.repr.length then none
  else some (toString n)

/- Drop one underscore that follows a base mark. -/
def dropUnderscore : List Char → List Char
| '_' :: rest => rest
| cs => cs

/- Digits whose base is named by the text itself. -/
def readMarked? : List Char → Option Nat
| '0' :: mark :: rest =>
    if mark = 'x' ∨ mark = 'X' then
      readMagnitude? 16 (dropUnderscore rest)
    else if mark = 'o' ∨ mark = 'O' then
      readMagnitude? 8 (dropUnderscore rest)
    else if mark = 'b' ∨ mark = 'B' then
      readMagnitude? 2 (dropUnderscore rest)
    else
      match readMagnitude? 10 ('0' :: mark :: rest) with
      | some 0 => some 0
      | _ => none
| cs => readMagnitude? 10 cs

/- Read a number whose base is named by the text itself. -/
def readLiteral? (s : String) : Option Int :=
  let (negative, digits) := takeSign (dropEnds isNumberBlank s.toList)
  (readMarked? digits).map (withSign negative)

def readInBase? (base : Nat) (cs : List Char) : Option Nat := readMagnitude? base cs

end Text

end CHeader
