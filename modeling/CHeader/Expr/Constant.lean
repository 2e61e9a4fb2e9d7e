import CHeader.Expr.Operand

/-
  Number and character constants of constant expressions.

  Decimal numbers may end in size and sign letters; only an unsigned mark on a decimal number
  changes its kind. Character constants are worth the code of the character.
-/

namespace CHeader

namespace Expr

-- Size and sign letters

/- Letters whose capital form holds an `L`. -/
def isSizeLetter (c : Char) : Bool := c = 'L' || c = 'l' || c.toNat = 0xFB02 || c.toNat = 0xFB04

/- Letters that may follow a number. -/
def isSuffixLetter (c : Char) : Bool := c = 'u' || c = 'U' || c = 'l' || c = 'L'

/- An unsigned number with its size: one for plain, two for long and three for long long. -/
def readUnsigned (s : String) : Except Fault (Int × Int) :=
  let cs := Text.dropEnds Text.isSpace s.toList
  let longs := cs.countP isSizeLetter
  let digits := String.ofList (Text.dropEnd isSuffixLetter cs)
  if 2 < longs then .error (.invalidNumber digits)
  else
    match Text.readInteger? digits with
    | none => .error .badValue
    | some n =>
        .ok (n % Nat.pow 2 (if longs = 0 then 32 else 64), (longs : Int) + 1)

-- Shapes of constants

/- Drop one line feed at the end, which every shape of a number allows. -/
def dropFinalNewline (cs : List Char) : List Char :=
  if cs.getLast? = some '\n' then cs.dropLast else cs

/- Whether the letters after a number are a size and a sign mark, each at most once. -/
def isSuffix (cs : List Char) : Bool :=
  cs.all isSuffixLetter && cs.countP (fun c => c = 'u' || c = 'U') ≤ 1 &&
    cs.countP (fun c => c = 'l' || c = 'L') ≤ 1

def isHexDigit (c : Char) : Bool := c.isDigit || ('a' ≤ c && c ≤ 'f') || ('A' ≤ c && c ≤ 'F')

def isOctalDigit (c : Char) : Bool := '0' ≤ c && c ≤ '7'

/- A decimal number cut into sign and digits and suffix. -/
def decimal? (cs : List Char) : Option (List Char × List Char) :=
  let (signs, unsignedPart) :=
    match cs with
    | '+' :: rest => (['+'], rest)
    | '-' :: rest => (['-'], rest)
    | _ => ([], cs)
  let digits := unsignedPart.takeWhile Char.isDigit
  let suffix := dropFinalNewline (unsignedPart.dropWhile Char.isDigit)
  if !digits.isEmpty && isSuffix suffix then
    some (signs ++ digits, suffix)
  else none

def hexadecimal? : List Char → Option (List Char)
| '0' :: mark :: rest =>
    let digits := rest.takeWhile isHexDigit
    let suffix := dropFinalNewline (rest.dropWhile isHexDigit)
    if (mark = 'x' || mark = 'X') && !digits.isEmpty && isSuffix suffix then
      some digits
    else none
| _ => none

def quotedWord? : List Char → Option Char
| '\'' :: c :: '\'' :: rest =>
    if Text.isWord c then some c
    else quotedWord? (c :: '\'' :: rest)
| _ :: rest => quotedWord? rest
| [] => none

def escapeCode? : Char → Option Nat
| 'a' => some 7
| 'b' => some 8
| 'f' => some 12
| 'n' => some 10
| 'r' => some 13
| 't' => some 9
| 'v' => some 11
| '\\' => some 92
| '\'' => some 39
| '"' => some 34
| '?' => some 63
| _ => none

def quotedEscape? : List Char → Option Nat
| '\'' :: '\\' :: c :: '\'' :: rest =>
    match escapeCode? c with
    | some code => some code
    | none => quotedEscape? ('\\' :: c :: '\'' :: rest)
| _ :: rest => quotedEscape? rest
| [] => none

/- Digits of a class between an opening and a quote. -/
def quotedDigits? (isDigitHere : Char → Bool) (cs : List Char) : Option (List Char) :=
  let digits := cs.takeWhile isDigitHere
  match digits, cs.dropWhile isDigitHere with
  | _ :: _, '\'' :: _ => some digits
  | _, _ => none

def quotedCode? : List Char → Option Nat
| '\'' :: '\\' :: 'x' :: rest =>
    (quotedDigits? isHexDigit rest).bind (Text.readInBase? 16)
| '\'' :: '\\' :: rest =>
    (quotedDigits? isOctalDigit rest).bind (Text.readInBase? 8)
| _ => none

-- Reading

/- A lexeme with the integer kind of the number it stands for, which is zero if it stands for none. -/
structure Constant where
  kind : Int
  value : Operand
  deriving DecidableEq, Repr, Inhabited

namespace Constant

def signed (n : Int) : Constant := ⟨1, .int n⟩

/- The character constants, or the lexeme as it stands. -/
def readQuoted (s : String) : Constant :=
  let cs := s.toList
  match quotedWord? cs with
  | some c => signed c.toNat
  | none =>
      match quotedEscape? cs with
      | some code => signed code
      | none =>
          match quotedCode? cs with
          | some code => signed code
          | none => ⟨0, .text s⟩

def read (s : String) : Except Fault Constant :=
  match decimal? s.toList with
  | some (digits, suffix) =>
      if suffix.any (fun c => c = 'u' || c = 'U') then
        (readUnsigned s).map (fun (n, size) => ⟨size * 2, .int n⟩)
      else
        match Text.readLiteral? (String.ofList digits) with
        | some n => .ok (signed n)
        | none => .error .badValue
  | none =>
      match hexadecimal? s.toList with
      | some digits =>
          match Text.readInBase? 16 digits with
          | some n => .ok (signed n)
          | none => .error .badValue
      | none => .ok (readQuoted s)

end Constant

end Expr

end CHeader
