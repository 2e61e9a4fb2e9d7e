import CHeader.Text.CharClass

/-
  Quoted forms of text and of bytes.

  The mark is a single quote, unless the text holds single quotes and no double ones. The mark and
  the backslash are written after a backslash, as are the tabulator and the ends of lines. Other
  characters that cannot be shown are written by their numbers.
-/

namespace CHeader

namespace Text

-- Numbers of characters

/- A number in base sixteen with at least so many digits. -/
def hexDigits (width n : Nat) : List Char :=
  let digits := Nat.toDigits 16 n
  List.replicate (width - digits.length) '0' ++ digits

def numbered (n : Nat) : List Char :=
  if n < 0x100 then '\\' :: 'x' :: hexDigits 2 n
  else if n < 0x10000 then '\\' :: 'u' :: hexDigits 4 n
  else '\\' :: 'U' :: hexDigits 8 n

-- Quotes

def quoteMark (cs : List Char) : Char :=
  if cs.contains '\'' && !cs.contains '"' then '"' else '\''

/- A character inside quotes; some are shown and the others are written by their numbers. -/
def quotedChar (isShown : Char → Bool) (mark c : Char) : List Char :=
  if c = mark || c = '\\' then ['\\', c]
  else if c = '\t' then ['\\', 't']
  else if c = '\n' then ['\\', 'n']
  else if c = '\r' then ['\\', 'r']
  else if isShown c then [c]
  else numbered c.toNat

def quotedChars (isShown : Char → Bool) (cs : List Char) : List Char :=
  let mark := quoteMark cs
  mark :: cs.flatMap (quotedChar isShown mark) ++ [mark]

def quoted (s : String) : String := String.ofList (quotedChars isPrintable s.toList)

/- The quoted form of bytes: the plain characters among them are shown. -/
def quotedBytes (bytes : List UInt8) : String :=
  String.ofList ('b' :: quotedChars (fun c => isPrintable c && c.toNat < 128)
      (bytes.map (fun b => Char.ofNat b.toNat)))

end Text

end CHeader
