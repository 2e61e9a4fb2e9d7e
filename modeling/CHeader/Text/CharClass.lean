import CHeader.Text.Ranges

/-
  Character classes used when C text is read.

  ASCII characters are classified by rule and all others by the boundary tables, so that a proof
  about ASCII text never looks at a table.
-/

namespace CHeader

namespace Text

-- Classes

variable (c : Char)

/- White space: the ASCII layout and separator characters and the spaces of other scripts. -/
def isSpace : Bool :=
  if c.toNat < 128 then
    c = ' ' || (9 ≤ c.toNat && c.toNat ≤ 13) || (28 ≤ c.toNat && c.toNat ≤ 31)
  else insideRanges 0 spaceRanges c.toNat

/- A blank between directive words: white space or the null character. -/
def isBlank : Bool := isSpace c || c = '\x00'

def isLetter : Bool :=
  if c.toNat < 128 then c.isAlpha
  else insideRanges 0 letterRanges c.toNat

def isLetterOrNumber : Bool :=
  if c.toNat < 128 then c.isAlphanum
  else
    insideRanges 0 letterRanges c.toNat || insideRanges 0 numberRanges c.toNat

def isWord : Bool := isLetterOrNumber c || c = '_'

def isPrintable : Bool :=
  if c.toNat < 128 then 32 ≤ c.toNat && c.toNat < 127
  else insideRanges 0 printableRanges c.toNat

def decimalValue? : Option Nat :=
  if c.toNat < 128 then
    if c.isDigit then some (c.toNat - 48) else none
  else if insideRanges 0 decimalRanges c.toNat then
    some ((c.toNat - rangeStart 0 decimalRanges c.toNat) % 10)
  else none

/- The value of a digit in bases up to thirty-six. -/
def digitValue? : Option Nat :=
  match decimalValue? c with
  | some value => some value
  | none =>
      if 'a' ≤ c ∧ c ≤ 'z' then some (c.toNat - 87)
      else if 'A' ≤ c ∧ c ≤ 'Z' then some (c.toNat - 55)
      else none

-- Whole texts

def isSpaceText (s : String) : Bool := !s.isEmpty && s.toList.all isSpace

/- Whether a text is an identifier; the empty text is neither and has no answer. -/
def isIdentifier? (s : String) : Option Bool :=
  match s.toList with
  | [] => none
  | first :: rest =>
      some ((isLetter first || first = '_') && (first :: rest).all isWord)

end Text

end CHeader
