import CHeader.Text.Trim

/-
  Lexemes of constant expressions.

  A lexeme is the word `defined`, a call that reaches to the last closing parenthesis of its line, a
  run of word characters, quotes and backslashes, or an operator. Any other character is passed
  over.
-/

namespace CHeader

namespace Expr

-- Single lexemes

def isLexemeChar (c : Char) : Bool := Text.isWord c || c = '\'' || c = '\\'

/- The number of characters up to and with the last closing parenthesis, if there is one. -/
def lastClose? : List Char → Option Nat
| [] => none
| c :: rest =>
    match lastClose? rest with
    | some n => some (n + 1)
    | none => if c = ')' then some 1 else none

def callLength? (cs : List Char) : Option Nat :=
  let word := cs.takeWhile Text.isWord
  match word, cs.dropWhile Text.isWord with
  | _ :: _, '(' :: rest =>
      (lastClose? (rest.takeWhile (· ≠ '\n'))).map (· + word.length + 1)
  | _, _ => none

/- Operators, longer ones before those they begin with. -/
def operators : List String :=
  ["(", ")", "!=", "==", "||", "&&", "##", "#", "<<", ">>",
    "&", "^", "|", "~", "%", ">=", ">", "<=", "<", "+", "-", "*", "/", "!"]

def operatorLength? (cs : List Char) : Option Nat :=
  (operators.find? (fun op => Text.startsWith cs op.toList)).map String.length

def lexemeLength? (cs : List Char) : Option Nat :=
  if Text.startsWith cs "defined".toList then some 7
  else
    match callLength? cs with
    | some n => some n
    | none =>
        match cs.takeWhile isLexemeChar with
        | [] => operatorLength? cs
        | word => some word.length

-- Whole texts

/- The lexemes of a text from left to right, with the number
  of characters that belong to one already taken. -/
def lexemesFrom : Nat → List Char → List String
| _, [] => []
| skip + 1, _ :: rest => lexemesFrom skip rest
| 0, c :: rest =>
    match lexemeLength? (c :: rest) with
    | some n =>
        String.ofList ((c :: rest).take n) :: lexemesFrom (n - 1) rest
    | none => lexemesFrom 0 rest

def lexemes (s : String) : List String := lexemesFrom 0 s.toList

end Expr

end CHeader
