import CHeader.Expr.Evaluate
import CHeader.Macro.Expand

/-
  Conditions of conditional groups.

  A condition is cut into lexemes; every identifier is replaced by its expansion if it is a macro
  and by zero if it is not, except after the word `defined`. The result is read and evaluated as a
  constant expression.
-/

namespace CHeader

namespace Source

-- The word defined

/- The text inside the parentheses after the word `defined` at the start of a text, with the number
  of characters that all of it takes. -/
def definedCall? (cs : List Char) : Option (List Char × Nat) :=
  if Text.startsWith cs "defined".toList then
    let rest := cs.drop 7
    let spaces := rest.takeWhile Text.isSpace
    match rest.dropWhile Text.isSpace with
    | '(' :: inside =>
        let name := inside.takeWhile (fun c => c ≠ ')' && c ≠ '\n')
        match inside.drop name.length with
        | ')' :: _ =>
            some (name, 7 + spaces.length + name.length + 2)
        | _ => none
    | _ => none
  else none

/- Take the parentheses away after the word `defined`; the
  number counts characters that are already used. -/
def openDefinedFrom : Nat → List Char → List Char
| _, [] => []
| skip + 1, _ :: rest => openDefinedFrom skip rest
| 0, c :: rest =>
    match definedCall? (c :: rest) with
    | some (name, size) =>
        "defined ".toList ++ name ++ openDefinedFrom (size - 1) rest
    | none => c :: openDefinedFrom 0 rest

def openDefined (s : String) : String := String.ofList (openDefinedFrom 0 s.toList)

-- Conditions

def substituteName (limit : Nat) (ahead : String → Run String) (lexeme : String) : Run String := do
  match Text.isIdentifier? lexeme with
  | none => throw .outOfRange
  | some false => return lexeme
  | some true =>
      if (← getTable).contains lexeme then
        Macro.expandLine limit ahead lexeme
      else return "0"

/- Replace the identifiers of a condition. The flag tells
  that the next lexeme follows the word `defined`. -/
def substituteNames (limit : Nat) (ahead : String → Run String) (afterDefined : Bool) :
    List String → Run (List String)
| [] => pure []
| lexeme :: rest => do
    if afterDefined then
      return lexeme :: (← substituteNames limit ahead false rest)
    else if lexeme = "defined" then
      return lexeme :: (← substituteNames limit ahead true rest)
    else
      let text ← substituteName limit ahead lexeme
      return text :: (← substituteNames limit ahead false rest)

/- Whether the condition on a directive line holds: its value is anything but the number zero. -/
def conditionHolds (limit : Nat) (ahead : String → Run String) (line : String) : Run Bool := do
  let condition := openDefined (Directive.operandOf line)
  let parts ←
    substituteNames limit ahead false (Expr.lexemes condition)
  let table ← getTable
  let (value, _) ← lift (Expr.evaluateAll table.contains (Expr.lexemes (Text.concat parts)))
  return value ≠ .int 0

end Source

end CHeader
