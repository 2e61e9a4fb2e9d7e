import CHeader.Macro.Define

/-
  Macro tables written as definitions.

  Every macro with an open name becomes one definition line. The operands of an operator in a body
  are written by the operator whose name stands before them.
-/

namespace CHeader

namespace Macro

-- Operators

/- The name in the place of an argument as written. -/
def rawPlaceName (s : String) : String := Text.inner 4 s

/- The texts of a piece; a plain text counts by characters. -/
def pieceTexts : Piece → List String
| .text s => s.toList.map String.singleton
| .operands parts => parts

def renderOperator (operator : String) (operands : List String) : Except Fault String :=
  if operator = quoteName then
    .ok (Text.concat (operands.map (fun operand => "#" ++ rawPlaceName operand ++ " ")))
  else if operator = joinName then
    match operands with
    | [] => .error .outOfRange
    | first :: rest =>
        .ok (rawPlaceName first ++ " " ++ Text.concat (rest.map (fun operand =>
            "## " ++ rawPlaceName operand)))
  else .error (.reservedName operator)

-- Bodies

/- The pieces of a body as they are written; plain text of a built-in macro counts by characters. -/
def writtenPieces : Body → List Piece
| .pieces list => list
| .plain s =>
    s.toList.map (fun c => .text (String.singleton c))

/-
  A body as text. An operator waits for its operands, which may be the first piece of the next
  macro; the operator that still waits at the end is part of the answer.
-/
def renderBody (waiting : Option String) (text : String) :
    List Piece → Except Fault (String × Option String)
| [] => .ok (text, waiting)
| piece :: rest =>
    match waiting with
    | some operator => do
        let more ← renderOperator operator (pieceTexts piece)
        renderBody none (text ++ more) rest
    | none =>
        match piece with
        | .operands _ => .error .wrongKind
        | .text s =>
            if isPlace s then
              renderBody none (text ++ placeName s) rest
            else if Text.hasStart s "__CPP" then
              renderBody (some s) text rest
            else renderBody none (text ++ s) rest

-- Tables

/- One definition line and the operator that still waits. -/
def renderEntry (table : Table) (waiting : Option String) (name : String) (meaning : Meaning) :
    Except Fault (String × Option String) := do
  match meaning with
  | .function =>
      let params ← table.params! name
      let body ← table.body! name
      let (text, waiting) ←
        renderBody waiting "" (writtenPieces body)
      let head := "#define " ++ name ++ "(" ++ Text.joinWith "," params.toList ++ ") "
      return (head ++ text, waiting)
  | .text s =>
      return ("#define " ++ name ++ " " ++ s, waiting)
  | .record => throw .wrongKind

def renderEntries (table : Table) (waiting : Option String) :
    List (String × Meaning) → Except Fault (List String)
| [] => .ok []
| (name, meaning) :: rest =>
    if Text.hasStart name "__CPP" then
      renderEntries table waiting rest
    else do
      let (line, waiting) ←
        renderEntry table waiting name meaning
      let lines ← renderEntries table waiting rest
      return line :: lines

def render (table : Table) : Except Fault String :=
  (renderEntries table none table.names).map (Text.joinWith "\n")

end Macro

end CHeader
