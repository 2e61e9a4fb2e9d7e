import CHeader.Macro.Table
import CHeader.Source.Directive

/-
  Definitions of macros.

  A definition names a macro; an opening parenthesis right after the name makes it function-like. In
  the body of a function-like macro a parameter becomes a place for its argument, a number sign
  before a parameter quotes the argument as it is written, and two number signs join the pieces on
  both sides.

  Key definitions include:
    * `Macro.Definition`
    * `Macro.Definition.ofText?`
    * `Macro.bodyStrands`
-/

namespace CHeader

namespace Macro

-- Shape of a definition

structure Definition where
  name : String
  paramText : Option (List Char)
  body : List Char
  deriving DecidableEq, Repr

/- The text between parentheses at the start of a text, and the text after it. -/
def takeParamText? : List Char → Option (List Char × List Char)
| '(' :: rest =>
    match rest.dropWhile (· ≠ ')') with
    | _ :: after => some (rest.takeWhile (· ≠ ')'), after)
    | [] => none
| _ => none

/- The definition in a text: it starts with the first word, and the body ends with the line. -/
def Definition.ofText? (s : String) : Option Definition :=
  let cs := s.toList.dropWhile (!Text.isWord ·)
  let name := cs.takeWhile Text.isWord
  let after := cs.dropWhile Text.isWord
  let bodyOf (text : List Char) := (text.dropWhile Text.isSpace).takeWhile (· ≠ '\n')
  if name.isEmpty then none
  else
    match takeParamText? after with
    | some (params, rest) =>
        some ⟨String.ofList name, some params, bodyOf rest⟩
    | none => some ⟨String.ofList name, none, bodyOf after⟩

def paramNames (params : List Char) : List String :=
  (Text.splitOnChar ',' params).map (fun field =>
      String.ofList (Text.dropEnds Text.isSpace field))

-- Strands of a body

/- The number of characters after an opening quote up to and with the closing one, which follows at
  least one character and no backslash. -/
def closingQuote? : List Char → Option Nat
| c :: '"' :: rest =>
    if c ≠ '\\' then some 2
    else (closingQuote? ('"' :: rest)).map (· + 1)
| _ :: rest => (closingQuote? rest).map (· + 1)
| [] => none

/- Characters between words, quotes and number signs. -/
def isFiller (c : Char) : Bool := c ≠ '"' && c ≠ '#' && !Text.isWord c

/- The length of the strand at the start of a body, if the body starts with one. -/
def bodyStrandLength? (c : Char) (rest : List Char) : Option Nat :=
  if c = '"' then
    match closingQuote? rest with
    | some n => some (n + 1)
    | none =>
        if rest.head? = some '"' then some 2 else none
  else if Text.isWord c then
    some ((rest.takeWhile Text.isWord).length + 1)
  else if c = '#' then
    if rest.head? = some '#' then some 2 else some 1
  else some ((rest.takeWhile isFiller).length + 1)

/- The strands of a body, with the number of characters that belong to one already taken. -/
def bodyStrandsFrom : Nat → List Char → List String
| _, [] => []
| skip + 1, _ :: rest => bodyStrandsFrom skip rest
| 0, c :: rest =>
    match bodyStrandLength? c rest with
    | some n =>
        String.ofList ((c :: rest).take n) :: bodyStrandsFrom (n - 1) rest
    | none => bodyStrandsFrom 0 rest

def bodyStrands (body : List Char) : List String := bodyStrandsFrom 0 body

-- Places for arguments

/- The place of the expanded argument of a parameter. -/
def place (name : String) : String := "$\x7b" ++ name ++ "\x7d"

/- The place of the argument of a parameter as written. -/
def rawPlace (name : String) : String := place ("__" ++ name)

def isPlace (s : String) : Bool := Text.hasStart s "$\x7b"

def placeName (s : String) : String := Text.inner 2 s

-- Compilation of a body

/-
  The state while a body is compiled: its pieces, the index of the operands of the joining operator
  that is still open, and the number of operands since its last sign.
-/
structure Compiler where
  pieces : Array Piece
  joining : Option Nat := none
  operandCount : Nat := 0
  deriving Repr, Inhabited

namespace Compiler

variable (state : Compiler)

variable (index : Nat)

def piece : Piece := state.pieces.getD index (.text "")

def put (piece : Piece) : Compiler :=
  { state with pieces := state.pieces.setIfInBounds index piece }

def addOperand (operand : String) : Compiler :=
  match state.piece index with
  | .operands parts =>
      state.put index (.operands (parts ++ [operand]))
  | .text _ => state

def isSpacePiece : Piece → Except Fault Bool
| .text s => .ok (Text.isSpaceText s)
| .operands _ => .error .missingPart

/- Blank the white space pieces before a position, counted from one; the answer is the position of
  the piece that ends them, or zero. -/
def blankBefore (state : Compiler) : Nat → Except Fault (Compiler × Nat)
| 0 => .ok (state, 0)
| position + 1 => do
    if ← isSpacePiece (state.piece position) then
      (state.put position (.text "")).blankBefore position
    else return (state, position + 1)

/- The index of the first piece at or after a position that is not white space; at most the given
  number are looked at. -/
def spacesEnd (state : Compiler) (index : Nat) : Nat → Except Fault Nat
| 0 => .ok index
| count + 1 => do
    if index < state.pieces.size then
      if ← isSpacePiece (state.piece index) then
        state.spacesEnd (index + 1) count
      else return index
    else return index

/- Blank the pieces between two positions. -/
def blankRange (start stop : Nat) : Compiler :=
  (List.range (stop - start)).foldl (fun state offset => state.put (start + offset) (.text ""))
    state

/-
  Count the operands of the open joining operator. The second one after a sign is no operand any
  more and closes the operator.
-/
def countOperand (item : Piece) : Except Fault Compiler :=
  match state.joining with
  | none => .ok state
  | some _ =>
      match item with
      | .operands _ => .error .missingPart
      | .text s =>
          if s = "" ∨ Text.isSpaceText s then .ok state
          else if s = "##" then
            .ok { state with operandCount := 0 }
          else if 1 ≤ state.operandCount then
            .ok { state with joining := none, operandCount := 0 }
          else
            .ok { state with
              operandCount := state.operandCount + 1 }

/-
  A joining sign takes the piece before it as first operand, unless an operator is open already.
  Before the first piece stands the last one.
-/
def joinSign : Except Fault Compiler := do
  let (state, position) ←
    (state.put index (.text "")).blankBefore index
  let target :=
    if position = 0 then state.pieces.size - 1
    else position - 1
  let state :=
    match state.piece target with
    | .text s =>
        if isPlace s then
          state.put index (.operands [rawPlace (placeName s)])
        else if state.joining.isNone then
          state.put index (.operands [s])
        else state
    | .operands parts =>
        if state.joining.isNone then
          state.put index (.operands parts)
        else state
  let state :=
    if state.joining.isNone then
      { state.put target (.text joinName) with
        joining := some index }
    else state
  let stop ←
    state.spacesEnd (index + 1) state.pieces.size
  return state.blankRange (index + 1) stop

def quoteSign (params : List String) (state : Compiler) (index : Nat) : Except Fault Compiler := do
  let stop ←
    state.spacesEnd (index + 1) state.pieces.size
  if stop < state.pieces.size then
    match state.piece stop with
    | .text s =>
        if params.contains s then
          let state := state.put index (.text quoteName)
          let state := state.blankRange (index + 1) stop
          return state.put stop (.operands [rawPlace s])
        else return state
    | .operands _ => return state
  else return state

def step (params : List String) (state : Compiler) (index : Nat) : Except Fault Compiler := do
  let item := state.piece index
  let state ← state.countOperand item
  match item with
  | .operands parts =>
      match state.joining with
      | some _ => throw .missingPart
      | none => pure (state.put index (.operands parts))
  | .text s =>
      if s = "##" then state.joinSign index
      else if s = "#" then quoteSign params state index
      else
        match state.joining with
        | some target =>
            if params.contains s then
              return (state.addOperand target (rawPlace s)).put index (.text "")
            else if s ≠ "" then
              return (state.addOperand target s).put index (.text "")
            else return state
        | none =>
            if params.contains s then
              return state.put index (.text (place s))
            else return state

end Compiler

def compileBody (params : List String) (strands : List String) : Except Fault (List Piece) := do
  let start : Compiler := { pieces := (strands.map Piece.text).toArray }
  let state ←
    (List.range strands.length).foldlM (Compiler.step params) start
  return state.pieces.toList.filter (· ≠ .text "")

/-
  Define a macro. A function-like macro has its name in the table also if there are no records for
  its parts, and its parameters also if its body cannot be compiled.
-/
def define (line : String) (table : Table) : Table × Except Fault Unit :=
  match Definition.ofText? (Source.Directive.operandOf line) with
  | none => (table, .error .outOfRange)
  | some definition =>
      match definition.paramText with
      | none =>
          (table.setText definition.name (String.ofList definition.body), .ok ())
      | some paramText =>
          let params := paramNames paramText
          let table := (table.set definition.name .function).openRecords
          match table.checkRecord paramsName with
          | .error fault => (table, .error fault)
          | .ok _ =>
              let table := table.setParams definition.name (.names params)
              let body := do
                let pieces ← compileBody params (bodyStrands definition.body)
                table.checkRecord bodiesName
                return Body.pieces pieces
              match body with
              | .error fault => (table, .error fault)
              | .ok body =>
                  (table.setBody definition.name body, .ok ())

end Macro

end CHeader
