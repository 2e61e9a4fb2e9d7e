import CHeader.Declaration.Cursor

/-
  Reading expressions.

  The parts of declarations nest in each other, so each step is given the readers of the parts
  inside it. A step calls one of these only after it has passed over a lexeme.

  Operands and operators of one level are first read in a row and then joined by the binding
  strengths of the operators.

  Key definitions include:
    * `Declaration.Readers`
    * `Declaration.joinOperands`
    * `Declaration.conditional`
-/

namespace CHeader

namespace Declaration

-- Readers

/- A declarator: the name it declares, if any, and the
  modifiers it puts on its base, the outermost first. -/
structure Declarator where
  name : Option String := none
  modifiers : List Modifier := []
  deriving Inhabited

structure Specifiers where
  storage : List String := []
  types : List Base := []
  functionWords : List String := []
  deriving Inhabited

/- The readers of the parts that nest in each other. -/
structure Readers where
  expression : Parse Expr
  assignment : Parse Expr
  conditional : Parse Expr
  operand : Parse (Expr × Bool)
  typeName : Parse TypeExpr
  specifiers : Bool → Parse Specifiers
  declarator : Bool → Bool → Parse Declarator
  initializer : Parse Unit
  statement : Parse Unit

def Readers.none : Readers where
  expression := refuse
  assignment := refuse
  conditional := refuse
  operand := refuse
  typeName := refuse
  specifiers := fun _ => refuse
  declarator := fun _ _ => refuse
  initializer := refuse
  statement := refuse

-- Binding strengths

def strength? : String → Option Nat
| "||" => some 1
| "&&" => some 2
| "|" => some 3
| "^" => some 4
| "&" => some 5
| "==" | "!=" => some 6
| ">" | ">=" | "<" | "<=" => some 7
| ">>" | "<<" => some 8
| "+" | "-" => some 9
| "*" | "/" | "%" => some 10
| _ => none

/- Join an operand to those waiting that bind at least as strongly as the limit. -/
def joinWaiting (limit : Nat) : List (Expr × String) → Expr → List (Expr × String) × Expr
| (left, op) :: waiting, right =>
    if limit ≤ (strength? op).getD 0 then
      joinWaiting limit waiting (.binary op left right)
    else ((left, op) :: waiting, right)
| [], right => ([], right)

def joinOperands (first : Expr) (row : List (String × Expr)) : Expr :=
  let step (state : List (Expr × String) × Expr) (next : String × Expr) :=
    let (waiting, left) := joinWaiting ((strength? next.1).getD 0) state.1 state.2
    ((left, next.1) :: waiting, next.2)
  let (waiting, last) := row.foldl step ([], first)
  (joinWaiting 0 waiting last).2

-- Operands

variable (readers : Readers)

/- A list of values in parentheses, once these are open. -/
def arguments : Parse Unit := do
  if ← accept ")" then return ()
  repeating () (fun _ => do
    let _ ← readers.assignment
    return ((), ← accept ","))
  expect ")"

def valueSuffixes (start : Expr) : Parse Expr :=
  repeating start (fun value => do
    match ← current with
    | .mark "[" =>
        advance
        let _ ← readers.expression
        expect "]"
        return (.unvalued .subscript, true)
    | .mark "(" =>
        advance
        arguments readers
        return (.unvalued .call, true)
    | .mark "." | .mark "->" =>
        advance
        match ← current with
        | .name _ | .typeName _ =>
            advance
            return (.unvalued .member, true)
        | _ => refuse
    | .mark "++" =>
        advance
        return (.unary "p++" value, true)
    | .mark "--" =>
        advance
        return (.unary "p--" value, true)
    | _ => return (value, false))

def isWide (text : String) : Bool := Text.hasStart text "L"

def quotedText (first : String) : Parse Expr :=
  repeating (.constant .string first) (fun value => do
    match ← current with
    | .constant .string text =>
        if isWide text = isWide first then
          advance
          return (value, true)
        else return (value, false)
    | _ => return (value, false))

def primary : Parse Expr := do
  match ← current with
  | .name text =>
      advance
      return .name text
  | .constant .string text =>
      advance
      quotedText text
  | .constant kind text =>
      advance
      return .constant kind text
  | .mark "(" =>
      advance
      let value ← readers.expression
      expect ")"
      return value
  | _ => refuse

def initialValues : Parse Unit := do
  expect "\x7b"
  let designators : Parse Bool := repeating false (fun found => do
      match ← current with
      | .mark "[" =>
          advance
          let _ ← readers.conditional
          expect "]"
          return (true, true)
      | .mark "." =>
          advance
          match ← current with
          | .name _ =>
              advance
              return (true, true)
          | _ => refuse
      | _ => return (found, false))
  repeating () (fun _ => do
    if ← designators then expect "="
    readers.initializer
    if ← accept "," then
      return ((), !(← atMark "\x7d"))
    else return ((), false))
  expect "\x7d"

/- Whether the token looked at opens a type in parentheses. -/
def atTypeInParentheses : Parse Bool := do
  if ← atMark "(" then
    return (← following).beginsType
  else return false

def typeInParentheses : Parse TypeExpr := do
  expect "("
  let type ← readers.typeName
  expect ")"
  return type

def typedLiteral : Parse Expr := do
  initialValues readers
  valueSuffixes readers (.unvalued .literal)

def frontOperators : List String := ["&", "*", "+", "-", "~", "!"]

/- A value that an operator in front belongs to, but not one that is turned into another type. -/
def narrowOperand : Parse Expr := do
  let (value, narrow) ← readers.operand
  if narrow then return value else refuse

def sizeOperand : Parse Expr := do
  if ← atTypeInParentheses then
    let type ← typeInParentheses readers
    if ← atMark "\x7b" then
      return .unary "sizeof" (← typedLiteral readers)
    else return .sizeofType type
  else return .unary "sizeof" (← narrowOperand readers)

/- An operand, and whether it is narrow: not turned into another type. -/
def operand : Parse (Expr × Bool) := do
  if ← atTypeInParentheses then
    let _ ← typeInParentheses readers
    if ← atMark "\x7b" then
      return (← typedLiteral readers, true)
    else
      let _ ← readers.operand
      return (.unvalued .cast, false)
  else
    match ← current with
    | .keyword "sizeof" =>
        advance
        return (← sizeOperand readers, true)
    | .mark "++" =>
        advance
        return (.unary "++" (← narrowOperand readers), true)
    | .mark "--" =>
        advance
        return (.unary "--" (← narrowOperand readers), true)
    | .mark text =>
        if frontOperators.contains text then
          advance
          let (value, _) ← readers.operand
          return (.unary text value, true)
        else
          return (← valueSuffixes readers (← primary readers), true)
    | _ =>
        return (← valueSuffixes readers (← primary readers), true)

-- Expressions

/- A conditional expression, and whether it is one narrow operand. -/
def conditionalOrOperand : Parse (Expr × Bool) := do
  let (first, narrow) ← operand readers
  let row : List (String × Expr) ←
    repeating [] (fun row => do
      match ← current with
      | .mark text =>
          if (strength? text).isSome then
            advance
            let (value, _) ← operand readers
            return (row ++ [(text, value)], true)
          else return (row, false)
      | _ => return (row, false))
  let value := joinOperands first row
  if ← accept "?" then
    let yes ← readers.expression
    expect ":"
    let no ← readers.conditional
    return (.conditional value yes no, false)
  else return (value, narrow && row.isEmpty)

def conditional : Parse Expr := do
  return (← conditionalOrOperand readers).1

def assignmentMarks : List String :=
  ["=", "^=", "*=", "/=", "%=", "+=", "-=", "<<=", ">>=", "&=", "|="]

def assignment : Parse Expr := do
  let (value, narrow) ← conditionalOrOperand readers
  match ← current with
  | .mark text =>
      if narrow && assignmentMarks.contains text then
        advance
        let _ ← readers.assignment
        return .unvalued .assignment
      else return value
  | _ => return value

def expression : Parse Expr := do
  let first ← assignment readers
  if ← atMark "," then
    repeating (.unvalued .sequence) (fun value => do
      if ← accept "," then
        let _ ← assignment readers
        return (value, true)
      else return (value, false))
  else return first

end Declaration

end CHeader
