import CHeader.Expr.Constant
import CHeader.Expr.Lexeme

/-
  Evaluation of constant expressions by operator strength.

  A token is read ahead. A prefix operator takes an operand of its own strength; a binary operator
  is applied as long as it is stronger than the one on its left. Once a logical operator is decided
  its operands are read and not computed. Operands of different integer kinds are brought to the
  stronger kind, except for shifts.

  Every step returns the items that it leaves together with the fact that they are no more than it
  was given, so the evaluation ends by the number of items.

  Key definitions include:
    * `Expr.strength`
    * `Expr.Progress`
    * `Expr.evaluate`
-/

namespace CHeader

namespace Expr

-- Operator strength

def BinaryOp.strength : BinaryOp → Int
| mul | div | mod => 50
| add | sub => 47
| shiftRight | shiftLeft => 46
| gt | ge | lt | le => 45
| eq | ne => 44
| bitAnd => 43
| bitXor => 42
| bitOr => 41
| logicalAnd => 40
| logicalOr => 20

/- The strength of a token that follows an operand; tokens that are no operators have none. -/
def strength : Operand → Int
| .int _ => 0
| .text s =>
    if s = "defined" then 70
    else if s = "!" ∨ s = "~" then 60
    else
      match BinaryOp.ofText? s with
      | some op => op.strength
      | none => 0

/- The strength from which the right operand of an operator
  is taken; logical operators of equal strength join. -/
def rightStrength (op : Operand) (strengthHere : Int) : Int :=
  if (op = .text "&&" ∨ op = .text "||") ∧ strength op = strengthHere then
    strengthHere - 1
  else strength op

/- Bring both operands to the stronger of their kinds. -/
def balance (op : Operand) (kind itemKind : Int) (left right : Operand) :
    Except Fault (Operand × Operand) :=
  if op = .text "<<" ∨ op = .text ">>" then .ok (left, right)
  else if itemKind < kind then
    if 0 < kind then
      (toUnsigned kind right).map (fun r => (left, r))
    else .ok (left, right)
  else if kind < itemKind then
    if 0 < itemKind then
      (toUnsigned itemKind left).map (fun l => (l, right))
    else .ok (left, right)
  else .ok (left, right)

-- Steps

/- A value, the token read ahead, and the items left, which are at most as many as given. -/
structure Progress (size : Nat) where
  value : Operand
  token : Operand
  rest : List String
  bounded : rest.length ≤ size

namespace Progress

/- The same step seen from more items. -/
def widen {m n : Nat} (step : Progress m) (h : m ≤ n) : Progress n :=
  ⟨step.value, step.token, step.rest, Nat.le_trans step.bounded h⟩

end Progress

/- Take the token after a closing parenthesis. -/
def closeParen {size : Nat} (step : Progress size) : Except Fault (Progress size) :=
  if step.token = .text ")" then
    match h : step.rest with
    | [] => .ok ⟨step.value, .text "", [], Nat.zero_le _⟩
    | item :: rest =>
        .ok ⟨step.value, .text item, rest, by
          have hb := step.bounded
          rw [h, List.length_cons] at hb
          omega⟩
  else .error (.unexpectedToken step.token.spelling)

def definedOperand (isDefined : String → Bool) : Operand → Bool
| .text s => isDefined s
| .int _ => false

mutual

/-
  Evaluate an expression whose first token is given, or taken from the items if it is the empty
  text, up to an operator that is not stronger than the given strength.
-/
def evaluate (isDefined : String → Bool) (token : Operand) (strengthHere : Int) (stopped : Bool)
    (kind : Int) (items : List String) : Except Fault (Progress items.length) :=
  if token = .text "" then
    match items with
    | [] =>
        .ok ⟨token, token, [], Nat.le_refl _⟩
    | item :: rest => do
        let first ← Constant.read item
        let step ← evaluateFrom isDefined strengthHere false
          stopped first.kind first.value first.value rest
        return step.widen (Nat.le_succ _)
  else
    evaluateFrom isDefined strengthHere false stopped kind token token items
termination_by 3 * items.length + 1

/-
  Go on with an expression. Before the first operand is complete the token is a prefix operator or
  an operand; afterwards it is a binary operator.
-/
def evaluateFrom (isDefined : String → Bool) (strengthHere : Int) (applying : Bool) (stopped : Bool)
    (kind : Int) (left token : Operand) (items : List String) :
    Except Fault (Progress items.length) :=
  match items with
  | [] => .ok ⟨left, token, [], Nat.le_refl _⟩
  | item :: rest => do
      let next ← Constant.read item
      let settled := token = .text "||" ∧ left ≠ .int 0
      let stopped := stopped || (token = .text "&&" ∧ left = .int 0) || settled
      let left := if settled then .int 1 else left
      if applying then
        let right ← evaluate isDefined next.value (rightStrength token strengthHere) stopped
          next.kind rest
        have hRight := right.bounded
        if stopped then
          if strength right.token ≤ strengthHere then
            return ⟨left, right.token, right.rest, by
              simp only [List.length_cons]; omega⟩
          else
            let step ← evaluateFrom isDefined strengthHere
              true stopped kind left right.token right.rest
            return step.widen (by
              simp only [List.length_cons]; omega)
        else
          let (l, r) ← balance token kind next.kind left right.value
          let applied ← binaryStep isDefined token l r right.rest
          have hApplied := applied.bounded
          if strength right.token ≤ strengthHere then
            return ⟨applied.value, right.token, applied.rest,
              by simp only [List.length_cons]; omega⟩
          else
            let step ← evaluateFrom isDefined strengthHere
              true stopped kind applied.value right.token
              applied.rest
            return step.widen (by
              simp only [List.length_cons]; omega)
      else
        let step ← unaryStep isDefined token next rest
        have hStep := step.bounded
        let token :=
          if step.token = .text "" then next.value
          else step.token
        if strengthHere < strength token then
          let more ← evaluateFrom isDefined strengthHere true
            stopped kind step.value token step.rest
          return more.widen (by
            simp only [List.length_cons]; omega)
        else
          return ⟨step.value, token, step.rest, by
            simp only [List.length_cons]; omega⟩
termination_by 3 * items.length
decreasing_by
  all_goals simp_wf
  all_goals omega

/-
  The value of a prefix operator whose operand begins with the next token. A token that is no prefix
  operator is an operand by itself and leaves the next token alone.
-/
def unaryStep (isDefined : String → Bool) (op : Operand) (next : Constant) (items : List String) :
    Except Fault (Progress items.length) :=
  match op with
  | .text "defined" => do
      let step ← evaluate isDefined next.value 70 false next.kind items
      return { step with
        value := .ofBool (definedOperand isDefined step.value) }
  | .text "!" => do
      let step ← evaluate isDefined next.value 60 false next.kind items
      return { step with value := .ofBool !step.value.truth }
  | .text "~" => do
      let step ← evaluate isDefined next.value 60 false next.kind items
      let value ← step.value.complement
      return { step with value := value }
  | .text "+" =>
      evaluate isDefined next.value 60 false next.kind items
  | .text "-" => do
      let step ← evaluate isDefined next.value 60 false next.kind items
      let value ← step.value.negate
      return { step with value := value }
  | .text "(" => do
      let step ← evaluate isDefined next.value 0 false next.kind items
      closeParen step
  | op => .ok ⟨op, .text "", items, Nat.le_refl _⟩
termination_by 3 * items.length + 2

/-
  The value of an operator between two operands. The prefix operators `defined` and `!` drop the
  left operand and go on reading from the right one.
-/
def binaryStep (isDefined : String → Bool) (op left right : Operand) (items : List String) :
    Except Fault (Progress items.length) :=
  match op with
  | .text "defined" => do
      let step ← evaluate isDefined right 70 false 0 items
      return { step with
        value := .ofBool (definedOperand isDefined step.value) }
  | .text "!" => do
      let step ← evaluate isDefined right 60 false 0 items
      return { step with value := .ofBool !step.value.truth }
  | .text s =>
      match BinaryOp.ofText? s with
      | some op => do
          let value ← op.apply left right
          return ⟨value, .text "", items, Nat.le_refl _⟩
      | none => .error .missingName
  | .int _ => .error .missingName
termination_by 3 * items.length + 2

end

-- Whole expressions

def evaluateAll (isDefined : String → Bool) (items : List String) :
    Except Fault (Operand × Operand) :=
  (evaluate isDefined (.text "") 0 false 0 items).map (fun step => (step.value, step.token))

/- The value of an expression in which nothing is defined. -/
def valueOfText (s : String) : Except Fault Operand :=
  (evaluateAll (fun _ => false) (lexemes s)).map Prod.fst

end Expr

end CHeader
