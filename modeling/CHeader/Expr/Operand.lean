import CHeader.Fault
import CHeader.Text.Integer

/-
  Operands of constant expressions and the operators on them.

  An operand is a number or, where a word has no number, the word itself. Numbers are unbounded;
  division rounds down and the remainder has the sign of the divisor. Words can be compared, joined
  and repeated.

  Key definitions include:
    * `Expr.Operand`
    * `Expr.BinaryOp`
    * `Expr.BinaryOp.apply`
-/

namespace CHeader

namespace Expr

-- Operands

/- A number or a word that has no number. -/
inductive Operand where
  | int (n : Int)
  | text (s : String)
  deriving DecidableEq, Repr, Inhabited

namespace Operand

def spelling : Operand → String
| int n => toString n
| text s => s

/- Whether an operand counts as true: a number other than zero, or a text that is not empty. -/
def truth : Operand → Bool
| int n => n != 0
| text s => !s.isEmpty

def ofBool (b : Bool) : Operand := int (if b then 1 else 0)

/- The number an operand stands for when a number is required; a text is read as one. -/
def toInt : Operand → Except Fault Int
| int n => .ok n
| text s =>
    match Text.readInteger? s with
    | some n => .ok n
    | none => .error .badValue

def complement : Operand → Except Fault Operand
| int n => .ok (int (-n - 1))
| text _ => .error .wrongKind

def negate : Operand → Except Fault Operand
| int n => .ok (int (-n))
| text _ => .error .wrongKind

end Operand

-- Bitwise operations on unbounded numbers

def bitAnd : Int → Int → Int
| .ofNat m, .ofNat n => .ofNat (m &&& n)
| .ofNat m, .negSucc n => .ofNat (m - (m &&& n))
| .negSucc m, .ofNat n => .ofNat (n - (n &&& m))
| .negSucc m, .negSucc n => .negSucc (m ||| n)

def bitOr (m n : Int) : Int := -(bitAnd (-m - 1) (-n - 1)) - 1

def bitXor : Int → Int → Int
| .ofNat m, .ofNat n => .ofNat (m ^^^ n)
| .ofNat m, .negSucc n => .negSucc (m ^^^ n)
| .negSucc m, .ofNat n => .negSucc (m ^^^ n)
| .negSucc m, .negSucc n => .ofNat (m ^^^ n)

-- Binary operators

inductive BinaryOp where
  | mul | div | mod
  | add | sub
  | shiftRight | shiftLeft
  | gt | ge | lt | le
  | eq | ne
  | bitAnd | bitXor | bitOr
  | logicalAnd | logicalOr
  deriving DecidableEq, Repr

namespace BinaryOp

def ofText? : String → Option BinaryOp
| "*" => some mul
| "/" => some div
| "%" => some mod
| "+" => some add
| "-" => some sub
| ">>" => some shiftRight
| "<<" => some shiftLeft
| ">" => some gt
| ">=" => some ge
| "<" => some lt
| "<=" => some le
| "==" => some eq
| "!=" => some ne
| "&" => some bitAnd
| "^" => some bitXor
| "|" => some bitOr
| "&&" => some logicalAnd
| "||" => some logicalOr
| _ => none

/- One more than the largest count of repetitions and the largest length of a text. -/
def textLimit : Nat := Nat.pow 2 63

/- A text repeated; not at all for a negative count. Neither
  the count nor the length of the result may be too large. -/
def repeated (s : String) (n : Int) : Except Fault String :=
  if n.natAbs ≥ textLimit && n ≠ -textLimit then
    .error .overflow
  else if s.isEmpty then .ok ""
  else if s.length * n.toNat ≥ textLimit then
    .error .overflow
  else .ok (Text.concat (List.replicate n.toNat s))

/- Whether a remainder by a text fails for its value: a
  lone percent sign starts a field and does not end it. -/
def isOpenField (s : String) : Bool := s = "%"

def compare (onInts : Int → Int → Bool) (onTexts : String → String → Bool) :
    Operand → Operand → Except Fault Operand
| .int m, .int n => .ok (.ofBool (onInts m n))
| .text s, .text t => .ok (.ofBool (onTexts s t))
| _, _ => .error .wrongKind

def onInts (f : Int → Int → Except Fault Int) : Operand → Operand → Except Fault Operand
| .int m, .int n => (f m n).map .int
| _, _ => .error .wrongKind

/- The number one or zero for a condition, which has none if it is the empty text. -/
def conclude : Operand → Except Fault Operand
| .int 0 => .ok (.int 0)
| .int _ => .ok (.int 1)
| .text "" => .error .badValue
| .text _ => .ok (.int 1)

def apply : BinaryOp → Operand → Operand → Except Fault Operand
| mul, .int m, .int n => .ok (.int (m * n))
| mul, .text s, .int n => (repeated s n).map .text
| mul, .int n, .text s => (repeated s n).map .text
| mul, .text _, .text _ => .error .wrongKind
| div, left, right =>
    onInts (fun m n =>
        if n = 0 then .error .divisionByZero
        else .ok (m.fdiv n))
      left right
| mod, .text s, _ =>
    .error (if isOpenField s then .badValue else .wrongKind)
| mod, left, right =>
    onInts (fun m n =>
        if n = 0 then .error .divisionByZero
        else .ok (m.fmod n))
      left right
| add, .int m, .int n => .ok (.int (m + n))
| add, .text s, .text t => .ok (.text (s ++ t))
| add, _, _ => .error .wrongKind
| sub, left, right =>
    onInts (fun m n => .ok (m - n)) left right
| shiftRight, left, right =>
    onInts (fun m n =>
        if n < 0 then .error .badValue
        else .ok (m >>> n.toNat))
      left right
| shiftLeft, left, right =>
    onInts (fun m n =>
        if n < 0 then .error .badValue
        else .ok (m * Nat.pow 2 n.toNat))
      left right
| gt, left, right =>
    compare (fun m n => n < m) (fun s t => t < s) left right
| ge, left, right =>
    compare (fun m n => n ≤ m) (fun s t => !(s < t)) left right
| lt, left, right =>
    compare (fun m n => m < n) (fun s t => s < t) left right
| le, left, right =>
    compare (fun m n => m ≤ n) (fun s t => !(t < s)) left right
| eq, left, right => .ok (.ofBool (left = right))
| ne, left, right => .ok (.ofBool (left ≠ right))
| bitAnd, left, right =>
    onInts (fun m n => .ok (Expr.bitAnd m n)) left right
| bitXor, left, right =>
    onInts (fun m n => .ok (Expr.bitXor m n)) left right
| bitOr, left, right =>
    onInts (fun m n => .ok (Expr.bitOr m n)) left right
| logicalAnd, left, right =>
    conclude (if left.truth then right else left)
| logicalOr, left, right =>
    conclude (if left.truth then left else right)

end BinaryOp

-- Unsigned forms

/-
  The integer kinds of constants are numbered: odd kinds are signed and even ones unsigned, two for
  plain, four for long and six for long long. The width of an unsigned kind in bits.
-/
def unsignedWidth? (kind : Int) : Option Nat :=
  if kind = 2 then some 32
  else if kind = 4 ∨ kind = 6 then some 64
  else none

/- A number in the range of an unsigned kind; signed kinds leave it as it is. -/
def toUnsigned (kind : Int) (operand : Operand) : Except Fault Operand :=
  if kind % 2 = 1 then .ok operand
  else
    match unsignedWidth? kind with
    | none => .error .unknownIntegerKind
    | some bits =>
        operand.toInt.map (fun n => .int (n % Nat.pow 2 bits))

end Expr

end CHeader
