import CHeader.Expr.Operand
import CHeader.Value.Object

/-
  Arithmetic on values.

  Whole numbers and texts follow the operators of constant expressions. As soon as one side is a
  real number, so is the other; the quotient is then rounded down too, and the remainder has the
  sign of the divisor. Types can be repeated, which makes an array.

  Key definitions include:
    * `Value.binary`
    * `Value.toWhole`
    * `OnHeap.times`
-/

namespace CHeader

-- Real numbers

namespace RealNumber

/- Sign, significand and power of two of a finite number. -/
def parts (x : Float) : Bool × Nat × Nat :=
  let bits := x.toBits.toNat
  let exponent := bits / Nat.pow 2 52 % Nat.pow 2 11
  let fraction := bits % Nat.pow 2 52
  (bits ≥ Nat.pow 2 63, (if exponent = 0 then fraction else Nat.pow 2 52 + fraction),
    max exponent 1)

/- The remainder that has the sign of the first number. -/
def remainder (x y : Float) : Float :=
  if x.isNaN || y.isNaN || x.isInf || y == 0.0 then 0.0 / 0.0
  else if y.isInf then x
  else
    let (negative, m, e) := parts x
    let (_, n, f) := parts y
    let low := min e f
    let rest := m * Nat.pow 2 (e - low) % (n * Nat.pow 2 (f - low))
    let value := Float.scaleB (Float.ofNat rest) ((low : Int) - 1075)
    if negative then -value else value

/- A zero with the sign of a number. -/
def zeroLike (x : Float) : Float :=
  if x.toBits ≥ 0x8000000000000000 then -0.0 else 0.0

/- The quotient rounded down, and the remainder. -/
def divide (x y : Float) : Except Fault (Float × Float) :=
  if y == 0.0 then .error .divisionByZero
  else
    let rest := remainder x y
    let quotient := (x - rest) / y
    let (quotient, rest) :=
      if rest == 0.0 then (quotient, zeroLike y)
      else if (y < 0.0) != (rest < 0.0) then
        (quotient - 1.0, rest + y)
      else (quotient, rest)
    if quotient == 0.0 then .ok (zeroLike (x / y), rest)
    else
      let floor := quotient.floor
      .ok (if quotient - floor > 0.5 then floor + 1.0
        else floor, rest)

/- The whole number that is left when the fraction of a finite number is dropped. -/
def truncate (x : Float) : Int :=
  let (negative, m, e) := parts x
  let n := if e ≥ 1075 then m * Nat.pow 2 (e - 1075)
    else m / Nat.pow 2 (1075 - e)
  if negative then -(n : Int) else n

/- The value of an operator at two real numbers. -/
def apply (op : Expr.BinaryOp) (x y : Float) : Except Fault Value :=
  let holds (b : Bool) : Except Fault Value := .ok (.int (if b then 1 else 0))
  match op with
  | .add => .ok (.real (x + y))
  | .sub => .ok (.real (x - y))
  | .mul => .ok (.real (x * y))
  | .div => return .real (← divide x y).1
  | .mod => return .real (← divide x y).2
  | .gt => holds (x > y)
  | .ge => holds (x ≥ y)
  | .lt => holds (x < y)
  | .le => holds (x ≤ y)
  | .eq => holds (x == y)
  | .ne => holds (x != y)
  | _ => .error .wrongKind

end RealNumber

-- Values

namespace Value

/- A whole number or text as an operand. -/
def operand? : Value → Option Expr.Operand
| .int n => some (.int n)
| .bool b => some (.int b.toNat)
| .text s => some (.text s)
| _ => Option.none

def ofOperand : Expr.Operand → Value
| .int n => .int n
| .text s => .text s

def isReal : Value → Bool
| .real _ => true
| _ => false

/- The operators that constants of declarations may use. -/
def isAllowed : Expr.BinaryOp → Bool
| .bitAnd | .bitOr | .logicalAnd | .logicalOr => false
| _ => true

/- The operator that a mark names, if it may be used. -/
def operator? (mark : String) : Option Expr.BinaryOp :=
  (Expr.BinaryOp.ofText? mark).filter isAllowed

def binary (op : Expr.BinaryOp) (left right : Value) : Except Fault Value :=
  match left.operand?, right.operand? with
  | some a, some b => return ofOperand (← op.apply a b)
  | _, _ =>
      if left.isReal || right.isReal then do
        RealNumber.apply op (← OnHeap.realOf left) (← OnHeap.realOf right)
      else
        match op with
        | .eq => .ok (.int 0)
        | .ne => .ok (.int 1)
        | _ => .error .wrongKind

def negate : Value → Except Fault Value
| .real x => .ok (.real (-x))
| value => return .int (-(← OnHeap.intOf value))

def positive : Value → Except Fault Value
| .real x => .ok (.real x)
| value => return .int (← OnHeap.intOf value)

def complement (value : Value) : Except Fault Value := return .int (-(← OnHeap.intOf value) - 1)

def toWhole : Value → Except Fault Int
| .real x =>
    if x.isNaN then .error .badValue
    else if x.isInf then .error .overflow
    else .ok (RealNumber.truncate x)
| value => do OnHeap.intOf (← OnHeap.readWhole value)

/- The width in bits of an integer kind without sign. -/
def unsignedBits? (kind : Int) : Option Nat :=
  if kind = 2 then some 32
  else if kind = 4 || kind = 6 then some 64
  else Option.none

/- A value as a number of an integer kind. Odd kinds have a sign and leave the value as it is; the
  others take it as a whole number of their width. -/
def asUnsigned (kind : Int) (value : Value) : Except Fault Value :=
  if kind % 2 = 1 then .ok value
  else
    match unsignedBits? kind with
    | Option.none => .error .unknownIntegerKind
    | some bits => do
        return .int (Bytes.reduce bits (← value.toWhole))

/- The whole number that arguments give: none gives zero,
  one is read as it is, and text may come with a base. -/
def wholeOf : List Value → Except Fault Value
| [] => .ok (.int 0)
| [value] => do return .int (← value.toWhole)
| [.text s, .int base] =>
    if base < 2 || base > 36 then .error .badValue
    else
      let (negative, digits) := Text.takeSign (Text.dropEnds Text.isNumberBlank s.toList)
      match Text.readInBase? base.toNat digits with
      | some n => .ok (.int (Text.withSign negative n))
      | Option.none => .error .badValue
| _ => .error .wrongKind

end Value

-- Types

namespace OnHeap

/- The largest size of anything in memory. -/
def sizeLimit : Nat := Nat.pow 2 63

/- A value repeated: a type makes an array. -/
def times (count : Int) (value : Value) : OnHeap Value := do
  match value with
  | .type .ellipsis => throw .wrongKind
  | .type type =>
      if count ≥ sizeLimit || count < -(sizeLimit : Int) then
        throw .overflow
      if count < 0 then throw .badValue
      let size := (← extentOf type).size
      if count.toNat * size ≥ sizeLimit then throw .overflow
      return .type (← arrayOf type count.toNat)
  | value => Value.binary .mul (.int count) value

def sizeOfValue : Value → OnHeap Nat
| .type .ellipsis => throw .wrongKind
| .type type => return (← extentOf type).size
| .object object => return (← extentOf object.type).size
| _ => throw .wrongKind

end OnHeap

end CHeader
