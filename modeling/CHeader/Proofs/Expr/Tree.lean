import Mathlib
import CHeader.Expr.Operand

/-
  Expression trees and the ways to write them.

  A tree has no parentheses: it says which operator is applied to what, and what its value is. A
  written expression has the parentheses as well; it is proper if they stand wherever the grammar of
  C needs them, and they may stand anywhere else. Its tokens are the lexemes from left to right.

  Key definitions include:
    * `Expr.Tree`
    * `Expr.Tree.value`
    * `Expr.Written`
-/

namespace CHeader

namespace Expr

-- Operators

inductive PrefixOp where
  | minus
  | plus
  | negation
  | complement
  deriving DecidableEq, Repr

namespace PrefixOp

def spelling : PrefixOp → String
| minus => "-"
| plus => "+"
| negation => "!"
| complement => "~"

def value : PrefixOp → Int → Int
| minus, n => -n
| plus, n => n
| negation, n => if n = 0 then 1 else 0
| complement, n => -n - 1

end PrefixOp

def indicator (p : Prop) [Decidable p] : Int :=
  if p then 1 else 0

namespace BinaryOp

def spelling : BinaryOp → String
| mul => "*"
| div => "/"
| mod => "%"
| add => "+"
| sub => "-"
| shiftRight => ">>"
| shiftLeft => "<<"
| gt => ">"
| ge => ">="
| lt => "<"
| le => "<="
| eq => "=="
| ne => "!="
| bitAnd => "&"
| bitXor => "^"
| bitOr => "|"
| logicalAnd => "&&"
| logicalOr => "||"

/-
  The production of the grammar of C that an operator comes from, counted from logical or upwards.
  Of two operators the one with the higher number binds more tightly.
-/
def level : BinaryOp → Nat
| logicalOr => 1
| logicalAnd => 2
| bitOr => 3
| bitXor => 4
| bitAnd => 5
| eq | ne => 6
| gt | ge | lt | le => 7
| shiftRight | shiftLeft => 8
| add | sub => 9
| mul | div | mod => 10

def isLogical : BinaryOp → Bool
| logicalAnd | logicalOr => true
| _ => false

/- The number that a binary operator makes of two unbounded numbers. Quotients are rounded down. -/
def value : BinaryOp → Int → Int → Except Fault Int
| mul, m, n => .ok (m * n)
| div, m, n =>
    if n = 0 then .error .divisionByZero
    else .ok (m.fdiv n)
| mod, m, n =>
    if n = 0 then .error .divisionByZero
    else .ok (m.fmod n)
| add, m, n => .ok (m + n)
| sub, m, n => .ok (m - n)
| shiftRight, m, n =>
    if n < 0 then .error .badValue
    else .ok (m.fdiv (2 ^ n.toNat))
| shiftLeft, m, n =>
    if n < 0 then .error .badValue
    else .ok (m * 2 ^ n.toNat)
| gt, m, n => .ok (indicator (n < m))
| ge, m, n => .ok (indicator (n ≤ m))
| lt, m, n => .ok (indicator (m < n))
| le, m, n => .ok (indicator (m ≤ n))
| eq, m, n => .ok (indicator (m = n))
| ne, m, n => .ok (indicator (m ≠ n))
| bitAnd, m, n => .ok (Int.land m n)
| bitXor, m, n => .ok (Int.xor m n)
| bitOr, m, n => .ok (Int.lor m n)
| logicalAnd, m, n => .ok (indicator (m ≠ 0 ∧ n ≠ 0))
| logicalOr, m, n => .ok (indicator (m ≠ 0 ∨ n ≠ 0))

end BinaryOp

-- Trees

inductive Tree where
  | literal (n : Nat)
  | prefixed (op : PrefixOp) (operand : Tree)
  | binary (op : BinaryOp) (left right : Tree)
  deriving DecidableEq, Repr

namespace Tree

/-
  The value of a tree over unbounded numbers. Both operands
  of every operator are computed, the left one first.
-/
def value : Tree → Except Fault Int
| literal n => .ok n
| prefixed op operand => do
    let n ← operand.value
    return op.value n
| binary op left right => do
    let m ← left.value
    let n ← right.value
    op.value m n

def Arithmetic : Tree → Prop
| literal _ => True
| prefixed _ operand => operand.Arithmetic
| binary op left right =>
    op.isLogical = false ∧ left.Arithmetic ∧ right.Arithmetic

/- Whether every literal of a tree has at most the number of
  digits up to which decimal texts are read. -/
def Readable : Tree → Prop
| literal n => n.repr.length ≤ Text.decimalDigitLimit
| prefixed _ operand => operand.Readable
| binary _ left right => left.Readable ∧ right.Readable

instance decidableArithmetic : (tree : Tree) → Decidable tree.Arithmetic
| literal _ => inferInstanceAs (Decidable True)
| prefixed _ operand => decidableArithmetic operand
| binary _ left right =>
    have := decidableArithmetic left
    have := decidableArithmetic right
    inferInstanceAs (Decidable (_ ∧ _ ∧ _))

instance decidableReadable : (tree : Tree) → Decidable tree.Readable
| literal n =>
    inferInstanceAs (Decidable (n.repr.length ≤ Text.decimalDigitLimit))
| prefixed _ operand => decidableReadable operand
| binary _ left right =>
    have := decidableReadable left
    have := decidableReadable right
    inferInstanceAs (Decidable (_ ∧ _))

end Tree

-- Written expressions

inductive Written where
  | literal (n : Nat)
  | paren (inside : Written)
  | prefixed (op : PrefixOp) (operand : Written)
  | binary (op : BinaryOp) (left right : Written)
  deriving DecidableEq, Repr

namespace Written

def tree : Written → Tree
| literal n => .literal n
| paren inside => inside.tree
| prefixed op operand => .prefixed op operand.tree
| binary op left right => .binary op left.tree right.tree

def tokens : Written → List String
| literal n => [n.repr]
| paren inside => "(" :: (inside.tokens ++ [")"])
| prefixed op operand => op.spelling :: operand.tokens
| binary op left right =>
    left.tokens ++ op.spelling :: right.tokens

/-
  The production of the grammar of C that a written expression comes from. Unary expressions lie
  above all binary ones, primary expressions above these.
-/
def level : Written → Nat
| literal _ => 12
| paren _ => 12
| prefixed _ _ => 11
| binary op _ _ => op.level

/-
  Whether parentheses stand wherever the grammar needs them. The operand of a prefix operator is a
  unary expression. A binary operator groups to the left: its left operand may come from the same
  production and the right one may not.
-/
def Proper : Written → Prop
| literal _ => True
| paren inside => inside.Proper
| prefixed _ operand => operand.Proper ∧ 11 ≤ operand.level
| binary op left right =>
    left.Proper ∧ right.Proper ∧ op.level ≤ left.level ∧ op.level < right.level

instance decidableProper : (written : Written) → Decidable written.Proper
| literal _ => inferInstanceAs (Decidable True)
| paren inside => decidableProper inside
| prefixed _ operand =>
    have := decidableProper operand
    inferInstanceAs (Decidable (_ ∧ _))
| binary _ left right =>
    have := decidableProper left
    have := decidableProper right
    inferInstanceAs (Decidable (_ ∧ _ ∧ _ ∧ _))

end Written

/- Whether a list of lexemes prints a tree: with parentheses where they are needed and any others. -/
def Prints (tree : Tree) (tokens : List String) : Prop :=
  ∃ written : Written, written.Proper ∧ written.tree = tree ∧ written.tokens = tokens

end Expr

end CHeader
