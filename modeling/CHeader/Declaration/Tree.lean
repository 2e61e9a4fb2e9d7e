import CHeader.CType.Basic
import CHeader.Fault

/-
  Trees of C declarations.

  A declarator is read inside out, so the type of a declared name is a list of modifiers, the
  outermost first, over a base. A base that is defined in place, a structure, union or enumeration,
  carries a key of its own: two declarators of one declaration share the key, and so the definition.
-/

namespace CHeader

namespace Declaration

-- Kinds

inductive ConstantKind where
  | int
  | float
  | char
  | string
  deriving DecidableEq, Repr, Inhabited

/- Expressions that have no constant value here. -/
inductive Unvalued where
  | call
  | cast
  | subscript
  | member
  | sequence
  | assignment
  | literal
  deriving DecidableEq, Repr, Inhabited

-- Trees

mutual

inductive Expr where
  | name (text : String)
  | constant (kind : ConstantKind) (text : String)
  | unary (op : String) (operand : Expr)
  | sizeofType (type : TypeExpr)
  | binary (op : String) (left right : Expr)
  | conditional (test yes no : Expr)
  | unvalued (kind : Unvalued)

/- What a declarator makes of its base. -/
inductive Modifier where
  | pointer
  | array (size : Option Expr)
  | function (params : Option (List Param))

inductive Param where
  | typed (name : Option String) (type : TypeExpr)
  | untyped (name : String)
  | ellipsis

/- What a declaration starts from. -/
inductive Base where
  | words (names : List String)
  | record (kind : RecordKind) (tag : Option String) (members : Option (List Decl)) (key : Nat)
  | enumeration (tag : Option String) (values : Option (List Enumerator)) (key : Nat)

inductive Enumerator where
  | mk (name : String) (value : Option Expr)

/- A type: modifiers over a base. A member may be a base with
  no declarator at all; then the type is bare. -/
inductive TypeExpr where
  | mk (modifiers : List Modifier) (base : Base) (bare : Bool)

/- A declared name, with words for its storage and for the function it may declare, its type, and
  its width in bits if it has one. The key tells it from all others. -/
inductive Decl where
  | mk (name : Option String) (storage : List String) (functionWords : List String)
      (type : TypeExpr)
      (bits : Option Expr)
      (key : Nat)

end

instance : Inhabited Expr := ⟨.name ""⟩

instance : Inhabited Base := ⟨.words []⟩

instance : Inhabited TypeExpr := ⟨.mk [] default false⟩

instance : Inhabited Decl := ⟨.mk none [] [] default none 0⟩

-- Parts

namespace TypeExpr

def modifiers : TypeExpr → List Modifier
| mk modifiers _ _ => modifiers

def base : TypeExpr → Base
| mk _ base _ => base

def bare : TypeExpr → Bool
| mk _ _ bare => bare

end TypeExpr

namespace Decl

def name : Decl → Option String
| mk name _ _ _ _ _ => name

def storage : Decl → List String
| mk _ storage _ _ _ _ => storage

def functionWords : Decl → List String
| mk _ _ words _ _ _ => words

def type : Decl → TypeExpr
| mk _ _ _ type _ _ => type

def bits : Decl → Option Expr
| mk _ _ _ _ bits _ => bits

end Decl

-- Items

/- What a text declares at its outermost level. -/
inductive Item where
  | declaration (decl : Decl)
  | typeName (decl : Decl)
  | function (decl : Decl)
  deriving Inhabited

/- How a text is read, or why it cannot be. -/
abbrev Parser := String → Except Fault (List Item)

end Declaration

end CHeader
