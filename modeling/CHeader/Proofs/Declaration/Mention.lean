import Mathlib
import CHeader.Interface.Meaning

/-
  What declarations mention.

  A tree of declarations mentions the names under which things are looked up or entered, and the
  bodies of structures and unions, wherever they stand in the tree.

  Main declarations:
    * `Declaration.Mention`
    * `Declaration.Base.mentions`
    * `Declaration.Item.mentions`
-/

namespace CHeader

namespace Declaration

-- Mentions

inductive Mention where
  | name (text : String)
  | body (kind : RecordKind) (tag : Option String) (members : List Decl)

def signAmong (words : List String) : String :=
  if words.contains "signed" then "signed"
  else if words.contains "unsigned" then "unsigned"
  else ""

/- The name that the words of a type are looked up by. -/
def nameOfWords (words : List String) : String :=
  orderedWords (signAmong words) (words.count "long") words

/- A name that may be absent. -/
def mentionTag : Option String → List Mention
| none => []
| some name => [.name name]

mutual

def Expr.mentions : Expr → List Mention
| .name _ => []
| .constant _ _ => []
| .unary _ operand => operand.mentions
| .sizeofType type => type.mentions
| .binary _ left right => left.mentions ++ right.mentions
| .conditional test yes no =>
    test.mentions ++ yes.mentions ++ no.mentions
| .unvalued _ => []

def mentionsOfExpr? : Option Expr → List Mention
| none => []
| some expr => expr.mentions

def mentionsOfModifiers : List Modifier → List Mention
| [] => []
| .pointer :: rest => mentionsOfModifiers rest
| .array size :: rest =>
    mentionsOfExpr? size ++ mentionsOfModifiers rest
| .function params :: rest =>
    mentionsOfParams? params ++ mentionsOfModifiers rest

def mentionsOfParams? : Option (List Param) → List Mention
| none => []
| some params => mentionsOfParams params

def mentionsOfParams : List Param → List Mention
| [] => []
| .typed _ type :: rest =>
    type.mentions ++ mentionsOfParams rest
| .untyped _ :: rest => mentionsOfParams rest
| .ellipsis :: rest => mentionsOfParams rest

def Base.mentions : Base → List Mention
| .words names => [.name (nameOfWords names)]
| .record kind tag members _ =>
    mentionTag tag ++ mentionsOfBody kind tag members
| .enumeration tag values _ =>
    mentionTag tag ++ mentionsOfValues? values

def mentionsOfBody (kind : RecordKind) (tag : Option String) : Option (List Decl) → List Mention
| none => []
| some members =>
    .body kind tag members :: mentionsOfDecls members

def mentionsOfDecls : List Decl → List Mention
| [] => []
| .mk _ _ _ type bits _ :: rest =>
    type.mentions ++ mentionsOfExpr? bits ++ mentionsOfDecls rest

def mentionsOfValues? : Option (List Enumerator) → List Mention
| none => []
| some values => mentionsOfValues values

def mentionsOfValues : List Enumerator → List Mention
| [] => []
| .mk name value :: rest =>
    .name name :: mentionsOfExpr? value ++ mentionsOfValues rest

def TypeExpr.mentions : TypeExpr → List Mention
| .mk modifiers base _ =>
    mentionsOfModifiers modifiers ++ base.mentions

end

-- Items

def Decl.mentions (decl : Decl) : List Mention :=
  .name (decl.name.getD "None") :: decl.type.mentions

def Item.decl : Item → Decl
| .declaration decl => decl
| .typeName decl => decl
| .function decl => decl

def Item.mentions (item : Item) : List Mention := item.decl.mentions

def mentionsOfItems (items : List Item) : List Mention := items.flatMap Item.mentions

end Declaration

end CHeader
