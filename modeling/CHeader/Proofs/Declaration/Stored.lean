import CHeader.Interface.Build
import CHeader.Proofs.Declaration.Mention

/-
  Names that declarations give values to.

  Values are stored under the names of types, functions and enumerators, and also under the tag of
  an enumeration that a pointer leads to, if it stands for nothing yet. Variables are exported
  instead. In C all of these but the tags share one name space, so no name is both.

  Main declarations:
    * `Declaration.Store`
    * `Declaration.TypeExpr.stores`
    * `Declaration.Item.stores`
-/

namespace CHeader

open List

namespace Declaration

-- Trees

/- Whether the last of some modifiers is a pointer. The flag tells it of those before them. -/
def endsInPointer : Bool → List Modifier → Bool
| isPointer, [] => isPointer
| _, .pointer :: rest => endsInPointer true rest
| _, _ :: rest => endsInPointer false rest

inductive Store where
  | value (name : String)
  | target (tag : String)
  deriving DecidableEq, Repr

def Store.name : Store → String
| .value name => name
| .target tag => tag

def Base.targets : Base → List Store
| .enumeration tag _ _ => tag.toList.map .target
| _ => []

/- The tag that is stored under if a pointer leads to it. -/
def targetsBelow (isPointer : Bool) (modifiers : List Modifier) (base : Base) : List Store :=
  if endsInPointer isPointer modifiers then base.targets
  else []

mutual

def Expr.stores : Expr → List Store
| .name _ => []
| .constant _ _ => []
| .unary _ _ => []
| .sizeofType type => type.stores
| .binary _ left right => left.stores ++ right.stores
| .conditional test yes no =>
    test.stores ++ yes.stores ++ no.stores
| .unvalued _ => []

def storesOfExpr? : Option Expr → List Store
| none => []
| some expr => expr.stores

def storesOfModifiers : List Modifier → List Store
| [] => []
| .pointer :: rest => storesOfModifiers rest
| .array size :: rest =>
    storesOfExpr? size ++ storesOfModifiers rest
| .function params :: rest =>
    storesOfParams? params ++ storesOfModifiers rest

def storesOfParams? : Option (List Param) → List Store
| none => []
| some params => storesOfParams params

def storesOfParams : List Param → List Store
| [] => []
| .typed _ type :: rest => type.stores ++ storesOfParams rest
| .untyped _ :: rest => storesOfParams rest
| .ellipsis :: rest => storesOfParams rest

def Base.stores : Base → List Store
| .words _ => []
| .record _ _ members _ => storesOfDecls? members
| .enumeration _ values _ => storesOfValues? values

def storesOfDecls? : Option (List Decl) → List Store
| none => []
| some members => storesOfDecls members

def storesOfDecls : List Decl → List Store
| [] => []
| .mk _ _ _ type _ _ :: rest =>
    type.stores ++ storesOfDecls rest

def storesOfValues? : Option (List Enumerator) → List Store
| none => []
| some values => storesOfValues values

def storesOfValues : List Enumerator → List Store
| [] => []
| .mk name value :: rest =>
    .value name :: (storesOfExpr? value ++ storesOfValues rest)

def TypeExpr.stores : TypeExpr → List Store
| .mk modifiers base _ =>
    storesOfModifiers modifiers ++ (targetsBelow false modifiers base ++ base.stores)

end

theorem TypeExpr.stores_eq (type : TypeExpr) : type.stores = storesOfModifiers type.modifiers ++
    (targetsBelow false type.modifiers type.base ++ type.base.stores) := by
  cases type with
  | mk modifiers base bare => rfl

-- Items

def Decl.label (decl : Decl) : String := decl.name.getD "None"

/- Whether a declaration is one of a variable that can be seen from outside. -/
def Decl.isExported (decl : Decl) : Bool :=
  !decl.storage.contains "static" && Work.isVariable decl.type

def hasFunction : List Modifier → Bool
| [] => false
| .function _ :: _ => true
| _ :: rest => hasFunction rest

def Decl.functionLabel (decl : Decl) : List Store :=
  if !Work.isVariable decl.type && hasFunction decl.type.modifiers then
    [.value decl.label]
  else []

def Decl.stores (decl : Decl) : List Store :=
  if decl.storage.contains "static" then []
  else decl.functionLabel ++ decl.type.stores

def Decl.exports (decl : Decl) : List String :=
  if decl.isExported then [decl.label] else []

def Item.stores : Item → List Store
| .typeName decl => .value decl.label :: decl.type.stores
| .declaration decl
| .function decl => decl.stores

def Item.exports : Item → List String
| .typeName _ => []
| .declaration decl
| .function decl => decl.exports

-- What is stored is mentioned

def Covers (mentions : List Mention) (stores : List Store) : Prop :=
  ∀ store ∈ stores, .name store.name ∈ mentions

theorem Covers.append (hFirst : Covers first stores) (hSecond : Covers second others) :
    Covers (first ++ second) (stores ++ others) := by
  intro store hStore
  rcases mem_append.mp hStore with hLeft | hRight
  · exact mem_append_left _ (hFirst store hLeft)
  · exact mem_append_right _ (hSecond store hRight)

theorem Covers.mono (hCovers : Covers first stores) (hSubset : first ⊆ second) :
    Covers second stores :=
  fun store hStore => hSubset (hCovers store hStore)

theorem covers_nil (mentions : List Mention) : Covers mentions [] := nofun

theorem covers_targetsBelow (isPointer : Bool) (modifiers : List Modifier) (base : Base) :
    Covers base.mentions (targetsBelow isPointer modifiers base) := by
  unfold targetsBelow
  split_ifs
  · cases base with
    | enumeration tag values key =>
      cases tag with
      | none => exact covers_nil _
      | some tag =>
        intro store hStore
        rw [mem_singleton.mp hStore]
        exact mem_append_left _ (mem_singleton_self _)
    | _ => exact covers_nil _
  · exact covers_nil _

mutual

theorem Expr.covers (expr : Expr) : Covers expr.mentions expr.stores := by
  match expr with
  | .name text | .constant kind text | .unvalued kind =>
    exact covers_nil _
  | .unary op operand =>
    exact covers_nil _
  | .sizeofType type =>
    exact type.covers
  | .binary op left right =>
    exact left.covers.append right.covers
  | .conditional test yes no =>
    exact (test.covers.append yes.covers).append no.covers

theorem covers_expr? (expr : Option Expr) : Covers (mentionsOfExpr? expr) (storesOfExpr? expr) := by
  match expr with
  | none =>
    exact covers_nil _
  | some expr =>
    exact expr.covers

theorem covers_modifiers (modifiers : List Modifier) : Covers (mentionsOfModifiers modifiers)
    (storesOfModifiers modifiers) := by
  match modifiers with
  | [] =>
    exact covers_nil _
  | .pointer :: rest =>
    exact covers_modifiers rest
  | .array size :: rest =>
    exact (covers_expr? size).append (covers_modifiers rest)
  | .function params :: rest =>
    exact (covers_params? params).append (covers_modifiers rest)

theorem covers_params? (params : Option (List Param)) :
    Covers (mentionsOfParams? params) (storesOfParams? params) := by
  match params with
  | none =>
    exact covers_nil _
  | some params =>
    exact covers_params params

theorem covers_params (params : List Param) :
    Covers (mentionsOfParams params) (storesOfParams params) := by
  match params with
  | [] =>
    exact covers_nil _
  | .typed name type :: rest =>
    exact type.covers.append (covers_params rest)
  | .untyped name :: rest =>
    exact covers_params rest
  | .ellipsis :: rest =>
    exact covers_params rest

theorem Base.covers (base : Base) : Covers base.mentions base.stores := by
  match base with
  | .words names =>
    exact covers_nil _
  | .record kind tag members key =>
    exact (covers_body kind tag members).mono (subset_append_right _ _)
  | .enumeration tag values key =>
    exact (covers_values? values).mono (subset_append_right _ _)

theorem covers_body (kind : RecordKind) (tag : Option String) (members : Option (List Decl)) :
    Covers (mentionsOfBody kind tag members) (storesOfDecls? members) := by
  match members with
  | none =>
    exact covers_nil _
  | some members =>
    exact (covers_decls members).mono (subset_cons_self _ _)

theorem covers_decls (members : List Decl) :
    Covers (mentionsOfDecls members) (storesOfDecls members) := by
  match members with
  | [] =>
    exact covers_nil _
  | .mk name storage words type bits key :: rest =>
    exact (type.covers.mono (subset_append_left _ _)).append (covers_decls rest)

theorem covers_values? (values : Option (List Enumerator)) :
    Covers (mentionsOfValues? values) (storesOfValues? values) := by
  match values with
  | none =>
    exact covers_nil _
  | some values =>
    exact covers_values values

theorem covers_values (values : List Enumerator) :
    Covers (mentionsOfValues values) (storesOfValues values) := by
  match values with
  | [] =>
    exact covers_nil _
  | .mk name value :: rest =>
    have hRest := (covers_expr? value).append (covers_values rest)
    intro store hStore
    rcases mem_cons.mp hStore with rfl | hStore
    · exact mem_cons_self
    · exact mem_cons_of_mem _ (hRest store hStore)

theorem TypeExpr.covers (type : TypeExpr) : Covers type.mentions type.stores := by
  match type with
  | .mk modifiers base bare =>
    refine (covers_modifiers modifiers).append ?_
    intro store hStore
    rcases mem_append.mp hStore with hTag | hBase
    · exact covers_targetsBelow false modifiers base store hTag
    · exact base.covers store hBase

end

theorem Decl.covers (decl : Decl) : Covers decl.mentions
    (.value decl.label :: decl.type.stores) := by
  intro store hStore
  rcases mem_cons.mp hStore with rfl | hType
  · exact mem_cons_self
  · exact mem_cons_of_mem _ (decl.type.covers store hType)

theorem Item.covers (item : Item) : Covers item.mentions item.stores := by
  have hDecl : ∀ decl : Decl, Covers decl.mentions decl.stores := by
    intro decl store hStore
    unfold Decl.stores Decl.functionLabel at hStore
    refine decl.covers store ?_
    split_ifs at hStore
    · cases hStore
    · exact hStore
    · exact mem_cons_of_mem _ hStore
  cases item with
  | typeName decl => exact decl.covers
  | declaration decl | function decl => exact hDecl decl

end Declaration

end CHeader
