import CHeader.Declaration.Lexeme
import CHeader.Declaration.Tree

/-
  The place that reading declarations has reached.

  One lexeme is always looked at in advance. Whether a name stands for a type is settled when it is
  looked at, by the scopes of that moment: an opening brace opens a scope as soon as it is looked
  at, and a closing brace closes one.

  Key definitions include:
    * `Declaration.Token`
    * `Declaration.Cursor`
    * `Declaration.Parse`
-/

namespace CHeader

namespace Declaration

-- Words

def typeWords : List String :=
  ["void", "_Bool", "char", "short", "int", "long", "float",
   "double", "_Complex", "signed", "unsigned"]

def qualifierWords : List String := ["const", "restrict", "volatile"]

def storageWords : List String := ["auto", "register", "static", "extern", "typedef"]

def functionWords : List String := ["inline", "__stdcall", "__cdecl"]

def definingWords : List String := ["struct", "union", "enum"]

def typeStartWords : List String := typeWords ++ qualifierWords ++ definingWords

def declarationWords : List String := typeStartWords ++ storageWords ++ functionWords

def keywords : List String :=
  declarationWords ++ ["break", "case", "continue", "default", "do", "else",
     "for", "goto", "if", "return", "sizeof", "switch", "while"]

/- A lexeme as it is understood at its place. -/
inductive Token where
  | name (text : String)
  | typeName (text : String)
  | keyword (text : String)
  | constant (kind : ConstantKind) (text : String)
  | mark (text : String)
  | hash
  | ended
  deriving DecidableEq, Repr, Inhabited

-- Scopes

/- The names of a scope, each with whether it is a type. -/
abbrev Scope := List (String × Bool)

def Scope.find? (scope : Scope) (name : String) : Option Bool :=
  (List.find? (fun entry => entry.1 = name) scope).map Prod.snd

variable (scopes : List Scope)

/- Whether a name is a type, as the innermost scope that knows the name says. -/
def isTypeIn (name : String) : Bool :=
  (scopes.findSome? (fun scope => scope.find? name)).getD false

def tokenOf : Lexeme → Except Fault Token
| .name text =>
    .ok (if keywords.contains text then .keyword text
      else if isTypeIn scopes text then .typeName text
      else .name text)
| .integer text => .ok (.constant .int text)
| .real text => .ok (.constant .float text)
| .character text => .ok (.constant .char text)
| .string text => .ok (.constant .string text)
| .mark text => .ok (.mark text)
| .hash => .ok .hash
| .fault cause => .error cause

/- The scopes once a lexeme is looked at. -/
def scopesAfter : Lexeme → Except Fault (List Scope)
| .mark "\x7b" => .ok ([] :: scopes)
| .mark "\x7d" =>
    match scopes with
    | _ :: outer :: rest => .ok (outer :: rest)
    | _ => .error .brokenRule
| _ => .ok scopes

-- Cursors

/- The place that is reached: the token looked at, the
  lexemes after it, the scopes, and the next free key. -/
structure Cursor where
  current : Token := .ended
  rest : List Lexeme := []
  scopes : List Scope := [[]]
  nextKey : Nat := 0
  deriving Inhabited

abbrev Parse := StateT Cursor (Except Fault)

def advance : Parse Unit := do
  let cursor ← get
  match cursor.rest with
  | [] => set { cursor with current := .ended }
  | lexeme :: rest =>
      let scopes ← scopesAfter cursor.scopes lexeme
      let token ← tokenOf scopes lexeme
      set { cursor with
          current := token, rest := rest, scopes := scopes }

def refuse {α : Type} : Parse α := throw .syntaxError

def current : Parse Token := do
  return (← get).current

variable (text : String)

def atMark : Parse Bool := do
  return (← current) = .mark text

def atKeyword : Parse Bool := do
  return (← current) = .keyword text

def expect : Parse Unit := do
  if ← atMark text then advance else refuse

def expectKeyword : Parse Unit := do
  if ← atKeyword text then advance else refuse

def accept : Parse Bool := do
  if ← atMark text then
    advance
    return true
  else return false

def freshKey : Parse Nat := do
  let cursor ← get
  set { cursor with nextKey := cursor.nextKey + 1 }
  return cursor.nextKey

def Token.beginsType : Token → Bool
| .typeName _ => true
| .keyword text => typeStartWords.contains text
| _ => false

def Token.beginsDeclaration : Token → Bool
| .typeName _ => true
| .keyword text => declarationWords.contains text
| _ => false

/- The token after the one looked at, while it is not a brace. -/
def following : Parse Token := do
  let cursor ← get
  match cursor.rest with
  | [] => return .ended
  | .fault _ :: _ => return .hash
  | lexeme :: _ => tokenOf cursor.scopes lexeme

/-
  Repeat a step that says how to go on or that it is done. Every repetition passes over a lexeme, so
  the lexemes left bound their number.
-/
def repeatStep {α : Type} (step : α → Parse (α × Bool)) : Nat → α → Parse α
| 0, _ => refuse
| bound + 1, value => do
    let (next, more) ← step value
    if more then repeatStep step bound next else return next

/- Repeat a step as often as lexemes are left. -/
def repeating {α : Type} (start : α) (step : α → Parse (α × Bool)) : Parse α := do
  repeatStep step ((← get).rest.length + 2) start

/- Enter a name in the innermost scope. A name cannot change
  between a type and another meaning there. -/
def declareName (isType : Bool) (name : String) : Parse Unit := do
  let cursor ← get
  match cursor.scopes with
  | [] => refuse
  | scope :: outer =>
      if scope.find? name = some !isType then refuse
      else
        set { cursor with
            scopes := ((name, isType) :: scope) :: outer }

end Declaration

end CHeader
