import CHeader.Declaration.Expression

/-
  Reading declarations, definitions and the statements in function bodies. Statements are checked
  and left out.

  A name that was declared as a type is read as a part of the type at first, even where it is
  declared anew; such names are found and moved when the declaration is complete.

  Key definitions include:
    * `Declaration.complete`
    * `Declaration.readers`
    * `Declaration.parse`
-/

namespace CHeader

namespace Declaration

-- Completion

/- What a declaration declares at one place: nothing yet, a
  declarator, or a base without a declarator. -/
inductive Form where
  | missing
  | declarator (declarator : Declarator)
  | base (base : Base)
  deriving Inhabited

def Base.word? : Base → Except Fault (Option String)
| .words [word] => .ok (some word)
| .words _ => .ok none
| _ => .error .missingPart

def baseOf (types : List Base) (modifiers : List Modifier) : Except Fault Base :=
  let words : List (Option (List String)) := types.map (fun type =>
      match type with
      | .words names => some names
      | _ => none)
  match types with
  | [] =>
      match modifiers with
      | .function _ :: _ => .ok (.words ["int"])
      | _ => .error .syntaxError
  | [type] => .ok type
  | _ =>
      if words.all Option.isSome then
        .ok (.words (words.flatMap (·.getD [])))
      else .error .syntaxError

/- Move the last type specifier to the place of a name that is missing, if it can be one. -/
def nameFromTypes (types : List Base) (form : Form) : Parse (List Base × Form) := do
  match form with
  | .missing =>
      if types.length < 2 then refuse
      let word ← (types.getLast?.getD default).word?
      match word with
      | some name =>
          if isTypeIn (← get).scopes name then
            return (types.dropLast, .declarator { name := some name })
          else refuse
      | none => refuse
  | .declarator { name := none, modifiers := modifiers } =>
      match types.getLast? with
      | none => throw .outOfRange
      | some (.words (name :: _)) =>
          return (types.dropLast, .declarator { name := some name, modifiers := modifiers })
      | some (.words []) => throw .outOfRange
      | some _ => throw .missingPart
  | .base (.enumeration _ _ _) => throw .missingPart
  | _ => return (types, form)

/- The declarations that specifiers and forms make, each with the width in bits if it has one. Names
  are entered in the scope if asked. -/
def complete (specifiers : Specifiers) (forms : List (Form × Option Expr)) (declares : Bool) :
    Parse (List Decl) := do
  let isType := specifiers.storage.contains "typedef"
  let (types, forms) ←
    match forms with
    | (form, none) :: rest =>
        let (types, form) ←
          nameFromTypes specifiers.types form
        pure (types, (form, none) :: rest)
    | forms => pure (specifiers.types, forms)
  forms.mapM (fun (form, bits) => do
    let key ← freshKey
    match form with
    | .missing => refuse
    | .base base =>
        return .mk none specifiers.storage specifiers.functionWords (.mk [] base true) bits key
    | .declarator declarator =>
        let base ← baseOf types declarator.modifiers
        match declares, declarator.name with
        | true, some name => declareName isType name
        | _, _ => pure ()
        return .mk declarator.name specifiers.storage specifiers.functionWords
          (.mk declarator.modifiers base false) bits key)

-- Records and enumerations

section

variable (readers : Readers)

def memberForms (first : Form × Option Expr) : Parse (List (Form × Option Expr)) :=
  repeating [first] (fun forms => do
    if ← accept "," then
      if ← accept ":" then
        let bits ← readers.conditional
        return (forms ++ [(.declarator {}, some bits)], true)
      else
        let declarator ← readers.declarator true false
        let bits ←
          if ← accept ":" then
            some <$> readers.conditional
          else pure none
        return (forms ++ [(.declarator declarator, bits)], true)
    else return (forms, false))

/- The members that one declaration of a record makes. -/
def memberDeclaration : Parse (List Decl) := do
  let specifiers ← readers.specifiers false
  if ← atMark ";" then
    advance
    match specifiers.types with
    | [base] =>
        complete specifiers [(.base base, none)] false
    | _ => complete specifiers [(.missing, none)] false
  else
    let forms ←
      if ← accept ":" then
        let bits ← readers.conditional
        memberForms readers (.declarator {}, some bits)
      else
        let declarator ← readers.declarator true true
        if declarator.name.isNone then
          pure [(.declarator declarator, none)]
        else
          let bits ←
            if ← accept ":" then
              some <$> readers.conditional
            else pure none
          memberForms readers (.declarator declarator, bits)
    expect ";"
    complete specifiers forms false

def members : Parse (List Decl) := do
  expect "\x7b"
  let list : List Decl ←
    repeating [] (fun list => do
      let more ← memberDeclaration readers
      return (list ++ more, !(← atMark "\x7d")))
  advance
  return list

def tag : Parse (Option String) := do
  match ← current with
  | .name text | .typeName text =>
      advance
      return some text
  | _ => return none

def record (readers : Readers) (kind : RecordKind) : Parse Base := do
  let tag ← tag
  if ← atMark "\x7b" then
    let list ← members readers
    return .record kind tag (some list) (← freshKey)
  else
    match tag with
    | none => refuse
    | some _ => return .record kind tag none (← freshKey)

def enumerator : Parse Enumerator := do
  match ← current with
  | .name text =>
      advance
      let value ←
        if ← accept "=" then
          some <$> readers.conditional
        else pure none
      declareName false text
      return .mk text value
  | _ => refuse

def enumerators : Parse (List Enumerator) := do
  expect "\x7b"
  let first ← enumerator readers
  let list ←
    repeating [first] (fun list => do
      if ← accept "," then
        match ← current with
        | .name _ =>
            return (list ++ [← enumerator readers], true)
        | _ => return (list, true)
      else return (list, false))
  expect "\x7d"
  return list

def enumeration (readers : Readers) : Parse Base := do
  let tag ← tag
  if ← atMark "\x7b" then
    let list ← enumerators readers
    return .enumeration tag (some list) (← freshKey)
  else
    match tag with
    | none => refuse
    | some _ => return .enumeration tag none (← freshKey)

/- What a declaration begins with; storage and function words only where they are allowed. -/
def specifiers (storage : Bool) : Parse Specifiers := do
  let begins (token : Token) : Bool :=
    if storage then token.beginsDeclaration
    else token.beginsType
  if !begins (← current) then refuse
  repeating {} (fun list : Specifiers => do
    let add (base : Base) : Specifiers := { list with types := list.types ++ [base] }
    let next ←
      match ← current with
      | .typeName text =>
          advance
          pure (add (.words [text]))
      | .keyword "struct" =>
          advance
          pure (add (← record readers .struct))
      | .keyword "union" =>
          advance
          pure (add (← record readers .union))
      | .keyword "enum" =>
          advance
          pure (add (← enumeration readers))
      | .keyword text =>
          advance
          if typeWords.contains text then
            pure (add (.words [text]))
          else if storageWords.contains text then
            pure { list with storage := list.storage ++ [text] }
          else if functionWords.contains text then
            pure { list with
                functionWords := list.functionWords ++ [text] }
          else pure list
      | _ => refuse
    return (next, begins (← current)))

-- Declarators

def param : Parse Param := do
  let specifiers ← readers.specifiers true
  let specifiers :=
    if specifiers.types.isEmpty then
      { specifiers with types := [.words ["int"]] }
    else specifiers
  let declarator : Option Declarator ←
    match ← current with
    | .mark "," => pure none
    | .mark ")" => pure none
    | _ => some <$> readers.declarator true true
  let finish (forms : Form) : Parse Param := do
    match ← complete specifiers [(forms, none)] false with
    | decl :: _ => return .typed decl.name decl.type
    | [] => refuse
  match declarator with
  | some { name := some name, modifiers := modifiers } =>
      finish (.declarator { name := some name, modifiers := modifiers })
  | _ =>
      let word ←
        if specifiers.types.length > 1 then
          (specifiers.types.getLast?.getD default).word?
        else pure none
      let scopes := (← get).scopes
      let renames :=
        match word with
        | some name => isTypeIn scopes name
        | none => false
      if renames then
        finish (match declarator with
          | some declarator => .declarator declarator
          | none => .missing)
      else
        let modifiers := (declarator.map Declarator.modifiers).getD []
        let base ← baseOf specifiers.types modifiers
        return .typed none (.mk modifiers base false)

def typedParams : Parse (List Param) := do
  let first ← param readers
  repeating [first] (fun list => do
    if ← accept "," then
      if ← accept "..." then
        return (list ++ [.ellipsis], false)
      else return (list ++ [← param readers], true)
    else return (list, false))

def untypedParams (first : String) : Parse (List Param) := do
  advance
  repeating [.untyped first] (fun list => do
    if ← accept "," then
      match ← current with
      | .name text =>
          advance
          return (list ++ [.untyped text], true)
      | _ => refuse
    else return (list, false))

/- The parameters of a function, once their list is open; a
  function with a name may have parameters without types. -/
def params (named : Bool) : Parse (Option (List Param)) := do
  let list ←
    match ← current with
    | .mark ")" => pure none
    | .name text =>
        if named then some <$> untypedParams text else refuse
    | token =>
        if token.beginsDeclaration then
          some <$> typedParams readers
        else refuse
  expect ")"
  return list

/- Enter the names of parameters, up to an open end, if the body of the function begins here. -/
def declareParams (list : Option (List Param)) : Parse Unit := do
  if ← atMark "\x7b" then
    let named := (list.getD []).takeWhile (fun param =>
        match param with
        | .ellipsis => false
        | _ => true)
    named.forM (fun param => do
      match param with
      | .typed (some name) _ => declareName false name
      | .untyped name => declareName false name
      | _ => pure ())

def arraySize : Parse Modifier := do
  match ← current, ← following with
  | .mark "*", .mark "]" =>
      advance
      advance
      return .array (some (.name "*"))
  | .mark "]", _ =>
      advance
      return .array none
  | _, _ =>
      let size ← readers.assignment
      expect "]"
      return .array (some size)

/- The marks after a declarator. -/
def declaratorSuffixes (start : Declarator) : Parse Declarator :=
  repeating start (fun declarator => do
    let add (modifier : Modifier) : Declarator := { declarator with
        modifiers := declarator.modifiers ++ [modifier] }
    match ← current with
    | .mark "[" =>
        advance
        return (add (← arraySize readers), true)
    | .mark "(" =>
        advance
        let named := declarator.name.isSome
        let list ← params readers named
        if named then declareParams list
        return (add (.function list), true)
    | _ => return (declarator, false))

def pointerMarks : Parse Nat :=
  repeating 0 (fun count => do
    match ← current with
    | .mark "*" =>
        advance
        return (count + 1, true)
    | .keyword text =>
        if count > 0 && qualifierWords.contains text then
          advance
          return (count, true)
        else return (count, false)
    | _ => return (count, false))

/- A declarator; with a name or without one, as allowed. -/
def declarator (readers : Readers) (named abstract : Bool) : Parse Declarator := do
  let pointers ← pointerMarks
  let close (declarator : Declarator) : Declarator := { declarator with
      modifiers := declarator.modifiers ++ List.replicate pointers .pointer }
  match ← current with
  | .name text =>
      if !named then refuse
      advance
      return close (← declaratorSuffixes readers { name := some text })
  | .typeName text =>
      if !(named && pointers > 0) then refuse
      advance
      return close { name := some text }
  | .mark "(" =>
      let next ← following
      if next.beginsDeclaration || next = .mark ")" then
        if !abstract then refuse
        return close (← declaratorSuffixes readers {})
      else
        advance
        let inner ← readers.declarator named abstract
        expect ")"
        return close (← declaratorSuffixes readers inner)
  | .mark "[" =>
      if !abstract then refuse
      return close (← declaratorSuffixes readers {})
  | _ =>
      if abstract && pointers > 0 then return close {}
      else refuse

def typeName : Parse TypeExpr := do
  let specifiers ← specifiers readers false
  let modifiers ←
    if ← atMark ")" then pure []
    else
      Declarator.modifiers <$> declarator readers false true
  let base ← baseOf specifiers.types modifiers
  return .mk modifiers base false

-- Declarations

def initializer : Parse Unit := do
  if ← atMark "\x7b" then initialValues readers
  else
    let _ ← assignment readers

def optionalInitializer : Parse Unit := do
  if ← accept "=" then readers.initializer

def declaredForms (first : Form) : Parse (List (Form × Option Expr)) :=
  repeating [(first, none)] (fun forms => do
    if ← accept "," then
      let declarator ← declarator readers true false
      optionalInitializer readers
      return (forms ++ [(.declarator declarator, none)], true)
    else return (forms, false))

def specifiersAlone (specifiers : Specifiers) : Parse (List Decl) := do
  match specifiers.types with
  | [.words _] | [] | _ :: _ :: _ =>
      complete specifiers [(.missing, none)] true
  | [base] =>
      return [.mk none specifiers.storage specifiers.functionWords (.mk [] base true) none
        (← freshKey)]

def itemsOf (specifiers : Specifiers) (alone : Bool) (decls : List Decl) : List Item :=
  if specifiers.storage.contains "typedef" && !alone then
    decls.map .typeName
  else decls.map .declaration

/- Whether specifiers without a form define a type only. -/
def definesOnly (specifiers : Specifiers) : Bool :=
  match specifiers.types with
  | [.words _] => false
  | [_] => true
  | _ => false

def finishDeclaration (specifiers : Specifiers) (first : Form) :
    Parse (List Item) := do
  let forms ← declaredForms readers first
  if !(← atMark ";") then refuse
  let decls ← complete specifiers forms true
  advance
  return itemsOf specifiers false decls

/-
  A declaration that begins with specifiers. Where functions may be defined, the definition is given
  the declarations of its parameters and its body.
-/
def declaration (define : Option (Specifiers → Declarator →
    Parse (List Item))) :
    Parse (List Item) := do
  let specifiers ← specifiers readers true
  match ← current with
  | .mark ";" =>
      let decls ← specifiersAlone specifiers
      advance
      return itemsOf specifiers (definesOnly specifiers) decls
  | .mark "=" =>
      advance
      readers.initializer
      finishDeclaration readers specifiers .missing
  | _ =>
      let declarator ← declarator readers true true
      if declarator.name.isNone then
        finishDeclaration readers specifiers (.declarator declarator)
      else
        match ← current, define with
        | .mark "=", _ =>
            optionalInitializer readers
            finishDeclaration readers specifiers (.declarator declarator)
        | .mark ",", _ | .mark ";", _ =>
            finishDeclaration readers specifiers (.declarator declarator)
        | _, some define => define specifiers declarator
        | _, none => refuse

def body : Parse Unit := do
  expect "\x7b"
  repeating () (fun _ => do
    if ← atMark "\x7d" then return ((), false)
    else if (← current).beginsDeclaration then
      let _ ← declaration readers none
      return ((), true)
    else
      readers.statement
      return ((), true))
  expect "\x7d"

def functionDefinition (specifiers : Specifiers) (declarator : Declarator) :
    Parse (List Item) := do
  repeating () (fun _ => do
    if (← current).beginsDeclaration then
      let _ ← declaration readers none
      return ((), true)
    else return ((), false))
  body readers
  if specifiers.storage.contains "typedef" then
    throw .brokenRule
  let decls ←
    complete specifiers [(.declarator declarator, none)] true
  return decls.map .function

-- Statements

def optionalExpression (ending : String) : Parse Unit := do
  if !(← atMark ending) then
    let _ ← expression readers
  expect ending

def inParentheses : Parse Unit := do
  expect "("
  let _ ← readers.expression
  expect ")"

def keywordStatement (word : String) : Parse Unit := do
  match word with
  | "case" =>
      advance
      let _ ← readers.conditional
      expect ":"
      readers.statement
  | "default" =>
      advance
      expect ":"
      readers.statement
  | "if" =>
      advance
      inParentheses readers
      readers.statement
      if ← atKeyword "else" then
        advance
        readers.statement
  | "switch" | "while" =>
      advance
      inParentheses readers
      readers.statement
  | "do" =>
      advance
      readers.statement
      expectKeyword "while"
      inParentheses readers
      expect ";"
  | "for" =>
      advance
      expect "("
      if (← current).beginsDeclaration then
        let _ ← declaration readers none
      else optionalExpression readers ";"
      optionalExpression readers ";"
      optionalExpression readers ")"
      readers.statement
  | "goto" =>
      advance
      match ← current with
      | .name _ =>
          advance
          expect ";"
      | _ => refuse
  | "break" | "continue" =>
      advance
      expect ";"
  | "return" =>
      advance
      optionalExpression readers ";"
  | _ => optionalExpression readers ";"

def statement (readers : Readers) : Parse Unit := do
  match ← current, ← following with
  | .mark "\x7b", _ => body readers
  | .name _, .mark ":" =>
      advance
      advance
      readers.statement
  | .keyword word, _ => keywordStatement readers word
  | _, _ => optionalExpression readers ";"

end

-- Texts

def readers : Nat → Readers
| 0 => Readers.none
| depth + 1 =>
    let inner := readers depth
    { expression := expression inner,
      assignment := assignment inner,
      conditional := conditional inner,
      operand := operand inner,
      typeName := typeName inner,
      specifiers := specifiers inner,
      declarator := declarator inner,
      initializer := initializer inner,
      statement := statement inner }

/- What stands at the outermost level at one place: nothing for a mark by itself. -/
def outermost (readers : Readers) : Parse (Option (List Item)) := do
  match ← current with
  | .mark ";" =>
      advance
      return none
  | .name _ | .mark "*" | .mark "(" =>
      let declarator ← declarator readers true false
      some <$> functionDefinition readers { types := [.words ["int"]] } declarator
  | token =>
      if token.beginsDeclaration then
        some <$> declaration readers (some (functionDefinition readers))
      else refuse

/- Add items to those before them. A text that begins with a
  mark by itself cannot go on with a declaration. -/
def addItems (before : Option (List Item)) : Option (List Item) → Except Fault (Option (List Item))
| none => .ok before
| some items =>
    match before with
    | some list => .ok (some (list ++ items))
    | none => .error .missingPart

def outermostItems (readers : Readers) : Parse (List Item) := do
  advance
  if (← current) = .ended then return []
  let first ← outermost readers
  let items ←
    repeating first (fun items => do
      if (← current) = .ended then return (items, false)
      else
        let more ← outermost readers
        return (← addItems items more, true))
  return items.getD []

def parse : Parser := fun text =>
  let lexemes := scan text.toList
  StateT.run' (outermostItems (readers (lexemes.length + 2))) { rest := lexemes }

end Declaration

end CHeader
