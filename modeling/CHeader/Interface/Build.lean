import CHeader.Interface.Meaning

/-
  Building an interface from declarations.

  A declared variable is exported if a library has a symbol of its name, and a declared function is
  bound to the first library that has one. Structures, unions, enumerations and names of types enter
  the interface as they are declared.

  Key definitions include:
    * `Work.defineFunction`
    * `Work.visitType`
    * `Work.declare`
-/

namespace CHeader

open Declaration

namespace Work

-- Functions

def foreignConvention : String := "__stdcall"

def beforeEllipsis? (params : List CType) : Option (List CType) :=
  match params.getLast? with
  | some .ellipsis => some params.dropLast
  | _ => none

def libraryWith? (symbol : String) : List String → Work (Option String)
| [] => return none
| library :: rest => do
    if (← symbolAddress? library symbol).isSome then
      return some library
    else libraryWith? symbol rest

/- Bind a function to the first library that has it. -/
def defineFunction (name : String) (result : Value) (params : List Value) (convention : String)
    (descriptions : List String) :
    Work Unit := do
  if convention = foreignConvention then throw .missingPart
  match ← lift (functionType result params) with
  | .function result params =>
      match ← libraryWith? name (← iface).libraries with
      | none => report .info (name ++ " symbol not found")
      | some library =>
          setItem name (.function
              { library := library,
                symbol := name,
                result := result,
                params := params,
                convention := convention,
                descriptions := descriptions,
                fixedParams := beforeEllipsis? params,
                accepted := params })
  | _ => throw .wrongKind

/- Declare a function by the modifiers below it, with the
  words that came before it if they are known. -/
def declareFunction (name : Option String) (functionWords : Option (List String))
    (params : Option (List Param)) (rest : List Modifier) (base : Base) :
    Work Unit := do
  let result ← typeOver 0 rest base
  let description ← describeType rest base
  let described ← describedParams (params.getD [])
  match functionWords with
  | none => throw .missingPart
  | some words =>
      defineFunction (name.getD "None") result (described.map Prod.fst)
        (if words.contains foreignConvention then
          foreignConvention
        else commonConvention)
        (description :: described.map Prod.snd)

-- Declarations

def visitBase (base : Base) : Work Unit := do
  match base with
  | .words _ => return ()
  | .record kind tag members key =>
      defineRecord kind (← tagOf tag key) members
  | .enumeration tag values key =>
      defineEnum (← tagOf tag key) values

def visitType (name : Option String) (functionWords : Option (List String)) :
    List Modifier → Base → Work Unit
| [], base => visitBase base
| .function params :: rest, base =>
    declareFunction name functionWords params rest base
| _ :: rest, base => visitType name functionWords rest base

def pointsToPlain (base : Base) : List Modifier → Bool
| .pointer :: rest =>
    match rest with
    | [] =>
        match base with
        | .words _ => true
        | _ => false
    | .array _ :: _ => true
    | _ => pointsToPlain base rest
| _ => false

def isVariable (type : TypeExpr) : Bool :=
  match type.modifiers with
  | [] =>
      !type.bare &&
        match type.base with
        | .words _ => true
        | .record .struct _ _ _ => true
        | _ => false
  | .array _ :: _ => true
  | modifiers => pointsToPlain type.base modifiers

def exportVariable (name : String) (type : Value) : List String → Work Unit
| [] => return ()
| library :: rest => do
    let found ←
      tryCatch (do
          let _ ← variableAt type library name
          return true)
        (fun fault =>
          match fault with
          | .badValue => return false
          | fault => throw fault)
    if found then
      modifyIface (fun iface =>
        { iface with
          exported := Macro.assign name (type, library) iface.exported })
    else exportVariable name type rest

def isFunctionBelow : List Modifier → Bool
| .pointer :: rest => isFunctionBelow rest
| .function _ :: _ => true
| _ => false

def declare (decl : Decl) : Work Unit := do
  if decl.storage.contains "static" then return ()
  let type := decl.type
  if isVariable type then
    let value ← typeOf type
    exportVariable (decl.name.getD "None") value (← iface).libraries
  else
    let words :=
      if isFunctionBelow type.modifiers then
        some decl.functionWords
      else none
    visitType decl.name words type.modifiers type.base

def declareType (decl : Decl) : Work Unit := do
  let type := decl.type
  let name := decl.name.getD "None"
  let value ← typeOf type
  let isPlain := type.modifiers.isEmpty &&
      match type.base with
      | .words _ => true
      | _ => false
  match value with
  | .text "" =>
      if isPlain then setItem name value
      else
        visitType decl.name none type.modifiers type.base
        setItem name (← typeOf type)
  | value => setItem name value

def isFunctionType : Value → Bool
| .type (.function _ _) => true
| .object { type := .function _ _, .. } => true
| _ => false

/- Declare a function that is defined in the text, unless
  its name stands for a pointer to a function. -/
def declareDefined (decl : Decl) : Work Unit := do
  if decl.storage.contains "static" then return ()
  match ← item? (decl.name.getD "None") with
  | some value =>
      if isFunctionType value then return ()
      else declare decl
  | none => declare decl

def addItem : Item → Work Unit
| .declaration decl => declare decl
| .typeName decl => declareType decl
| .function decl => declareDefined decl

end Work

end CHeader
