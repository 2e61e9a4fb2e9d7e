import CHeader.Declaration.Tree
import CHeader.Interface.TypeName
import CHeader.Value.Number

/-
  What type expressions mean.

  Finding the type of an expression defines the structures, unions and enumerations inside it on the
  way. One that has no tag gets a name that is made up, once for each place it is written at. A
  pointer to a record that is not known yet enters the record without members.

  Key definitions include:
    * `Work.constantValue`
    * `Work.typeOver`
    * `Work.calculate`
-/

namespace CHeader

open Declaration

namespace Work

-- Constants

def constantValue (kind text : String) : Except Fault Value :=
  if kind = "int" then
    match Text.readLiteral? text with
    | some n => .ok (.int n)
    | none => .error .badValue
  else if kind = "float" then
    match Text.readReal? text with
    | some x => .ok (.real x)
    | none => .error .badValue
  else .error (.invalidConstantType kind)

def constantKindName : ConstantKind → String
| .int => "int"
| .float => "float"
| .char => "char"
| .string => "string"

def expressionKind : Declaration.Expr → String
| .name _ => "ID"
| .constant _ _ => "Constant"
| .unary _ _ => "UnaryOp"
| .sizeofType _ => "UnaryOp"
| .binary _ _ _ => "BinaryOp"
| .conditional _ _ _ => "TernaryOp"
| .unvalued .call => "FuncCall"
| .unvalued .cast => "Cast"
| .unvalued .subscript => "ArrayRef"
| .unvalued .member => "StructRef"
| .unvalued .sequence => "ExprList"
| .unvalued .assignment => "Assignment"
| .unvalued .literal => "CompoundLiteral"

def noType (expr : Declaration.Expr) : Fault :=
  .described "ValueError" ("<class 'pycparser.c_ast." ++ expressionKind expr ++ "'>")

def applyFront (op : String) (value : Value) : Work Value := do
  match op with
  | "-" => lift value.negate
  | "+" => lift value.positive
  | "~" => lift value.complement
  | "sizeof" =>
      return .int (← onHeap (OnHeap.sizeOfValue value))
  | _ => throw .wrongKind

/- Whether an operator in front of a value is known. -/
def isFrontOperator (op : String) : Bool := ["-", "+", "~", "sizeof", "*"].contains op

def orPointer (step : Work Value) : Work Value :=
  tryCatch step (fun fault =>
    match fault with
    | .missingName => do
        report .warning "Variable not found when calculating node"
        return .type (.scalar .voidPointer)
    | fault => throw fault)

-- Tags

/- The tag of a definition, or the name made up for it. -/
def tagOf (tag : Option String) (key : Nat) : Work (Option String) := do
  match tag with
  | some name => return some name
  | none =>
      return ((← get).givenNames.find? (fun given => given.1 = key)).map Prod.snd

def nameKey (key : Nat) : Work String := do
  let name ← madeUpName
  modify (fun work =>
    { work with
      givenNames := work.givenNames ++ [(key, name)] })
  return name

variable (kind : RecordKind)

/- Enter a record without members under a tag, unless the tag is known. -/
def enterRecord (tag : Option String) : Work Unit := do
  if ((← tagged kind).find? tag).isNone then
    let type ← newRecord kind (tag.getD "None")
    setTagged kind tag (.type type)

def replaceRecord (name : String) : Work Value := do
  let type ← newRecord kind name
  setTagged kind (some name) (.type type)
  return .type type

/- What a base is for a pointer to it when its type is not known. -/
def unknownTarget : Option Base → Work Value
| some (.record kind tag _ key) => do
    replaceRecord kind ((← tagOf tag key).getD "None")
| some (.enumeration tag _ key) => do
    let name := (← tagOf tag key).getD "None"
    setItem name .none
    item name
| _ => throw .missingPart

/- Put pointers on a value that may be unknown. -/
def addPointers (count : Nat) (base : Option Base) (value : Value) : Work Value := do
  match count with
  | 0 => return value
  | more + 1 =>
      let value ←
        match value with
        | .text "" => unknownTarget base
        | value => pure value
      lift (do
        pointers pointerTo more (← pointerOrText value))

def functionType (result : Value) (params : List Value) : Except Fault CType := do
  let result ←
    match result with
    | .none => .ok none
    | .type type => .ok (some type)
    | _ => .error .wrongKind
  let params ← params.mapM (fun param =>
    match param with
    | .type type => .ok type
    | _ => .error Fault.wrongKind)
  return .function result params

-- Members

def widthOf : Declaration.Expr → Except Fault Nat
| .constant _ text =>
    match Text.readInteger? text with
    | some n => .ok n.toNat
    | none => .error .badValue
| _ => .error .missingPart

structure WrittenMember where
  name : Option String
  type : Value
  bits : Option Nat
  deriving Inhabited

def memberOf? (written : WrittenMember) : Option Member :=
  match written.name, written.type with
  | some name, .type type =>
      some { name := name, type := type, bits := written.bits }
  | _, _ => none

/- Give a record the members that are written. The first one without a name or a type is refused,
  after those before it were found to be in order. -/
def setWrittenMembers (number : Nat) (written : List WrittenMember) : Work Unit := do
  let members := written.map memberOf?
  let valid := (members.takeWhile Option.isSome).filterMap id
  if valid.length = written.length then
    setMembers number valid
  else
    let table ← types
    if (table.record number).isFixed then throw .missingPart
    modifyTypes (·.modify number (fun record => { record with members := some valid }))
    lift ((← types).checkMembers valid).2
    throw .wrongKind

def recordNumber (tag : Option String) : Work Nat := do
  match (← tagged kind).find? tag with
  | some (.type (.record number)) => return number
  | some _ => throw .missingPart
  | none => throw .missingName

/- How the type of a member is described. -/
def describeBase : Base → Work String
| .words names => return Text.joinWith " " names
| .record _ tag _ key => return (← tagOf tag key).getD "None"
| .enumeration tag _ key => do
    return (← tagOf tag key).getD "None"

def describeType (modifiers : List Modifier) (base : Base) : Work String := do
  let functions := modifiers.filter (fun modifier =>
      match modifier with
      | .function _ => true
      | _ => false)
  let start := Text.concat (List.replicate functions.length "(*function) ")
  let mark :=
    match base with
    | .record .struct _ _ _ => ":struct:"
    | .record .union _ _ _ => ":union:"
    | _ => ""
  return start ++ mark ++ (← describeBase base)

/- What stands for the operand of an operator in front: the type of a variable, or a constant. -/
def valueOfOperand (expr : Declaration.Expr) : Work Value := do
  match expr with
  | .name text =>
      match (← iface).exported? text with
      | some (type, _) => return type
      | none => throw .missingName
  | .constant kind text =>
      lift (constantValue (constantKindName kind) text)
  | expr => throw (noType expr)

-- Meaning

mutual

/- What modifiers over a base mean under a number of pointers. -/
def typeOver (count : Nat) (modifiers : List Modifier) (base : Base) : Work Value := do
  match modifiers with
  | [] =>
      let value ← typeOfBase base
      addPointers count (some base) value
  | .pointer :: rest => typeOver (count + 1) rest base
  | .array size :: rest =>
      let length ← sizeOfArray size
      let item ← typeOver 0 rest base
      let value ← onHeap (OnHeap.times length item)
      addPointers count none value
  | .function params :: rest =>
      let result ← typeOver 0 rest base
      if count = 0 then return result
      let types ← paramTypes params
      let type ← lift (functionType result types)
      addPointers (count - 1) none (.type type)
termination_by sizeOf modifiers + sizeOf base

def typeOf (type : TypeExpr) : Work Value := do
  match type with
  | .mk modifiers base _ => typeOver 0 modifiers base
termination_by sizeOf type

def typeOfBase (base : Base) : Work Value := do
  match base with
  | .words names =>
      let sign :=
        if names.contains "signed" then "signed"
        else if names.contains "unsigned" then "unsigned"
        else ""
      let value ←
        typeNamed true (some (orderedWords sign (names.count "long") names))
      if names.contains "_Complex" then
        onHeap (OnHeap.times 2 value)
      else return value
  | .record kind tag members key =>
      let name ← tagOf tag key
      match name, members with
      | none, members =>
          let name ← nameKey key
          defineRecord kind (some name) members
          typeNamed true (some name)
      | some name, some members =>
          if ((← tagged kind).find? (some name)).isNone then
            defineRecord kind (some name) (some members)
          typeNamed true (some name)
      | some name, none => typeNamed true (some name)
  | .enumeration tag values key =>
      match ← tagOf tag key with
      | some name => typeNamed true (some name)
      | none =>
          let name ← nameKey key
          defineEnum (some name) values
          typeNamed true (some name)
termination_by sizeOf base

def defineRecord (kind : RecordKind) (tag : Option String) (members : Option (List Decl)) :
    Work Unit := do
  enterRecord kind tag
  match kind, members with
  | .struct, none => return ()
  | .union, none => throw .wrongKind
  | kind, some members =>
      let (written, descriptions) ←
        writtenMembers kind members
      let number ← recordNumber kind tag
      setWrittenMembers number written
      modifyTypes (·.describe number descriptions)
termination_by sizeOf members

/- The type of a declared name. A static one has none. -/
def typeOfDecl (decl : Decl) : Work Value := do
  match decl with
  | .mk _ storage _ type _ _ =>
      if storage.contains "static" then return .none
      else typeOf type
termination_by sizeOf decl

/- The members of a record as they are written, with the descriptions of their types. -/
def writtenMembers (kind : RecordKind) (members : List Decl) :
    Work (List WrittenMember × List String) := do
  match members with
  | [] => return ([], [])
  | .mk name storage words type bits key :: rest =>
      let value ← typeOfDecl (.mk name storage words type bits key)
      let name ←
        match name, kind with
        | none, .struct =>
            match ← tagOf none key with
            | some name => pure (some name)
            | none => some <$> nameKey key
        | name, _ => pure name
      let bits ← lift (bits.mapM widthOf)
      let description ← describeBase type.base
      let (written, descriptions) ← writtenMembers kind rest
      return (⟨name, value, bits⟩ :: written, description :: descriptions)
termination_by sizeOf members

def defineEnum (tag : Option String) (values : Option (List Enumerator)) : Work Unit := do
  setEnum tag (.type (.scalar .int))
  match values with
  | none => throw .missingPart
  | some values => defineEnumerators 0 (.int 0) values
termination_by sizeOf values

/- Give the names of an enumeration their values: each is
  its position plus an offset that given values set. -/
def defineEnumerators (position : Nat) (offset : Value) (values : List Enumerator) : Work Unit := do
  match values with
  | [] => return ()
  | .mk name given :: rest =>
      let offset ←
        match given with
        | none => pure offset
        | some expr =>
            let value ← calculate expr
            lift (Value.binary .sub value (.int position))
      let value ←
        lift (Value.binary .add (.int position) offset)
      setItem name value
      defineEnumerators (position + 1) offset rest
termination_by sizeOf values

/- The types of parameters, up to an open end; what means no type is left out. -/
def paramTypes (params : Option (List Param)) : Work (List Value) := do
  match params with
  | none => return []
  | some params => return (← describedParams params).map Prod.fst
termination_by sizeOf params

def describedParams (params : List Param) : Work (List (Value × String)) := do
  match params with
  | [] => return []
  | .ellipsis :: _ => return [(.type .ellipsis, "...")]
  | .untyped _ :: rest => describedParams rest
  | .typed _ type :: rest =>
      let first ← typeOf type
      let isType ← onHeap (OnHeap.truth first)
      let described ←
        if isType then
          let value ← typeOf type
          let description ←
            describeType type.modifiers type.base
          pure [(value, description)]
        else pure []
      return described ++ (← describedParams rest)
termination_by sizeOf params

def sizeOfArray (size : Option Declaration.Expr) : Work Int := do
  match size with
  | none => return 1
  | some expr => lift (← calculate expr).toWhole
termination_by sizeOf size

def calculate (expr : Declaration.Expr) : Work Value := do
  match expr with
  | .binary op left right =>
      let left ← calculate left
      let right ← calculate right
      match Value.operator? op with
      | some op => lift (Value.binary op left right)
      | none => throw .missingName
  | .unary op operand =>
      if !isFrontOperator op then throw .missingName
      let value ← orPointer (valueOfOperand operand)
      applyFront op value
  | .sizeofType type =>
      let value ← orPointer (typeOf type)
      applyFront "sizeof" value
  | .conditional test yes no =>
      if ← onHeap (OnHeap.truth (← calculate test)) then
        calculate yes
      else calculate no
  | .name text => item text
  | .constant kind text =>
      lift (constantValue (constantKindName kind) text)
  | .unvalued _ => throw .missingPart
termination_by sizeOf expr

end

end Work

end CHeader
