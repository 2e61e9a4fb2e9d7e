import CHeader.Format.Specifier
import CHeader.Interface.Names
import CHeader.Value.Kind

/-
  Arguments of calls.

  Each argument is turned into an object of the type that the function takes there. A list of one
  item stands for a pointer to the item, and holds what the pointer refers to afterwards. The
  arguments after the parameters of an open list are turned into what the format, the last of the
  parameters, asks for. If that fails they are taken as they are.

  Key definitions include:
    * `Work.convertArgument`
    * `Work.convertArguments`
    * `Work.convertFormatted`
-/

namespace CHeader

namespace Work

-- The arguments and the function

def setArgument (index : Nat) (value : Value) : Work Unit :=
  modify (fun work =>
    { work with
      arguments := work.arguments.set index (.list [value]) })

variable (name : String)

def functionNamed : Work Function := do
  match ← item name with
  | .function f => return f
  | _ => throw .missingPart

def setAccepted (types : List CType) : Work Unit := do
  let f ← functionNamed name
  setPlain name (.function { f with accepted := types })

def openEnd : Fault :=
  .described "NotImplementedError" ("The from_param method of EllipsisType objects should " ++
      "never be called")

-- Lists

def manyItems : Fault :=
  .described "ValueError" "Lists representing pointers must not have multiple elements."

def innermost : Value → Except Fault (Nat × Value)
| .list [] => .error .outOfRange
| .list [value] => do
    let (depth, inner) ← innermost value
    return (depth + 1, inner)
| .list _ => .error manyItems
| value => .ok (0, value)

/- What is left of a type when pointers and arrays are taken
  off. A scalar leaves something that is no type. -/
def stripped : Nat → CType → Except Fault (Option CType)
| 0, type => .ok (some type)
| depth + 1, .pointer target => stripped depth target
| depth + 1, .array item _ => stripped depth item
| 1, .scalar _ => .ok none
| _, _ => .error .missingPart

/- A pointer to a value for a parameter of a type, so many pointers below the outermost. -/
def pointerFor (type : CType) (depth : Nat) (value : Value) : Work Value := do
  match ← lift (stripped depth type) with
  | none => throw .wrongKind
  | some inner =>
      if (← types).hasContents inner then
        return .object (← onHeap (OnHeap.make (.pointer inner) [value]))
      else
        let object ← onHeap (OnHeap.make inner [value])
        return .object (← onHeap (OnHeap.reference object))

def isText : Value → Bool
| .text _ => true
| .bytes _ => true
| _ => false

def textObject (value : Value) : Work Value := do
  return .object (← onHeap (OnHeap.make (.scalar .charPointer) [value]))

/- Put pointers on top of a value, the innermost first. -/
def addLevels (level : Nat → Value → Work Value) : Nat → Value → Work Value
| 0, value => pure value
| depth + 1, value => do
    addLevels level depth (← level (depth + 1) value)

/- One pointer on top of a value. A type gives a pointer to nothing, which the list then holds. -/
def addLevel (takesText : Bool) (other : Nat → Value → Work Value) (index depth : Nat)
    (value : Value) :
    Work Value := do
  match value with
  | .type .ellipsis => throw .wrongKind
  | .type t =>
      let null ← onHeap (OnHeap.make (.pointer t) [])
      setArgument index (.object null)
      return .object null
  | value =>
      if takesText && isText value then textObject value
      else other depth value

/- Turn a list into a pointer; the list then holds what the pointer refers to. -/
def convertList (takesText : Bool) (other : Nat → Value → Work Value) (index : Nat) (list : Value) :
    Work Value := do
  let (depth, inner) ← lift (innermost list)
  let value ←
    addLevels (addLevel takesText other index) depth inner
  match value with
  | .object object =>
      if object.type.isPointer then
        let held ← onHeap (OnHeap.contents object)
        setArgument index (.object held)
      else setArgument index (OnHeap.readBytes inner)
  | _ => pure ()
  return value

-- Arguments with parameters

/- Give a pointer to nothing something to refer to. -/
def fillNull (object : Object) : Work Unit := do
  match object.type with
  | .pointer target =>
      if ← onHeap (OnHeap.isNull (.object object)) then
        let inner ← onHeap (OnHeap.make target [])
        onHeap (OnHeap.write object.address (OnHeap.addressBytes inner.address))
  | _ => pure ()

def convertArgument (type : CType) (index : Nat) (arg : Value) : Work Value := do
  let other : Work Value := do
    return .object (← onHeap (OnHeap.make type [arg]))
  match arg with
  | .none => return arg
  | .object object =>
      if object.type == type then
        fillNull object
        return arg
      else other
  | .list _ =>
      convertList (type == .scalar .charPointer) (pointerFor type) index arg
  | arg =>
      if isText arg then
        let text ← textObject arg
        if type == .scalar .charPointer then return text
        else
          return .object (← onHeap (OnHeap.cast text type))
      else other

/- Turn arguments into objects of types, as far as there are both. -/
def convertEach : Nat → List Value → List CType → Work (List Value)
| index, arg :: args, type :: types => do
    let first ← convertArgument type index arg
    return first :: (← convertEach (index + 1) args types)
| _, _, _ => return []

def givenArguments : Work (List Value) := do
  return (← get).arguments

def convertArguments : Work (List Value) := do
  let f ← functionNamed name
  match f.fixedParams with
  | some params => setAccepted name params
  | none => pure ()
  convertEach 0 (← givenArguments) (← functionNamed name).accepted

-- Arguments of formats

/- The text of a format. Bytes count in their quoted form. -/
def formatText (value : Value) : Work (List Char) := do
  let held ←
    match value with
    | .object object =>
        match object.type with
        | .scalar _ =>
            onHeap (OnHeap.load object.type object.address)
        | .array (.scalar .char) count => do
            let bytes ← onHeap (OnHeap.read object.address count)
            pure (.bytes (bytes.takeWhile (· ≠ 0)))
        | _ => throw .missingPart
    | _ => throw .missingPart
  match held with
  | .text s => return s.toList
  | .bytes b => return (Text.quotedBytes b).toList
  | _ => throw .missingPart

/- The types of the arguments that a format asks for. Two percent signs ask for none. -/
def formatTypes : List Char → List CType
| '%' :: '%' :: rest => formatTypes rest
| '%' :: rest =>
    Format.argumentTypes ('%' :: rest) ++ formatTypes rest
| _ :: rest => formatTypes rest
| [] => []

def convertAsked (type : CType) (arg : Value) : Work Value := do
  match type with
  | .pointer _ | .scalar .voidPointer =>
      return .object (← onHeap (OnHeap.cast arg type))
  | type =>
      return .object (← onHeap (OnHeap.make type [arg]))

/- Turn arguments into what a format asks for; there must be one for each type. -/
def convertAllAsked : List CType → List Value → Work (List Value)
| [], _ => return []
| _ :: _, [] => throw .outOfRange
| type :: types, arg :: args => do
    let first ← convertAsked type arg
    return first :: (← convertAllAsked types args)

/- The arguments that the format among the first ones asks for, or none if they do not fit it. -/
def askedArguments? (fixed args : List Value) : Work (Option (List Value)) :=
  let step : Work (Option (List Value)) := do
    match fixed.getLast? with
    | none => return none
    | some last =>
        let types := formatTypes (← formatText last)
        return some (← convertAllAsked types (args.drop fixed.length))
  tryCatch step (fun _ => return none)

-- Arguments without parameters

def uncheckedMessage : String :=
  "Variable argument list not compatible with printf; " ++
    "Argument types will not be verified by the interface."

/- Whether a type is one of those that come with the language and not with a header. -/
def isStandard : CType → Bool
| .scalar _ | .function _ _ => true
| .pointer (.scalar .char) => true
| .pointer (.scalar .wideChar) => true
| _ => false

def unknownArgument : Fault :=
  .described "TypeError" "can only concatenate str (not \"int\") to str"

def takeArgument (index : Nat) (arg : Value) : Work Value := do
  match arg with
  | .none => return arg
  | .list _ =>
      convertList true (fun _ value => do
          match value with
          | .object _ => onHeap (OnHeap.pointerToValue value)
          | _ => throw .wrongKind)
        index arg
  | arg =>
      if isText arg then textObject arg
      else
        match arg.ownType? with
        | some t =>
            if isStandard t then return arg
            else throw unknownArgument
        | none => throw unknownArgument

def takeArguments : Nat → List Value → Work (List Value)
| _, [] => return []
| index, arg :: args => do
    let first ← takeArgument index arg
    return first :: (← takeArguments (index + 1) args)

def convertFormatted : Work (List Value) := do
  let fixed ← convertArguments name
  let args ← givenArguments
  let asked ← askedArguments? fixed args
  let known := fixed ++ asked.getD []
  let types := known.filterMap Value.ownType?
  if asked.isSome && types.length = known.length then
    setAccepted name types
    return known
  else
    report .info uncheckedMessage
    return known ++ (← takeArguments known.length (args.drop known.length))

end Work

end CHeader
