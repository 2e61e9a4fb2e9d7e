import CHeader.Interface.Build
import CHeader.Interface.Save

/-
  Values of interfaces from plain data.

  A table of a known kind is made into what it tells of, and any other value stands for itself. A
  reference to a name that the interface does not have yet is followed to the data of that name.
  There may be chains of such references, but no endless ones.

  Key definitions include:
    * `Work.entryOf`
    * `Work.restoreItem`
-/

namespace CHeader

-- Entries of tables

abbrev Entries := List (Option String × Value)

namespace Value

/- An entry that is found in a table is one of it. -/
theorem mem_of_find? (h : find? entries name = some value) : ∃ key, (key, value) ∈ entries := by
  unfold find? at h
  obtain ⟨entry, hFind, hEq⟩ := Option.map_eq_some_iff.1 h
  exact ⟨entry.1, hEq ▸ List.mem_of_find?_eq_some hFind⟩

theorem sizeOf_find?_lt (h : find? entries name = some value) :
    sizeOf value < sizeOf (Value.table entries) := by
  obtain ⟨key, hMem⟩ := mem_of_find? h
  have hLt := List.sizeOf_lt_of_mem hMem
  simp at hLt ⊢
  omega

/- The items of a list or tuple, each smaller than it. -/
def items? : (value : Value) → Option (List { item : Value // sizeOf item < sizeOf value })
| .list items =>
    some (items.attach.map (fun ⟨item, h⟩ =>
      ⟨item, by
        have := List.sizeOf_lt_of_mem h
        simp; omega⟩))
| .tuple items =>
    some (items.attach.map (fun ⟨item, h⟩ =>
      ⟨item, by
        have := List.sizeOf_lt_of_mem h
        simp; omega⟩))
| _ => Option.none

def texts : Value → List String
| .list items =>
    items.map (fun item => (text? item).getD "")
| _ => []

end Value

namespace Work

-- Parts of data

def entryOf (entries : Entries) (name : String) :
    Work { value : Value // sizeOf value < sizeOf (Value.table entries) } :=
  match h : Value.find? entries name with
  | some value => pure ⟨value, Value.sizeOf_find?_lt h⟩
  | none => throw .missingName

def itemsOf (value : Value) : Work (List { item : Value // sizeOf item < sizeOf value }) :=
  match value.items? with
  | some items => pure items
  | none => throw .wrongKind

def textOf : Value → Work String
| .text s => pure s
| _ => throw .wrongKind

/- How many pointers a reference asks for. No count below zero comes to an end. -/
def pointerCount : Value → Work Nat
| .int n => if n < 0 then throw .endless else pure n.toNat
| .bool b => pure b.toNat
| .none => pure 0
| _ => throw .wrongKind

-- Records

def recordKind? : String → Option RecordKind
| "struct" => some .struct
| "union" => some .union
| _ => none

def hasMembers (value : Value) : Work Bool := do
  match value with
  | .type (.record number) =>
      return ((← types).record number).members.isSome
  | _ => return false

/- A member as data tells it: what stands in place of the type is kept for later. -/
structure FieldData (bound : Nat) where
  name : Value
  type : { value : Value // sizeOf value < bound }
  bits : Option Value

def fieldData {bound : Nat} (field : { value : Value // sizeOf value < bound }) :
    Work (FieldData bound) := do
  let items ← itemsOf field.val
  match items with
  | [] | [_] => throw .outOfRange
  | name :: type :: rest =>
      return {
        name := name.val,
        type := ⟨type.val, Nat.lt_trans type.property field.property⟩,
        bits :=
          match rest with
          | [bits] => some bits.val
          | _ => none }

def widthOfValue : Value → Work Nat
| .int n => if n < 0 then throw .badValue else pure n.toNat
| .bool b => pure b.toNat
| _ => throw .wrongKind

def writtenMember {bound : Nat} (field : FieldData bound) (type : Value) : Work WrittenMember := do
  let bits ← field.bits.mapM widthOfValue
  return { name := field.name.text?, type := type, bits := bits }

/- Set a member of a record object by its name. Names that
  are no members change nothing that can be seen. -/
def setMember (object : Object) (name value : Value) : Work Unit := do
  match object.type with
  | .record number =>
      let members ← onHeap (OnHeap.membersOf number)
      match members.find? (fun entry => some entry.1.name = name.text?) with
      | some (member, place) =>
          onHeap (OnHeap.assignMember object member place value)
      | none => pure ()
  | _ => throw .missingPart

-- Objects

/- A value repeated as often as another one tells. -/
def timesValue (count value : Value) : Work Value := do
  match count with
  | .int n => onHeap (OnHeap.times n value)
  | .bool b => onHeap (OnHeap.times b.toNat value)
  | _ => throw .wrongKind

def pointerToMade (value : Value) : Work Value := do
  match value with
  | .type t => makeObject (← lift (pointerTo (.type t))) []
  | value => onHeap (OnHeap.pointerToValue value)

-- Libraries and functions

def libraryOf (entries : Entries) : Work Value := do
  let libraries := (← iface).libraries
  let known ←
    if libraries.isEmpty then pure none
    else do
      let path ← entryOf entries "lib"
      pure (libraries.find? (fun l => path.val.text? = some l))
  match known with
  | some library => return .library library
  | none =>
      match Value.find? entries "name" with
      | none => throw (.described "KeyError" "'name'")
      | some name =>
          throw (.described "ValueError" ("Unknown library: " ++ name.text?.getD ""))

/- Make a function, or a type of functions, or an object of such a type. -/
def restoreFunction (name : Option String) (entries : Entries) (kind : String) (result : Value)
    (params : List Value) :
    Work Value := do
  match kind with
  | "func" =>
      let convention ← entryOf entries "convention"
      let descriptions ← entryOf entries "typeDescs"
      match name with
      | none => throw .wrongKind
      | some name =>
          defineFunction name result params (convention.val.text?.getD "") descriptions.val.texts
          item name
  | kind =>
      let type ← lift (functionType result params)
      if kind = "funcpointer" then makeObject (.type type) []
      else return .type type

-- References

def hasPart (name : String) : Work Bool := do
  return name = Namespace.selfName || (← item? name).isSome

def isRecordData : Value → Bool
| .table entries =>
    match Value.find? entries "type" with
    | some (.text kind) => (recordKind? kind).isSome
    | _ => false
| _ => false

def nameInData (data : Value) : Work String := do
  match data with
  | .table entries => textOf (← entryOf entries "name").val
  | _ => throw .wrongKind

def referenceLimit : Nat := 900

/- Make a value from data. The data of a whole interface may be given, where references are
  followed; `left` is how many more may follow each other. -/
def restoreItem (unit : Option Entries) (left : Nat) (name : Option String) (data : Value) :
    Work Value :=
  match data with
  | .list items => do
      return .list (← items.attach.mapM (fun ⟨item, _⟩ =>
          restoreItem unit left name item))
  | .tuple items => do
      return .tuple (← items.attach.mapM (fun ⟨item, _⟩ =>
          restoreItem unit left name item))
  | .table entries => do
      let kind ← entryOf entries "type"
      match kind.val with
      | .text "CDLL" => libraryOf entries
      | .text "pointer" =>
          let ⟨target, _⟩ ← entryOf entries "class"
          let target ← restoreItem unit left name target
          let type ← lift (pointerTo target)
          match hObject : Value.find? entries "object" with
          | none => return type
          | some .none => makeObject type []
          | some object =>
              have := Value.sizeOf_find?_lt hObject
              let made ← restoreItem unit left name object
              pointerToMade made
      | .text "array" =>
          let count ← entryOf entries "length"
          let ⟨item, _⟩ ← entryOf entries "class"
          let item ← restoreItem unit left name item
          let type ← timesValue count.val item
          match hValues : Value.find? entries "values" with
          | none => return type
          | some values =>
              have := Value.sizeOf_find?_lt hValues
              let values ← (← itemsOf values).mapM (fun ⟨value, _⟩ =>
                  restoreItem unit left name value)
              makeObject type values
      | .text "ctypes" =>
          let value ← entryOf entries "value"
          let type ← entryOf entries "class"
          match value.val with
          | .none => return type.val
          | value => makeObject type.val [value]
      | .text "ref" =>
          let target ← entryOf entries "name"
          let target ← textOf target.val
          if ← hasPart target then
            let value ← item target
            let count ← entryOf entries "pointers"
            lift (pointers pointerTo (← pointerCount count.val) value)
          else
            let count ← entryOf entries "pointers"
            match unit, left with
            | none, _ => throw .wrongKind
            | some _, 0 => throw .tooDeep
            | some unit, left + 1 =>
                let ⟨data, _⟩ ← entryOf unit target
                let count ← pointerCount count.val
                let value ←
                  if isRecordData data && count > 0 then do
                    pure (.type (← newRecord .struct (← nameInData data)))
                  else
                    restoreItem (some unit) left (some target) data
                setItem target value
                lift (pointers pointerTo count value)
      | .text word =>
          match recordKind? word with
          | some kind =>
              let tag ← textOf (← entryOf entries "name").val
              let known? := (← tagged kind).find? (some tag)
              let known ←
                match known? with
                | none => pure false
                | some value =>
                    if ← hasMembers value then pure true
                    else
                      let fields ← entryOf entries "fields"
                      pure !(← onHeap (OnHeap.truth fields.val))
              if !known then
                if known?.isNone then
                  setTagged kind (some tag) (.type (← newRecord kind tag))
                let ⟨fields, _⟩ ← entryOf entries "fields"
                if ← onHeap (OnHeap.truth fields) then
                  let number ← recordNumber kind (some tag)
                  let own : Value := .type (.record number)
                  let written ← (← itemsOf fields).mapM (fun field => do
                      let field ← fieldData field
                      let type ←
                        match field.type with
                        | ⟨.none, _⟩ => lift (pointerTo own)
                        | ⟨.list [], _⟩ => pure own
                        | ⟨type, _⟩ =>
                            restoreItem unit left field.name.text? type
                      writtenMember field type)
                  setWrittenMembers number written
                  let descriptions ← entryOf entries "typeDescs"
                  modifyTypes (·.describe number descriptions.val.texts)
              let value := ((← tagged kind).find? (some tag)).getD .none
              match hValues : Value.find? entries "values" with
              | none => return value
              | some values =>
                  have := Value.sizeOf_find?_lt hValues
                  let made ← makeObject value []
                  let fields ← entryOf entries "fields"
                  let fields ← itemsOf fields.val
                  let values ← itemsOf values
                  let _ ← (fields.zip values).mapM (fun (field, ⟨value, _⟩) => do
                      let field ← fieldData field
                      let value ← restoreItem unit left field.name.text? value
                      match made with
                      | .object object =>
                          setMember object field.name value
                      | _ => throw .wrongKind)
                  return made
          | none =>
              if ["func", "funcpointer", "funcpointertype"].contains word then
                let ⟨params, _⟩ ← entryOf entries "argTypes"
                let params ← (← itemsOf params).mapM (fun ⟨param, _⟩ =>
                    restoreItem unit left name param)
                let ⟨result, _⟩ ← entryOf entries "restype"
                let result ← restoreItem unit left name result
                restoreFunction name entries word result params
              else return .none
      | _ => return .none
  | value => return value
termination_by (left, sizeOf data)
decreasing_by
  all_goals first
    | exact Prod.Lex.left _ _ (Nat.lt_succ_self _)
    | exact Prod.Lex.right _ (by
        simp only [Value.table.sizeOf_spec, Value.list.sizeOf_spec, Value.tuple.sizeOf_spec] at *
        omega)
    | exact Prod.Lex.right _ (by
        have := List.sizeOf_lt_of_mem ‹_ ∈ _›
        simp only [Value.list.sizeOf_spec, Value.tuple.sizeOf_spec]
        omega)

end Work

end CHeader
