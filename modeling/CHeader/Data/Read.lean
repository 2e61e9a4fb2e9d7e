import CHeader.Data.Basic
import CHeader.Interface.Meaning

/-
  Types and values from plain data.

  Null, truth values, numbers, texts and lists stand for themselves. Records tell all other values:
  numbers and bytes by their digits, types, and objects made from a type and values.

  Key definitions include:
    * `Work.readType`
    * `Work.readValue`
-/

namespace CHeader

namespace Data

-- Sizes

/- A field of a record is smaller than the record. -/
theorem sizeOf_field?_lt {data value : Data} (h : data.field? name = some value) :
    sizeOf value < sizeOf data := by
  cases data with
  | record fields =>
    simp only [field?, Option.map_eq_some_iff] at h
    obtain ⟨field, hFind, rfl⟩ := h
    have hMem := List.mem_reverse.1 (List.mem_of_find?_eq_some hFind)
    have hLt := List.sizeOf_lt_of_mem hMem
    rcases field with ⟨key, value⟩
    simp at hLt ⊢
    omega
  | _ => simp [field?] at h

def smaller? (data : Data) (name : String) :
    Option { value : Data // sizeOf value < sizeOf data } :=
  match h : data.field? name with
  | some value => some ⟨value, sizeOf_field?_lt h⟩
  | none => none

def smallerItems : (data : Data) → List { item : Data // sizeOf item < sizeOf data }
| .list items =>
    items.attach.map (fun ⟨item, h⟩ =>
      ⟨item, by
        have := List.sizeOf_lt_of_mem h
        simp; omega⟩)
| _ => []

def smallerFields : (data : Data) → List (String × { item : Data // sizeOf item < sizeOf data })
| .record fields =>
    fields.attach.map (fun ⟨(name, item), h⟩ =>
      (name, ⟨item, by
          have := List.sizeOf_lt_of_mem h
          simp at this ⊢; omega⟩))
| _ => []

-- Digits

def hexValue (s : String) : Nat :=
  s.toList.foldl (fun n c => n * 16 + (Text.digitValue? c).getD 0) 0

def hexBytes : List Char → List UInt8
| high :: low :: rest =>
    (hexValue (String.ofList [high, low])).toUInt8 :: hexBytes rest
| _ => []

def hexReal (s : String) : Float :=
  if s = "nan" then 0.0 / 0.0
  else Float.ofBits (hexValue s).toUInt64

end Data

namespace Work

-- Types

/- The scalar types by the names they are shown by, and by other names of theirs. -/
def scalarsByName : List (String × Scalar) :=
  [Scalar.char, .signedChar, .unsignedChar, .short,
    .unsignedShort, .int, .unsignedInt, .long, .unsignedLong,
    .float, .double, .longDouble, .bool, .wideChar,
    .charPointer, .wideCharPointer, .voidPointer].map (fun kind => (kind.shownName, kind)) ++
  [("c_longlong", .long), ("c_ulonglong", .unsignedLong),
   ("c_size_t", .unsignedLong), ("c_ssize_t", .long), ("c_int8", .signedChar), ("c_int16", .short),
   ("c_int32", .int), ("c_int64", .long), ("c_uint8", .unsignedChar), ("c_uint16", .unsignedShort),
   ("c_uint32", .unsignedInt), ("c_uint64", .unsignedLong)]

def wordType (word : String) : Value :=
  if word = "..." then .type .ellipsis
  else
    match Macro.lookup scalarsByName word with
    | some kind => .type (.scalar kind)
    | none => .text word

def fillRecord (type : CType) (members : List WrittenMember) (descriptions : Option Data) :
    Work Unit := do
  match type with
  | .record number =>
      setWrittenMembers number members
      let descriptions :=
        match descriptions with
        | some list => list.items.map Data.toText
        | none => members.map (fun _ => "")
      modifyTypes (·.describe number descriptions)
  | _ => pure ()

/- A type from data. Records are made anew. -/
def readType (data : Data) : Work Value := do
  match data with
  | .null => return .none
  | .text word => return wordType word
  | data =>
      if let some ⟨target, _⟩ := data.smaller? "ptr" then
        lift (pointerTo (← readType target))
      else if let some ⟨item, _⟩ := data.smaller? "arr" then
        let item ← readType item
        onHeap (OnHeap.times (data.get "len").toInt item)
      else if let some ⟨parts, _⟩ := data.smaller? "fn" then
        let result ←
          match parts.smaller? "ret" with
          | some ⟨result, _⟩ => readType result
          | none => pure .none
        let params ←
          match parts.smaller? "args" with
          | some ⟨params, _⟩ =>
              params.smallerItems.mapM (fun ⟨param, _⟩ => readType param)
          | none => pure []
        return .type (← lift (functionType result params))
      else
        let (kind, name) : RecordKind × Data :=
          if data.has "union" then (.union, data.get "union")
          else (.struct, data.get "struct")
        let type ← newRecord kind name.toText
        match data.smaller? "fields" with
        | none => pure ()
        | some ⟨fields, _⟩ =>
            let members ← fields.smallerItems.mapM (fun ⟨field, _⟩ => do
                let parts := field.smallerItems
                let type ←
                  match parts.tail.head? with
                  | some ⟨type, _⟩ => readType type
                  | none => pure .none
                let bits := (parts.drop 2).head?
                return {
                  name := parts.head?.map (·.val.toText),
                  type := type,
                  bits := bits.map (·.val.toInt.toNat) :
                  WrittenMember })
            fillRecord type members (data.field? "typeDescs")
        return .type type
termination_by sizeOf data

def readValue (data : Data) : Work Value := do
  match data with
  | .null => return .none
  | .bool b => return .bool b
  | .int n => return .int n
  | .real x => return .real x
  | .text s => return .text s
  | .bytes b => return .bytes b
  | .list items =>
      return .list (← items.attach.mapM (fun ⟨item, _⟩ => readValue item))
  | data =>
      if let some digits := data.field? "int" then
        return .int ((Text.readInteger? digits.toText).getD 0)
      else if let some digits := data.field? "float" then
        return .real (Data.hexReal digits.toText)
      else if let some digits := data.field? "bytes" then
        return .bytes (Data.hexBytes digits.toText.toList)
      else if let some ⟨items, _⟩ := data.smaller? "tuple" then
        return .tuple (← items.smallerItems.mapM (fun ⟨item, _⟩ => readValue item))
      else if let some ⟨entries, _⟩ := data.smaller? "dict" then
        return .table (← entries.smallerFields.mapM (fun (name, ⟨value, _⟩) => do
            return (some name, ← readValue value)))
      else if let some type := data.field? "type" then
        readType type
      else if let some words := data.field? "named" then
        typeOfText true words.toText
      else if let some type := data.field? "c" then
        let type ← readType type
        match data.smaller? "value" with
        | some ⟨value, _⟩ =>
            makeObject type [← readValue value]
        | none => makeObject type []
      else if let some ⟨value, _⟩ := data.smaller? "ref" then
        referenceTo (← readValue value)
      else if let some words := data.field? "null" then
        let target ← typeOfText true words.toText
        makeObject (← lift (pointerTo target)) []
      else if let some words := data.field? "new" then
        let type ← typeOfText true words.toText
        let args ←
          match data.smaller? "with" with
          | some ⟨args, _⟩ =>
              args.smallerItems.mapM (fun ⟨arg, _⟩ => readValue arg)
          | none => pure []
        makeObject type args
      else return .none
termination_by sizeOf data

end Work

end CHeader
