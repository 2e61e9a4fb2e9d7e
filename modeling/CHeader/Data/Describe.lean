import CHeader.Data.Basic
import CHeader.Interface.Names

/-
  Types, values and interfaces as plain data.

  A record is told by its name. Where an interface is at hand, a record that is not the one of its
  name there is marked as stale. The full form of a record tells its members, descriptions, size and
  alignment as well.

  Key definitions include:
    * `View`
    * `View.ofType`
    * `View.ofFullType`
-/

namespace CHeader

-- Views

/- What descriptions look at: the types that are known, and an interface if one is at hand. -/
structure View where
  types : TypeTable
  iface : Option Interface := none

namespace View

variable (view : View)

/- Whether a record is not the one of its name in the interface. -/
def isStale (number : Nat) : Bool :=
  match view.iface with
  | none => false
  | some iface =>
      let record := view.types.record number
      let table :=
        match record.kind with
        | .struct => iface.structs
        | .union => iface.unions
      match (table.getD []).find? (some record.name) with
      | some (.type (.record n)) => n ≠ number
      | _ => true

-- Types

def ofType (view : View) : CType → Except Fault Data
| .scalar kind => .ok (.text kind.shownName)
| .pointer target => do
    return .record [("ptr", ← ofType view target)]
| .blankPointer => .error .missingPart
| .array item count => do
    return .record [("arr", ← ofType view item), ("len", .nat count)]
| .function result params => do
    let result ←
      match result with
      | some type => ofType view type
      | none => pure .null
    let params ← params.attach.mapM (fun ⟨param, _⟩ => ofType view param)
    return .record [("fn", .record [("ret", result), ("args", .list params)])]
| .ellipsis => .ok (.text "...")
| .record number =>
    let record := view.types.record number
    let key :=
      match record.kind with
      | .struct => "struct"
      | .union => "union"
    .ok (.record ((key, .text record.name) :: (if view.isStale number then [("stale", .bool true)]
        else [])))

def ofMember (member : Member) : Except Fault Data := do
  return .list ([.text member.name, ← view.ofType member.type] ++ (member.bits.map Data.nat).toList)

def ofFullType (type : CType) : Except Fault Data := do
  let short ← view.ofType type
  match type with
  | .record number =>
      let record := view.types.record number
      let members ←
        match record.members with
        | none => pure .null
        | some list => Data.list <$> list.mapM view.ofMember
      let descriptions :=
        match record.descriptions with
        | none => .null
        | some list => Data.texts list
      return .record (short.fields ++ [("fields", members), ("typeDescs", descriptions),
          ("size", .nat record.extent.size), ("align", .nat record.extent.align)])
  | _ => return short

def ofTypeValue (isFull : Bool) : Value → Except Fault Data
| .none => .ok .null
| .text s => .ok (.text s)
| .type t => if isFull then view.ofFullType t else view.ofType t
| _ => .error .wrongKind

def ofResult : Option CType → Except Fault Data
| some type => view.ofType type
| none => .ok .null

def ofFunction (f : Function) : Except Fault Data := do
  let result ← view.ofResult f.result
  let params ← f.params.mapM view.ofType
  return .record [("func", .record [("ret", result), ("args", .list params),
      ("convention", .text f.convention), ("typeDescs", Data.texts f.descriptions),
      ("variadic", .bool f.fixedParams.isSome)])]

-- Values

def keyText : Option String → String
| some name => name
| none => "None"

/- How deep values may be nested in a description. -/
def depthLimit : Nat := 900

def ofValueWithin (view : View) : Nat → Value → OnHeap Data
| 0, _ => throw .tooDeep
| left + 1, value => do
    let inner := ofValueWithin view left
    match value with
    | .none => return .null
    | .bool b => return .bool b
    | .int n => return .int n
    | .real x => return .real x
    | .text s => return .text s
    | .bytes b => return .bytes b
    | .list items => return .list (← items.mapM inner)
    | .tuple items =>
        return .record [("tuple", .list (← items.mapM inner))]
    | .table entries =>
        let entries := Data.sortedBy (fun e => keyText e.1) entries
        let entries ← entries.mapM (fun (key, value) => do
          return .list [.text (keyText key), ← inner value])
        return .record [("dict", .list entries)]
    | .type t => return .record [("type", ← view.ofType t)]
    | .library path => return .record [("lib", .text path)]
    | .function f => view.ofFunction f
    | .object object =>
        let type ← view.ofType object.type
        let whole (name : String) (data : Data) : Data := .record [("c", type), (name, data)]
        let isNull : OnHeap Data := do
          return .bool ((← OnHeap.target object) = 0)
        match object.type with
        | .scalar .voidPointer | .function _ _ =>
            return whole "null" (← isNull)
        | .scalar _ =>
            let held ← OnHeap.load object.type object.address
            return whole "value" (← inner held)
        | .pointer _ =>
            match ← OnHeap.contents? object with
            | none => return whole "contents" .null
            | some held =>
                return whole "contents" (← inner (.object held))
        | .array item count =>
            let items ← OnHeap.loadItems object item count
            return whole "items" (.list (← items.mapM inner))
        | .record number =>
            let values ← OnHeap.loadMembers object number
            return whole "values" (.list (← values.mapM inner))
        | _ => return .record [("other", .text "object")]

def ofValue (value : Value) : OnHeap Data := view.ofValueWithin depthLimit value

end View

-- Interfaces

namespace Work

def view : Work View := do
  return { types := ← types, iface := some (← iface) }

def plainView : Work View := do
  return { types := ← types }

def valueData (value : Value) : Work Data := do
  onHeap ((← view).ofValue value)

def plainData (value : Value) : Work Data := do
  onHeap ((← plainView).ofValue value)

def describeTags (isFull : Bool) (table : TagTable) : Work Data := do
  let view ← view
  let sorted := Data.sortedBy
      (fun entry : Option String × Value =>
        View.keyText entry.1)
      table
  let entries ← sorted.mapM (fun (tag, value) => do
    return .list [.text (View.keyText tag), ← lift (view.ofTypeValue isFull value)])
  return .list entries

def describePart (name : String) (isFull : Bool) : Option TagTable → Work (List (String × Data))
| some table => do
    return [(name, ← describeTags isFull table)]
| none => return []

def describe : Work Data := do
  let iface ← iface
  let view ← view
  let structs ← describePart "struct" true iface.structs
  let unions ← describePart "union" true iface.unions
  let enums ← describePart "enum" false iface.enums
  let exported ←
    (Data.sortedBy Prod.fst iface.exported).mapM (fun (name, type, _) => do
        return .list [.text name, ← lift (view.ofTypeValue false type)])
  let names ←
    (Data.sortedBy Prod.fst iface.entries).mapM (fun (name, _) => do
        return .list [.text name, ← valueData (← item name)])
  return .record (structs ++ unions ++ enums ++ [("vars", .list exported),
      ("libs", .nat iface.libraries.length), ("names", .list names)])

end Work

end CHeader
