import CHeader.Interface.Basic
import CHeader.Value.Namespace

/-
  Names of an interface.

  A name that is exported stands for the variable in its library: reading it gives the object there,
  and setting it changes the variable. All other names stand for the values they were given.
-/

namespace CHeader

def commonConvention : String := "__cdecl"

-- Variables in libraries

def Workspace.address? (work : Workspace) (library symbol : String) : Option Nat :=
  (work.loaded.find? (fun loaded => loaded.name = library)).bind (·.address? symbol)

namespace Work

def symbolAddress? (library symbol : String) : Work (Option Nat) := do
  return (← get).address? library symbol

def variableAt (type : Value) (library symbol : String) : Work Object := do
  match type with
  | .type .ellipsis => throw .missingPart
  | .type type =>
      match ← symbolAddress? library symbol with
      | none => throw .badValue
      | some address =>
          onHeap (OnHeap.fix type)
          return { type := type, address := address }
  | _ => throw .missingPart

variable (name : String)

def exportedObject? : Work (Option Object) := do
  match (← iface).exported? name with
  | none => return none
  | some (type, library) =>
      return some (← variableAt type library name)

-- Items

def item? : Work (Option Value) := do
  match ← exportedObject? name with
  | some object => return some (.object object)
  | none => return (← iface).plain? name

def item : Work Value := do
  match ← item? name with
  | some value => return value
  | none => throw .missingName

def hasItem : Work Bool := do
  return ((← iface).plain? name).isSome

def setPlain (value : Value) : Work Unit := do
  let entered (iface : Interface) : Interface := { iface with
      entries := Macro.assign name value iface.entries }
  match name, value with
  | "struct", .table table =>
      modifyIface ({ · with structs := some table })
  | "union", .table table =>
      modifyIface ({ · with unions := some table })
  | "enum", .table table =>
      modifyIface ({ · with enums := some table })
  | "struct", _ =>
      modifyIface (fun i => { entered i with structs := none })
  | "union", _ =>
      modifyIface (fun i => { entered i with unions := none })
  | "enum", _ =>
      modifyIface (fun i => { entered i with enums := none })
  | _, _ => modifyIface entered

def setItem (value : Value) : Work Unit := do
  match ← exportedObject? name with
  | some object =>
      let _ ← onHeap (OnHeap.reference object)
      onHeap (OnHeap.assign object.type object.address value)
  | none => setPlain name value

def setPart (value : Value) : Work Unit := do
  match ← exportedObject? name with
  | some object =>
      let _ ← onHeap (OnHeap.reference object)
      onHeap (OnHeap.assign object.type object.address value)
  | none => setItem name value

def deleteItem : Work Unit := do
  if !(← hasItem name) then throw .missingName
  modifyIface (fun i =>
    { i with
      structs := if name = "struct" then none else i.structs,
      unions := if name = "union" then none else i.unions,
      enums := if name = "enum" then none else i.enums,
      entries := Macro.remove name i.entries })

def interfaceKind : String := "CInterface"

def wholeTable : Work Value := do
  let iface ← iface
  return .table (iface.keys.filterMap (fun name =>
      (iface.plain? name).map (fun value => (some name, value))))

def part : Work Value := do
  match ← item? name with
  | some value => return value
  | none =>
      if name = Namespace.selfName then wholeTable
      else throw (.missingAttribute interfaceKind name)

def setInside (name key : String) (value : Value) : Work Unit := do
  match ← item name with
  | .table entries =>
      setPlain name (.table (TagTable.put entries (some key) value))
  | _ => throw .wrongKind

-- Tags

def structs : Work TagTable := do
  match (← iface).structs with
  | some table => return table
  | none => throw (.missingAttribute interfaceKind "struct")

def unions : Work TagTable := do
  match (← iface).unions with
  | some table => return table
  | none => throw (.missingAttribute interfaceKind "union")

def enums : Work TagTable := do
  match (← iface).enums with
  | some table => return table
  | none => throw (.missingAttribute interfaceKind "enum")

def tagged (kind : RecordKind) : Work TagTable :=
  match kind with
  | .struct => structs
  | .union => unions

def setTagged (kind : RecordKind) (tag : Option String) (value : Value) : Work Unit := do
  let table := (← tagged kind).put tag value
  match kind with
  | .struct => modifyIface ({ · with structs := some table })
  | .union => modifyIface ({ · with unions := some table })

def setEnum (tag : Option String) (value : Value) : Work Unit := do
  let table := (← enums).put tag value
  modifyIface ({ · with enums := some table })

end Work

end CHeader
