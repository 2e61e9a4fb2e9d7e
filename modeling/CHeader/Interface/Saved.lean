import CHeader.Interface.Linking
import CHeader.Interface.Restore

/-
  Whole interfaces from plain data, saving and closing.

  The libraries are loaded again, the tags are made, and then all other names in the order of the
  data. Where that fails the interface that was there stays.
-/

namespace CHeader

namespace Work

-- Interfaces

def restoreLibraries (entries : Entries) : Work (List String) := do
  let data ← entryOf entries Interface.librariesName
  let names ← (← itemsOf data.val).mapM (fun item => do
    match item.val with
    | .table entries => return (← entryOf entries "lib").val
    | _ => throw .wrongKind)
  names.mapM (fun name => do loadNamed (← textOf name))

/- The entries of a table, and none of anything empty. -/
def entriesIn (data : Value) : Work Entries := do
  match data with
  | .table entries => return entries
  | .list [] | .tuple [] | .text "" => return []
  | _ => throw .wrongKind

def setTag (part : String) (tag : Option String) (value : Value) : Work Unit :=
  match recordKind? part with
  | some kind => setTagged kind tag value
  | none => setEnum tag value

def restoreTags (unit : Entries) (part : String) : Work Unit := do
  let data ← entryOf unit part
  (← entriesIn data.val).forM (fun (tag, data) => do
    let value ← restoreItem (some unit) referenceLimit tag data
    setTag part tag value)

/- A variable and its library, from what was made of the data. -/
def exportedOf (value : Value) : Work (Value × String) := do
  match value with
  | .tuple [type, .library path] => return (type, path)
  | .tuple (type :: _) => return (type, "")
  | _ => throw .wrongKind

def restoreExported (unit : Entries) (data : Value) : Work Unit := do
  let exported ← (← entriesIn data).mapM (fun (name, data) => do
    let value ← restoreItem (some unit) referenceLimit (some Interface.exportedName) data
    return (name.getD "None", ← exportedOf value))
  modifyIface ({ · with exported := exported })

def restoreEntry (unit : Entries) (entry : Option String × Value) : Work Unit := do
  let name := entry.1.getD "None"
  if [Interface.librariesName, "struct", "union", "enum"].contains name then
    return ()
  if name = Interface.exportedName then
    restoreExported unit entry.2
  else
    match entry.2 with
    | .list _ => throw .brokenRule
    | data =>
        setItem name (← restoreItem (some unit) referenceLimit (some name) data)

/- Make an interface from data, in place of the one that is
  there. If that fails, the one that is there stays. -/
def restoreInterface (data : Value) : Work Unit := do
  let before ← iface
  let step : Work Unit := do
    match data with
    | .table unit =>
        let libraries ← restoreLibraries unit
        modifyIface (fun _ => { libraries := libraries })
        restoreTags unit "struct"
        restoreTags unit "union"
        restoreTags unit "enum"
        unit.forM (restoreEntry unit)
    | _ => throw .wrongKind
  tryCatch step (fun fault => do
    modifyIface (fun _ => before)
    throw fault)

-- Saved interfaces

def savedVersion : Int := 0

def isLater : Value → Except Fault Bool
| .int n => .ok (n > savedVersion)
| .bool b => .ok b
| .real x => .ok (x > 0.0)
| _ => .error .wrongKind

def laterVersion (version : Value) : Fault :=
  .described "ValueError" ("Unable to load cinterface data with version " ++ version.written ++
      ": You must upgrade the cinterface package.")

def loadSaved (version data : Value) : Work Unit := do
  if ← lift (isLater version) then throw (laterVersion version)
  restoreInterface data

/- What is left of a value in a file. Numbers and characters
  in memory are copied, and addresses are refused. -/
def filed (value : Value) : Work Value := do
  match value with
  | .object object =>
      match object.type with
      | .scalar kind =>
          if kind.isAddress then throw .badValue
          let copy ← onHeap (OnHeap.blank object.type)
          onHeap (OnHeap.copy copy.address object)
          return .object copy
      | _ => throw .badValue
  | value => return value

def save : Work Value := do
  match ← interfaceData with
  | .table entries =>
      return .table (← entries.mapM (fun (name, value) => do
        return (name, ← filed value)))
  | value => return value

/- Save the interface and go on with what is loaded from that. -/
def saveAndLoad : Work Unit := do
  loadSaved (.int savedVersion) (← save)

-- Closing

def closingLibrary : String := "libdl"

def close : Work Unit := do
  let _ ← loadNamed closingLibrary
  modifyIface (fun _ =>
    { structs := none, unions := none, enums := none })

end Work

end CHeader
