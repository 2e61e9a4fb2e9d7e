import CHeader.Library.Image
import CHeader.Source.Session
import CHeader.Value.Object

/-
  Interfaces and the state in which they are built and used.

  An interface has the libraries it is bound to, the variables it exports from them, tables of
  structures, unions and enumerations by tag, and its other names in the order of entry. The tables
  are gone once it is closed.

  Key definitions include:
    * `Interface`
    * `Workspace`
    * `Work`
-/

namespace CHeader

-- Interfaces

/- Values by tag, in the order of entry. -/
abbrev TagTable := List (Option String × Value)

/- What a header gives access to. -/
structure Interface where
  libraries : List String := []
  exported : List (String × (Value × String)) := []
  structs : Option TagTable := some []
  unions : Option TagTable := some []
  enums : Option TagTable := some []
  entries : List (String × Value) := []
  deriving Inhabited

namespace TagTable

def find? (table : TagTable) (tag : Option String) : Option Value :=
  (List.find? (fun entry => entry.1 = tag) table).map Prod.snd

/- Set the value of a tag; a new tag comes last. -/
def put (table : TagTable) (tag : Option String) (value : Value) : TagTable :=
  if List.any table (fun entry => entry.1 = tag) then
    List.map (fun entry =>
        if entry.1 = tag then (tag, value) else entry)
      table
  else table ++ [(tag, value)]

end TagTable

namespace Interface

/- The names of the parts that every interface has. -/
def exportedName : String := ":exportedVars:"

def librariesName : String := ":libraries:"

variable (iface : Interface)

/- The type and library of an exported variable. -/
def exported? (name : String) : Option (Value × String) :=
  Macro.lookup iface.exported name

def exportedTable : Value :=
  .table (iface.exported.map (fun (name, type, library) =>
      (some name, .tuple [type, .library library])))

/- A part or name of an interface that is not exported. -/
def plain? (name : String) : Option Value :=
  if name = exportedName then some iface.exportedTable
  else if name = librariesName then
    some (.list (iface.libraries.map .library))
  else
    let part :=
      match name with
      | "struct" => iface.structs
      | "union" => iface.unions
      | "enum" => iface.enums
      | _ => none
    match part with
    | some table => some (.table table)
    | none => Macro.lookup iface.entries name

/- All names of an interface that are not exported, in order. -/
def keys : List String :=
  let part (name : String) (table : Option TagTable) :=
    if table.isSome then [name] else []
  exportedName :: librariesName :: (part "struct" iface.structs ++ part "union" iface.unions ++
      part "enum" iface.enums ++ iface.entries.map Prod.fst)

end Interface

-- Workspaces

/- What a linker finds: the files of installed libraries by
  short name, and library files by their place. -/
structure Linker where
  installed : List (String × String) := []
  images : List (String × Image) := []
  deriving Inhabited

/- The state in which an interface is built and used. -/
structure Workspace where
  world : Source.World := {}
  heap : Heap := {}
  linker : Linker := {}
  loaded : List LoadedLibrary := []
  iface : Interface := {}
  /- How many names were made up for unnamed definitions. -/
  madeUp : Nat := 0
  /- The names made up, by the key of the definition. -/
  givenNames : List (Nat × String) := []
  log : List Source.LogEntry := []
  /- The arguments of the call being prepared. -/
  arguments : List Value := []
  deriving Inhabited

/- Steps in a workspace: they may fail, and keep the state. -/
abbrev Work := ExceptT Fault (StateM Workspace)

namespace Work

def onHeap {α : Type} (step : OnHeap α) : Work α := do
  let work ← get
  let (result, heap) := Id.run (StateT.run (ExceptT.run step) work.heap)
  set { work with heap := heap }
  match result with
  | .ok value => return value
  | .error fault => throw fault

def lift {α : Type} (result : Except Fault α) : Work α :=
  match result with
  | .ok value => pure value
  | .error fault => throw fault

def report (level : Source.Level) (message : String) : Work Unit :=
  modify (fun work =>
    { work with log := work.log ++ [⟨level, message⟩] })

def iface : Work Interface := do
  return (← get).iface

def modifyIface (change : Interface → Interface) : Work Unit :=
  modify (fun work =>
    { work with iface := change work.iface })

def types : Work TypeTable := do
  return (← get).heap.types

def modifyTypes (change : TypeTable → TypeTable) : Work Unit :=
  modify (fun work =>
    { work with
      heap := { work.heap with types := change work.heap.types } })

def newRecord (kind : RecordKind) (name : String) : Work CType := do
  let work ← get
  let (types, number) := work.heap.types.add kind name
  set { work with heap := { work.heap with types := types } }
  return .record number

def setMembers (number : Nat) (members : List Member) : Work Unit := do
  let (types, result) := (← types).setMembers number members
  modifyTypes (fun _ => types)
  lift result

/- A name for something that has none. -/
def madeUpName : Work String := do
  let work ← get
  let count := work.madeUp + 1
  set { work with madeUp := count }
  return "__include_anon" ++ toString count ++ "__"

def makeObject (value : Value) (args : List Value) : Work Value := do
  match value with
  | .type t => return .object (← onHeap (OnHeap.make t args))
  | _ => throw .wrongKind

def referenceTo (value : Value) : Work Value := do
  match value with
  | .object object =>
      return .object (← onHeap (OnHeap.reference object))
  | _ => throw .wrongKind

end Work

end CHeader
