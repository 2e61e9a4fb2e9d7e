import CHeader.Macro.Table
import CHeader.Source.LogicalLine
import CHeader.Source.Path
import CHeader.Text.Encoding
import CHeader.Text.Integer

/-
  The state of a run over source files.

  The world holds what a run can see from outside: files, clock, platform and search path settings.
  A session holds the macro table, the file being read, the chain of files that are open, and the
  log. A failed step keeps the state it has reached.

  Key definitions include:
    * `Source.World`
    * `Source.Reader`
    * `Source.Session`
-/

namespace CHeader

namespace Source

-- World

structure Clock where
  year : Nat := 2014
  month : Nat := 3
  day : Nat := 9
  hour : Nat := 4
  minute : Nat := 5
  second : Nat := 6
  deriving DecidableEq, Repr, Inhabited

structure Platform where
  machine : String := "x86_64"
  system : String := "Linux"
  family : String := "linux"
  largestSize : Nat := Nat.pow 2 63 - 1
  deriving DecidableEq, Repr, Inhabited

/- What a run can see from outside. The system directory of headers may be missing; otherwise its
  items are listed, with whether they are directories. -/
structure World where
  tree : FileTree := {}
  workingDir : String := "/"
  bundledDir : String := "/include"
  clock : Clock := {}
  platform : Platform := {}
  settings : List (String × String) := []
  preferredEncoding : String := "UTF-8"
  systemItems : Option (List (String × Bool)) := some []
  deriving DecidableEq, Inhabited

namespace World

def node? (world : World) (path : String) : Option Node := world.tree.node? world.workingDir path

end World

-- Readers

/- A physical line with the number of faulty byte sequences that are reported when it is read. -/
structure SourceLine where
  text : String
  warnings : Nat := 0
  deriving DecidableEq, Repr, Inhabited

/- A file being read: its path, unless the lines do not come from a file, the lines left, whether it
  is closed, and whether it is not in its encoding at all. -/
structure Reader where
  path : Option String
  lines : List SourceLine
  closed : Bool := false
  undecodable : Bool := false
  deriving DecidableEq, Repr, Inhabited

-- Sessions

inductive Level where
  | info
  | warning
  | error
  deriving DecidableEq, Repr, Inhabited

structure LogEntry where
  level : Level
  message : String
  deriving DecidableEq, Repr, Inhabited

structure Session where
  world : World := {}
  table : Macro.Table := {}
  reader : Option Reader := none
  trail : List String := []
  reentries : List (String × Int) := []
  searchPath : List String := []
  log : List LogEntry := []
  deriving DecidableEq, Inhabited

/- Steps of a run: they may fail, and keep the state. -/
abbrev Run := ExceptT Fault (StateM Session)

def readerName : String := "__CPP_fileobject__"

def trailName : String := "__CPP_filelist__"

def reentriesName : String := "__CPP_includedlevel__"

def searchPathName : String := "__CPP_path__"

def encodingName : String := "__CPP_encoding__"

def lineName : String := "__LINE__"

def fileName : String := "__FILE__"

-- Small steps

def lift {α : Type} (result : Except Fault α) : Run α :=
  match result with
  | .ok value => pure value
  | .error fault => throw fault

def getTable : Run Macro.Table := do
  return (← get).table

def modifyTable (f : Macro.Table → Macro.Table) : Run Unit :=
  modify (fun session =>
    { session with table := f session.table })

def report (level : Level) (message : String) : Run Unit :=
  modify (fun session =>
    { session with
      log := session.log ++ [⟨level, message⟩] })

def requireRecord (name : String) : Run Unit := do
  match (← getTable).find? name with
  | some .record => pure ()
  | some _ => throw .wrongKind
  | none => throw .missingName

def textOf (name : String) : Run String := do
  match (← getTable).find? name with
  | some (.text s) => return s
  | some _ => throw .wrongKind
  | none => throw .missingName

def currentReader : Run Reader := do
  requireRecord readerName
  match (← get).reader with
  | some reader => return reader
  | none => throw .wrongKind

-- Lines

/- Report the faulty bytes of lines that were read. -/
def reportWarnings (lines : List SourceLine) : Run Unit :=
  (lines.flatMap (fun line => List.replicate line.warnings ())).forM
      (fun _ => report .warning "Invalid input")

/- Leave the given number of lines unread. -/
def skipTo (reader : Reader) (left : Nat) : Run Unit := do
  let taken := reader.lines.length - left
  modify (fun session =>
    { session with
      reader := some { reader with lines := reader.lines.drop taken } })
  reportWarnings (reader.lines.take taken)

def advanceLine (count : Nat) : Run Unit := do
  let text ← textOf lineName
  match (Text.readInteger? text).bind (fun n => Text.writeInteger? (n + (count : Int))) with
  | some text => modifyTable (·.setText lineName text)
  | none => throw .badValue

/-
  The next logical line of the open file. The line number grows by the physical lines it takes. If
  the lines run out they are used up and the line number stays.
-/
def nextLine : Run String := do
  let reader ← currentReader
  if reader.closed then throw .badValue
  if reader.undecodable then throw .undecodable
  match logicalLine? (reader.lines.map SourceLine.text) with
  | none =>
      skipTo reader 0
      throw .endOfLines
  | some (line, count, rest) =>
      skipTo reader rest.length
      advanceLine count
      return line

def linesLeft : Run Nat := do
  match (← get).reader with
  | some reader => return reader.lines.length
  | none => return 0

end Source

end CHeader
