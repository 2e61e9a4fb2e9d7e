import CHeader.CommandLine.Options
import CHeader.Source.Process

/-
  Settings from command lines.

  The pieces of a command line take effect in their order: macros are defined and removed as their
  options are met, before a mistake further on ends the run.
-/

namespace CHeader

namespace CommandLine

-- Settings and output

structure Settings where
  includePath : List String := []
  encoding : Option String := none
  output : Option String := none
  linkPath : List String := []
  libraries : List String := []
  operands : List String := []
  deriving Inhabited, Repr

/- What a command has printed, and the file it wrote. -/
structure Output where
  printed : String := ""
  file : Option (String × List UInt8) := none
  deriving Inhabited

structure State where
  session : Source.Session := {}
  output : Output := {}
  deriving Inhabited

/- Commands: they may fail, and keep what they have done. -/
abbrev Command := ExceptT Fault (StateM State)

namespace Command

def onSession {α : Type} (step : Source.Run α) : Command α := do
  let state ← get
  let (result, session) := Id.run (StateT.run (ExceptT.run step) state.session)
  set { state with session := session }
  match result with
  | .ok value => return value
  | .error fault => throw fault

def print (text : String) : Command Unit :=
  modify (fun state =>
    { state with
      output := { state.output with
          printed := state.output.printed ++ text } })

def checkPlace (path : String) : Command Unit := do
  let world := (← get).session.world
  match world.node? path with
  | some .directory => throw .isDirectory
  | some (.file _) => pure ()
  | none =>
      let parent := Source.Path.directory path
      let isThere := path ≠ "" && Source.Path.fileName path ≠ "" && (parent = "" ||
          (match world.node? parent with
          | some .directory => true
          | _ => false))
      if !isThere then throw .noSuchFile

def write (path : String) (bytes : List UInt8) : Command Unit := do
  checkPlace path
  modify (fun state =>
    { state with
      output := { state.output with file := some (path, bytes) } })

end Command

-- Pieces

/- The definition that an option writes: a name, and a value after an equals sign. -/
def definition (value : String) : String :=
  let (name, text) := splitValue value.toList
  "#define " ++ name ++ " " ++ text.getD "" ++ "\n"

def applyPiece (settings : Settings) : Piece → Command Settings
| .operand text =>
    return { settings with
      operands := settings.operands ++ [text] }
| .switch 'D' value => do
    Command.onSession (Source.defineMacro (definition value))
    return settings
| .switch 'U' value => do
    modify (fun state =>
      { state with
        session := { state.session with
            table := state.session.table.erase value } })
    return settings
| .switch 'I' value =>
    return { settings with
      includePath := settings.includePath ++ [value] }
| .switch 'L' value =>
    return { settings with
      linkPath := settings.linkPath ++ [value] }
| .switch 'l' value =>
    return { settings with
      libraries := settings.libraries ++ [value] }
| .switch 'e' value =>
    return { settings with encoding := some value }
| .switch _ value =>
    return { settings with output := some value }
| .help => throw (.badUsage 0)

def applyPieces : Settings → List Piece → Command Settings
| settings, [] => return settings
| settings, piece :: rest => do
    applyPieces (← applyPiece settings piece) rest

def readSettings (program : String) (known : List Switch) (arguments : List String) :
    Command Settings := do
  let (list, isRight) := pieces known arguments
  let settings ←
    tryCatch (applyPieces {} list) (fun fault => do
      if fault = .badUsage 0 then
        Command.print (helpText program known)
      throw fault)
  if !isRight then throw (.badUsage 2)
  return settings

end CommandLine

end CHeader
