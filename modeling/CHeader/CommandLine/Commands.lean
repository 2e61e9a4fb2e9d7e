import CHeader.CommandLine.Settings
import CHeader.Interface.Include
import CHeader.Interface.Saved

/-
  The two commands: one preprocesses a file and prints or writes the text, the other builds the
  interface of a header and saves it.
-/

namespace CHeader

namespace CommandLine

-- Options

def commonSwitches (pathPurpose pathValue : String) : List Switch :=
  [{ letter := 'I', word := some "include",
     purpose := pathPurpose, value := pathValue },
   { letter := 'D', word := some "define",
     purpose := "Define macro", value := "MACRO[=VALUE]" },
   { letter := 'U', word := some "undef",
     purpose := "Undefine macro", value := "UNDEF" },
   { letter := 'e', purpose := "Set input file encoding",
     value := "CODE" }]

def preprocessSwitches : List Switch := commonSwitches "Append search path" "PATH"

def interfaceSwitches : List Switch :=
  commonSwitches "Append include file search path" "INCLUDEPATH" ++
    [{ letter := 'o', purpose := "Set output file name",
       value := "FILE" },
     { letter := 'L', purpose := "Append library file search path",
       value := "LINKPATH" },
     { letter := 'l', purpose := "Add libraries to link with",
       value := "LIBFILE" }]

-- Preprocessing

def printLine (encoding text : String) : Command Unit := do
  let written := (Text.Encoding.ofName? encoding).bind (fun e => e.encode? text.toList)
  if written.isNone then throw .wrongKind
  Command.print (text ++ "\n")

/- Write a text to a file in an encoding. A file is left empty if the encoding lacks a character. -/
def writeText (path : String) (encoding : Option String) (text : String) : Command Unit := do
  match Text.Encoding.ofName? (encoding.getD "utf8") with
  | none => throw .unknownEncoding
  | some encoding =>
      match encoding.encode? text.toList with
      | some bytes => Command.write path bytes
      | none =>
          Command.write path []
          throw .unencodable

/- Preprocess the first operand, and print the text or write it to the second. -/
def preprocess (limit : Nat) (program printsIn : String) (arguments : List String) :
    Command Unit := do
  let settings ←
    readSettings program preprocessSwitches arguments
  match settings.operands with
  | [] => throw .outOfRange
  | name :: others =>
      let workingDir := (← get).session.world.workingDir
      let pieces ← Command.onSession
        (Source.preprocess limit name (workingDir :: settings.includePath) settings.encoding)
      let text := Text.concat pieces
      match others with
      | [] => printLine printsIn text
      | path :: _ => writeText path settings.encoding text

-- Interfaces

/- The name of the file in which the interface of a header is saved by default. -/
def savedName (header : String) : String :=
  let cs := header.toList
  let name :=
    if cs.contains '.' then
      ((cs.reverse.dropWhile (· ≠ '.')).drop 1).reverse
    else cs
  Source.Path.fileName (String.ofList name) ++ ".dat"

def onWorkspace {α : Type} (work : Workspace) (step : Work α) : Command (α × Workspace) := do
  let (result, work) := Id.run (StateT.run (ExceptT.run step) work)
  modify (fun state =>
    { state with
      session := { state.session with
          log := state.session.log ++ work.log } })
  match result with
  | .ok value => return (value, { work with log := [] })
  | .error fault => throw fault

def savedText (data : Value) : String :=
  Value.written (.table [(some "version", .int Work.savedVersion), (some "object", data)])

/- Build the interface of the first operand and save it. The
  data is given with the workspace it was made in. -/
def buildInterface (limit : Nat) (parse : Declaration.Parser) (program : String)
    (work : Workspace) (arguments : List String) :
    Command (Value × Workspace) := do
  let settings ←
    readSettings program interfaceSwitches arguments
  match settings.operands with
  | [] => throw .outOfRange
  | name :: _ =>
      let session := (← get).session
      let (data, work) ← onWorkspace work (do
        Work.includeHeader limit session parse name settings.libraries settings.includePath
          settings.linkPath settings.encoding
        Work.save)
      let path :=
        match settings.output with
        | some "" | none => savedName name
        | some path => path
      Command.write path (Source.World.textBytes (savedText data))
      return (data, work)

end CommandLine

end CHeader
