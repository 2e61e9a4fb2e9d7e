import CHeader.CommandLine.Commands
import CHeader.Declaration.Parse
import Std.Time.Format

/-
  The program: `preprocess` and `interface` followed by the arguments of the command.

  The commands see files that were read before they run. A run that ends because a header is missing
  is started again with all files of that name, until no more are found.

  Key definitions include:
    * `Program.namesIn`
    * `Program.run`
    * `main`
-/

namespace CHeader

namespace Program

open CommandLine

-- Names of headers

/- The name between quotes or angles after an include directive. -/
def headerName? (line : String) : Option String :=
  match Source.Directive.ofLine? line with
  | some directive =>
      match directive.keyword, (Text.trim directive.operandText).toList with
      | some .includeFile, '"' :: rest =>
          some (String.ofList (rest.takeWhile (· ≠ '"')))
      | some .includeFile, '<' :: rest =>
          some (String.ofList (rest.takeWhile (· ≠ '>')))
      | _, _ => none
  | none => none

def namesIn (bytes : List UInt8) : List String :=
  (Text.fields '\n' (String.ofList (bytes.map (fun b => Char.ofNat b.toNat)))).filterMap headerName?

def directoriesIn (arguments : List String) : List String :=
  (pieces interfaceSwitches arguments).1.filterMap (fun piece =>
      match piece with
      | .switch 'I' dir => some dir
      | _ => none)

def operandIn? (arguments : List String) : Option String :=
  (pieces interfaceSwitches arguments).1.findSome? (fun piece =>
      match piece with
      | .operand name => some name
      | _ => none)

-- Reading files

/- Files that were read, by their absolute paths. -/
abbrev Files := List (String × List UInt8)

def readBytes? (path : String) : IO (Option (List UInt8)) :=
  try
    return some (← IO.FS.readBinFile path).toList
  catch _ =>
    return none

/- Read the files of some names in some directories, and the headers that they name in turn. -/
partial def gather (workingDir : String) (dirs : List String) (files : Files) :
    List String → IO Files
| [] => return files
| name :: rest => do
    let here := dirs ++ files.map (fun file => Source.Path.directory file.1)
    let paths := (here.map (fun dir =>
        Source.Path.absolute workingDir (Source.Path.join dir name))).eraseDups.filter
        (fun path => !files.any (fun file => file.1 = path))
    let mut found := files
    let mut names := rest
    for path in paths do
      if let some bytes ← readBytes? path then
        found := found ++ [(path, bytes)]
        names := names ++ namesIn bytes
    gather workingDir dirs found names

def clockNow : IO Source.Clock := do
  let now ← Std.Time.PlainDateTime.now
  let clock : Source.Clock :=
    { year := now.year.toInt.toNat,
      month := now.month.val.toNat,
      day := now.day.val.toNat,
      hour := now.hour.val.toNat,
      minute := now.minute.val.toNat,
      second := now.second.val.toNat }
  return clock

-- Running commands

def run {α : Type} (command : Command α) (world : Source.World) (files : Files) :
    Except Fault α × State :=
  Id.run (StateT.run (ExceptT.run command) { session := { world := world.ofFiles files } })

/- Run a command as often as it asks for headers that are found. -/
partial def runWithHeaders {α : Type} (command : Source.World → Command α)
    (world : Source.World) (dirs : List String)
    (files : Files) : IO (Except Fault α × State) := do
  let (result, state) := run (command (world.ofFiles files)) world files
  match result with
  | .error (.fileNotFound name) =>
      let more ← gather world.workingDir dirs files [name]
      if more.length = files.length then return (result, state)
      else runWithHeaders command world dirs more
  | _ => return (result, state)

def finish {α : Type} (result : Except Fault α) (state : State) : IO UInt32 := do
  for entry in state.session.log do
    IO.eprintln entry.message
  IO.print state.output.printed
  if let some (path, bytes) := state.output.file then
    IO.FS.writeBinFile path (ByteArray.mk bytes.toArray)
  match result with
  | .ok _ => return 0
  | .error (.badUsage code) => return UInt32.ofNat code.toNat
  | .error fault =>
      IO.eprintln (fault.kind ++ ": " ++ fault.message?.getD "")
      return 1

/- A workspace in which the common library is installed; of its symbols none are known here, so that
  an interface has the types and constants of a header. -/
def workspace (world : Source.World) : Workspace :=
  let file := "/lib/libc.so.6"
  { world := world,
    linker :=
      { installed := [(Work.commonLibrary, file)],
        images := [(file, {})] } }

/- How deep this program lets operations be nested. -/
def nestingLimit : Nat := 490

def execute {α : Type} (command : Source.World → Command α)
    (arguments : List String) : IO UInt32 := do
  let world : Source.World :=
    { workingDir := (← IO.currentDir).toString,
      clock := ← clockNow }
  let dirs := world.workingDir :: directoriesIn arguments
  let files ←
    gather world.workingDir dirs [] (operandIn? arguments).toList
  let (result, state) ←
    runWithHeaders command world dirs files
  finish result state

end Program

end CHeader

def main (arguments : List String) : IO UInt32 := do
  match arguments with
  | "preprocess" :: rest =>
      CHeader.Program.execute (fun _ =>
          CHeader.CommandLine.preprocess CHeader.Program.nestingLimit "preprocess" "utf8" rest)
        rest
  | "interface" :: rest =>
      CHeader.Program.execute (fun world =>
          CHeader.CommandLine.buildInterface CHeader.Program.nestingLimit
            CHeader.Declaration.parse "interface" (CHeader.Program.workspace world) rest)
        rest
  | _ => do
      IO.eprintln "usage: (preprocess | interface) ARGUMENTS"
      return 2
