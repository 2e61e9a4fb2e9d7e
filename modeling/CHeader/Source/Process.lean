import CHeader.Source.Condition

/-
  Processing of source files line by line.

  A directive line changes the session or stands for the text of an included file or a selected
  group; any other line is expanded. A file is processed to its end, and the state of the including
  file is put back afterwards.

  Lines can contain lines: groups and included files are processed by the same step. How deep lines
  may be nested is an argument, as the bound on the passes over one line is.

  Key definitions include:
    * `Source.skipGroup`
    * `Source.processGroup`
    * `Source.processFile`
-/

namespace CHeader

namespace Source

-- Conditional groups

/- Pass over lines up to the end of the group that is open, with the number of groups open inside
  it. The first number bounds the lines. -/
def skipGroupFrom : Nat → Nat → Run Unit
| 0, _ => throw .endOfLines
| count + 1, inside => do
    match groupMark? (← nextLine) with
    | some .opens => skipGroupFrom count (inside + 1)
    | some .closes =>
        match inside with
        | 0 => pure ()
        | inside + 1 => skipGroupFrom count inside
    | none => skipGroupFrom count inside

/- Pass over lines up to the end of the open group. -/
def skipGroup : Run Unit := do
  skipGroupFrom ((← linesLeft) + 1) 0

/- The steps that lines inside other lines take. -/
abbrev LineStep := String → Run String

/-
  Process the lines of a group up to its end. The flag tells whether the lines belong to the
  selected part. The number bounds the lines.
-/
def processGroupFrom (limit : Nat) (step : LineStep) : Nat → Bool → String → Run String
| 0, _, _ => throw .endOfLines
| count + 1, selected, text => do
    let line ← nextLine
    let keyword := (Directive.ofLine? line).bind (·.keyword)
    match selected, keyword with
    | _, some .endIf => return text
    | true, some .elseGroup
    | true, some .elseIf =>
        skipGroup
        return text
    | true, _ =>
        let more ← step line
        processGroupFrom limit step count true (text ++ more)
    | false, some .elseGroup =>
        processGroupFrom limit step count true text
    | false, some .elseIf =>
        if ← conditionHolds limit step line then
          let more ←
            step ("#if " ++ Directive.operandOf line)
          return text ++ more
        else processGroupFrom limit step count false text
    | false, some keyword =>
        if keyword.opensGroup then skipGroup
        processGroupFrom limit step count false text
    | false, none => processGroupFrom limit step count false text

variable (limit : Nat) (step : LineStep)

def groupSelected (keyword : Keyword) (line argument : String) : Run Bool := do
  match keyword with
  | .ifDefined => return (← getTable).contains argument
  | .ifUndefined => return !(← getTable).contains argument
  | _ => conditionHolds limit step line

def processGroup (keyword : Keyword) (line argument : String) : Run String := do
  let selected ← groupSelected limit step keyword line argument
  processGroupFrom limit step ((← linesLeft) + 1) selected ""

-- Search for files

def systemDirectories : List String := ["/usr/local/include", "/usr/include"]

/- The system directory for the machine: the one with its name, or the first whose name begins with
  it. -/
def targetDirectory? (world : World) : Except Fault (Option String) :=
  let machine := world.platform.machine
  match world.systemItems with
  | none => .error .noSuchFile
  | some items =>
      let found :=
        if machine.isEmpty || items.any (·.1 = machine) then some machine
        else (items.find? (fun item => Text.hasStart item.1 machine && item.2)).map Prod.fst
      .ok (found.map ("/usr/include/" ++ ·))

/- The directories named by settings of the world and those of the system. -/
def settingPath (world : World) : Except Fault (List String) :=
  let value (name : String) (sep : Char) :=
    match Macro.lookup world.settings name with
    | some text => Text.fields sep text
    | none => []
  if Text.hasStart world.platform.family "win" then
    .ok (value "INCLUDE" ';')
  else do
    return value "CPATH" ':' ++ value "C_INCLUDE_PATH" ':' ++ systemDirectories ++
      (← targetDirectory? world).toList

/- The directories to search after those given. -/
def furtherPath : Run (List String) := do
  let session ← get
  match session.table.find? searchPathName with
  | none => lift (settingPath session.world)
  | some .record => return session.searchPath
  | some (.text s) => return s.toList.map String.singleton
  | some .function => throw .wrongKind

def findFile (world : World) (name : String) (path : List String) : Except Fault String :=
  match (path.map (Path.join · name)).find? (fun full => (world.node? full).isSome) with
  | some full => .ok full
  | none => .error (.fileNotFound name)

-- Built-in macros

def twoDigits (n : Nat) : String :=
  if n < 10 then "0" ++ toString n else toString n

def monthNames : List String :=
  ["Jan", "Feb", "Mar", "Apr", "May", "Jun", "Jul", "Aug", "Sep", "Oct", "Nov", "Dec"]

/- The date as a string literal; a day of one digit has a blank before it. -/
def dateText (clock : Clock) : String :=
  "\"" ++ (monthNames.getD (clock.month - 1) "") ++ " " ++ (if clock.day < 10 then " " else "") ++
    toString clock.day ++ " " ++ toString clock.year ++ "\""

def timeText (clock : Clock) : String :=
  "\"" ++ twoDigits clock.hour ++ ":" ++ twoDigits clock.minute ++ ":" ++
    twoDigits clock.second ++ "\""

def addOperators (table : Macro.Table) : Macro.Table :=
  if table.contains Macro.quoteName then table
  else
    let table := table.set Macro.quoteName .function
    let table := table.set Macro.joinName .function
    let table := table.set "_Pragma" .function
    let table := table.setParams Macro.quoteName (.single "__CPP_a__")
    let table := table.setParams Macro.joinName (.names ["__CPP_a__", "__CPP_b__"])
    let table := table.setParams "_Pragma" (.single "x")
    let table := table.setBody Macro.quoteName (.plain "__CPP_a__")
    let table := table.setBody Macro.joinName (.plain "__CPP_a__")
    table.setBody "_Pragma" (.plain "")

def addMachine (machine : String) (table : Macro.Table) : Macro.Table :=
  if ["i386", "i686"].contains machine then
    table.setText "__i386__" ""
  else if ["x86_64", "AMD64"].contains machine then
    table.setText "__x86_64__" ""
  else if ["ppc", "PowerPC", "Power Macintosh"].contains machine then
    table.setText "__ppc__" "1"
  else if machine = "ia64" then table.setText "__ia64__" "1"
  else table

def addSystem (platform : Platform) (table : Macro.Table) : Macro.Table :=
  if platform.system = "Windows" then
    let table := table.setText "_WIN32" ""
    if Nat.pow 2 32 < platform.largestSize then
      table.setText "_WIN64" ""
    else table
  else if platform.system = "Darwin" then
    let table := table.setText "__MACH__" ""
    let table := table.setText "__APPLE__" ""
    let table := table.setText "TARGET_OS_MAC" "1"
    if table.contains "__i386__" then
      table.setText "TARGET_CPU_X86" "1"
    else if table.contains "__ppc__" then
      table.setText "TARGET_CPU_PPC" "1"
    else table
  else table.setText "__unix__" ""

def addBuiltins (world : World) (name : String) (table : Macro.Table) : Macro.Table :=
  let table := table.set readerName .record
  let table := table.setText lineName "0"
  let table := table.setText fileName (Macro.quote name)
  let table := table.setText "__DATE__" (dateText world.clock)
  let table := table.setText "__TIME__" (timeText world.clock)
  let table := table.setText "__STDC__" "1"
  let table := table.setText "__STDC_HOSTED__" "1"
  let table := table.setText "__STDC_VERSION__" "199901L"
  addSystem world.platform (addMachine world.platform.machine (addOperators table.openRecords))

-- Files

/- The state of the including file, if there is one. What is on record for it need not be a file. -/
structure Suspended where
  record : Macro.Meaning
  reader : Option Reader
  line : Macro.Meaning
  file : Macro.Meaning
  deriving Inhabited

variable (name : String)

def meaningOf : Run Macro.Meaning := do
  match (← getTable).find? name with
  | some meaning => return meaning
  | none => throw .missingName

/-
  Prepare the search for a file. Without an open file the records of the run start anew and the
  working directory is searched first; the answer has the directories and the state to put back.
-/
def beginFile (path : List String) : Run (List String × Option Suspended) := do
  let path := path ++ (← furtherPath)
  let table ← getTable
  if table.contains readerName then
    let entered ← meaningOf readerName
    let line ← meaningOf lineName
    let file ← meaningOf fileName
    let reader := (← get).reader
    return (path, some ⟨entered, reader, line, file⟩)
  else
    modify (fun session =>
      { session with
        table := ((session.table.set trailName .record).set
            reentriesName .record).set searchPathName .record,
        trail := [],
        reentries := [],
        searchPath := path })
    return ("." :: path, none)

/- The number of times a file may be open inside itself. -/
def reentryLimit : Int := 20

/- Count a file that is already open. -/
def countReentry (path : String) : Run Unit := do
  requireRecord trailName
  if (← get).trail.contains path then
    requireRecord reentriesName
    let count := ((Macro.lookup (← get).reentries path).getD 0) + 1
    modify (fun session =>
      { session with
        reentries := Macro.assign path count session.reentries })
    if reentryLimit < count then
      let fault := Fault.recursiveInclude path
      report .error (fault.message?.getD "")
      throw fault

def openFile (path encoding : String) : Run Reader := do
  match (← get).world.node? path with
  | some .directory => throw .isDirectory
  | none => throw .cannotOpen
  | some (.file bytes) =>
      match Text.Encoding.ofName? encoding with
      | none => throw .unknownEncoding
      | some encoding =>
          match encoding.decode bytes with
          | none =>
              return { path := some path, lines := [],
                       undecodable := true }
          | some decoded =>
              let texts := Text.splitLines decoded.chars
              let lines := texts.mapIdx (fun index text =>
                  (⟨text,
                    if index = 0 then decoded.warnings
                    else 0⟩ : SourceLine))
              return { path := some path, lines := lines }

def nextLine? : Run (Option String) :=
  tryCatch (some <$> nextLine) (fun fault =>
      if fault = .endOfLines then pure none
      else throw fault)

/- Process the lines of the open file. The number bounds the lines. -/
def processLines (step : LineStep) : Nat → List String → Run (List String)
| 0, pieces => pure pieces.reverse
| count + 1, pieces => do
    match ← nextLine? with
    | none => return pieces.reverse
    | some line =>
        let piece ← step line
        processLines step count (piece :: pieces)

def closeReader : Run Unit :=
  modify (fun session =>
    { session with
      reader := session.reader.map (fun reader => { reader with closed := true }) })

def resume (suspended : Suspended) : Run Unit :=
  modify (fun session =>
    { session with
      reader := suspended.reader,
      table := ((session.table.set readerName suspended.record).set
          lineName suspended.line).set fileName suspended.file })

def endFile (path : String) : Run Unit := do
  requireRecord trailName
  modify (fun session =>
    { session with trail := session.trail.erase path })
  requireRecord reentriesName
  modify (fun session =>
    { session with
      reentries :=
        match Macro.lookup session.reentries path with
        | some count =>
            Macro.assign path (count - 1) session.reentries
        | none => session.reentries })

/-
  Process a file that is looked for in the given directories and those of the run. The answer has
  the text of every line.
-/
def processFile (path : List String) (encoding : Option String) :
    Run (List String) := do
  let (directories, suspended) ← beginFile path
  let world := (← get).world
  let full ← lift (findFile world name directories)
  countReentry full
  let encoding := encoding.getD world.preferredEncoding
  modify (fun session =>
    { session with
      trail := session.trail ++ [full],
      table := session.table.setText encodingName encoding })
  let reader ← openFile full encoding
  modify (fun session =>
    { session with
      reader := some reader,
      table := addBuiltins world name session.table })
  let pieces ←
    tryCatch (processLines step (reader.lines.length + 2) []) (fun fault => do
        closeReader
        throw fault)
  match suspended with
  | some state => resume state
  | none => closeReader
  endFile full
  return pieces

-- Directives

def defineMacro (line : String) : Run Unit := do
  let (table, result) := Macro.define line (← getTable)
  modifyTable (fun _ => table)
  lift result

def currentDirectory : Run String := do
  let session ← get
  match session.table.find? readerName, session.reader with
  | none, _ => throw .missingName
  | some .record, some { path := some path, .. } =>
      return Path.directory (Path.absolute session.world.workingDir path)
  | some _, _ => throw .missingPart

def nameEnds : Run (Char × Char) :=
  match name.toList.head?, name.toList.getLast? with
  | some first, some last => pure (first, last)
  | _, _ => throw .outOfRange

/- Process the file that an include directive names. A name that is neither quoted nor in angle
  brackets is expanded first. -/
def includeFile (operand : String) : Run String := do
  let name := Text.trimEnd operand
  let (first, last) ← nameEnds name
  let name ←
    if (first = '"' ∨ first = '<') ∧ (last = '"' ∨ last = '>') then
      pure name
    else
      Text.trim <$> Macro.expandLine limit step name
  let (first, last) ← nameEnds name
  let path ←
    if first = '"' ∧ last = '"' then
      List.singleton <$> currentDirectory
    else pure []
  let encoding ← textOf encodingName
  let pieces ←
    processFile step (Text.inner 1 name) path (some encoding)
  return Text.concat pieces

/- The first number of a text that a blank follows, and the rest of its line after the blanks. -/
def numberAndRest? : Nat → List Char → Option (String × String)
| _, [] => none
| 0, c :: rest =>
    if c.isDigit then
      let digits := (c :: rest).takeWhile Char.isDigit
      match (c :: rest).dropWhile Char.isDigit with
      | d :: more =>
          if Text.isBlank d then
            let tail := (d :: more).dropWhile Text.isBlank
            some (String.ofList digits, String.ofList (tail.takeWhile (· ≠ '\n')))
          else numberAndRest? (digits.length - 1) rest
      | [] => none
    else numberAndRest? 0 rest
| skip + 1, _ :: rest => numberAndRest? skip rest

/- Set the line number and, if it is given, the name of the file. -/
def setLine (text : List Char) : Run Unit := do
  let text ← Macro.expandLine limit step (String.ofList text)
  match numberAndRest? 0 text.toList with
  | none => throw .missingPart
  | some (digits, name) =>
      match Text.readInteger? digits with
      | none => throw .badValue
      | some n =>
          modifyTable (·.setText lineName (toString (n - 1)))
          if !name.isEmpty then
            modifyTable (·.setText fileName name)

def warn (line : String) : Run Unit := do
  let file ← textOf fileName
  let number ← textOf lineName
  report .warning (file ++ ":" ++ number ++ ": " ++ Directive.operandOf line)

def processDirective (directive : Directive) (line : String) : Run String := do
  match directive.keyword with
  | some .define =>
      defineMacro line
      return ""
  | some .undefine =>
      modifyTable (·.erase directive.argument)
      return ""
  | some .ifTrue
  | some .ifDefined
  | some .ifUndefined =>
      processGroup limit step (directive.keyword.getD .ifTrue) line directive.argument
  | some .warning =>
      warn line
      return ""
  | some .error => throw (.errorDirective line)
  | some .includeFile =>
      includeFile limit step directive.operandText
  | some .setLine =>
      setLine limit step directive.afterKeyword
      return ""
  | some .pragma => return ""
  | none => return ""
  | some .elseGroup
  | some .elseIf
  | some .endIf => throw (.strayDirective line)

def processLineWith (line : String) : Run String :=
  match Directive.ofLine? line with
  | some directive => processDirective limit step directive line
  | none => Macro.expandLine limit step line

def processNested : Nat → LineStep
| 0 => fun _ => throw .tooDeep
| depth + 1 => processLineWith limit (processNested depth)

def processLine : LineStep := processNested limit limit

def expandLine (line : String) : Run String :=
  Macro.expandLine limit (processLine limit) line

def preprocess (path : List String) (encoding : Option String) :
    Run (List String) :=
  processFile (processLine limit) name path encoding

end Source

end CHeader
