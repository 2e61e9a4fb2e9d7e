import CHeader.Proofs.Macro.ObjectLike
import CHeader.Proofs.Source.NextLine

/-
  Entering and leaving of source files.

  Processing a file enters it, processes its lines and leaves it again. To enter a file suspends the
  file that is open and starts the new one at line zero; to leave it puts back what was suspended.

  Main declarations:
    * `Source.enterFile`
    * `Source.leaveFile`
    * `Source.processFile_eq`
-/

namespace CHeader

namespace Source

open Macro

variable {session : Session} {name : String} {path : List String} {encoding : Option String}
variable {step : LineStep} {entry : Entry}

-- Built-in macros

section

variable {key : String} (table : Table)

theorem find?_setText (name text : String) : (table.setText name text).find? key =
    if name = key then some (.text text)
    else table.find? key :=
  Table.find?_set table name key _

/- The operators that can be called have names of their own. -/
theorem find?_addOperators (hQuote : quoteName ≠ key) (hJoin : joinName ≠ key)
    (hPragma : "_Pragma" ≠ key) : (addOperators table).find? key = table.find? key := by
  unfold addOperators
  split
  · rfl
  · calc
      _ = (((table.set quoteName .function).set joinName .function).set "_Pragma"
          .function).find? key := rfl
      _ = table.find? key := by
        rw [Table.find?_set, Table.find?_set,
          Table.find?_set, if_neg hPragma, if_neg hJoin, if_neg hQuote]

/- The names that tell the machine and the system. -/
def platformNames : List String :=
  ["__i386__", "__x86_64__", "__ppc__", "__ia64__", "_WIN32",
    "_WIN64", "__MACH__", "__APPLE__", "TARGET_OS_MAC",
    "TARGET_CPU_X86", "TARGET_CPU_PPC", "__unix__"]

theorem find?_setPlatform (hKey : key ∉ platformNames) (name text : String)
    (hName : name ∈ platformNames) : (table.setText name text).find? key = table.find? key := by
  rw [find?_setText, if_neg]
  rintro rfl
  exact hKey hName

theorem find?_addMachine (machine : String) (hKey : key ∉ platformNames) :
    (addMachine machine table).find? key = table.find? key := by
  unfold addMachine
  split_ifs
  all_goals
    simp (disch := decide) only [find?_setPlatform _ hKey]

theorem find?_addSystem (platform : Platform) (hKey : key ∉ platformNames) :
    (addSystem platform table).find? key = table.find? key := by
  unfold addSystem
  dsimp only
  split_ifs
  all_goals
    simp (disch := decide) only [find?_setPlatform _ hKey]

end

theorem find?_addBuiltins_open (world : World) (name : String) (table : Table) :
    (addBuiltins world name table).find? readerName = some .record ∧
      (addBuiltins world name table).find? lineName = some (.text "0") := by
  constructor
  all_goals
    rw [addBuiltins, find?_addSystem _ _ (by decide), find?_addMachine _ _ (by decide),
      find?_addOperators _ (by decide) (by decide) (by decide),
      Table.find?_openRecords _ _ (by decide) (by decide)]
    simp [find?_setText, Table.find?_set, readerName, lineName, fileName]

-- Parts of the processing of a file

/- A file that was entered: its path, the state of the file that includes it, if there is one, and
  the number of its lines. -/
structure Entry where
  path : String
  outer : Option Suspended
  count : Nat

def enterFile (name : String) (path : List String) (encoding : Option String) : Run Entry := do
  let (directories, suspended) ← beginFile path
  let world := (← get).world
  let full ← lift (findFile world name directories)
  countReentry full
  let encoding := encoding.getD world.preferredEncoding
  modify (fun session =>
    { session with
      trail := session.trail ++ [full],
      table := session.table.setText encodingName encoding })
  let reader ← openFile full encoding
  modify (fun session =>
    { session with
      reader := some reader,
      table := addBuiltins world name session.table })
  return ⟨full, suspended, reader.lines.length⟩

/- Put back what was suspended and take a file off the records. -/
def leaveFile (path : String) (outer : Option Suspended) : Run Unit := do
  match outer with
  | some state => resume state
  | none => closeReader
  endFile path

/- Processing a file is to enter it, to process its lines and to leave it. -/
theorem processFile_eq (step : LineStep) (name : String)
    (path : List String) (encoding : Option String) :
    processFile step name path encoding = (do
      let entry ← enterFile name path encoding
      let pieces ← tryCatch (processLines step (entry.count + 2) []) (fun fault => do
          closeReader
          throw fault)
      leaveFile entry.path entry.outer
      return pieces) := by
  simp only [enterFile, leaveFile, bind_assoc]
  refine bind_congr fun found => ?_
  repeat refine bind_congr fun _ => ?_
  cases found.2 <;> simp only [bind_assoc]

def Session.close (session : Session) : Session :=
  { session with
    reader := session.reader.map (fun reader => { reader with closed := true }) }

theorem exec_processFile_of_entered
    (hEnter : exec (enterFile name path encoding) session = (.ok entry, entered)) :
    exec (processFile step name path encoding) session =
      match exec (processLines step (entry.count + 2) []) entered with
      | (.error fault, final) => (.error fault, final.close)
      | (.ok pieces, final) =>
        match exec (leaveFile entry.path entry.outer) final with
        | (.error fault, left) => (.error fault, left)
        | (.ok _, left) => (.ok pieces, left) := by
  rw [processFile_eq, exec_bind, hEnter]
  simp only [exec_bind, exec_tryCatch]
  rcases exec (processLines step (entry.count + 2) []) entered with ⟨fault | pieces, final⟩
  · rfl
  · rcases hLeave : exec (leaveFile entry.path entry.outer) final with
      ⟨fault | _, left⟩
    · simp only [hLeave]
    · simp only [hLeave, exec_pure]

theorem exec_processFile_of_refused
    (hEnter : exec (enterFile name path encoding) session = (.error fault, next)) :
    exec (processFile step name path encoding) session = (.error fault, next) := by
  rw [processFile_eq, exec_bind, hEnter]

/- A file that is processed to its end was entered, its lines were processed and it was left. -/
theorem exec_processFile_eq_ok {final : Session} {pieces : List String} :
    exec (processFile step name path encoding) session = (.ok pieces, final) ↔
      ∃ entry entered last, exec (enterFile name path encoding) session = (.ok entry, entered) ∧
        exec (processLines step (entry.count + 2) []) entered = (.ok pieces, last) ∧
        exec (leaveFile entry.path entry.outer) last = (.ok (), final) := by
  rcases hEnter : exec (enterFile name path encoding) session with ⟨fault | entry, entered⟩
  · simp [exec_processFile_of_refused hEnter]
  · rw [exec_processFile_of_entered hEnter]
    rcases hLines : exec (processLines step (entry.count + 2) []) entered with ⟨fault | found, last⟩
    · simp [hLines]
    · rcases hLeave : exec (leaveFile entry.path entry.outer) last with ⟨fault | _, left⟩
      · simp [hLines, hLeave]
      · simp [hLines, hLeave]

-- Parts of an inclusion

def includedName (limit : Nat) (step : LineStep) (operand : String) : Run String := do
  let (first, last) ← nameEnds (Text.trimEnd operand)
  if (first = '"' ∨ first = '<') ∧ (last = '"' ∨ last = '>') then
    pure (Text.trimEnd operand)
  else
    Text.trim <$> Macro.expandLine limit step (Text.trimEnd operand)

/- The directory that is searched first: that of the open file, if the name is quoted. -/
def ownDirectory (name : String) : Run (List String) := do
  let (first, last) ← nameEnds name
  if first = '"' ∧ last = '"' then
    List.singleton <$> currentDirectory
  else pure []

theorem exec_currentDirectory_snd (session : Session) :
    (exec currentDirectory session).2 = session := by
  rw [currentDirectory, exec_bind, exec_get]
  dsimp only
  split <;> rfl

theorem includeFile_eq (step : LineStep) (operand : String) : includeFile limit step operand = (do
    let name ← includedName limit step operand
    let path ← ownDirectory name
    let encoding ← textOf encodingName
    let pieces ← processFile step (Text.inner 1 name) path (some encoding)
    return Text.concat pieces) := by
  simp only [includeFile, includedName, ownDirectory, bind_assoc]
  refine bind_congr fun ends => ?_
  split_ifs
  · simp only [pure_bind]
    refine bind_congr fun ends => ?_
    split_ifs <;> rfl
  · refine bind_congr fun name => ?_
    refine bind_congr fun ends => ?_
    split_ifs <;> rfl

-- What entering and leaving do

structure Suspends (session : Session) (state : Suspended) : Prop where
  record : session.table.find? readerName = some state.record
  reader : session.reader = state.reader
  line : session.table.find? lineName = some state.line
  file : session.table.find? fileName = some state.file

/-
  What entering a file does. With a file on record its state is suspended and the trail grows by the
  new file; otherwise the trail starts anew.
-/
structure FileEntered (before after : Session) (entry : Entry) : Prop where
  record : after.table.find? readerName = some .record
  number : after.table.find? lineName = some (.text "0")
  reader : ∃ reader, after.reader = some reader ∧ reader.closed = false ∧
      reader.lines.length = entry.count
  suspended : ∀ state, entry.outer = some state → Suspends before state ∧
      before.table.find? trailName = some .record ∧
      after.trail = before.trail ++ [entry.path]
  anew : entry.outer = none → before.table.contains readerName = false ∧ after.trail = [entry.path]

/-
  What leaving a file does. A file that was suspended is
  read on; otherwise no file is open any more.
-/
structure FileLeft (before after : Session) (path : String) (outer : Option Suspended) : Prop where
  trail : after.trail = before.trail.erase path
  record : after.table.find? trailName = some .record
  resumed : ∀ state, outer = some state → Suspends after state
  closed : outer = none → ¬ after.CanRead

section

variable {session next : Session}

variable {path : String}
variable {outer : Option Suspended}

theorem exec_requireRecord_eq_ok (hExec : exec (requireRecord name) session = (.ok (), next)) :
    session.table.find? name = some .record ∧ next = session := by
  rw [requireRecord, exec_bind_getTable] at hExec
  split at hExec <;> cases hExec
  exact ⟨by assumption, rfl⟩

theorem exec_meaningOf_eq_ok (hExec : exec (meaningOf name) session = (.ok meaning, next)) :
    session.table.find? name = some meaning ∧ next = session := by
  rw [meaningOf, exec_bind_getTable] at hExec
  split at hExec <;> cases hExec
  exact ⟨by assumption, rfl⟩

def Session.further (session : Session) : Except Fault (List String) :=
  match session.table.find? searchPathName with
  | none => settingPath session.world
  | some .record => .ok session.searchPath
  | some (.text s) => .ok (s.toList.map String.singleton)
  | some .function => .error .wrongKind

theorem exec_furtherPath (session : Session) :
    exec furtherPath session = (session.further, session) := by
  rw [furtherPath, exec_bind, exec_get, Session.further]
  dsimp only
  rcases session.table.find? searchPathName with _ | _ | _ | _
  · exact exec_lift session _
  all_goals rfl

theorem exec_furtherPath_eq_ok {path : List String}
    (hExec : exec furtherPath session = (.ok path, next)) : next = session := by
  rw [exec_furtherPath] at hExec
  exact (congrArg Prod.snd hExec).symm

/- The state of a file on record is looked up; without one the records start anew. -/
theorem exec_beginFile_eq_ok {path directories : List String}
    (hExec : exec (beginFile path) session = (.ok (directories, outer), next)) :
    (∀ state, outer = some state → Suspends session state ∧ next = session) ∧
      (outer = none → session.table.contains readerName = false ∧ next.trail = []) := by
  rw [beginFile, exec_bind_eq_ok] at hExec
  rcases hExec with ⟨more, _, hMore, hExec⟩
  cases exec_furtherPath_eq_ok hMore
  rw [exec_bind_getTable] at hExec
  split_ifs at hExec with hOpen
  · simp only [exec_bind_eq_ok] at hExec
    rcases hExec with ⟨_, _, hRecord, line, _, hLine, file, _, hFile, _, _, hGet, hExec⟩
    rcases exec_meaningOf_eq_ok hRecord with ⟨hRecord, rfl⟩
    rcases exec_meaningOf_eq_ok hLine with ⟨hLine, rfl⟩
    rcases exec_meaningOf_eq_ok hFile with ⟨hFile, rfl⟩
    cases hGet
    rcases hExec with ⟨⟨_, rfl⟩, rfl⟩
    refine ⟨?_, nofun⟩
    rintro _ ⟨⟩
    exact ⟨⟨hRecord, rfl, hLine, hFile⟩, rfl⟩
  · rcases hExec with ⟨⟨_, rfl⟩, rfl⟩
    exact ⟨nofun, fun _ => ⟨by simpa using hOpen, rfl⟩⟩

theorem exec_countReentry_eq_ok (hExec : exec (countReentry path) session = (.ok (), next)) :
    session.table.find? trailName = some .record ∧ next.trail = session.trail := by
  rw [countReentry, exec_bind_eq_ok] at hExec
  rcases hExec with ⟨_, _, hTrail, hExec⟩
  rcases exec_requireRecord_eq_ok hTrail with ⟨hRecord, rfl⟩
  refine ⟨hRecord, ?_⟩
  simp only [exec_bind, exec_get] at hExec
  split_ifs at hExec with hListed
  · simp only [exec_bind_eq_ok] at hExec
    rcases hExec with ⟨_, _, hCount, _, _, ⟨rfl, rfl⟩, _, _, ⟨_, rfl⟩, hExec⟩
    cases (exec_requireRecord_eq_ok hCount).2
    split_ifs at hExec with hLimit
    · simp [exec_bind, report] at hExec
    · simp only [exec_pure, Prod.mk.injEq, true_and] at hExec
      rw [← hExec]
  · simp only [exec_pure, Prod.mk.injEq, true_and] at hExec
    rw [hExec]

theorem exec_openFile_eq_ok {encoding : String} {reader : Reader}
    (hExec : exec (openFile path encoding) session = (.ok reader, next)) :
    reader.closed = false ∧ next = session := by
  rw [openFile, exec_bind, exec_get] at hExec
  dsimp only at hExec
  repeat' split at hExec
  all_goals simp only [exec_pure, exec_throw, Prod.mk.injEq,
    Except.ok.injEq, reduceCtorEq, false_and] at hExec
  all_goals
    rcases hExec with ⟨rfl, rfl⟩
    exact ⟨rfl, rfl⟩

theorem FileEntered.of_exec {path : List String}
    (hExec : exec (enterFile name path encoding) session = (.ok entry, next)) :
    FileEntered session next entry := by
  simp only [enterFile, exec_bind_eq_ok, exec_modify, exec_lift, Prod.mk.injEq] at hExec
  rcases hExec with
    ⟨⟨directories, outer⟩, begun, hBegin, _, _, ⟨rfl, rfl⟩,
      full, _, ⟨_, rfl⟩, _, counted, hCount, _, _, ⟨_, rfl⟩,
      reader, _, hOpen, _, _, ⟨_, rfl⟩, rfl, rfl⟩
  rcases exec_beginFile_eq_ok hBegin with ⟨hSome, hNone⟩
  rcases exec_countReentry_eq_ok hCount with ⟨hRecord, hTrail⟩
  rcases exec_openFile_eq_ok hOpen with ⟨hClosed, rfl⟩
  refine ⟨(find?_addBuiltins_open _ _ _).1, (find?_addBuiltins_open _ _ _).2,
    ⟨reader, rfl, hClosed, rfl⟩, ?_, ?_⟩
  · intro state hState
    rcases hSome state hState with ⟨hSuspends, rfl⟩
    refine ⟨hSuspends, hRecord, ?_⟩
    rw [← hTrail]
  · intro hOuter
    rcases hNone hOuter with ⟨hClosed, hEmpty⟩
    refine ⟨hClosed, ?_⟩
    rw [hTrail, hEmpty, List.nil_append]

theorem exec_endFile_eq_ok (hExec : exec (endFile path) session = (.ok (), next)) :
    session.table.find? trailName = some .record ∧ next.trail = session.trail.erase path ∧
      next.table = session.table ∧ next.reader = session.reader := by
  simp only [endFile, exec_bind_eq_ok] at hExec
  rcases hExec with ⟨_, _, hTrail, _, _, ⟨_, rfl⟩, _, _, hCount, _, rfl⟩
  rcases exec_requireRecord_eq_ok hTrail with ⟨hRecord, rfl⟩
  rcases exec_requireRecord_eq_ok hCount with ⟨_, rfl⟩
  exact ⟨hRecord, rfl, rfl, rfl⟩

theorem FileLeft.of_exec (hExec : exec (leaveFile path outer) session = (.ok (), next)) :
    FileLeft session next path outer := by
  cases outer with
  | none =>
    rcases exec_endFile_eq_ok hExec with ⟨hRecord, hTrail, hTable, hReader⟩
    refine ⟨hTrail, ?_, nofun, ?_⟩
    · rw [hTable]
      exact hRecord
    · rintro - ⟨_, reader, hOpen, hClosed⟩
      rw [hReader] at hOpen
      simp only [Option.map_eq_some_iff] at hOpen
      rcases hOpen with ⟨_, _, rfl⟩
      cases hClosed
  | some state =>
    rcases exec_endFile_eq_ok hExec with ⟨hRecord, hTrail, hTable, hReader⟩
    refine ⟨hTrail, ?_, ?_, nofun⟩
    · rw [hTable]
      exact hRecord
    · rintro _ ⟨⟩
      refine ⟨?_, hReader, ?_, ?_⟩
      all_goals
        rw [hTable]
        simp [Table.find?_set, readerName, lineName, fileName]

end

def asciiBytes (text : String) : List UInt8 := text.toList.map (fun c => UInt8.ofNat c.toNat)

end Source

end CHeader
