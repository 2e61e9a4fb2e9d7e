import CHeader.Proofs.Source.Conditional
import CHeader.Proofs.Source.Inclusion
import CHeader.Proofs.Source.Reuse

/-
  Predefined macros and inclusion.

  Every file that is opened, also one that is included, gets the predefined macros anew. A file
  whose lines are no directives and name no macro changes nothing else, so its inclusion leaves the
  macros as they were exactly if the predefined ones had their meaning before.

  Main declarations:
    * `Source.predefined`
    * `Source.find?_addBuiltins`
    * `Source.include_resets_predefined`
-/

namespace CHeader

open List hiding lookup

namespace Source

open Macro Table

open Macro (Table lookup lookup_append)

variable {session : Session} {lines : List LogicalLine} {key : String}

-- The macros that a file starts with

/- The macros of the language. -/
def standardMacros : List (String × Meaning) :=
  [("__STDC_VERSION__", .text "199901L"), ("__STDC_HOSTED__", .text "1"), ("__STDC__", .text "1")]

/- The operator that can be called, which is given together with the hidden ones. -/
def operatorMacros (table : Table) : List (String × Meaning) :=
  if table.contains quoteName then []
  else [("_Pragma", .function)]

/- The macro that names a machine. -/
def machineMacros (machine : String) : List (String × Meaning) :=
  if ["i386", "i686"].contains machine then
    [("__i386__", .text "")]
  else if ["x86_64", "AMD64"].contains machine then
    [("__x86_64__", .text "")]
  else if ["ppc", "PowerPC", "Power Macintosh"].contains machine then
    [("__ppc__", .text "1")]
  else if machine = "ia64" then [("__ia64__", .text "1")]
  else []

/- The macros that name a system, some of which depend on those that name the machine. -/
def systemMacros (platform : Platform) (named : String → Bool) : List (String × Meaning) :=
  if platform.system = "Windows" then
    if Nat.pow 2 32 < platform.largestSize then
      [("_WIN64", .text ""), ("_WIN32", .text "")]
    else [("_WIN32", .text "")]
  else if platform.system = "Darwin" then
    (if named "__i386__" then
        [("TARGET_CPU_X86", .text "1")]
      else if named "__ppc__" then
        [("TARGET_CPU_PPC", .text "1")]
      else []) ++
      [("TARGET_OS_MAC", .text "1"), ("__APPLE__", .text ""), ("__MACH__", .text "")]
  else [("__unix__", .text "")]

def predefined (world : World) (table : Table) : List (String × Meaning) :=
  systemMacros world.platform (addMachine world.platform.machine table).contains ++
    machineMacros world.platform.machine ++
    operatorMacros table ++ standardMacros

section

variable (table : Table) (key : String)

theorem find?_setText_or (name text : String) : (table.setText name text).find? key =
    (lookup [(name, Meaning.text text)] key).or (table.find? key) := by
  rw [find?_setText, lookup]
  split_ifs <;> rfl

theorem find?_addMachine_or (machine : String) : (addMachine machine table).find? key =
    (lookup (machineMacros machine) key).or (table.find? key) := by
  unfold addMachine machineMacros
  split_ifs
  iterate 4 exact find?_setText_or _ _ _ _
  rfl

theorem find?_addSystem_or (platform : Platform) : (addSystem platform table).find? key =
    (lookup (systemMacros platform table.contains) key).or (table.find? key) := by
  have hMac : ∀ name, name = "__i386__" ∨ name = "__ppc__" →
      (((table.setText "__MACH__" "").setText "__APPLE__"
          "").setText "TARGET_OS_MAC" "1").contains name =
        table.contains name := by
    rintro name (rfl | rfl) <;> simp [Table.contains, find?_setText]
  unfold addSystem systemMacros
  dsimp only
  rw [hMac _ (.inl rfl), hMac _ (.inr rfl)]
  split_ifs
  · rw [find?_setText_or, find?_setText_or, ← Option.or_assoc, ← lookup_append]
    rfl
  · exact find?_setText_or _ _ _ _
  iterate 3
    simp only [find?_setText_or, ← Option.or_assoc, ← lookup_append]
    rfl
  exact find?_setText_or _ _ _ _

theorem find?_addOperators_or (hQuote : quoteName ≠ key) (hJoin : joinName ≠ key) :
    (addOperators table).find? key = (lookup (operatorMacros table) key).or (table.find? key) := by
  unfold operatorMacros
  by_cases hGiven : table.contains quoteName = true
  · rw [addOperators, if_pos hGiven, if_pos hGiven]
    rfl
  · rw [if_neg hGiven]
    by_cases hPragma : "_Pragma" = key
    · subst hPragma
      rw [addOperators, if_neg hGiven]
      exact find?_set _ _ _ _
    · rw [find?_addOperators _ hQuote hJoin hPragma, lookup, if_neg hPragma]
      rfl

/- Only two names decide which macros name a system. -/
theorem systemMacros_congr (platform : Platform) (hFirst : named "__i386__" = other "__i386__")
    (hSecond : named "__ppc__" = other "__ppc__") :
    systemMacros platform named = systemMacros platform other := by
  rw [systemMacros, systemMacros, hFirst, hSecond]

end

/- Names that a file has for itself, and names of records and of hidden operators. -/
def ownNames : List String :=
  [readerName, lineName, fileName, "__DATE__", "__TIME__",
    bodiesName, paramsName, quoteName, joinName]

/- A table with the own names of a file and the macros of the language. -/
def startTable (world : World) (name : String) (table : Table) : Table :=
  let table := table.set readerName .record
  let table := table.setText lineName "0"
  let table := table.setText fileName (quote name)
  let table := table.setText "__DATE__" (dateText world.clock)
  let table := table.setText "__TIME__" (timeText world.clock)
  let table := table.setText "__STDC__" "1"
  let table := table.setText "__STDC_HOSTED__" "1"
  table.setText "__STDC_VERSION__" "199901L"

section

variable {key : String} (world : World) (name : String) (table : Table)

theorem find?_startTable (hKey : key ∉ ownNames) :
    (startTable world name table).openRecords.find? key =
      (lookup standardMacros key).or (table.find? key) := by
  simp only [ownNames, mem_cons, not_or] at hKey
  rcases hKey with ⟨hReader, hLine, hFile, hDate, hTime, hBodies, hParams, _, _⟩
  rw [find?_openRecords _ _ (Ne.symm hBodies) (Ne.symm hParams), startTable]
  simp only [find?_setText_or _ _ "__STDC_VERSION__", find?_setText_or _ _ "__STDC_HOSTED__",
    find?_setText_or _ _ "__STDC__", ← Option.or_assoc, ← lookup_append]
  rw [find?_setText, if_neg (Ne.symm hTime), find?_setText, if_neg (Ne.symm hDate), find?_setText,
    if_neg (Ne.symm hFile), find?_setText, if_neg (Ne.symm hLine), find?_set,
    if_neg (Ne.symm hReader)]
  rfl

theorem contains_startTable (hKey : key = paramsName ∨ key = quoteName) :
    (startTable world name table).contains key = table.contains key := by
  rcases hKey with rfl | rfl <;>
    simp [Table.contains, startTable, find?_setText,
      Table.find?_set, paramsName, quoteName, readerName, lineName, fileName]

/- The operators are given anew under the same condition. -/
theorem operatorMacros_startTable : operatorMacros (startTable world name table).openRecords =
    operatorMacros table := by
  have hQuote : (startTable world name table).openRecords.contains
      quoteName = table.contains quoteName := by
    rw [Table.contains, Table.find?_openRecords _ _ (by decide) (by decide)]
    exact contains_startTable world name table (.inr rfl)
  rw [operatorMacros, operatorMacros, hQuote]

theorem contains_machine (hKey : key = "__i386__" ∨ key = "__ppc__") :
    (addMachine world.platform.machine (addOperators
        (startTable world name table).openRecords)).contains key =
      (addMachine world.platform.machine table).contains key := by
  have hSame : (addOperators (startTable world name table).openRecords).find? key =
      table.find? key := by
    rcases hKey with rfl | rfl
    all_goals
      rw [find?_addOperators _ (by decide) (by decide) (by decide),
        find?_startTable _ _ _ (by decide)]
      rfl
  rw [Table.contains, Table.contains, find?_addMachine_or, find?_addMachine_or, hSame]

/-
  A file that is opened gives the predefined macros their meaning and leaves all other names alone,
  apart from its own ones.
-/
theorem find?_addBuiltins (hKey : key ∉ ownNames) : (addBuiltins world name table).find? key =
    (lookup (predefined world table) key).or (table.find? key) := by
  have hQuote : quoteName ≠ key := by
    rintro rfl
    exact hKey (by decide)
  have hJoin : joinName ≠ key := by
    rintro rfl
    exact hKey (by decide)
  calc
    _ = (addSystem world.platform (addMachine world.platform.machine
        (addOperators (startTable world name table).openRecords))).find? key := rfl
    _ = _ := by
      rw [find?_addSystem_or, find?_addMachine_or, find?_addOperators_or _ _ hQuote hJoin,
        find?_startTable _ _ _ hKey, operatorMacros_startTable, predefined,
        systemMacros_congr _ (contains_machine world name table (.inl rfl))
          (contains_machine world name table (.inr rfl)),
        lookup_append, lookup_append, lookup_append]
      simp only [Option.or_assoc]

/- As long as its records are there, parameters and bodies are left alone. -/
theorem addBuiltins_functions (hParams : table.contains paramsName = true)
    (hQuote : table.contains quoteName = true) :
    (addBuiltins world name table).params = table.params ∧ (addBuiltins world name table).bodies =
        table.bodies := by
  have hSystem : ∀ other : Table, (addSystem world.platform other).params = other.params ∧
      (addSystem world.platform other).bodies = other.bodies := by
    intro other
    unfold addSystem
    dsimp only
    split_ifs <;> exact ⟨rfl, rfl⟩
  have hMachine : ∀ other : Table, (addMachine world.platform.machine other).params = other.params ∧
      (addMachine world.platform.machine other).bodies = other.bodies := by
    intro other
    unfold addMachine
    split_ifs <;> exact ⟨rfl, rfl⟩
  have hOpen : (startTable world name table).openRecords = startTable world name table := by
    rw [openRecords, contains_startTable world name table (.inl rfl), if_pos hParams]
  have hOperators : addOperators (startTable world name table) = startTable world name table := by
    rw [addOperators, contains_startTable world name table (.inr rfl), if_pos hQuote]
  have hBuiltins : addBuiltins world name table =
      addSystem world.platform (addMachine world.platform.machine (addOperators
          (startTable world name table).openRecords)) := rfl
  rw [hBuiltins, hOpen, hOperators, (hSystem _).1, (hSystem _).2, (hMachine _).1, (hMachine _).2]
  exact ⟨rfl, rfl⟩

theorem nodup_predefined : ((predefined world table).map Prod.fst).Nodup := by
  unfold predefined systemMacros machineMacros operatorMacros standardMacros
  split_ifs <;> decide

/- None of them is hidden or belongs to a file. -/
theorem visible_predefined : ∀ entry ∈ predefined world table, isHidden entry.1 = false ∧
    entry.1 ∉ ["__DATE__", "__TIME__", lineName, fileName] := by
  unfold predefined systemMacros machineMacros operatorMacros standardMacros
  split_ifs <;> decide

theorem find?_addBuiltins_of_hidden (hKey : key ∉ ownNames) (hHidden : isHidden key = true) :
    (addBuiltins world name table).find? key = table.find? key := by
  rw [find?_addBuiltins world name table hKey]
  cases hLookup : lookup (predefined world table) key with
  | none => rfl
  | some meaning =>
    have hVisible := (visible_predefined world table _ (mem_of_lookup hLookup)).1
    rw [hHidden] at hVisible
    cases hVisible

end

-- Lines that name no macro

structure Unnamed (table : Table) (line : String) : Prop where
  text : Directive.ofLine? line = none
  pieces : ∀ piece ∈ Macro.pieces line, table.contains piece = false

namespace Unnamed

variable {table : Table} {line : String}

variable (hUnnamed : Unnamed table line)
include hUnnamed

theorem congr (hSame : ∀ name, other.contains name = table.contains name) : Unnamed other line := by
  refine ⟨hUnnamed.text, ?_⟩
  intro piece hPiece
  rw [hSame]
  exact hUnnamed.pieces piece hPiece

theorem find?_eq_none (hPiece : piece ∈ Macro.pieces line) : table.find? piece = none := by
  have hNone := hUnnamed.pieces piece hPiece
  rwa [Table.contains, Option.isSome_eq_false_iff, Option.isNone_iff_eq_none] at hNone

/- Such a line reaches no other text. -/
theorem allPlain : AllPlain table line := by
  have hReached : ∀ t, Reaches table line t → t = line := by
    intro t hReaches
    induction hReaches with
    | self => rfl
    | body _ hName hBody ih =>
      subst ih
      rw [hUnnamed.find?_eq_none hName] at hBody
      cases hBody
  intro t hReaches
  rw [hReached t hReaches]
  constructor
  · intro piece hPiece hGiven
    rw [hUnnamed.pieces piece hPiece] at hGiven
    cases hGiven
  · refine (pairwise_of_forall_mem_list ?_).isChain
    intro piece hPiece _ _ hGiven
    rw [hUnnamed.pieces piece hPiece] at hGiven
    cases hGiven

theorem plainResult_eq :
    plainResult (limit + 1) table line = .ok (Text.concat (Macro.pieces line)) := by
  have hClosed : ∀ piece ∈ Macro.pieces line, openBody? table ∅ piece = none := by
    intro piece hPiece
    rw [Option.eq_none_iff_forall_ne_some]
    intro body hBody
    have hFind := (openBody?_eq_some_iff.1 hBody).2.2
    rw [hUnnamed.find?_eq_none hPiece] at hFind
    cases hFind
  have hDepth : ¬ 0 < expansionDepth table ∅ line := by
    rw [lt_expansionDepth_iff]
    rintro ⟨piece, hPiece, body, hBody, _⟩
    rw [hClosed piece hPiece] at hBody
    cases hBody
  have hText : expansion table ∅ line = Text.concat (Macro.pieces line) := by
    rw [expansion_eq]
    rw [map_congr_left fun piece hPiece => by
      rw [hClosed piece hPiece], map_id']
  rw [plainResult, if_pos, hText]
  omega

end Unnamed

/- A line that names no macro stands for itself. -/
theorem exec_processNested_of_unnamed (depth : Nat) (hUnnamed : Unnamed session.table line) :
    exec (processNested (limit + 1) (depth + 1) line) session =
      (.ok (Text.concat (Macro.pieces line)), session) := by
  rw [processNested, processLineWith, hUnnamed.text]
  rw [exec_expandLine_of_plain _ (processNested (limit + 1) depth)
    session hUnnamed.allPlain, hUnnamed.plainResult_eq]

theorem walks_of_unnamed (limit depth : Nat) (hReading : Reading session (physical lines ++ follow))
    (hUnnamed : ∀ line ∈ lines, Unnamed session.table line.text) :
    Walks (processNested (limit + 1) (depth + 1)) lines.length session
      (.ok (lines.map fun line => Text.concat (Macro.pieces line.text)),
        session.readAll lines) := by
  induction lines generalizing session with
  | nil => exact .done
  | cons line lines ih =>
    rw [physical_cons, append_assoc] at hReading
    have hSame : ∀ name, (session.read line).table.contains name = session.table.contains name :=
      (sameMacros_countLines session.table _).contains
    have hLine := (hUnnamed line mem_cons_self).congr hSame
    have hNeutral : line.Neutral := by
      intro keyword hKeyword
      rw [LogicalLine.keyword?, hLine.text] at hKeyword
      cases hKeyword
    exact .goOn hReading (.inl hNeutral) (exec_processNested_of_unnamed depth hLine)
      (ih hReading.read fun other hOther =>
        (hUnnamed other (mem_cons_of_mem _ hOther)).congr hSame)

-- Inclusion of such lines

def openNamed (name : String) : Run Entry := do
  let path ← ownDirectory name
  let encoding ← textOf encodingName
  enterFile (Text.inner 1 name) path (some encoding)

section

variable {session entered : Session} {name : String} {entry : Entry}

/- A file that is entered while another is open suspends it and gets the predefined macros. -/
theorem table_of_entered (hOpen : session.table.contains readerName = true)
    (hEnter : exec (enterFile name path encoding) session = (.ok entry, entered)) :
    (∃ state, entry.outer = some state ∧ Suspends session state) ∧
      ∃ text, entered.table = addBuiltins session.world name
          (session.table.setText encodingName text) := by
  simp only [enterFile, exec_bind_eq_ok, exec_modify, exec_lift, Prod.mk.injEq] at hEnter
  rcases hEnter with
    ⟨⟨directories, outer⟩, begun, hBegin, _, _, ⟨rfl, rfl⟩,
      full, _, ⟨_, rfl⟩, _, counted, hCount, _, _, ⟨_, rfl⟩,
      reader, _, hReader, _, _, ⟨_, rfl⟩, rfl, rfl⟩
  rcases exec_beginFile_eq_ok hBegin with ⟨hSome, hNone⟩
  have hTable := spares_countReentry full begun
  rw [hCount] at hTable
  rcases exec_openFile_eq_ok hReader with ⟨_, rfl⟩
  cases outer with
  | none =>
    rw [(hNone rfl).1] at hOpen
    cases hOpen
  | some state =>
    rcases hSome state rfl with ⟨hSuspends, rfl⟩
    refine ⟨⟨state, rfl, hSuspends⟩, encoding.getD begun.world.preferredEncoding, ?_⟩
    rw [hTable]

theorem exec_requireRecord (hRecord : session.table.find? key = some .record) :
    exec (requireRecord key) session = (.ok (), session) := by
  simp [requireRecord, exec_bind, hRecord]

/- A file is taken off the trail if the records of the run are there. -/
theorem exec_endFile (path : String) (hTrail : session.table.find? trailName = some .record)
    (hReentries : session.table.find? reentriesName = some .record) :
    (exec (endFile path) session).1 = .ok () := by
  simp only [endFile, exec_bind, exec_requireRecord hTrail, exec_modify]
  rw [exec_requireRecord (by exact hReentries)]

def Suspended.restore (state : Suspended) (table : Table) : Table :=
  ((table.set readerName state.record).set lineName state.line).set fileName state.file

theorem Suspended.find?_restore (state : Suspended) (table : Table)
    (hReader : key ≠ readerName) (hLine : key ≠ lineName) (hFile : key ≠ fileName) :
    (state.restore table).find? key = table.find? key := by
  rw [Suspended.restore, find?_set, if_neg hFile.symm,
    find?_set, if_neg hLine.symm, find?_set, if_neg hReader.symm]

theorem exec_leaveFile_resumed (path : String) (state : Suspended)
    (hTrail : session.table.find? trailName = some .record)
    (hReentries : session.table.find? reentriesName = some .record) :
    ∃ left, exec (leaveFile path (some state)) session = (.ok (), left) ∧
        left.table = state.restore session.table := by
  rw [leaveFile, resume, exec_bind, exec_modify]
  refine ⟨_, Prod.ext (exec_endFile path ?_ ?_) rfl, spares_endFile path _⟩
  · exact (state.find?_restore _ (by decide) (by decide) (by decide)).trans hTrail
  · exact (state.find?_restore _ (by decide) (by decide) (by decide)).trans hReentries

/-
  The inclusion of a file whose lines name no macro gives the text of the lines. The table is the
  one with which the file was opened, apart from the names of the file, which are those of the
  including file again.
-/
theorem exec_includeFile_of_unnamed (depth : Nat)
    (hName : exec (includedName (limit + 1) (processNested (limit + 1) (depth + 1)) operand)
      session = (.ok name, session))
    (hOpen : session.table.contains readerName = true)
    (hReentries : session.table.find? reentriesName = some .record)
    (hEnter : exec (openNamed name) session = (.ok entry, entered))
    (hReading : Reading entered (physical lines))
    (hUnnamed : ∀ line ∈ lines, Unnamed entered.table line.text) :
    ∃ final text, exec (includeFile (limit + 1) (processNested (limit + 1) (depth + 1)) operand)
        session = (.ok (Text.concat (lines.map fun line => Text.concat (Macro.pieces line.text))),
          final) ∧
      entered.table = addBuiltins session.world (Text.inner 1 name)
        (session.table.setText encodingName text) ∧
      (∀ key, key ≠ readerName → key ≠ lineName → key ≠ fileName →
        final.table.find? key = entered.table.find? key) ∧
      final.table.params = entered.table.params ∧ final.table.bodies = entered.table.bodies := by
  rw [openNamed] at hEnter
  simp only [exec_bind_eq_ok] at hEnter
  rcases hEnter with ⟨path, _, hPath, encoding, _, hEncoding, hEnter⟩
  cases exec_ownDirectory_eq_ok hPath
  cases exec_textOf_eq_ok hEncoding
  have hEntered := FileEntered.of_exec hEnter
  rcases table_of_entered hOpen hEnter with ⟨⟨state, hOuter, _⟩, text, hTable⟩
  rw [← append_nil (physical lines)] at hReading
  have hWalks := walks_of_unnamed limit depth hReading hUnnamed
  have hCount : lines.length < entry.count + 2 := by
    rcases hEntered.reader with ⟨reader, hReader, _, hLength⟩
    rcases hReading.reader with ⟨other, hOther, hLines, _⟩
    rw [hReader, Option.some.injEq] at hOther
    subst hOther
    have hPhysical := length_le_physical lines
    rw [← hLength, hLines, append_nil]
    omega
  rcases hWalks.exec_processLines_of_ok hReading.readAll hCount with ⟨last, hLines, hLast⟩
  have hSame : SameMacros last.table entered.table := by
    rw [hLast, Session.table_readAll]
    exact sameMacros_countAll _ _
  have hMask {α : Type} (view : Table → α) : view (maskLine last.table) =
    view (maskLine entered.table) := congrArg view hSame
  have hRecord : ∀ {key}, key ∉ ownNames → key ≠ encodingName →
      isHidden key = true → last.table.find? key = session.table.find? key := by
    intro key hOwn hCode hHidden
    have hLine : key ≠ lineName := by
      rintro rfl
      exact hOwn (by decide)
    rw [hSame.find? hLine, hTable, find?_addBuiltins_of_hidden _ _ _ hOwn hHidden,
      find?_setText, if_neg hCode.symm]
  have hTrail : last.table.find? trailName = some .record := by
    rw [hRecord (by decide) (by decide) (by decide)]
    exact (hEntered.suspended state hOuter).2.1
  have hCounts : last.table.find? reentriesName = some .record := by
    rw [hRecord (by decide) (by decide) (by decide)]
    exact hReentries
  rcases exec_leaveFile_resumed entry.path state hTrail hCounts with ⟨final, hLeave, hFinal⟩
  refine ⟨final, text, ?_, hTable, ?_, ?_, ?_⟩
  · simp only [includeFile_eq, exec_bind, hName, hPath, hEncoding,
      exec_processFile_of_entered hEnter, hLines, hOuter, hLeave]
    rfl
  · intro key hReader hLine hFile
    rw [hFinal, state.find?_restore _ hReader hLine hFile, hSame.find? hLine]
  · rw [hFinal]
    exact hMask params
  · rw [hFinal]
    exact hMask bodies

end

/- Whether a name can be seen in a table and does not tell the time. -/
structure Observed (key : String) : Prop where
  visible : isHidden key = false
  notDate : key ≠ "__DATE__"
  notTime : key ≠ "__TIME__"

theorem Observed.not_mem_ownNames (hObserved : Observed key) (hLine : key ≠ lineName)
    (hFile : key ≠ fileName) : key ∉ ownNames := by
  have hHidden : ∀ other ∈ ownNames, isHidden other = true ∨ other = lineName ∨
      other = fileName ∨ other = "__DATE__" ∨
      other = "__TIME__" := by
    decide
  intro hOwn
  rcases hHidden key hOwn with
    hCase | hCase | hCase | hCase | hCase
  · rw [hObserved.visible] at hCase
    cases hCase
  · exact hLine hCase
  · exact hFile hCase
  · exact hObserved.notDate hCase
  · exact hObserved.notTime hCase

/- Where the encoding is kept does not matter for the predefined macros. -/
theorem predefined_setText (world : World) (table : Table) (text : String) :
    predefined world (table.setText encodingName text) = predefined world table := by
  have hSame : ∀ key, key ≠ encodingName → (table.setText encodingName text).find? key =
      table.find? key := by
    intro key hKey
    rw [find?_setText, if_neg hKey.symm]
  have hNamed : ∀ key, key ≠ encodingName → (addMachine world.platform.machine
      (table.setText encodingName text)).contains key =
          (addMachine world.platform.machine table).contains key := by
    intro key hKey
    rw [Table.contains, Table.contains, find?_addMachine_or, find?_addMachine_or, hSame key hKey]
  have hOperators : operatorMacros (table.setText encodingName text) = operatorMacros table := by
    rw [operatorMacros, operatorMacros, Table.contains, hSame _ (by decide)]
    rfl
  rw [predefined, predefined, hOperators,
    systemMacros_congr _ (hNamed _ (by decide)) (hNamed _ (by decide))]

/-
  The inclusion of a file whose lines name no macro. It gives the text of the file, and every name
  that can be seen has its old meaning, except that the predefined macros have their predefined one
  again. So the macros are as before if and only if none of these was undefined or redefined.
-/
theorem include_resets_predefined
    {session entered : Session}
    {limit depth : Nat}
    {line name : String}
    {directive : Directive}
    {entry : Entry}
    {lines : List LogicalLine}
    (hLine : Directive.ofLine? line = some directive)
    (hKeyword : directive.keyword = some .includeFile)
    (hName :
      exec
          (includedName (limit + 1) (processNested (limit + 1) (depth + 1))
            directive.operandText)
          session =
        (.ok name, session))
    (hOpen : session.table.contains readerName = true)
    (hReentries :
      session.table.find? reentriesName = some .record)
    (hEnter :
      exec (openNamed name) session = (.ok entry, entered))
    (hReading : Reading entered (physical lines))
    (hUnnamed :
      ∀ line ∈ lines, Unnamed entered.table line.text) :
    ∃ final,
      exec (processNested (limit + 1) (depth + 2) line) session =
          (.ok
            (Text.concat
              (lines.map fun line =>
                Text.concat (Macro.pieces line.text))),
            final) ∧
        (∀ key,
          Observed key →
            final.table.find? key =
              if key = lineName ∨ key = fileName then
                session.table.find? key
              else
                (lookup (predefined session.world session.table)
                  key).or
                  (session.table.find? key)) ∧
        (session.table.contains Macro.paramsName = true →
          session.table.contains Macro.quoteName = true →
            final.table.params = session.table.params ∧
              final.table.bodies = session.table.bodies) ∧
        ((∀ key,
            Observed key →
              final.table.find? key =
                session.table.find? key) ↔
          ∀ entry ∈ predefined session.world session.table,
            session.table.find? entry.1 = some entry.2) := by
  rcases exec_includeFile_of_unnamed depth hName hOpen hReentries hEnter hReading hUnnamed with
    ⟨final, text, hExec, hTable, hFind, hParams, hBodies⟩
  rw [hTable] at hFind hParams hBodies
  have hRestored := restored_of_includeFile (stepGoes_processNested (depth + 1)) hName hOpen hExec
  have hMeaning : ∀ key, Observed key → final.table.find? key =
            if key = lineName ∨ key = fileName then
              session.table.find? key
            else
              (lookup (predefined session.world session.table) key).or
                (session.table.find? key) := by
    intro key hObserved
    by_cases hLineKey : key = lineName
    · rw [if_pos (.inl hLineKey), hLineKey]
      exact hRestored.line
    by_cases hFileKey : key = fileName
    · rw [if_pos (.inr hFileKey), hFileKey]
      exact hRestored.file
    have hOwn := hObserved.not_mem_ownNames hLineKey hFileKey
    have hReader : key ≠ readerName := by
      rintro rfl
      exact hOwn (by decide)
    have hCode : encodingName ≠ key := by
      rintro rfl
      exact absurd hObserved.visible (by decide)
    rw [if_neg (not_or.mpr ⟨hLineKey, hFileKey⟩), hFind key hReader hLineKey hFileKey,
      find?_addBuiltins _ _ _ hOwn, predefined_setText, find?_setText, if_neg hCode]
  refine ⟨final, ?_, hMeaning, ?_, ?_, ?_⟩
  · rw [processNested, processLineWith, hLine]
    simp only [processDirective, hKeyword]
    exact hExec
  · intro hGiven hQuote
    have hKept : ∀ key, key ≠ encodingName →
            (session.table.setText encodingName text).contains key =
              session.table.contains key := by
      intro key hKey
      rw [Table.contains, find?_setText, if_neg hKey.symm]
      rfl
    rcases addBuiltins_functions session.world (Text.inner 1 name)
        (session.table.setText encodingName text)
        ((hKept _ (by decide)).trans hGiven)
        ((hKept _ (by decide)).trans hQuote) with
      ⟨hSameParams, hSameBodies⟩
    exact ⟨hParams.trans hSameParams, hBodies.trans hSameBodies⟩
  · intro hSame entry hEntry
    rcases visible_predefined _ _ entry hEntry with
      ⟨hVisible, hOthers⟩
    simp only [List.mem_cons, List.not_mem_nil, or_false, not_or] at hOthers
    rcases hOthers with ⟨hDate, hTime, hNotLine, hNotFile⟩
    have hObserved : Observed entry.1 := ⟨hVisible, hDate, hTime⟩
    have hLookup := Macro.lookup_of_mem (nodup_predefined _ _) hEntry
    rw [← hSame _ hObserved, hMeaning _ hObserved,
      if_neg (not_or.mpr ⟨hNotLine, hNotFile⟩), hLookup]
    rfl
  · intro hGiven key hObserved
    rw [hMeaning key hObserved]
    split_ifs with hOwn
    · rfl
    cases hLookup : lookup (predefined session.world session.table) key with
    | none => rfl
    | some meaning =>
        rw [hGiven _ (Macro.mem_of_lookup hLookup)]
        rfl

def plainLine : LogicalLine := singleLine "x\n" (by cbv)

def plainReader : Reader := { path := some "/d/e.h", lines := physical [plainLine] }

def undefinedSession : Session :=
  { world := { tree := { files := [(["d", "e.h"], asciiBytes "x\n")] } },
    table := { names := [(readerName, .record), (lineName, .text "2"),
        (fileName, .text "\"main.h\""), (trailName, .record), (reentriesName, .record),
        (searchPathName, .record), (encodingName, .text "UTF-8")] },
    reader := some { path := some "/d/main.h", lines := [] },
    trail := ["/d/main.h"] }

/- After the inclusion the name is defined. -/
theorem include_resets_predefined_unix :
    undefinedSession.table.find? "__unix__" = none ∧
      ∃ final,
        exec (processNested 1 2 "#include \"e.h\"\n")
            undefinedSession =
          (.ok "x\n", final) ∧
          final.table.find? "__unix__" = some (.text "") := by
  have hLine : Directive.ofLine? "#include \"e.h\"\n" =
        some ⟨some .includeFile, " \"e.h\"\n".toList, "\"e.h\"\n".toList⟩ := by
    decide
  have hName : exec (includedName 1 (processNested 1 1) "\"e.h\"\n") undefinedSession =
        (.ok "\"e.h\"", undefinedSession) :=
    exec_includedName_quoted _ (by decide)
  have hSome : (exec (openNamed "\"e.h\"") undefinedSession).1.toOption.isSome = true := by
    decide +kernel
  rcases Option.isSome_iff_exists.mp hSome with
    ⟨entry, hEntry⟩
  have hEnter := exec_eq_of_toOption hEntry
  have hReading : Reading (exec (openNamed "\"e.h\"") undefinedSession).2
        (physical [plainLine]) := by
    refine ⟨⟨plainReader, ?_, rfl, rfl, rfl⟩, ?_, 0, ?_, by decide⟩
    · decide +kernel
    · decide +kernel
    · decide +kernel
  have hUnnamed : ∀ line ∈ [plainLine], Unnamed (exec (openNamed "\"e.h\"")
            undefinedSession).2.table line.text := by
    intro line hMem
    rw [List.mem_singleton.mp hMem]
    refine ⟨by decide, ?_⟩
    decide +kernel
  have hText : Text.concat ([plainLine].map fun line =>
            Text.concat (Macro.pieces line.text)) =
        "x\n" := by
    decide +kernel
  rcases include_resets_predefined hLine rfl hName (by decide)
      (by decide) hEnter hReading hUnnamed with
    ⟨final, hExec, hMeaning, _, _⟩
  rw [hText] at hExec
  refine ⟨by decide, final, hExec, ?_⟩
  rw [hMeaning "__unix__" ⟨by decide, by decide, by decide⟩]
  decide +kernel

end Source

end CHeader
