import CHeader.Proofs.Source.Course

/-
  Sessions that are used for a second file.

  Processing a file leaves records in the session. A further file is looked for in the working
  directory and starts the records anew only if no open file is on record. A file that cannot be
  entered leaves none on record; every other one stays there, whether it is processed to its end or
  fails, unless a line takes its record out.

  Main declarations:
    * `Source.Session.forget`
    * `Source.Session.Alike`
    * `Source.preprocess_again`
-/

namespace CHeader

open Relation (ReflTransGen)

-- Tables with the same names

namespace Macro

/- Whether two tables have the same names in any order, with
  the same meanings, parameters and bodies. -/
structure Table.Same (first second : Table) : Prop where
  find? : ∀ name, first.find? name = second.find? name
  params : first.params = second.params
  bodies : first.bodies = second.bodies

namespace Table.Same

variable {first second : Table}

variable (hSame : first.Same second)
include hSame

theorem contains (name : String) : first.contains name = second.contains name := by
  rw [Table.contains, Table.contains, hSame.find?]

theorem set (name : String) (meaning : Meaning) :
    (first.set name meaning).Same (second.set name meaning) := by
  refine ⟨?_, hSame.params, hSame.bodies⟩
  intro key
  rw [find?_set, find?_set, hSame.find?]

theorem setParams (name : String) (params : Params) :
    (first.setParams name params).Same (second.setParams name params) := by
  refine ⟨hSame.find?, ?_, hSame.bodies⟩
  rw [Table.setParams, Table.setParams, hSame.params]

theorem setBody (name : String) (body : Body) :
    (first.setBody name body).Same (second.setBody name body) := by
  refine ⟨hSame.find?, hSame.params, ?_⟩
  rw [Table.setBody, Table.setBody, hSame.bodies]

theorem openRecords : first.openRecords.Same second.openRecords := by
  unfold Table.openRecords
  rw [hSame.contains]
  split_ifs
  · exact hSame
  · have hRecords := (hSame.set bodiesName .record).set paramsName .record
    exact ⟨hRecords.find?, rfl, rfl⟩

end Table.Same

theorem contains_define (line : String) (table : Table) (hKey : table.contains key = true) :
    (define line table).1.contains key = true := by
  have hSet : ∀ (other : Table) (name : String) (meaning : Meaning), other.contains key = true →
      (other.set name meaning).contains key = true := by
    intro other name meaning hOther
    rw [Table.contains, Table.find?_set]
    by_cases hName : name = key
    · rw [if_pos hName]
      rfl
    · rw [if_neg hName]
      exact hOther
  have hOpen : ∀ other : Table, other.contains key = true →
      other.openRecords.contains key = true := by
    intro other hOther
    unfold Table.openRecords
    split_ifs
    · exact hOther
    · exact hSet _ _ _ (hSet _ _ _ hOther)
  cases hReads : Definition.ofText? (Source.Directive.operandOf line) with
  | none =>
    unfold define
    rwa [hReads]
  | some definition =>
    rw [Table.contains, find?_define_eq table hReads, Definition.named]
    split
    · exact hSet _ _ _ hKey
    · exact hOpen _ (hSet table definition.name .function hKey)

end Macro

namespace Source

open Session

open Macro (Table)

variable {session : Session}
variable {name : String} {first last : Moment}

section

variable {first second : Table}

theorem same_addOperators (hSame : first.Same second) :
    (addOperators first).Same (addOperators second) := by
  unfold addOperators
  rw [hSame.contains]
  split_ifs
  · exact hSame
  · have hNames := ((hSame.set Macro.quoteName .function).set
        Macro.joinName .function).set "_Pragma" .function
    exact (((((hNames.setParams _ _).setParams _ _).setParams
      _ _).setBody _ _).setBody _ _).setBody _ _

theorem same_addMachine (machine : String) (hSame : first.Same second) :
    (addMachine machine first).Same (addMachine machine second) := by
  unfold addMachine
  split_ifs
  · exact hSame.set _ _
  · exact hSame.set _ _
  · exact hSame.set _ _
  · exact hSame.set _ _
  · exact hSame

theorem same_addSystem (platform : Platform) (hSame : first.Same second) :
    (addSystem platform first).Same (addSystem platform second) := by
  have hMac : (((first.setText "__MACH__" "").setText "__APPLE__"
      "").setText "TARGET_OS_MAC" "1").Same
        (((second.setText "__MACH__" "").setText "__APPLE__" "").setText "TARGET_OS_MAC" "1") :=
    ((hSame.set _ _).set _ _).set _ _
  unfold addSystem
  dsimp only
  rw [hMac.contains, hMac.contains]
  split_ifs
  · exact (hSame.set _ _).set _ _
  · exact hSame.set _ _
  · exact hMac.set _ _
  · exact hMac.set _ _
  · exact hMac
  · exact hSame.set _ _

theorem same_addBuiltins (world : World) (name : String) (hSame : first.Same second) :
    (addBuiltins world name first).Same (addBuiltins world name second) := by
  refine same_addSystem _ (same_addMachine _ (same_addOperators (Macro.Table.Same.openRecords ?_)))
  exact (((((((hSame.set _ _).set _ _).set _ _).set _ _).set _ _).set _ _).set _ _).set _ _

end

-- Sessions without the records of a call

/- A session with its macros, but without the records of the open file, of the trail and of the
  files that are open again. -/
def Session.forget (session : Session) : Session :=
  { session with
    table := ((session.table.erase readerName).erase trailName).erase reentriesName,
    reader := none,
    trail := [],
    reentries := [] }

/- Whether sessions are the same up to the order of names in their tables and the open file. -/
structure Session.Alike (first second : Session) : Prop where
  world : first.world = second.world
  table : first.table.Same second.table
  trail : first.trail = second.trail
  reentries : first.reentries = second.reentries
  searchPath : first.searchPath = second.searchPath
  log : first.log = second.log

/- Whether a step has the same result in two sessions and, if
  it does not fail, leaves them in a relation. -/
def SameOutcome {α : Type} (post : Session → Session → Prop) (run : Run α)
    (first second : Session) : Prop :=
  (exec run first).1 = (exec run second).1 ∧ ∀ a, (exec run first).1 = .ok a →
      post (exec run first).2 (exec run second).2

section

variable {first second : Session}

variable {post : Session → Session → Prop}
variable {α : Type}

theorem SameOutcome.bind (hRun : SameOutcome Session.Alike run first second)
    (hRest : ∀ a next other, Session.Alike next other → SameOutcome post (rest a) next other) :
    SameOutcome post (run >>= rest) first second := by
  unfold SameOutcome at hRun ⊢
  rw [exec_bind, exec_bind]
  generalize exec run first = outcome at hRun ⊢
  generalize exec run second = another at hRun ⊢
  rcases hRun with ⟨hResult, hAlike⟩
  rcases outcome with ⟨fault | a, next⟩
  · rcases another with ⟨other | b, last⟩
    · exact ⟨congrArg Except.error (Except.error.inj hResult), nofun⟩
    · cases hResult
  · rcases another with ⟨other | b, last⟩
    · cases hResult
    · cases hResult
      exact hRest a next last (hAlike a rfl)

/- A step may depend on a part of the session that is the same. -/
theorem SameOutcome.of_get (hSame : rest first = rest second)
    (hRest : SameOutcome post (rest second) first second) :
    SameOutcome post (get >>= rest) first second := by
  unfold SameOutcome at hRest ⊢
  rw [exec_bind, exec_bind, exec_get, exec_get]
  dsimp only
  rw [hSame]
  exact hRest

theorem SameOutcome.of_modify (hPost : post (f first) (f second)) :
    SameOutcome post (modify f) first second :=
  ⟨rfl, fun _ _ => hPost⟩

section

variable (hAlike : first.Alike second)
include hAlike

theorem sameOutcome_lift (result : Except Fault α) :
    SameOutcome Session.Alike (lift result) first second := by
  unfold SameOutcome
  rw [exec_lift, exec_lift]
  exact ⟨rfl, fun _ _ => hAlike⟩

theorem sameOutcome_requireRecord (name : String) :
    SameOutcome Session.Alike (requireRecord name) first second := by
  unfold SameOutcome
  rw [requireRecord, exec_bind, exec_bind, exec_getTable, exec_getTable]
  dsimp only
  rw [hAlike.table.find?]
  rcases second.table.find? name with _ | _ | _ | _
  all_goals exact ⟨rfl, fun _ _ => hAlike⟩

theorem sameOutcome_countReentry (path : String) :
    SameOutcome Session.Alike (countReentry path) first second := by
  refine (sameOutcome_requireRecord hAlike _).bind ?_
  intro _ next other hAlike
  refine .of_get (by rw [hAlike.trail]) ?_
  split_ifs
  · refine (sameOutcome_requireRecord hAlike _).bind ?_
    intro _ next other hAlike
    refine .of_get (by rw [hAlike.reentries]) ?_
    refine SameOutcome.bind (.of_modify ?_) ?_
    · exact ⟨hAlike.world, hAlike.table, hAlike.trail,
        by rw [hAlike.reentries], hAlike.searchPath, hAlike.log⟩
    intro _ next other hAlike
    split_ifs
    · exact ⟨rfl, by rintro _ ⟨⟩⟩
    · exact ⟨rfl, fun _ _ => hAlike⟩
  · exact ⟨rfl, fun _ _ => hAlike⟩

theorem sameOutcome_openFile (path encoding : String) :
    SameOutcome Session.Alike (openFile path encoding) first second := by
  refine .of_get (by rw [hAlike.world]) ?_
  repeat' split
  all_goals exact ⟨rfl, fun _ _ => hAlike⟩

end

end

-- The start of a call

/- A session whose records start anew. -/
def Session.startAnew (session : Session) (path : List String) : Session :=
  { session with
    table := ((session.table.set trailName .record).set
        reentriesName .record).set searchPathName .record,
    trail := [],
    reentries := [],
    searchPath := path }

theorem exec_beginFile_of_closed (hClosed : session.table.contains readerName = false)
    (path : List String) : exec (beginFile path) session = match session.further with
      | .error fault => (.error fault, session)
      | .ok more =>
        (.ok ("." :: (path ++ more), none), session.startAnew (path ++ more)) := by
  rw [beginFile, exec_bind, exec_furtherPath]
  cases session.further with
  | error fault => rfl
  | ok more =>
    simp only [exec_bind, exec_getTable, hClosed]
    rfl

section

variable (session : Session)

theorem contains_forget_readerName : session.forget.table.contains readerName = false := by
  rw [Table.contains, forget, Table.find?_erase, if_neg (by decide), Table.find?_erase,
    if_neg (by decide), Table.find?_erase, if_pos rfl]
  rfl

theorem further_forget : session.forget.further = session.further := by
  rw [further, forget, Table.find?_erase, if_neg (by decide), Table.find?_erase,
    if_neg (by decide), Table.find?_erase, if_neg (by decide)]
  rfl

theorem further_eq_error_iff : (∃ fault, session.further = .error fault) ↔
    session.table.find? searchPathName = some .function ∨
      session.table.find? searchPathName = none ∧
        ∃ fault, settingPath session.world = .error fault := by
  rw [further]
  split <;> simp_all

end

/- A session with no file on record starts anew like the one without any records. -/
theorem alike_startAnew (hClosed : session.table.contains readerName = false) (path : List String) :
    (session.startAnew path).Alike (session.forget.startAnew path) := by
  refine ⟨rfl, ⟨?_, rfl, rfl⟩, rfl, rfl, rfl, rfl⟩
  intro name
  rw [Table.contains, Option.isSome_eq_false_iff, Option.isNone_iff_eq_none] at hClosed
  simp only [startAnew, forget, Table.find?_set, Table.find?_erase]
  split_ifs with _ _ _ hReader
  all_goals first
    | rfl
    | exact hReader ▸ hClosed

/-
  A call starts as it would without records of earlier calls if and only if no file is on record. A
  search path that cannot be read makes every call fail in the same way.
-/
theorem same_start_iff (session : Session) (path : List String) :
    (exec (beginFile path) session).1 = (exec (beginFile path) session.forget).1 ↔
      session.table.contains readerName = false ∨ ∃ fault, session.further = .error fault := by
  rw [exec_beginFile_of_closed (contains_forget_readerName session), further_forget]
  constructor
  · intro hSame
    cases hFurther : session.further with
    | error fault =>
      exact .inr ⟨fault, rfl⟩
    | ok more =>
      left
      rw [hFurther] at hSame
      have hExec : exec (beginFile path) session = (.ok ("." :: (path ++ more), none),
          (exec (beginFile path) session).2) :=
        Prod.ext hSame rfl
      exact ((exec_beginFile_eq_ok hExec).2 rfl).1
  · rintro (hClosed | ⟨fault, hFurther⟩)
    · rw [exec_beginFile_of_closed hClosed]
      cases session.further <;> rfl
    · rw [beginFile, exec_bind, exec_furtherPath, hFurther]

/- With no file on record the records start anew in the same way as without any. -/
theorem sameOutcome_beginFile (hClosed : session.table.contains readerName = false)
    (path : List String) : SameOutcome Session.Alike (beginFile path) session session.forget := by
  unfold SameOutcome
  rw [exec_beginFile_of_closed hClosed, exec_beginFile_of_closed
      (contains_forget_readerName session), further_forget]
  cases session.further with
  | error fault => exact ⟨rfl, nofun⟩
  | ok more =>
    exact ⟨rfl, fun _ _ => alike_startAnew hClosed _⟩

/-
  With no file on record a file is entered as it would be without any records: either both attempts
  fail in the same way, or the same file is open afterwards in sessions that are alike.
-/
theorem same_entry_of_closed (hClosed : session.table.contains readerName = false)
    (name : String) (path : List String) (encoding : Option String) :
    SameOutcome (fun first second => first.Alike second ∧ first.reader = second.reader)
      (enterFile name path encoding) session session.forget := by
  refine (sameOutcome_beginFile hClosed path).bind ?_
  rintro ⟨directories, outer⟩ first second hAlike
  refine .of_get (by rw [hAlike.world]) ?_
  refine (sameOutcome_lift hAlike _).bind ?_
  intro full first second hAlike
  refine (sameOutcome_countReentry hAlike full).bind ?_
  intro _ first second hAlike
  refine SameOutcome.bind (.of_modify ?_) ?_
  · exact ⟨hAlike.world, hAlike.table.set _ _, by rw [hAlike.trail], hAlike.reentries,
      hAlike.searchPath, hAlike.log⟩
  intro _ first second hAlike
  refine (sameOutcome_openFile hAlike _ _).bind ?_
  intro reader first second hAlike
  refine ⟨rfl, fun _ _ => ⟨?_, rfl⟩⟩
  exact ⟨hAlike.world, same_addBuiltins _ _ hAlike.table,
    hAlike.trail, hAlike.reentries, hAlike.searchPath, hAlike.log⟩

-- The record of the open file

/- What is on record for the open file. -/
def Session.onRecord (session : Session) : Option Macro.Meaning := session.table.find? readerName

section

variable {session next : Session}

theorem spares_requireRecord (name : String) : Spares part (requireRecord name) := by
  refine Spares.getTable.bind ?_
  intro table
  split
  · exact .pure ()
  · exact .throw _
  · exact .throw _

theorem spares_meaningOf (name : String) : Spares part (meaningOf name) := by
  refine Spares.getTable.bind ?_
  intro table
  split
  · exact .pure _
  · exact .throw _

theorem spares_countReentry (path : String) : Spares Session.table (countReentry path) := by
  refine (spares_requireRecord _).bind fun _ => ?_
  refine Spares.get.bind fun _ => ?_
  split_ifs
  · refine (spares_requireRecord _).bind fun _ => ?_
    refine Spares.get.bind fun _ => ?_
    refine Spares.bind (.modify fun _ => rfl) fun _ => ?_
    split_ifs
    · exact Spares.bind (.modify fun _ => rfl) fun _ => .throw _
    · exact .pure ()
  · exact .pure ()

theorem spares_openFile (path encoding : String) : Spares part (openFile path encoding) := by
  refine Spares.get.bind fun _ => ?_
  repeat' split
  all_goals first
    | exact .pure _
    | exact .throw _

theorem spares_endFile (path : String) : Spares Session.table (endFile path) := by
  refine (spares_requireRecord _).bind fun _ => ?_
  refine Spares.bind (.modify fun _ => rfl) fun _ => ?_
  refine (spares_requireRecord _).bind fun _ => ?_
  exact .modify fun _ => rfl

/- The search for a file leaves the record of the open file alone. -/
theorem spares_beginFile (path : List String) : Spares onRecord (beginFile path) := by
  have hFurther : Spares onRecord furtherPath := by
    intro session
    rw [exec_furtherPath]
  refine hFurther.bind fun _ => ?_
  refine Spares.getTable.bind fun _ => ?_
  split_ifs
  · refine (spares_meaningOf _).bind fun _ => ?_
    refine (spares_meaningOf _).bind fun _ => ?_
    refine (spares_meaningOf _).bind fun _ => ?_
    exact Spares.get.bind fun _ => .pure _
  · refine (Spares.modify fun session => ?_).bind fun _ => .pure _
    simp [onRecord, Table.find?_set, searchPathName, reentriesName, trailName, readerName]

/- A file that is not entered leaves the record of the open file alone: only the last step of
  entering puts it on record, and that step does not fail. -/
theorem onRecord_of_refused
    (hEnter : exec (enterFile name path encoding) session = (.error fault, next)) :
    next.onRecord = session.onRecord := by
  refine (spares_beginFile path).bind_of_error ?_ hEnter
  rintro ⟨directories, outer⟩ _ _ _ hExec
  refine Spares.get.bind_of_error ?_ hExec
  intro begun _ _ _ hExec
  refine (Spares.lift _).bind_of_error ?_ hExec
  intro full _ _ _ hExec
  have hCount : Spares onRecord (countReentry full) :=
    (spares_countReentry full).of_table (·.find? readerName)
  refine hCount.bind_of_error ?_ hExec
  intro _ _ _ _ hExec
  refine Spares.bind_of_error (.modify fun session => ?_) ?_ hExec
  · rw [onRecord, find?_setText, if_neg (by decide)]
    rfl
  intro _ _ _ _ hExec
  refine (spares_openFile full _).bind_of_error ?_ hExec
  intro reader _ _ _ hExec
  cases hExec

theorem contains_leaveFile (path : String) (outer : Option Suspended)
    (hRecord : session.table.contains readerName = true) :
    (exec (leaveFile path outer) session).2.table.contains readerName = true := by
  cases outer with
  | none =>
    rw [leaveFile, closeReader, exec_bind, exec_modify]
    rw [spares_endFile]
    exact hRecord
  | some state =>
    rw [leaveFile, resume, exec_bind, exec_modify]
    rw [spares_endFile, Table.contains, Table.find?_set, if_neg (by decide), Table.find?_set,
      if_neg (by decide), Table.find?_set, if_pos rfl]
    rfl

end

/- Whether a line takes out the record of the open file. -/
def erasesRecord (line : String) : Bool :=
  match Directive.ofLine? line with
  | some directive =>
      directive.keyword = some .undefine && directive.argument = readerName
  | none => false

/- Whether a file is on record, provided that no line so far took it out. -/
def Moment.Recorded (moment : Moment) : Prop :=
  (∀ line ∈ moment.heard, erasesRecord line = false) →
    moment.session.table.contains readerName = true

theorem Advance.recorded (hMove : Advance first last) (hFirst : first.Recorded) :
    last.Recorded := by
  intro hHeard
  cases hMove with
  | @reads session next heard frame files line hRead =>
    have hRecord := hFirst fun other hMem => hHeard other (List.mem_cons_of_mem line hMem)
    rcases (LineRead.of_exec hRead).counted with ⟨_, _, _, _, _, _, hTable⟩
    rw [Table.contains, hTable, find?_setText, if_neg (by decide)]
    exact hRecord
  | runsOut hRead =>
    rw [(LineMissed.of_exec hRead).1.table]
    exact hFirst hHeard
  | defines _ _ _ =>
    exact Macro.contains_define _ _ (hFirst hHeard)
  | @undefines session _ _ _ directive hMem hLine hKeyword =>
    have hOther := hHeard _ hMem
    simp only [erasesRecord, hLine, hKeyword, decide_true,
      Bool.true_and, decide_eq_false_iff_not] at hOther
    rw [Table.contains, Table.find?_erase, if_neg hOther]
    exact hFirst hHeard
  | @renumbers _ session _ _ _ _ _ _ name _ _ _ n =>
    have hSame : (renumbered n name session.table).find? readerName =
        session.table.find? readerName := by
      rw [renumbered]
      cases name.isEmpty <;>
        simp [find?_setText, readerName, lineName, fileName]
    rw [Table.contains, hSame]
    exact hFirst hHeard
  | reports level message => exact hFirst hHeard
  | enters hEnter =>
    rw [Table.contains, (FileEntered.of_exec hEnter).record]
    rfl
  | refuses hEnter =>
    have hSame := onRecord_of_refused hEnter
    rw [onRecord, onRecord] at hSame
    rw [Table.contains, hSame]
    exact hFirst hHeard
  | @leaves session _ _ frame _ hLeave | @fails session _ _ frame _ _ hLeave =>
    have hLeft := contains_leaveFile frame.path frame.outer (hFirst hHeard)
    rw [hLeave] at hLeft
    exact hLeft
  | closes => exact hFirst hHeard

theorem recorded_of_moves (hFirst : first.Recorded) (hMoves : ReflTransGen Advance first last) :
    last.Recorded := by
  induction hMoves with
  | refl => exact hFirst
  | tail _ hMove ih => exact hMove.recorded ih

section

variable {session entered : Session} {step : LineStep} {name : String} {path : List String}
variable {encoding : Option String} {entry : Entry}

/- A file that was entered stays on record, unless a line that was read takes it out. -/
theorem recorded_of_entered (hStep : StepGoes step)
    (hEnter : exec (enterFile name path encoding) session = (.ok entry, entered)) :
    ∃ last, ReflTransGen Advance ⟨entered, [], [⟨entry.path, entry.outer, 0, 0, true⟩]⟩ last ∧
        last.session = (exec (processFile step name path encoding) session).2 ∧ last.Recorded := by
  have hEntered := FileEntered.of_exec hEnter
  have hFirst : Moment.Recorded ⟨entered, [], [⟨entry.path, entry.outer, 0, 0, true⟩]⟩ := by
    intro _
    rw [Table.contains, hEntered.record]
    rfl
  have hMoment : exec (enterFile name path encoding) (Moment.mk session [] []).session =
      (.ok entry, entered) := hEnter
  rcases exists_course_of_entered hStep hMoment with ⟨last, hMoves, hSession, _⟩
  exact ⟨last, hMoves, hSession, recorded_of_moves hFirst hMoves⟩

theorem contains_of_processFile (hStep : StepGoes step)
    (hResult : (exec (processFile step name path encoding) session).1 = .ok pieces) :
    (exec (processFile step name path encoding) session).2.table.contains readerName = true := by
  obtain ⟨entry, entered, last, hEnter, hLines, hLeave⟩ :=
    exec_processFile_eq_ok.1 (Prod.ext hResult rfl)
  have hCan := (lines_of_entered hStep (FileEntered.of_exec hEnter) hLines).2
  have hLeft := @contains_leaveFile last entry.path entry.outer (by
    rw [Table.contains, hCan.record]
    rfl)
  rw [hLeave] at hLeft
  exact hLeft

end

/-
  When a session can be used for a second file. After a file was processed from a session with none
  on record, a second call searches the directories and resumes the state that it would without the
  records of the first if and only if no file is on record or the search path cannot be read. With
  no file on record it also enters its file in the same way. None is on record if the first file
  could not be entered. A file that was entered stays on record, however the call ends, unless a
  line takes its record out, and the call that gives a text is not one of these.
-/
theorem preprocess_again
    {limit : Nat}
    {session after : Session}
    {name : String}
    {path : List String}
    {encoding : Option String}
    {result : Except Fault (List String)}
    (hTop : session.table.contains readerName = false)
    (hRun :
      exec (preprocess limit name path encoding) session =
        (result, after)) :
    (∀ again,
      (exec (beginFile again) after).1 =
          (exec (beginFile again) after.forget).1 ↔
        after.table.contains readerName = false ∨
          after.table.find? searchPathName =
              some .function ∨
            after.table.find? searchPathName = none ∧
              ∃ fault,
                settingPath after.world = .error fault) ∧
      (after.table.contains readerName = false →
        ∀ other again code,
          SameOutcome
            (fun first second =>
              first.Alike second ∧
                first.reader = second.reader)
            (enterFile other again code) after
            after.forget) ∧
      (∀ fault next,
        exec (enterFile name path encoding) session =
            (.error fault, next) →
          after.table.contains readerName = false) ∧
      (∀ entry entered,
        exec (enterFile name path encoding) session =
            (.ok entry, entered) →
          ∃ last,
            ReflTransGen Advance
                ⟨entered, [],
                  [⟨entry.path, entry.outer, 0, 0, true⟩]⟩
                last ∧
              last.session = after ∧
              (after.table.contains readerName = false →
                ∃ line ∈ last.heard,
                  erasesRecord line = true)) ∧
      ∀ pieces,
        result = .ok pieces →
          after.table.contains readerName = true := by
  have hStep : StepGoes (processLine limit) := stepGoes_processNested limit
  rw [preprocess] at hRun
  refine ⟨?_, ?_, ?_, ?_, ?_⟩
  · rw [← further_eq_error_iff]
    exact same_start_iff after
  · intro hClosed other again code
    exact same_entry_of_closed hClosed other again code
  · intro fault next hEnter
    rw [exec_processFile_of_refused hEnter] at hRun
    cases hRun
    have hSame := onRecord_of_refused hEnter
    rw [Session.onRecord, Session.onRecord] at hSame
    rw [Table.contains, hSame]
    exact hTop
  · intro entry entered hEnter
    rcases recorded_of_entered hStep hEnter with
      ⟨last, hMoves, hSession, hRecorded⟩
    rw [hRun] at hSession
    refine ⟨last, hMoves, hSession, ?_⟩
    intro hClosed
    by_contra hNone
    push Not at hNone
    have hRecord := hRecorded fun line hMem =>
        Bool.eq_false_iff.mpr (hNone line hMem)
    rw [hSession, hClosed] at hRecord
    cases hRecord
  · intro pieces hResult
    have hProcessed : (exec (processFile (processLine limit) name path encoding)
          session).1 = .ok pieces := by
      rw [hRun, hResult]
    have hRecord := contains_of_processFile hStep hProcessed
    rw [hRun] at hRecord
    exact hRecord

/- A session in whose working directory there is a file with one definition. -/
def oneLineSession : Session :=
  { world := { tree := { files := [(["main.h"], asciiBytes "#define X 1\n")] } } }

/- The file is found once, but not a second time. -/
theorem preprocess_again_lost :
    (exec (preprocess 1 "main.h" [] none)
        oneLineSession).1.toOption = some [""] ∧
      (exec (preprocess 1 "main.h" [] none)
        (exec (preprocess 1 "main.h" [] none)
          oneLineSession).2).1.toOption = none ∧
      (exec (beginFile [])
          (exec (preprocess 1 "main.h" [] none)
            oneLineSession).2).1 ≠
        (exec (beginFile [])
          (exec (preprocess 1 "main.h" [] none)
            oneLineSession).2.forget).1 := by
  have hText : (exec (preprocess 1 "main.h" [] none) oneLineSession).1.toOption = some [""] := by
    decide +kernel
  have hTop : oneLineSession.table.contains readerName = false := by
    decide
  have hPath : (exec (preprocess 1 "main.h" [] none)
      oneLineSession).2.table.find? searchPathName = some .record := by
    decide +kernel
  have hRun := exec_eq_of_toOption hText
  rcases preprocess_again hTop hRun with
    ⟨hStart, _, _, _, hRecord⟩
  refine ⟨hText, by decide +kernel, ?_⟩
  intro hSame
  rcases (hStart []).mp hSame with hClosed | hFunction | ⟨hNone, _⟩
  · rw [hRecord _ rfl] at hClosed
    cases hClosed
  · rw [hPath] at hFunction
    cases hFunction
  · rw [hPath] at hNone
    cases hNone

end Source

end CHeader
