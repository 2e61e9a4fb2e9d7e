import CHeader.Proofs.Source.Moment
import CHeader.Proofs.Source.Processing

/-
  The course of a run over source files.

  Whatever a run does, it does by the moves from moment to moment: the expansion of a line, the
  choice of a group and the processing of a file read lines and change the session in no other way.
  This is shown for every part of the processing, from the single line to the file.

  Main declarations:
    * `Source.Course`
    * `Source.Proceeds`
    * `Source.goes_expandLine`
-/

namespace CHeader

open List

namespace Source

open Relation (ReflTransGen)

variable {step : LineStep} {name : String}

-- Courses inside a file

/- What stays while a file is read: its path, the state it returns to and the files around it. -/
structure Place where
  path : String
  outer : Option Suspended
  files : List Frame

/- Whether the file of a place is read at a moment. -/
def Moment.At (moment : Moment) (place : Place) : Prop :=
  ∃ base taken live, moment.files = ⟨place.path, place.outer, base, taken, live⟩ :: place.files

/-
  A course of a part of a run inside a file: it ends with the session that the part leaves. If the
  part has a result the same file is being read.
-/
structure Course {α : Type} (place : Place) (run : Run α) (post : α → Moment → Prop)
    (first last : Moment) : Prop where
  moves : ReflTransGen Advance first last
  session : last.session = (exec run first.session).2
  heard : first.heard ⊆ last.heard
  ends : ∀ a, (exec run first.session).1 = .ok a →
      last.At place ∧ first.session.Keeps last.session ∧ post a last

def Proceeds {α : Type} (place : Place) (run : Run α) (first : Moment)
    (post : α → Moment → Prop) : Prop :=
  ∃ last, Course place run post first last

/- Whether a part of a run has a course, whatever its result. -/
abbrev Goes {α : Type} (place : Place) (run : Run α) (first : Moment) : Prop :=
  Proceeds place run first (fun _ _ => True)

section

variable {α β : Type} {place : Place} {moment : Moment}

section

variable (hAt : moment.At place)
include hAt

theorem Proceeds.quiet {post : α → Moment → Prop}
    (hQuiet : (exec run moment.session).2 = moment.session)
    (hPost : ∀ a, (exec run moment.session).1 = .ok a → post a moment) :
    Proceeds place run moment post :=
  ⟨moment, .refl, hQuiet.symm, fun _ hMem => hMem, fun a hResult => ⟨hAt, .refl _, hPost a hResult⟩⟩

theorem goes_pure (a : α) : Goes place (pure a) moment :=
  .quiet hAt rfl (fun _ _ => trivial)

theorem goes_throw (fault : Fault) : Goes place (throw fault : Run α) moment :=
  .quiet hAt rfl (fun _ _ => trivial)

theorem goes_getTable : Goes place getTable moment :=
  .quiet hAt rfl (fun _ _ => trivial)

theorem goes_linesLeft : Goes place linesLeft moment := by
  refine .quiet hAt ?_ (fun _ _ => trivial)
  rw [exec_linesLeft]

end

theorem Proceeds.bind {post : α → Moment → Prop}
    {final : β → Moment → Prop} (hRun : Proceeds place run moment post)
    (hRest : ∀ a next, next.At place → moment.heard ⊆ next.heard → post a next →
        exec run moment.session = (.ok a, next.session) → Proceeds place (rest a) next final) :
    Proceeds place (run >>= rest) moment final := by
  rcases hRun with ⟨middle, hMiddle⟩
  rcases hExec : exec run moment.session with ⟨fault | a, next⟩
  · refine ⟨middle, hMiddle.moves, ?_, hMiddle.heard, ?_⟩
    · rw [hMiddle.session, exec_bind, hExec]
    · intro b hResult
      rw [exec_bind, hExec] at hResult
      cases hResult
  · have hNext : middle.session = next := by
      rw [hMiddle.session, hExec]
    rcases hMiddle.ends a (by rw [hExec]) with ⟨hAt, hKeeps, hPost⟩
    rcases hRest a middle hAt hMiddle.heard hPost (by rw [hExec, hNext]) with ⟨last, hLast⟩
    rw [hNext] at hKeeps
    refine ⟨last, hMiddle.moves.trans hLast.moves, ?_,
      fun _ hMem => hLast.heard (hMiddle.heard hMem), ?_⟩
    · rw [hLast.session, exec_bind, hExec, hNext]
    · intro b hResult
      rw [exec_bind, hExec, ← hNext] at hResult
      rcases hLast.ends b hResult with ⟨hLastAt, hLastKeeps, hFinal⟩
      rw [hNext] at hLastKeeps
      exact ⟨hLastAt, hKeeps.trans hLastKeeps, hFinal⟩

theorem Proceeds.move {post : α → Moment → Prop} (hMove : Advance moment last)
    (hExec : exec run moment.session = (result, last.session)) (hHeard : moment.heard ⊆ last.heard)
    (hEnds : ∀ a, result = .ok a →
        last.At place ∧ moment.session.Keeps last.session ∧ post a last) :
    Proceeds place run moment post := by
  refine ⟨last, .single hMove, ?_, hHeard, ?_⟩ <;> rw [hExec]
  exact hEnds

end

section

variable {place : Place} {moment : Moment}

/- Reading a line makes a move, and the line was read. -/
theorem proceeds_nextLine (hAt : moment.At place) : Proceeds place nextLine moment
    (fun line next => line ∈ next.heard) := by
  rcases moment with ⟨session, heard, files⟩
  rcases hAt with ⟨base, taken, live, rfl⟩
  rcases exec_nextLine_cases session with ⟨line, next, hExec, hRead⟩ | ⟨fault, next, hExec, _⟩
  · refine .move (.reads hExec) hExec (subset_cons_self _ _) ?_
    rintro _ ⟨⟩
    exact ⟨⟨base, _, live, rfl⟩, hRead.keeps, mem_cons_self⟩
  · exact .move (.runsOut hExec) hExec (fun _ hMem => hMem) nofun

theorem proceeds_nextLine? (hAt : moment.At place) :
    Proceeds place nextLine? moment (fun line? next =>
        ∀ line, line? = some line → line ∈ next.heard) := by
  rcases moment with ⟨session, heard, files⟩
  rcases hAt with ⟨base, taken, live, rfl⟩
  rcases exec_nextLine_cases session with
    ⟨line, next, hExec, hRead⟩ | ⟨fault, next, hExec, hMissed, _⟩
  · have hSome : exec nextLine? session = (.ok (some line), next) := by
      rw [exec_nextLine?_eq, hExec]
    refine .move (.reads hExec) hSome (subset_cons_self _ _) ?_
    rintro _ ⟨⟩
    refine ⟨⟨base, _, live, rfl⟩, hRead.keeps, ?_⟩
    rintro _ ⟨⟩
    exact mem_cons_self
  · have hCaught : exec nextLine? session = (if fault = .endOfLines then .ok none
        else .error fault, next) := by
      rw [exec_nextLine?_eq, hExec]
    refine .move (.runsOut hExec) hCaught (fun _ hMem => hMem) ?_
    intro a hResult
    split_ifs at hResult
    cases hResult
    exact ⟨⟨base, taken, false, rfl⟩, hMissed.keeps, by simp⟩

end

-- Expansion of lines

/- Whether a part of a run has a course wherever lines were read. -/
def GoesAfter {α : Type} (heard : List String) (run : Run α) : Prop :=
  ∀ place moment, moment.At place → heard ⊆ moment.heard → Goes place run moment

/- Whether a step has a course on every line that may be processed. -/
def StepGoes (step : LineStep) : Prop :=
  ∀ place moment line, moment.At place → Offered moment.heard line → Goes place (step line) moment

theorem stepGoes_iff : StepGoes step ↔
    ∀ heard line, Offered heard line → GoesAfter heard (step line) := by
  constructor
  · rintro hStep heard line hOffered place moment hAt hHeard
    exact hStep place moment line hAt (hOffered.imp_left (hHeard ·))
  · intro hStep place moment line hAt hOffered
    exact hStep _ line hOffered place moment hAt (List.Subset.refl _)

theorem compositional_goes : Compositional fun heard run _ => GoesAfter heard run where
  mono := fun hMore hRun _ _ hAt hHeard => hRun _ _ hAt (List.Subset.trans hMore hHeard)
  pure := fun a _ _ hAt _ => goes_pure hAt a
  throw := fun fault _ _ hAt _ => goes_throw hAt fault
  bind := fun hRun hRest _ _ hAt hHeard =>
    (hRun _ _ hAt hHeard).bind fun a _ hAt hMore _ _ =>
      hRest a _ _ hAt (List.Subset.trans hHeard hMore)
  getTable := fun hRest _ _ hAt hHeard =>
    (goes_getTable hAt).bind fun table _ hAt hMore _ _ =>
      hRest table table (.refl _) _ _ hAt (List.Subset.trans hHeard hMore)
  nextLine := fun hRest _ _ hAt hHeard =>
    (proceeds_nextLine hAt).bind fun line _ hAt hMore hLine _ =>
      hRest line _ _ hAt (cons_subset.2 ⟨hLine, List.Subset.trans hHeard hMore⟩)
  bounded := fun hRun _ _ _ hAt hHeard =>
    (goes_linesLeft hAt).bind fun _ _ hAt hMore _ _ =>
      hRun _ _ _ hAt (List.Subset.trans hHeard hMore)

theorem goes_expandLine (hStep : StepGoes step) (hAt : moment.At place) (line : String) :
    Goes place (Macro.expandLine limit step line) moment :=
  @Compositional.expandLine _ compositional_goes _ step step
    (fun _ _ h => stepGoes_iff.1 hStep _ _ (.inl h)) _ line _ _ hAt
    (List.Subset.refl _)

-- Files

section

variable {moment : Moment} {step : LineStep}

variable {place : Place}
variable {session final entered : Session} {pieces : List String} {entry : Entry}

theorem goes_processLines (hStep : StepGoes step) (hAt : moment.At place) (count : Nat)
    (pieces : List String) : Goes place (processLines step count pieces) moment := by
  induction count generalizing moment pieces with
  | zero => exact goes_pure hAt _
  | succ count ih =>
    refine (proceeds_nextLine? hAt).bind fun line? _ hAt _ hHeard _ => ?_
    cases line? with
    | none => exact goes_pure hAt _
    | some line =>
      have hOffers := hHeard line rfl
      refine (hStep _ _ line hAt (.inl hOffers)).bind fun _ _ hAt _ _ _ => ?_
      exact ih hAt _

/- Where no line can be read a file has no end. -/
theorem exec_nextLine?_eq_ok {next : Session} {line? : Option String}
    (hExec : exec nextLine? session = (.ok line?, next)) :
    (line? = none ∧ next.CanRead) ∨ (line?.isSome ∧ LineRead session next) := by
  rw [exec_nextLine?_eq] at hExec
  rcases hLine : exec nextLine session with ⟨fault | line, found⟩ <;> rw [hLine] at hExec
  · dsimp only at hExec
    split_ifs at hExec with hFault <;> cases hExec
    exact .inl ⟨rfl, (LineMissed.of_exec hLine).2 hFault⟩
  · cases hExec
    exact .inr ⟨rfl, .of_exec hLine⟩

/- A part of a run that has a result ends at a moment of the same file. -/
theorem Proceeds.of_exec {α : Type} {run : Run α} {post : α → Moment → Prop} {a : α}
    (hProceeds : Proceeds place run moment post)
    (hExec : exec run moment.session = (.ok a, final)) :
    ∃ last, last.At place ∧ last.session = final ∧ moment.session.Keeps final ∧ post a last := by
  rcases hProceeds with ⟨last, hCourse⟩
  rcases hCourse.ends a (by rw [hExec]) with ⟨hAt, hKeeps, hPost⟩
  have hSession : last.session = final := by
    rw [hCourse.session, hExec]
  exact ⟨last, hAt, hSession, hSession ▸ hKeeps, hPost⟩

section

variable (hStep : StepGoes step)
include hStep

/-
  The lines of a file are processed up to their end, which is found while the file is open. The
  bound is never met: every line that is read leaves fewer of them.
-/
theorem canRead_of_processLines {count : Nat} {result : List String} (hAt : moment.At place)
    (hSome : 0 < count) (hEnough : moment.session.CanRead → moment.session.unread < count)
    (hExec : exec (processLines step count pieces) moment.session = (.ok result, final)) :
    final.CanRead := by
  induction count generalizing moment pieces with
  | zero => exact absurd hSome (Nat.lt_irrefl 0)
  | succ count ih =>
    rw [processLines, exec_bind_eq_ok] at hExec
    rcases hExec with ⟨line?, next, hNext, hRest⟩
    rcases (proceeds_nextLine? hAt).of_exec hNext with ⟨middle, hMiddleAt, rfl, _, hHeard⟩
    rcases exec_nextLine?_eq_ok hNext with ⟨rfl, hCan⟩ | ⟨hLine, hRead⟩
    · cases hRest
      exact hCan
    · rcases Option.isSome_iff_exists.mp hLine with
        ⟨line, rfl⟩
      simp only [exec_bind_eq_ok] at hRest
      rcases hRest with ⟨piece, after, hPiece, hRest⟩
      have hOffers : Offered middle.heard line := .inl (hHeard line rfl)
      rcases (hStep _ _ line hMiddleAt hOffers).of_exec hPiece with ⟨last, hLastAt, rfl, hKeeps, _⟩
      have hLess := hEnough hRead.canRead
      have hFewer := hRead.fewer
      refine ih hLastAt (by omega) ?_ hRest
      intro hCan
      have hNoMore := (hKeeps hCan).2.1
      omega

/- The lines of a file that was entered keep it open up to its end. -/
theorem lines_of_entered {last : Session} (hEntered : FileEntered session entered entry)
    (hLines : exec (processLines step (entry.count + 2) []) entered = (.ok pieces, last)) :
    entered.Keeps last ∧ last.CanRead := by
  have hAt : Moment.At ⟨entered, [], [⟨entry.path, none, 0, 0, true⟩]⟩
      ⟨entry.path, none, []⟩ := ⟨0, 0, true, rfl⟩
  rcases (goes_processLines hStep hAt _ _).of_exec hLines with ⟨_, _, _, hKeeps, _⟩
  refine ⟨hKeeps, ?_⟩
  refine canRead_of_processLines hStep hAt (Nat.succ_pos _) ?_ hLines
  rcases hEntered.reader with ⟨reader, hReader, _, hCount⟩
  simp only [Session.unread, hReader]
  omega

/- Whether a run from a moment ends at another one. If it has a result, the files are those from
  before, and the file that was open is kept. -/
def EndsAt (run : Run (List String)) (moment last : Moment) : Prop :=
  last.session = (exec run moment.session).2 ∧ moment.heard ⊆ last.heard ∧
    ∀ pieces, (exec run moment.session).1 = .ok pieces →
      (∃ outer, last.files = filesAfter outer moment.files) ∧ moment.session.Keeps last.session

/- Once a file is entered its processing has a course. -/
theorem exists_course_of_entered
    (hEnter : exec (enterFile name path encoding) moment.session = (.ok entry, entered)) :
    ∃ last, ReflTransGen Advance
        ⟨entered, moment.heard, ⟨entry.path, entry.outer, 0, 0, true⟩ :: moment.files⟩ last ∧
      EndsAt (processFile step name path encoding) moment last := by
  rcases moment with ⟨session, heard, files⟩
  have hEntered := FileEntered.of_exec hEnter
  have hAt : Moment.At ⟨entered, heard, ⟨entry.path, entry.outer, 0, 0, true⟩ :: files⟩
      ⟨entry.path, entry.outer, files⟩ := ⟨0, 0, true, rfl⟩
  rcases goes_processLines hStep hAt (entry.count + 2) []
    with ⟨⟨final, allHeard, allFiles⟩, hCourse⟩
  unfold EndsAt
  rw [exec_processFile_of_entered hEnter]
  rcases hLines : exec (processLines step (entry.count + 2) []) entered with ⟨fault | pieces, ended⟩
  · have hFinal : final = ended := hCourse.session.trans (congrArg Prod.snd hLines)
    subst hFinal
    exact ⟨_, hCourse.moves.tail .closes, rfl, hCourse.heard, nofun⟩
  · have hFinal : final = ended := hCourse.session.trans (congrArg Prod.snd hLines)
    subst hFinal
    rcases hCourse.ends pieces (by rw [hLines]) with ⟨⟨base, taken, live, hFiles⟩, hKeeps, _⟩
    cases hFiles
    have hCan := (lines_of_entered hStep hEntered hLines).2
    rcases hLeave : exec (leaveFile entry.path entry.outer) final with ⟨fault | _, left⟩
    · simp only [hLeave]
      exact ⟨_, hCourse.moves.tail (.fails hLeave), rfl, hCourse.heard, nofun⟩
    · simp only [hLeave]
      refine ⟨_, hCourse.moves.tail (.leaves hLeave), rfl, hCourse.heard, ?_⟩
      intro _ _
      exact ⟨⟨entry.outer, rfl⟩, keeps_of_left hEntered hKeeps hCan (FileLeft.of_exec hLeave)⟩

theorem exists_course_processFile
    (moment : Moment) (name : String) (path : List String) (encoding : Option String) :
    ∃ last, ReflTransGen Advance moment last ∧
      EndsAt (processFile step name path encoding) moment last := by
  rcases hEnter : exec (enterFile name path encoding) moment.session with ⟨fault | entry, entered⟩
  · refine ⟨⟨entered, moment.heard, []⟩, .single (.refuses hEnter), ?_, fun _ hMem => hMem, ?_⟩
    · rw [exec_processFile_of_refused hEnter]
    · intro pieces hResult
      rw [exec_processFile_of_refused hEnter] at hResult
      cases hResult
  · rcases exists_course_of_entered hStep hEnter with
      ⟨last, hMoves, hRest⟩
    exact ⟨last, .head (.enters hEnter) hMoves, hRest⟩

theorem goes_processFile
    (hAt : moment.At place) (name : String) (path : List String) (encoding : Option String) :
    Goes place (processFile step name path encoding) moment := by
  rcases exists_course_processFile hStep moment name path encoding with
    ⟨last, hMoves, hSession, hHeard, hEnds⟩
  refine ⟨last, hMoves, hSession, hHeard, ?_⟩
  intro pieces hResult
  rcases hEnds pieces hResult with ⟨⟨outer, hFiles⟩, hKeeps⟩
  refine ⟨?_, hKeeps, trivial⟩
  rcases hAt with ⟨base, taken, live, hBefore⟩
  rw [hBefore] at hFiles
  cases outer with
  | none => exact ⟨base, taken, false, hFiles⟩
  | some state => exact ⟨base, taken, live, hFiles⟩

end

end

-- Directives

section

variable {place : Place} {moment : Moment}

variable {line : String} {directive : Directive}
variable {table : Macro.Table}

/- A definition does not put a file on record. -/
theorem record_of_define (hRecord : (Macro.define line table).1.find? readerName = some .record) :
    table.find? readerName = some .record := by
  rw [← hRecord]
  refine (Macro.find?_define table ?_ (by decide) (by decide)).symm
  rintro definition hDefinition hName
  have hBodies : Macro.bodiesName ≠ definition.name := by
    rw [hName]
    decide
  have hParams : Macro.paramsName ≠ definition.name := by
    rw [hName]
    decide
  exact Macro.find?_define_ne_record table hDefinition hBodies hParams (hName ▸ hRecord)

section

variable (hAt : moment.At place) (hHeard : line ∈ moment.heard)
  (hLine : Directive.ofLine? line = some directive)
include hAt hHeard hLine

theorem goes_defineMacro
    (hKeyword : directive.keyword = some .define) : Goes place (defineMacro line) moment := by
  rcases moment with ⟨session, heard, files⟩
  have hExec : exec (defineMacro line) session =
      ((Macro.define line session.table).2, { session with
          table := (Macro.define line session.table).1 }) := by
    simp [defineMacro, exec_bind]
  refine .move (.defines hHeard hLine hKeyword) hExec (fun _ hMem => hMem) ?_
  intro _ _
  exact ⟨hAt, .withTable record_of_define, trivial⟩

theorem goes_undefine (hKeyword : directive.keyword = some .undefine) :
    Goes place (modifyTable (·.erase directive.argument)) moment := by
  refine .move (.undefines hHeard hLine hKeyword) rfl (fun _ hMem => hMem) ?_
  intro _ _
  refine ⟨hAt, .withTable ?_, trivial⟩
  intro hRecord
  rw [Macro.Table.find?_erase] at hRecord
  split_ifs at hRecord
  exact hRecord

end

/- A new number of the line does not put a file on record. -/
theorem record_of_renumbered (hRecord : (renumbered n name table).find? readerName = some .record) :
    table.find? readerName = some .record := by
  rw [← hRecord, renumbered]
  cases name.isEmpty <;>
    simp [find?_setText, readerName, lineName, fileName]

/- The number of a line is set by a move once the text of the directive is expanded. -/
theorem goes_setLine (hStep : StepGoes (processNested limit depth)) (hAt : moment.At place)
    (hHeard : line ∈ moment.heard) (hLine : Directive.ofLine? line = some directive)
    (hKeyword : directive.keyword = some .setLine) :
    Goes place (setLine limit (processNested limit depth) directive.afterKeyword) moment := by
  refine (goes_expandLine hStep hAt _).bind fun text next hAt hMore _ hText => ?_
  cases hNumber : numberAndRest? 0 text.toList with
  | none => exact goes_throw hAt _
  | some found =>
    rcases found with ⟨digits, name⟩
    dsimp only
    cases hDigits : Text.readInteger? digits with
    | none => exact goes_throw hAt _
    | some n =>
      rcases next with ⟨session, heard, files⟩
      rcases hAt with ⟨base, taken, live, rfl⟩
      refine .move (.renumbers (hMore hHeard) hLine hKeyword hText
          hNumber hDigits) (?_ : _ = (.ok (), _)) (fun _ hMem => hMem) ?_
      · cases hName : name.isEmpty <;>
          simp [hName, exec_bind, renumbered]
      · intro _ _
        exact ⟨⟨n - 1, 0, live, rfl⟩, .withTable record_of_renumbered, trivial⟩

end

-- Lines

theorem processing_goes : Processing fun heard run _ => GoesAfter heard run where
  toCompositional := compositional_goes
  report := fun level message _ ⟨_, _, _⟩ hAt _ =>
    .move (.reports level message) rfl (fun _ hMem => hMem) (fun _ _ => ⟨hAt, fun hCan =>
        ⟨⟨hCan.record, hCan.isOpen⟩, Nat.le_refl _, .refl _⟩, trivial⟩)
  define := fun hHeard hLine hKeyword _ _ hAt hMore =>
    goes_defineMacro hAt (hMore hHeard) hLine hKeyword
  undefine := fun hHeard hLine hKeyword _ _ hAt hMore =>
    goes_undefine hAt (hMore hHeard) hLine hKeyword
  setLine := fun hStep hHeard hLine hKeyword _ _ hAt hMore =>
    goes_setLine (stepGoes_iff.2 hStep) hAt (hMore hHeard) hLine hKeyword
  currentDirectory := fun _ _ hAt _ => .quiet hAt (exec_currentDirectory_snd _) (fun _ _ => trivial)
  processFile := fun name path encoding hStep _ _ hAt _ =>
    goes_processFile (stepGoes_iff.2 hStep) hAt name path encoding

theorem stepGoes_processNested (depth : Nat) : StepGoes (processNested limit depth) :=
  stepGoes_iff.2 fun _ _ => processing_goes.processNested depth

end Source

end CHeader
