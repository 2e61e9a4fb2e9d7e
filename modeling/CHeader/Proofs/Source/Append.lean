import CHeader.Proofs.Source.Conditional
import CHeader.Proofs.Source.Course

/-
  Files that are continued.

  A part of a run that has a result does not notice whether lines follow those of the open file: it
  reads the same logical lines, gives the same result and leaves the lines that follow unread. This
  holds of every line that is processed, with all that it includes, selects and looks ahead for. So
  a file whose lines are processed up to their end can be continued by another one.

  Main declarations:
    * `Source.Session.followed`
    * `Source.Steady`
    * `Source.processText_append`
-/

namespace CHeader

namespace Source

open Text List Session

variable {session : Session}
variable {count : Nat} {next : Session} {path : List String} {outer : Option Suspended}

-- Lines that follow

def Reader.followed (reader : Reader) (more : List SourceLine) : Reader :=
  if reader.closed then reader
  else { reader with lines := reader.lines ++ more }

/- A session in which further lines follow those of the open file. -/
def Session.followed (session : Session) (more : List SourceLine) : Session :=
  { session with
    reader := session.reader.map (fun reader => reader.followed more) }

def Suspended.followed (state : Suspended) (more : List SourceLine) : Suspended :=
  { state with
    reader := state.reader.map (fun reader => reader.followed more) }

/- Whether the lines left of the open file are those of whole logical lines. -/
def Session.Whole (session : Session) : Prop :=
  ∀ reader, session.reader = some reader → reader.closed = false →
      ∃ lines, reader.lines = physical lines

/-
  Whether a part of a run that has a result does not notice
  the lines that follow, and leaves whole logical lines.
-/
def Steady {α : Type} (run : Run α) : Prop :=
  ∀ more session a next, session.Whole → exec run session = (.ok a, next) → next.Whole ∧
      exec run (session.followed more) = (.ok a, next.followed more)

section

variable {session : Session} {reader : Reader} {more : List SourceLine}

theorem Session.followed_of_closed (hClosed : ∀ reader,
    session.reader = some reader → reader.closed = true) : session.followed more = session := by
  rcases session with ⟨world, table, reader, trail, counts⟩
  cases reader with
  | none => rfl
  | some reader =>
    simp [followed, Reader.followed, hClosed reader rfl]

theorem Reader.followed_of_open (hClosed : reader.closed = false) : reader.followed more =
    { reader with lines := reader.lines ++ more } := by
  simp [Reader.followed, hClosed]

theorem Session.taken_followed (hClosed : reader.closed = false)
    (hCount : count ≤ reader.lines.length) :
    (session.followed more).taken (reader.followed more) count =
      (session.taken reader count).followed more := by
  simp [Session.taken, followed, Reader.followed,
    hClosed, drop_append_of_le_length hCount, take_append_of_le_length hCount]

end

-- Small steps

namespace Steady

variable {α : Type}

theorem pure (a : α) : Steady (pure a : Run α) := by
  rintro more session _ _ hWhole ⟨⟩
  exact ⟨hWhole, rfl⟩

theorem throw (fault : Fault) : Steady (throw fault : Run α) := by
  rintro more session a next - ⟨⟩

theorem bind (hRun : Steady run) (hRest : ∀ a, Steady (rest a)) : Steady (run >>= rest) := by
  intro more session b final hWhole hExec
  rw [exec_bind_eq_ok] at hExec
  rcases hExec with ⟨a, next, hFirst, hExec⟩
  rcases hRun more _ _ _ hWhole hFirst with ⟨hNext, hFollowed⟩
  rcases hRest a more _ _ _ hNext hExec with ⟨hFinal, hMore⟩
  refine ⟨hFinal, ?_⟩
  rw [exec_bind_eq_ok]
  exact ⟨a, _, hFollowed, hMore⟩

theorem getTable : Steady getTable := by
  rintro more session _ _ hWhole ⟨⟩
  exact ⟨hWhole, rfl⟩

theorem modify (hReader : ∀ session, (f session).reader = session.reader)
    (hFollowed : ∀ session more, f (session.followed more) = (f session).followed more) :
    Steady (modify f : Run Unit) := by
  rintro more session _ _ hWhole ⟨⟩
  refine ⟨?_, ?_⟩
  · rw [Session.Whole, hReader]
    exact hWhole
  · rw [exec_modify, hFollowed]

theorem get_bind (hSame : ∀ session more,
    rest (session.followed more) = rest session) (hRest : ∀ session, Steady (rest session)) :
    Steady (get >>= rest) := by
  intro more session a next hWhole hExec
  rw [exec_bind, exec_get] at hExec ⊢
  dsimp only at hExec ⊢
  rw [hSame]
  exact hRest session more _ _ _ hWhole hExec

theorem modifyTable (f : Macro.Table → Macro.Table) : Steady (modifyTable f) :=
  .modify (fun _ => rfl) (fun _ _ => rfl)

theorem report (level : Level) (message : String) : Steady (report level message) :=
  .modify (fun _ => rfl) (fun _ _ => rfl)

end Steady

theorem steady_requireRecord (name : String) : Steady (requireRecord name) := by
  refine .bind .getTable fun table => ?_
  split
  · exact .pure _
  · exact .throw _
  · exact .throw _

theorem steady_advanceLine (count : Nat) : Steady (advanceLine count) := by
  refine .bind (.bind .getTable fun table => ?_) fun text => ?_
  · split
    · exact .pure _
    · exact .throw _
    · exact .throw _
  · split
    · exact .modifyTable _
    · exact .throw _

-- Reading

section

variable {session : Session}

/-
  An attempt to read from whole logical lines finds the end of the lines, takes the first logical
  line or fails otherwise.
-/
theorem nextLine_whole_cases (hWhole : session.Whole) : (∃ reader,
    session.reader = some reader ∧ reader.closed = false ∧ reader.lines = [] ∧
      session.table.find? readerName = some .record ∧
      exec nextLine session = (.error .endOfLines, session)) ∨
    (∃ reader, ∃ line : LogicalLine, ∃ rest,
      session.reader = some reader ∧ reader.closed = false ∧ reader.undecodable = false ∧
        session.table.find? readerName = some .record ∧
        reader.lines = line.lines ++ physical rest) ∨
    ∃ fault, fault ≠ .endOfLines ∧ exec nextLine session = (.error fault, session) := by
  by_cases hReadable : session.Readable
  · obtain ⟨hRecord, reader, hReader, hClosed, hBytes⟩ := hReadable
    rcases hWhole reader hReader hClosed with ⟨lines, hLines⟩
    cases lines with
    | cons line rest =>
      exact .inr (.inl ⟨reader, line, rest, hReader, hClosed, hBytes, hRecord, hLines⟩)
    | nil =>
      refine .inl ⟨reader, hReader, hClosed, hLines, hRecord, ?_⟩
      rw [exec_nextLine_open hRecord hReader hClosed hBytes, hLines]
      rcases session with ⟨_, _, _, _, _, _, log⟩
      rcases reader with ⟨_, _, _, _⟩
      cases hReader
      simp [logicalLine?, Session.taken, byteWarnings]
  · exact .inr (.inr (exec_nextLine_of_not_readable hReadable))

/- The first of whole logical lines is read and counted. -/
theorem exec_nextLine_whole {reader : Reader} {line : LogicalLine}
    (hReader : session.reader = some reader) (hClosed : reader.closed = false)
    (hBytes : reader.undecodable = false)
    (hRecord : session.table.find? readerName = some .record)
    (hLines : reader.lines = line.lines ++ follow) :
    exec nextLine session = exec (advanceLine line.lines.length >>= fun _ => pure line.text)
        (session.taken reader line.lines.length) := by
  rw [exec_nextLine_open hRecord hReader hClosed hBytes, hLines, line.logicalLine?_lines_append]

theorem steady_nextLine : Steady nextLine := by
  intro more session text next hWhole hExec
  rcases nextLine_whole_cases hWhole with
    ⟨_, _, _, _, _, hEnd⟩ |
    ⟨reader, line, rest, hReader, hClosed, hBytes, hRecord, hLines⟩ |
    ⟨_, _, hFault⟩
  · rw [hEnd] at hExec
    cases hExec
  · have hTaken : (session.taken reader line.lines.length).Whole := by
      rintro _ ⟨⟩ _
      exact ⟨rest, by simp [hLines]⟩
    have hCounted : Steady (advanceLine line.lines.length >>= fun _ =>
        (pure line.text : Run String)) :=
      .bind (steady_advanceLine _) fun _ => .pure _
    rw [exec_nextLine_whole hReader hClosed hBytes hRecord hLines] at hExec
    rcases hCounted more _ _ _ hTaken hExec with ⟨hNext, hFollowed⟩
    refine ⟨hNext, ?_⟩
    have hMore : (reader.followed more).lines = line.lines ++ (physical rest ++ more) := by
      rw [Reader.followed_of_open hClosed]
      simp [hLines]
    have hStill : (reader.followed more).closed = false := by
      rw [Reader.followed_of_open hClosed]
      exact hClosed
    have hText : (reader.followed more).undecodable = false := by
      rw [Reader.followed_of_open hClosed]
      exact hBytes
    have hSame : (session.followed more).reader = some (reader.followed more) := by
      simp [followed, hReader]
    have hListed : (session.followed more).table.find? readerName = some .record := hRecord
    rw [exec_nextLine_whole hSame hStill hText hListed hMore,
      taken_followed hClosed (by simp [hLines])]
    exact hFollowed
  · rw [hFault] at hExec
    cases hExec

end

/- More lines raise the bound on those that are read, and a raised bound finds the same. -/
theorem steady_bounded {α : Type} {run : Nat → Run α} (hRun : ∀ count, Steady (run count))
    (hMore : ∀ count, Within (run count) (run (count + 1))) :
    Steady (linesLeft >>= fun count => run (count + 1)) := by
  intro more session a next hWhole hExec
  rw [exec_bind, exec_linesLeft] at hExec ⊢
  rcases hRun _ more _ _ _ hWhole hExec with ⟨hNext, hFollowed⟩
  have hUnread : session.unread ≤ (session.followed more).unread := by
    rw [unread, unread, followed]
    cases session.reader with
    | none => exact Nat.le_refl _
    | some reader =>
      simp only [Option.map_some, Reader.followed]
      split_ifs
      · exact Nat.le_refl _
      · simp
  exact ⟨hNext, Within.of_le hMore (Nat.succ_le_succ hUnread) _ _ _ hFollowed⟩

-- Files

theorem steady_currentDirectory : Steady currentDirectory := by
  intro more session directory next hWhole hExec
  rw [currentDirectory, exec_bind, exec_get] at hExec
  dsimp only at hExec
  split at hExec
  · cases hExec
  · rename_i path lines closed undecodable hFind hReader
    rw [Prod.mk.injEq] at hExec
    rcases hExec with ⟨hDirectory, rfl⟩
    refine ⟨hWhole, ?_⟩
    rw [← hDirectory, currentDirectory, exec_bind]
    cases closed <;>
      simp [followed, Reader.followed, hFind, hReader]
  · cases hExec

theorem steady_countReentry (path : String) : Steady (countReentry path) := by
  refine .bind (steady_requireRecord _) fun _ => ?_
  refine .get_bind (fun _ _ => rfl) fun session => ?_
  split_ifs
  · refine .bind (steady_requireRecord _) fun _ => ?_
    refine .get_bind (fun _ _ => rfl) fun session => ?_
    refine .bind (.modify (fun _ => rfl) fun _ _ => rfl) fun _ => ?_
    split_ifs
    · exact .bind (.report _ _) fun _ => .throw _
    · exact .pure _
  · exact .pure _

theorem steady_endFile (path : String) : Steady (endFile path) := by
  refine .bind (steady_requireRecord _) fun _ => ?_
  refine .bind (.modify (fun _ => rfl) fun _ _ => rfl) fun _ => ?_
  refine .bind (steady_requireRecord _) fun _ => ?_
  exact .modify (fun _ => rfl) fun _ _ => rfl

theorem steady_meaningOf (name : String) : Steady (meaningOf name) := by
  refine .bind .getTable fun table => ?_
  split
  · exact .pure _
  · exact .throw _

theorem steady_furtherPath : Steady furtherPath := by
  refine .get_bind (fun _ _ => rfl) fun session => ?_
  split
  · cases settingPath session.world with
    | error fault => exact .throw _
    | ok path => exact .pure _
  · exact .pure _
  · exact .pure _
  · exact .throw _

theorem steady_openFile (path encoding : String) : Steady (openFile path encoding) := by
  refine .get_bind (fun _ _ => rfl) fun session => ?_
  repeat' split
  all_goals first
    | exact .pure _
    | exact .throw _

section

variable (more : List SourceLine) (hWhole : session.Whole)
include hWhole

/- The state of the including file is suspended with the lines that follow. -/
theorem exec_beginFile_followed
    (hExec : exec (beginFile path) session = (.ok (directories, outer), next)) :
    next.Whole ∧ exec (beginFile path) (session.followed more) =
        (.ok (directories, outer.map (·.followed more)), next.followed more) := by
  rw [beginFile, exec_bind_eq_ok] at hExec ⊢
  rcases hExec with ⟨further, _, hFurther, hExec⟩
  cases exec_furtherPath_eq_ok hFurther
  rw [exec_bind_getTable] at hExec
  have hFollowed := (steady_furtherPath more _ _ _ hWhole hFurther).2
  have hTable : (session.followed more).table = session.table := rfl
  split_ifs at hExec with hOpen
  · simp only [exec_bind_eq_ok] at hExec
    rcases hExec with ⟨_, _, hRecord, line, _, hLine, file, _, hFile, _, _, hGet, hExec⟩
    cases (exec_meaningOf_eq_ok hRecord).2
    cases (exec_meaningOf_eq_ok hLine).2
    cases (exec_meaningOf_eq_ok hFile).2
    cases hGet
    rcases hExec with ⟨⟨rfl, rfl⟩, rfl⟩
    refine ⟨hWhole, further, _, hFollowed, ?_⟩
    rw [exec_bind_getTable]
    rw [hTable, if_pos hOpen]
    simp only [exec_bind_eq_ok]
    exact ⟨_, _, (steady_meaningOf _ _ _ _ _ hWhole hRecord).2,
      _, _, (steady_meaningOf _ _ _ _ _ hWhole hLine).2,
      _, _, (steady_meaningOf _ _ _ _ _ hWhole hFile).2, _, _, rfl, rfl⟩
  · rcases hExec with ⟨⟨rfl, rfl⟩, rfl⟩
    refine ⟨hWhole, further, _, hFollowed, ?_⟩
    rw [exec_bind_getTable]
    rw [hTable, if_neg hOpen]
    rfl

/- A file is entered in the same way, whatever follows in the file that includes it. -/
theorem exec_enterFile_followed
    (hExec : exec (enterFile name path encoding) session = (.ok entry, entered)) :
    exec (enterFile name path encoding) (session.followed more) =
      (.ok ⟨entry.path, entry.outer.map (·.followed more), entry.count⟩, entered) := by
  simp only [enterFile, exec_bind_eq_ok, exec_lift, Prod.mk.injEq] at hExec
  rcases hExec with
    ⟨⟨directories, outer⟩, begun, hBegin, _, _, ⟨rfl, rfl⟩,
      full, _, ⟨hFull, rfl⟩, _, counted, hCount, _, _,
      ⟨_, rfl⟩, reader, opened, hOpen, _, _, ⟨_, rfl⟩, rfl, rfl⟩
  rcases exec_beginFile_followed more hWhole hBegin with ⟨hBegunWhole, hBegun⟩
  rcases steady_countReentry _ more _ _ _ hBegunWhole hCount with ⟨hCountedWhole, hCounted⟩
  have hOpened := (steady_openFile _ _ more _ _ _ (by exact hCountedWhole) hOpen).2
  simp only [enterFile, exec_bind_eq_ok]
  exact ⟨_, _, hBegun, _, _, rfl, full, _, by rw [exec_lift]; exact congrArg (·, _) hFull, (), _,
    hCounted, (), _, rfl, reader, _, hOpened, (), _, rfl,
    rfl⟩

/- A file is left in the same way, and the lines that follow
  come back with the file that includes it. -/
theorem exec_leaveFile_followed {last : Session} {path : String}
    (hOuter : ∀ state, outer = some state → session.reader = state.reader)
    (hExec : exec (leaveFile path outer) last = (.ok (), next)) :
    next.Whole ∧ exec (leaveFile path (outer.map (·.followed more))) last =
        (.ok (), next.followed more) := by
  cases outer with
  | none =>
    have hClosed : ∀ reader, next.reader = some reader → reader.closed = true := by
      intro reader hReader
      rw [(exec_endFile_eq_ok hExec).2.2.2] at hReader
      simp only [Option.map_eq_some_iff] at hReader
      rcases hReader with ⟨_, _, rfl⟩
      rfl
    refine ⟨?_, ?_⟩
    · intro reader hReader hOpen
      rw [hClosed reader hReader] at hOpen
      cases hOpen
    · rw [followed_of_closed hClosed]
      exact hExec
  | some state =>
    have hResumed : (exec (resume state) last).2.Whole := by
      intro reader hReader
      exact hWhole reader ((hOuter state rfl).trans hReader)
    exact steady_endFile path more _ _ _ hResumed hExec

end

theorem steady_processFile (step : LineStep) (name : String) (path : List String)
    (encoding : Option String) : Steady (processFile step name path encoding) := by
  intro more session pieces next hWhole hExec
  obtain ⟨entry, entered, last, hEnter, hLines, hLeave⟩ := exec_processFile_eq_ok.1 hExec
  have hOuter : ∀ state, entry.outer = some state → session.reader = state.reader := by
    intro state hState
    exact ((FileEntered.of_exec hEnter).suspended state hState).1.reader
  rcases exec_leaveFile_followed more hWhole hOuter hLeave with ⟨hNext, hLeft⟩
  exact ⟨hNext, exec_processFile_eq_ok.2
    ⟨_, _, _, exec_enterFile_followed more hWhole hEnter, hLines, hLeft⟩⟩

theorem compositional_steady : Compositional fun _ run _ => Steady run where
  mono := fun _ hRun => hRun
  pure := .pure
  throw := .throw
  bind := .bind
  getTable := fun hRest => .bind .getTable fun table => hRest table table (.refl _)
  nextLine := steady_nextLine.bind
  bounded := steady_bounded

theorem steady_setLine (hStep : ∀ heard line, Offered heard line → Steady (step line))
    (text : List Char) : Steady (setLine limit step text) := by
  refine .bind (@Compositional.expandLine _ compositional_steady []
    step step (fun _ _ h => hStep _ _ (.inl h)) _ _) fun text => ?_
  split
  · exact .throw _
  · split
    · exact .throw _
    · refine .bind (.modifyTable _) fun _ => ?_
      split_ifs
      · exact .modifyTable _
      · exact .pure _

theorem processing_steady : Processing fun _ run _ => Steady run where
  toCompositional := compositional_steady
  report := .report
  define := fun _ _ _ => .bind .getTable fun _ =>
    .bind (.modifyTable _) fun _ => @Compositional.lift _ compositional_steady [] _ _
  undefine := fun _ _ _ => .modifyTable _
  setLine := fun hStep _ _ _ => steady_setLine hStep _
  currentDirectory := steady_currentDirectory
  processFile := fun name path encoding _ => steady_processFile _ name path encoding

theorem steady_processLine (line : String) : Steady (processLine limit line) :=
  @Processing.processNested _ processing_steady [line] _ _ _ (.inl mem_cons_self)

-- The lines of a file

section

variable {step : LineStep} {session : Session}
variable {final : Session} {pieces result : List String}

/- A step that has a result keeps the open file. -/
theorem StepGoes.keeps (hStep : StepGoes step)
    (hExec : exec (step line) session = (.ok text, next)) : session.Keeps next := by
  have hAt : Moment.At ⟨session, [line], [⟨"", none, 0, 0, true⟩]⟩
      ⟨"", none, []⟩ := ⟨0, 0, true, rfl⟩
  have hGoes := hStep _ _ line hAt (.inl mem_cons_self)
  rcases hGoes.of_exec hExec with ⟨_, _, _, hKeeps, _⟩
  exact hKeeps

/- The lines of a file that have a result could be read. -/
theorem canRead_of_result (hStep : StepGoes step) (hSome : 0 < count)
    (hEnough : session.CanRead → session.unread < count)
    (hExec : exec (processLines step count pieces) session = (.ok result, final)) :
    session.CanRead := by
  have hAt : Moment.At ⟨session, [], [⟨"", none, 0, 0, true⟩]⟩ ⟨"", none, []⟩ := ⟨0, 0, true, rfl⟩
  rcases (goes_processLines hStep hAt _ _).of_exec hExec with ⟨_, _, _, hKeeps, _⟩
  exact (hKeeps (canRead_of_processLines hStep hAt hSome hEnough hExec)).1

/-
  Two bounds on the lines of a file give the same run if there are not so many lines: every line
  that is read leaves fewer of them, and a file that cannot be read any more ends the run.
-/
theorem exec_processLines_congr (hStep : StepGoes step) (hFirst : 0 < first) (hSecond : 0 < second)
    (hEnough : session.CanRead → session.unread < first ∧ session.unread < second)
    (pieces : List String) : exec (processLines step first pieces) session =
      exec (processLines step second pieces) session := by
  induction first generalizing second session pieces with
  | zero => exact absurd hFirst (Nat.lt_irrefl 0)
  | succ first ih =>
    cases second with
    | zero => exact absurd hSecond (Nat.lt_irrefl 0)
    | succ second =>
      rw [processLines, processLines, exec_bind, exec_bind]
      rcases hNext : exec nextLine? session with ⟨fault | line?, next⟩
      · rfl
      rcases exec_nextLine?_eq_ok hNext with ⟨rfl, _⟩ | ⟨hLine, hRead⟩
      · rfl
      rcases Option.isSome_iff_exists.mp hLine with ⟨line, rfl⟩
      dsimp only
      rw [exec_bind, exec_bind]
      rcases hPiece : exec (step line) next with ⟨fault | piece, after⟩
      · rfl
      have hKeeps := hStep.keeps hPiece
      have hLess := hEnough hRead.canRead
      have hFewer := hRead.fewer
      refine ih (by omega) (by omega) ?_ _
      intro hCan
      have hNoMore := (hKeeps hCan).2.1
      omega

/- The texts of the lines before stand in front. -/
theorem exec_processLines_pieces (count : Nat) (pieces : List String) :
    exec (processLines step count pieces) session =
      ((exec (processLines step count []) session).1.map (pieces.reverse ++ ·),
        (exec (processLines step count []) session).2) := by
  induction count generalizing session pieces with
  | zero => simp [processLines]
  | succ count ih =>
    rw [processLines, processLines, exec_bind, exec_bind]
    rcases exec nextLine? session with ⟨fault | line?, next⟩
    · rfl
    cases line? with
    | none => simp
    | some line =>
      dsimp only
      rw [exec_bind, exec_bind]
      rcases exec (step line) next with ⟨fault | piece, after⟩
      · rfl
      dsimp only
      rw [ih (piece :: pieces), ih [piece]]
      rcases exec (processLines step count []) after with ⟨fault | found, last⟩
      · rfl
      · simp

/- At the end of whole logical lines those that follow are the lines of the file. -/
theorem exec_nextLine?_whole {line? : Option String} (more : List SourceLine)
    (hWhole : session.Whole) (hExec : exec nextLine? session = (.ok line?, next)) :
    (line? = none ∧ next.CanRead ∧ next.withLines more = session.followed more) ∨
      ∃ line, line? = some line ∧ next.Whole ∧ exec nextLine? (session.followed more) =
          (.ok (some line), next.followed more) := by
  rcases hLine : exec nextLine session with ⟨fault | line, after⟩
  · rw [exec_nextLine?_eq, hLine] at hExec
    dsimp only at hExec
    split_ifs at hExec with hFault
    · cases hExec
      subst hFault
      rcases nextLine_whole_cases hWhole with
        ⟨reader, hReader, hClosed, hLines, hRecord, hEnd⟩ |
        ⟨reader, line, rest, hReader, hClosed, hBytes, hRecord, hLines⟩ |
        ⟨fault, hFault, hOther⟩
      · rw [hEnd] at hLine
        cases hLine
        refine .inl ⟨rfl, ⟨hRecord, reader, hReader, hClosed⟩, ?_⟩
        simp [withLines, followed, hReader, Reader.followed, hClosed, hLines]
      · rw [exec_nextLine_whole hReader hClosed hBytes hRecord hLines, exec_bind_eq_error] at hLine
        rcases hLine with hLine | ⟨_, _, _, hLine⟩
        · rcases exec_advanceLine (session.taken reader line.lines.length) line.lines.length with
            ⟨_, _, _, _, _, _, hDone⟩ | ⟨fault, hFault, hDone⟩
          · rw [hDone] at hLine
            cases hLine
          · rw [hDone] at hLine
            cases hLine
            exact absurd rfl hFault
        · cases hLine
      · rw [hOther] at hLine
        cases hLine
        exact absurd rfl hFault
    · cases hExec
  · rw [exec_nextLine?_eq, hLine] at hExec
    cases hExec
    rcases steady_nextLine more _ _ _ hWhole hLine with ⟨hNext, hFollowed⟩
    refine .inr ⟨line, rfl, hNext, ?_⟩
    rw [exec_nextLine?_eq, hFollowed]

/-
  The run over a file goes on with the lines that follow, as if they were a file that is opened in
  the session that the run leaves.
-/
theorem exec_processLines_followed (more : List SourceLine) (hStep : StepGoes step)
    (hSteady : ∀ line, Steady (step line)) (hWhole : session.Whole) (hSome : 0 < count)
    (hEnough : session.CanRead → session.unread < count)
    (hExec : exec (processLines step count pieces) session = (.ok result, final)) :
    exec (processLines step (count + more.length) pieces) (session.followed more) =
      exec (processLines step (more.length + 2) result.reverse) (final.withLines more) := by
  induction count generalizing session pieces with
  | zero => exact absurd hSome (Nat.lt_irrefl 0)
  | succ count ih =>
    rw [processLines, exec_bind_eq_ok] at hExec
    rcases hExec with ⟨line?, next, hNext, hRest⟩
    rcases exec_nextLine?_whole more hWhole hNext with
      ⟨rfl, hCan, hFollowed⟩ |
      ⟨line, rfl, hNextWhole, hFollowed⟩
    · cases hRest
      rw [reverse_reverse, ← hFollowed]
      refine exec_processLines_congr hStep (by omega) (by omega) ?_ _
      rcases hCan.isOpen with ⟨reader, hReader, _⟩
      have hUnread : (final.withLines more).unread = more.length := by
        simp [unread, withLines, hReader]
      omega
    · rw [exec_bind_eq_ok] at hRest
      rcases hRest with ⟨piece, after, hPiece, hRest⟩
      have hMoreCount : count + 1 + more.length = count + more.length + 1 := by omega
      rcases hSteady line more _ _ _ hNextWhole hPiece with ⟨hAfterWhole, hAfter⟩
      rw [hMoreCount, processLines, exec_bind, hFollowed]
      dsimp only
      rw [exec_bind, hAfter]
      have hRead := (exec_nextLine?_eq_ok hNext).resolve_left (by simp)
      have hLess := hEnough hRead.2.canRead
      have hFewer := hRead.2.fewer
      have hKeeps := hStep.keeps hPiece
      refine ih hAfterWhole (by omega) ?_ hRest
      intro hCan
      have hNoMore := (hKeeps hCan).2.1
      omega

end

-- Texts

/- The lines of a text are those of its parts if the first part ends with a line. -/
theorem cutLines_append (line second : List Char) (hBreak : first.getLast? = some '\n') :
    cutLines line (first ++ second) = cutLines line first ++ cutLines [] second := by
  have hRest : ∀ c rest, (c :: rest).getLast? = some '\n' → (rest.getLast? = some '\n' →
      cutLines [] (rest ++ second) = cutLines [] rest ++ cutLines [] second) →
      cutLines [] (rest ++ second) = cutLines [] rest ++
          cutLines [] second := by
    intro c rest hLast ih
    cases rest with
    | nil => rfl
    | cons d rest =>
      exact ih hLast
  fun_induction cutLines line first with
  | case1 | case2 => cases hBreak
  | case3 line rest ih =>
    rw [cons_append, cons_append, cutLines, hRest _ rest hBreak ih, cons_append]
  | case4 line c rest hOther hEnds ih =>
    have hNoPair : ∀ follow, c = '\r' → rest ++ second = '\n' :: follow → False := by
      intro follow hReturn hFollow
      cases rest with
      | nil =>
        rw [hReturn] at hBreak
        cases hBreak
      | cons d rest =>
        cases hFollow
        exact hOther _ hReturn rfl
    rw [cons_append, cutLines.eq_3 _ _ _ hNoPair, if_pos hEnds, hRest c rest hBreak ih, cons_append]
  | case5 line c rest hOther hEnds ih =>
    cases rest with
    | nil =>
      cases hBreak
      exact absurd rfl hEnds
    | cons d rest =>
      have hNoPair : ∀ follow, c = '\r' → d :: (rest ++ second) = '\n' :: follow → False := by
        rintro follow hReturn ⟨⟩
        exact hOther _ hReturn rfl
      rw [cons_append, cons_append, cutLines.eq_3 _ _ _ hNoPair, if_neg hEnds]
      exact ih hBreak

def textLines (text : String) : List SourceLine :=
  (splitLines text.toList).map (fun line => ⟨line, 0⟩)

/- The outcome of processing all lines of a text in an open file. -/
def processText (limit : Nat) (session : Session) (text : String) :
    Except Fault (List String) × Session :=
  exec (processLines (processLine limit) ((textLines text).length + 2) [])
    (session.withLines (textLines text))

theorem textLines_append (second : String) (hBreak : first.toList.getLast? = some '\n') :
    textLines (first ++ second) = textLines first ++ textLines second := by
  simp [textLines, splitLines, cutLines_append _ _ hBreak]

/- A text that is processed to its end goes on with further lines. -/
theorem exec_processLines_more {after : Session} (more : List SourceLine)
    (hLines : textLines first = physical lines)
    (hFirst : processText limit session first = (.ok pieces, after)) :
    exec (processLines (processLine limit) ((textLines first ++ more).length + 2) [])
        (session.withLines (textLines first ++ more)) =
      ((exec (processLines (processLine limit) (more.length + 2) [])
          (after.withLines more)).1.map (pieces ++ ·),
        (exec (processLines (processLine limit) (more.length + 2) [])
          (after.withLines more)).2) := by
  have hStep : StepGoes (processLine limit) := stepGoes_processNested _
  have hUnread : (session.withLines (textLines first)).CanRead →
      (session.withLines (textLines first)).unread < (textLines first).length + 2 := by
    rintro ⟨_, _, hReader, _⟩
    obtain ⟨reader, hReader, _⟩ := Option.map_eq_some_iff.1 hReader
    simp [unread, withLines, hReader]
  obtain ⟨_, _, hSet, hClosed⟩ := canRead_of_result hStep (Nat.succ_pos _) hUnread hFirst
  obtain ⟨reader, hReader, rfl⟩ := Option.map_eq_some_iff.1 hSet
  have hWhole : (session.withLines (textLines first)).Whole := by
    intro found hFound _
    simp only [withLines, hReader, Option.map_some, Option.some.injEq] at hFound
    exact ⟨lines, hFound ▸ hLines⟩
  have hFollowed : session.withLines (textLines first ++ more) =
      (session.withLines (textLines first)).followed more := by
    have hOpen : reader.closed = false := hClosed
    simp [withLines, followed, Reader.followed, hReader, hOpen]
  rw [hFollowed, length_append, Nat.add_right_comm, exec_processLines_followed more hStep
      steady_processLine hWhole (Nat.succ_pos _) hUnread hFirst,
    exec_processLines_pieces, reverse_reverse]

/-
  A text that ends with a whole logical line can be continued. If its lines have a result, the text
  together with one that follows is processed as the text and then, in the session that it leaves,
  the one that follows: the results are joined, and a failure of the second text is the failure of
  both.
-/
theorem processText_append
    (limit : Nat)
    (session after : Session)
    (first second : String)
    (pieces : List String)
    (lines : List LogicalLine)
    (hBreak : first.toList.getLast? = some '\n')
    (hLines : textLines first = physical lines)
    (hFirst : processText limit session first = (.ok pieces, after)) :
    processText limit session (first ++ second) =
      ((processText limit after second).1.map (pieces ++ ·),
        (processText limit after second).2) := by
  rw [processText, textLines_append second hBreak, exec_processLines_more _ hLines hFirst]
  rfl

/- A definition over two physical lines. -/
def continuedLine : LogicalLine where
  lines := [⟨"#define A \\\n", 0⟩, ⟨"1\n", 0⟩]
  text := "#define A 1\n"
  reads := by cbv

def definingText : String := "#define A \\\n1\n"

def askingText : String := "#ifdef A\nA\n#endif\n"

/- A definition is followed by a group that asks for it and names it. -/
theorem processText_append_asking :
    ∃ after,
      processText 2 (openSession []) definingText =
          (.ok [""], after) ∧
        processText 2 (openSession [])
            (definingText ++ askingText) =
          ((processText 2 after askingText).1.map ([""] ++ ·),
            (processText 2 after askingText).2) ∧
        (processText 2 after askingText).1.toOption =
          some ["1\n"] := by
  have hLines : textLines definingText = physical [continuedLine] := by
    rfl
  have hSome : (processText 2 (openSession []) definingText).1.toOption = some [""] := by
    decide +kernel
  have hFirst := exec_eq_of_toOption hSome
  exact ⟨_, hFirst, processText_append _ _ _ _ _ _ _ (by decide) hLines hFirst, by decide +kernel⟩

end Source

end CHeader
