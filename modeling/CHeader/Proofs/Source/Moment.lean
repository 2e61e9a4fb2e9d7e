import CHeader.Proofs.Source.Files

/-
  Moments of a run over source files.

  A moment has the session of a run, the logical lines that were read so far and the files that are
  being read, the innermost first. A run advances from moment to moment by small moves: it reads a
  line, changes the macro table as a directive says, enters a file or leaves it. What holds of every
  moment of a run is shown once for every move.

  Main declarations:
    * `Source.Frame`
    * `Source.Moment`
    * `Source.Advance`
-/

namespace CHeader

namespace Source

-- Moments

/-
  A file that is being read: its path, the state of the file that includes it, the number from which
  its lines are counted, the physical lines taken since then, and whether its lines have not run
  out.
-/
structure Frame where
  path : String
  outer : Option Suspended
  base : Int := 0
  taken : Nat := 0
  live : Bool := true

namespace Frame

def take (frame : Frame) (count : Nat) : Frame := { frame with taken := frame.taken + count }

/- Count lines anew, such that the next has the number. -/
def renumber (frame : Frame) (n : Int) : Frame := { frame with base := n - 1, taken := 0 }

/- No further line of a file can be read. -/
def finish (frame : Frame) : Frame := { frame with live := false }

end Frame

/- A moment of a run: the session, the lines read so far,
  the last one first, and the files being read. -/
structure Moment where
  session : Session
  heard : List String
  files : List Frame

/- The files that are read on after one was left: with nothing to resume, the next one stays closed. -/
def filesAfter (outer : Option Suspended) (files : List Frame) : List Frame :=
  match outer with
  | some _ => files
  | none => files.modifyHead Frame.finish

def renumbered (n : Int) (name : String) (table : Macro.Table) : Macro.Table :=
  let table := table.setText lineName (toString (n - 1))
  if name.isEmpty then table
  else table.setText fileName name

/-
  The moves of a run. Directives are those of lines that were read. A move that fails ends the run,
  unless it finds that no line is left.
-/
inductive Advance : Moment → Moment → Prop where
  | reads {session next : Session} {heard : List String} {frame : Frame} {files : List Frame}
      {line : String}
      (hRead : exec nextLine session = (.ok line, next)) :
      Advance ⟨session, heard, frame :: files⟩ ⟨next, line :: heard,
          frame.take (session.unread - next.unread) :: files⟩
  | runsOut {session next : Session} {heard : List String} {frame : Frame} {files : List Frame}
      {fault : Fault}
      (hRead : exec nextLine session = (.error fault, next)) :
      Advance ⟨session, heard, frame :: files⟩ ⟨next, heard, frame.finish :: files⟩
  | defines {session : Session} {heard : List String} {files : List Frame} {line : String}
      {directive : Directive}
      (hHeard : line ∈ heard)
      (hLine : Directive.ofLine? line = some directive)
      (hKeyword : directive.keyword = some .define) :
      Advance ⟨session, heard, files⟩ ⟨{ session with
          table := (Macro.define line session.table).1 },
          heard, files⟩
  | undefines {session : Session} {heard : List String} {files : List Frame} {line : String}
      {directive : Directive}
      (hHeard : line ∈ heard)
      (hLine : Directive.ofLine? line = some directive)
      (hKeyword : directive.keyword = some .undefine) :
      Advance ⟨session, heard, files⟩ ⟨{ session with
          table := session.table.erase directive.argument },
          heard, files⟩
  | renumbers {before session : Session} {heard : List String} {frame : Frame} {files : List Frame}
      {line text digits name : String}
      {directive : Directive}
      {limit depth : Nat}
      {n : Int}
      (hHeard : line ∈ heard)
      (hLine : Directive.ofLine? line = some directive)
      (hKeyword : directive.keyword = some .setLine)
      (hText : exec (Macro.expandLine limit (processNested limit depth)
          (String.ofList directive.afterKeyword)) before =
          (.ok text, session))
      (hNumber : numberAndRest? 0 text.toList = some (digits, name))
      (hDigits : Text.readInteger? digits = some n) :
      Advance ⟨session, heard, frame :: files⟩ ⟨{ session with
          table := renumbered n name session.table },
          heard, frame.renumber n :: files⟩
  | reports {session : Session} {heard : List String} {files : List Frame} (level : Level)
      (message : String) :
      Advance ⟨session, heard, files⟩ ⟨{ session with
          log := session.log ++ [⟨level, message⟩] },
          heard, files⟩
  | enters {session next : Session} {heard : List String} {files : List Frame} {name : String}
      {path : List String}
      {encoding : Option String}
      {entry : Entry}
      (hEnter : exec (enterFile name path encoding) session = (.ok entry, next)) :
      Advance ⟨session, heard, files⟩ ⟨next, heard, ⟨entry.path, entry.outer, 0, 0, true⟩ :: files⟩
  | refuses {session next : Session} {heard : List String} {files : List Frame} {name : String}
      {path : List String}
      {encoding : Option String}
      {fault : Fault}
      (hEnter : exec (enterFile name path encoding) session = (.error fault, next)) :
      Advance ⟨session, heard, files⟩ ⟨next, heard, []⟩
  | leaves {session next : Session} {heard : List String} {frame : Frame} {files : List Frame}
      (hLeave : exec (leaveFile frame.path frame.outer) session = (.ok (), next)) :
      Advance ⟨session, heard, frame :: files⟩ ⟨next, heard, filesAfter frame.outer files⟩
  | fails {session next : Session} {heard : List String} {frame : Frame} {files : List Frame}
      {fault : Fault}
      (hLeave : exec (leaveFile frame.path frame.outer) session = (.error fault, next)) :
      Advance ⟨session, heard, frame :: files⟩ ⟨next, heard, []⟩
  | closes {session : Session} {heard : List String} {files : List Frame} :
      Advance ⟨session, heard, files⟩ ⟨session.close, heard, files.modifyHead Frame.finish⟩

-- What moves inside a file keep

/-
  What a part of a run keeps of the file that is open: if it can still be read, it could be read
  before, no lines came back, and the same files are on the trail.
-/
def Session.Keeps (before after : Session) : Prop :=
  after.CanRead → before.CanRead ∧ after.unread ≤ before.unread ∧ after.trail.Perm before.trail

namespace Session.Keeps

variable {first second third : Session}

theorem refl (session : Session) : session.Keeps session :=
  fun hCan => ⟨hCan, Nat.le_refl _, .refl _⟩

theorem trans (hFirst : first.Keeps second) (hSecond : second.Keeps third) : first.Keeps third := by
  intro hCan
  rcases hSecond hCan with ⟨hMiddle, hFewer, hTrail⟩
  rcases hFirst hMiddle with ⟨hStart, hFirstFewer, hFirstTrail⟩
  exact ⟨hStart, hFewer.trans hFirstFewer, hTrail.trans hFirstTrail⟩

/- A new table keeps the file if it has no new record of it. -/
theorem withTable {session : Session} {table : Macro.Table}
    (hRecord : table.find? readerName = some .record →
        session.table.find? readerName = some .record) :
    session.Keeps { session with table := table } := fun hCan =>
    ⟨⟨hRecord hCan.record, hCan.isOpen⟩, Nat.le_refl _, .refl _⟩

end Session.Keeps

theorem LineRead.keeps (hRead : LineRead before after) : before.Keeps after :=
  fun _ => ⟨hRead.canRead, Nat.le_of_lt hRead.fewer, .of_eq hRead.trail⟩

theorem LineMissed.keeps (hMissed : LineMissed before after) : before.Keeps after :=
  fun hCan => ⟨hMissed.canRead hCan, hMissed.noMore, .of_eq hMissed.trail⟩

section

variable {before entered last after : Session} {entry : Entry}

variable (hEntered : FileEntered before entered entry) (hLines : entered.Keeps last)
  (hCan : last.CanRead) (hLeft : FileLeft last after entry.path entry.outer)
include hEntered hLines hCan hLeft

/- A file that is entered and left again leaves the trail as it was, if its lines kept it. -/
theorem trail_of_left (hOuter : entry.outer = some state) : after.trail.Perm before.trail := by
  have hTrail := (hEntered.suspended state hOuter).2.2
  have hSwap : (before.trail ++ [entry.path]).Perm (entry.path :: before.trail) :=
    List.perm_append_singleton _ _
  rw [hLeft.trail]
  refine ((hLines hCan).2.2.erase entry.path).trans ?_
  rw [hTrail]
  simpa using hSwap.erase entry.path

/- Leaving a file that was entered keeps the file before it,
  if the lines in between kept the new one. -/
theorem keeps_of_left : before.Keeps after := by
  intro hCanAfter
  cases hOuter : entry.outer with
  | none => exact absurd hCanAfter (hLeft.closed hOuter)
  | some state =>
    have hSuspends := (hEntered.suspended state hOuter).1
    have hResumed := hLeft.resumed state hOuter
    refine ⟨⟨?_, ?_⟩, ?_, trail_of_left hEntered hLines hCan hLeft hOuter⟩
    · rw [hSuspends.record, ← hResumed.record, hCanAfter.record]
    · rw [hSuspends.reader, ← hResumed.reader]
      exact hCanAfter.isOpen
    · rw [Session.unread, Session.unread, hResumed.reader, hSuspends.reader]

end

end Source

end CHeader
