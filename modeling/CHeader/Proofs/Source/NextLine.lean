import CHeader.Proofs.Source.Reading

/-
  What an attempt to read a line does.

  An attempt on a file that is open takes the physical lines of the next logical line and counts
  them. If no line is left, if the file is closed or if the number of the line cannot be counted on,
  it fails and counts nothing.

  Main declarations:
    * `Source.LineRead`
    * `Source.LineMissed`
    * `Source.exec_nextLine_cases`
-/

namespace CHeader

namespace Source

namespace Session

structure CanRead (session : Session) : Prop where
  record : session.table.find? readerName = some .record
  isOpen : ∃ reader, session.reader = some reader ∧ reader.closed = false

end Session

-- Reading a line

/-
  What reading a line does: the open file has the lines less
  that were taken, one at least, and these are counted.
-/
structure LineRead (before after : Session) : Prop where
  canRead : before.CanRead
  stillOpen : ∃ reader, after.reader = some reader ∧ reader.closed = false
  fewer : after.unread < before.unread
  counted : ∃ old n text, before.table.find? lineName = some (.text old) ∧
      Text.readInteger? old = some n ∧
      Text.writeInteger? (n + ((before.unread - after.unread : Nat) : Int)) = some text ∧
      after.table = before.table.setText lineName text
  trail : after.trail = before.trail
  reentries : after.reentries = before.reentries

/- What a failed attempt to read a line does: lines may have been used up, but none were counted. -/
structure LineMissed (before after : Session) : Prop where
  table : after.table = before.table
  canRead : after.CanRead → before.CanRead
  noMore : after.unread ≤ before.unread
  trail : after.trail = before.trail
  reentries : after.reentries = before.reentries

section

variable {session next : Session}

variable {reader : Reader}

/- The open file is found on record or the step fails. -/
theorem exec_currentReader_cases (session : Session) : (∃ reader,
    session.table.find? readerName = some .record ∧ session.reader = some reader ∧
      exec currentReader session = (.ok reader, session)) ∨
    ∃ fault, fault ≠ Fault.endOfLines ∧ exec currentReader session = (.error fault, session) := by
  rw [currentReader, requireRecord]
  simp only [exec_bind, exec_getTable]
  cases hRecord : session.table.find? readerName with
  | none => exact .inr ⟨.missingName, (by simp), rfl⟩
  | some meaning =>
    cases meaning with
    | text s => exact .inr ⟨.wrongKind, (by simp), rfl⟩
    | function => exact .inr ⟨.wrongKind, (by simp), rfl⟩
    | record =>
      cases hReader : session.reader with
      | none =>
        refine .inr ⟨.wrongKind, (by simp), ?_⟩
        simp [hReader]
      | some reader =>
        refine .inl ⟨reader, rfl, rfl, ?_⟩
        simp [hReader]

/- The number of the line is counted on or the step fails. -/
theorem exec_advanceLine (session : Session) (count : Nat) :
    (∃ old n text, session.table.find? lineName = some (.text old) ∧
        Text.readInteger? old = some n ∧ Text.writeInteger? (n + (count : Int)) = some text ∧
        exec (advanceLine count) session = (.ok (), { session with
            table := session.table.setText lineName text })) ∨
      ∃ fault, fault ≠ Fault.endOfLines ∧ exec (advanceLine count) session =
          (.error fault, session) := by
  rw [advanceLine, textOf]
  simp only [exec_bind, exec_getTable]
  cases hFind : session.table.find? lineName with
  | none => exact .inr ⟨.missingName, (by simp), rfl⟩
  | some meaning =>
    cases meaning with
    | function => exact .inr ⟨.wrongKind, (by simp), rfl⟩
    | record => exact .inr ⟨.wrongKind, (by simp), rfl⟩
    | text old =>
      cases hRead : Text.readInteger? old with
      | none =>
        refine .inr ⟨.badValue, (by simp), ?_⟩
        simp [hRead]
      | some n =>
        cases hWrite : Text.writeInteger? (n + (count : Int)) with
        | none =>
          refine .inr ⟨.badValue, (by simp), ?_⟩
          simp [hRead, hWrite]
        | some text =>
          refine .inl ⟨old, n, text, rfl, hRead, hWrite, ?_⟩
          simp [hRead, hWrite]

/- What reading from an open file does. -/
theorem nextLine_open_cases (hReadable : session.Readable) :
    (∃ line next, exec nextLine session = (.ok line, next) ∧ LineRead session next) ∨
      ∃ fault next, exec nextLine session = (.error fault, next) ∧ LineMissed session next ∧
          (fault = .endOfLines → next.CanRead) := by
  obtain ⟨hRecord, reader, hReader, hClosed, hBytes⟩ := hReadable
  have hCan : session.CanRead := ⟨hRecord, reader, hReader, hClosed⟩
  have hTaken : ∀ count, LineMissed session (session.taken reader count) ∧
      (session.taken reader count).CanRead := by
    intro count
    refine ⟨⟨rfl, fun _ => hCan, ?_, rfl, rfl⟩, hRecord, _, rfl, hClosed⟩
    rw [Session.unread, Session.unread, hReader]
    simp [Session.taken]
  rw [exec_nextLine_open hRecord hReader hClosed hBytes]
  cases hLine : logicalLine? (reader.lines.map SourceLine.text) with
  | none =>
    exact .inr ⟨.endOfLines, _, rfl, (hTaken _).1, fun _ => (hTaken _).2⟩
  | some found =>
    rcases found with ⟨line, count, rest⟩
    rcases length_drop_taken hLine with ⟨hSome, hEnough, _⟩
    rcases exec_advanceLine (session.taken reader count) count with
      ⟨old, n, text, hFind, hRead, hWrite, hExec⟩ |
      ⟨fault, hFault, hExec⟩
    · have hUnread : ((session.taken reader count).unread : Nat) = session.unread - count := by
        rw [Session.unread, Session.unread, hReader]
        simp [Session.taken]
      have hBefore : session.unread = reader.lines.length := by
        rw [Session.unread, hReader]
      refine .inl ⟨line, { session.taken reader count with
          table := session.table.setText lineName text },
          ?_, hCan, ⟨_, rfl, hClosed⟩, ?_, ⟨old, n, text, hFind, hRead, ?_, rfl⟩, rfl, rfl⟩
      · simp only [exec_bind, hExec]
        rfl
      · change (session.taken reader count).unread < session.unread
        omega
      · change Text.writeInteger? (n + ((session.unread -
            (session.taken reader count).unread : Nat) : Int)) = some text
        rw [hUnread, Nat.sub_sub_self (by omega), hWrite]
    · refine .inr ⟨fault, _, ?_, (hTaken count).1, fun hEnd => absurd hEnd hFault⟩
      simp only [exec_bind, hExec]

theorem exec_nextLine_of_not_readable (hReadable : ¬ session.Readable) :
    ∃ fault, fault ≠ Fault.endOfLines ∧ exec nextLine session = (.error fault, session) := by
  rcases exec_currentReader_cases session with
    ⟨reader, hRecord, hReader, hExec⟩ | ⟨fault, hFault, hExec⟩
  · rw [nextLine, exec_bind, hExec]
    cases hClosed : reader.closed with
    | true => exact ⟨.badValue, by simp, by simp [hClosed]⟩
    | false =>
      cases hBytes : reader.undecodable with
      | true => exact ⟨.undecodable, by simp, by simp [hClosed, hBytes]⟩
      | false => exact absurd ⟨hRecord, reader, hReader, hClosed, hBytes⟩ hReadable
  · refine ⟨fault, hFault, ?_⟩
    rw [nextLine, exec_bind, hExec]

/- An attempt to read a line takes it off and counts it, or fails; if it fails because no line is
  left the file is still open. -/
theorem exec_nextLine_cases (session : Session) : (∃ line next,
    exec nextLine session = (.ok line, next) ∧ LineRead session next) ∨
    ∃ fault next, exec nextLine session = (.error fault, next) ∧ LineMissed session next ∧
        (fault = .endOfLines → next.CanRead) := by
  by_cases hReadable : session.Readable
  · exact nextLine_open_cases hReadable
  · obtain ⟨fault, hFault, hExec⟩ := exec_nextLine_of_not_readable hReadable
    exact .inr ⟨fault, session, hExec, ⟨rfl, id, Nat.le_refl _, rfl, rfl⟩,
      fun hEnd => absurd hEnd hFault⟩

theorem LineRead.of_exec (hExec : exec nextLine session = (.ok line, next)) :
    LineRead session next := by
  rcases exec_nextLine_cases session with ⟨_, _, hFound, hRead⟩ | ⟨_, _, hFound, -⟩ <;>
    rw [hExec] at hFound <;> cases hFound
  exact hRead

theorem LineMissed.of_exec (hExec : exec nextLine session = (.error fault, next)) :
    LineMissed session next ∧ (fault = .endOfLines → next.CanRead) := by
  rcases exec_nextLine_cases session with ⟨_, _, hFound, -⟩ | ⟨_, _, hFound, hMissed⟩ <;>
    rw [hExec] at hFound <;> cases hFound
  exact hMissed

end

end Source

end CHeader
