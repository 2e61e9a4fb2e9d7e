import CHeader.Proofs.Expr.Literal
import CHeader.Proofs.Macro.Table
import CHeader.Proofs.Source.LogicalLine
import CHeader.Proofs.Source.Run
import CHeader.Source.Process

/-
  Reading of logical lines.

  A session that is ready to read a list of physical lines has an open file with these lines left
  and a line number that can be counted up to the last of them. Reading the next logical line takes
  its physical lines off, counts them and leaves a session that is ready for the rest.

  Main declarations:
    * `Source.Session.read`
    * `Source.Reading`
    * `Source.exec_nextLine`
-/

namespace CHeader

open List

namespace Source

variable {line : LogicalLine} {reader : Reader}

-- The session after a line

/- The table after lines were counted. A line number that cannot be read stays. -/
def countLines (table : Macro.Table) (count : Nat) : Macro.Table :=
  match table.find? lineName with
  | some (.text s) =>
      match Text.readInteger? s with
      | some n =>
          table.setText lineName (toString (n + (count : Int)))
      | none => table
  | _ => table

def byteWarnings (lines : List SourceLine) : List LogEntry :=
  (lines.flatMap (fun line => List.replicate line.warnings ())).map
      (fun _ => ⟨.warning, "Invalid input"⟩)

variable (session : Session)

def Session.read (line : LogicalLine) : Session :=
  { session with
    reader := session.reader.map (fun reader =>
        { reader with
          lines := reader.lines.drop line.lines.length }),
    log := session.log ++ byteWarnings line.lines,
    table := countLines session.table line.lines.length }

@[simp] theorem Session.table_read (line : LogicalLine) :
    (session.read line).table = countLines session.table line.lines.length := rfl

-- Sessions that can read

/-
  Whether a session is ready to read exactly these lines. The number of the last line must be short
  enough to be read as a number.
-/
structure Reading (session : Session) (lines : List SourceLine) : Prop where
  reader : ∃ reader, session.reader = some reader ∧ reader.lines = lines ∧
      reader.closed = false ∧ reader.undecodable = false
  record : session.table.find? readerName = some .record
  number : ∃ n : Nat, session.table.find? lineName = some (.text n.repr) ∧
      (n + lines.length).repr.length ≤ Text.decimalDigitLimit

def Session.unread : Nat :=
  match session.reader with
  | some reader => reader.lines.length
  | none => 0

/- Whether lines of the open file can be read, if there are any. -/
def Session.Readable : Prop :=
  session.table.find? readerName = some .record ∧ ∃ reader,
      session.reader = some reader ∧ reader.closed = false ∧ reader.undecodable = false

theorem length_repr_le {m n limit : Nat} (hLess : m ≤ n)
    (hShort : n.repr.length ≤ limit) (hLimit : 0 < limit) : m.repr.length ≤ limit := by
  rw [Nat.length_repr_le_iff hLimit] at hShort ⊢
  omega

namespace Reading

variable {session : Session} {lines follow : List SourceLine}

/- A session that reads lines has a line number that can be counted. -/
theorem countLines_table (hReading : Reading session lines) : ∃ n : Nat,
    session.table.find? lineName = some (.text n.repr) ∧
      Text.readInteger? n.repr = some (n : Int) ∧ ∀ count, countLines session.table count =
          session.table.setText lineName (n + count).repr := by
  rcases hReading.number with ⟨n, hFind, hShort⟩
  have hRead : Text.readInteger? n.repr = some (n : Int) := by
    rw [Text.readInteger?_repr, if_pos (length_repr_le (Nat.le_add_right _ _) hShort (by decide))]
  refine ⟨n, hFind, hRead, ?_⟩
  intro count
  rw [countLines, hFind]
  simp only [hRead]
  rfl

/- Reading leaves a session that is ready for the lines after the one that was read. -/
theorem read (hReading : Reading session (line.lines ++ follow)) :
    Reading (session.read line) follow := by
  rcases hReading.reader with ⟨reader, hReader, hLines, hClosed, hDecodable⟩
  rcases hReading.number with ⟨n, hFind, hShort⟩
  rcases hReading.countLines_table with ⟨_, hSame, _, hCount⟩
  rw [hFind, Option.some.injEq, Macro.Meaning.text.injEq] at hSame
  refine ⟨?_, ?_, ?_⟩
  · refine ⟨{ reader with
        lines := reader.lines.drop line.lines.length },
      ?_, ?_, hClosed, hDecodable⟩
    · simp [Session.read, hReader]
    · simp [hLines]
  · rw [Session.table_read, hCount, Macro.Table.setText, Macro.Table.find?_set, if_neg (by decide)]
    exact hReading.record
  · refine ⟨n + line.lines.length, ?_, ?_⟩
    · rw [Session.table_read, hCount, Macro.Table.setText, Macro.Table.find?_set, if_pos rfl,
        ← Nat.repr_injective hSame]
    · rw [length_append, ← Nat.add_assoc] at hShort
      exact hShort

/- A table in which the record of the file and the number of the line are the same serves as well. -/
theorem withTable (hReading : Reading session lines)
    (hRecord : table.find? readerName = session.table.find? readerName)
    (hNumber : table.find? lineName = session.table.find? lineName) :
    Reading { session with table := table } lines := by
  refine ⟨hReading.reader, ?_, ?_⟩
  · exact hRecord.trans hReading.record
  · rcases hReading.number with ⟨n, hFind, hShort⟩
    exact ⟨n, hNumber.trans hFind, hShort⟩

theorem readable (hReading : Reading session lines) : session.Readable := by
  rcases hReading.reader with ⟨reader, hReader, -, hClosed, hDecodable⟩
  exact ⟨hReading.record, reader, hReader, hClosed, hDecodable⟩

theorem unread_eq (hReading : Reading session lines) : session.unread = lines.length := by
  rcases hReading.reader with ⟨reader, hReader, hLines, _⟩
  simp [Session.unread, hReader, hLines]

end Reading

-- Runs of the readers

/- Every faulty byte sequence of the lines is reported. -/
theorem exec_reportWarnings (lines : List SourceLine) :
    exec (reportWarnings lines) session = (.ok (), { session with
        log := session.log ++ byteWarnings lines }) := by
  rw [reportWarnings, byteWarnings]
  generalize lines.flatMap (fun line => List.replicate line.warnings ()) = units
  induction units generalizing session with
  | nil =>
    rw [map_nil, append_nil]
    rfl
  | cons _ units ih =>
    rw [List.forM, exec_bind]
    simp only [report, exec_modify]
    rw [← report, ih]
    simp

theorem exec_skipTo (left : Nat) :
    exec (skipTo reader left) session = (.ok (), { session with
        reader := some { reader with
            lines := reader.lines.drop (reader.lines.length - left) },
        log := session.log ++ byteWarnings (reader.lines.take
            (reader.lines.length - left)) }) := by
  rw [skipTo]
  simp only [exec_bind, exec_modify, exec_reportWarnings]

section

variable {session : Session} {lines follow : List SourceLine}

theorem exec_currentReader (hRecord : session.table.find? readerName = some .record)
    (hReader : session.reader = some reader) :
    exec currentReader session = (.ok reader, session) := by
  simp [currentReader, requireRecord, exec_bind, hRecord, hReader]

theorem length_drop_taken {rest : List String} {line : String} {count : Nat}
    (hLine : logicalLine? (reader.lines.map SourceLine.text) = some (line, count, rest)) :
    0 < count ∧ count ≤ reader.lines.length ∧ reader.lines.length - rest.length = count := by
  have hCount := logicalLine?_count hLine
  rw [length_map] at hCount
  omega

/- The session after lines of the open file were taken. -/
def Session.taken (session : Session) (reader : Reader) (count : Nat) : Session :=
  { session with
    reader := some { reader with lines := reader.lines.drop count },
    log := session.log ++ byteWarnings (reader.lines.take count) }

theorem exec_nextLine_open (hRecord : session.table.find? readerName = some .record)
    (hReader : session.reader = some reader) (hClosed : reader.closed = false)
    (hBytes : reader.undecodable = false) :
    exec nextLine session = match logicalLine? (reader.lines.map SourceLine.text) with
      | none =>
        (.error .endOfLines, session.taken reader reader.lines.length)
      | some (line, count, _) =>
        exec (advanceLine count >>= fun _ => pure line) (session.taken reader count) := by
  rw [nextLine, exec_bind, exec_currentReader hRecord hReader]
  simp only [hClosed, hBytes, Bool.false_eq_true, if_false]
  cases hLine : logicalLine? (reader.lines.map SourceLine.text) with
  | none =>
    simp only [exec_bind, exec_skipTo]
    rfl
  | some found =>
    rcases found with ⟨line, count, rest⟩
    simp only [exec_bind, exec_skipTo, (length_drop_taken hLine).2.2]
    rfl

theorem exec_nextLine (hReading : Reading session (line.lines ++ follow)) :
    exec nextLine session = (.ok line.text, session.read line) := by
  rcases hReading.reader with ⟨reader, hReader, hLines, hClosed, hDecodable⟩
  rcases hReading.number with ⟨n, hFind, hShort⟩
  have hRead : Text.readInteger? n.repr = some (n : Int) := by
    rw [Text.readInteger?_repr, if_pos (length_repr_le (Nat.le_add_right _ _) hShort (by decide))]
  have hWrite : Text.writeInteger? ((n : Int) + line.lines.length) =
      some (toString ((n : Int) + line.lines.length)) := by
    have hCounted : (n + line.lines.length).repr.length ≤ Text.decimalDigitLimit :=
      length_repr_le (by rw [length_append]; omega) hShort (by decide)
    rw [Text.writeInteger?, ← Int.natCast_add, Int.natAbs_natCast, if_neg (Nat.not_lt.mpr hCounted)]
  rw [exec_nextLine_open hReading.record hReader hClosed hDecodable, hLines,
    line.logicalLine?_lines_append]
  simp [advanceLine, textOf, exec_bind, hFind, hRead, hWrite, Session.taken, Session.read,
    countLines, hReader, hLines, Except.map]

theorem exec_nextLine?_eq (session : Session) :
    exec nextLine? session = match exec nextLine session with
      | (.ok line, next) => (.ok (some line), next)
      | (.error fault, next) => (if fault = .endOfLines then .ok none else .error fault, next) := by
  rw [nextLine?, exec_tryCatch, exec_map]
  rcases exec nextLine session with ⟨fault | line, next⟩
  · simp only [Except.map]
    split_ifs <;> rfl
  · rfl

theorem exec_nextLine? (hReading : Reading session (line.lines ++ follow)) :
    exec nextLine? session = (.ok (some line.text), session.read line) := by
  rw [exec_nextLine?_eq, exec_nextLine hReading]

theorem exec_nextLine?_of_spent (hReadable : session.Readable) (hSpent : session.unread = 0) :
    ∃ next, exec nextLine? session = (.ok none, next) ∧ next.table = session.table := by
  obtain ⟨hRecord, reader, hReader, hClosed, hBytes⟩ := hReadable
  have hLines : reader.lines = [] := by
    rw [Session.unread, hReader] at hSpent
    exact length_eq_zero_iff.1 hSpent
  have hLine := exec_nextLine_open hRecord hReader hClosed hBytes
  rw [hLines] at hLine
  refine ⟨session.taken reader 0, ?_, rfl⟩
  rw [exec_nextLine?_eq, hLine]
  rfl

theorem exec_linesLeft (session : Session) :
    exec linesLeft session = (.ok session.unread, session) := by
  rw [linesLeft, exec_bind, exec_get, Session.unread]
  dsimp only
  cases session.reader <;> rfl

end

end Source

end CHeader
