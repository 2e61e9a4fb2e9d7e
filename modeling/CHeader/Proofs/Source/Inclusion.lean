import CHeader.Proofs.Source.Course

/-
  Inclusion of files.

  A file that is included may change the number of the line, include further files and define
  macros. When it has been processed, the including file is read on exactly where it was, and the
  same files are on the trail.

  Main declarations:
    * `Source.Restored`
    * `Source.restored_of_includeFile`
    * `Source.include_restores`
-/

namespace CHeader

namespace Source

/-
  Whether the state of a file is the same again: its lines left, the number of the line, the name of
  the file and the records of the open file and of the trail.
-/
structure Restored (before after : Session) : Prop where
  line : after.table.find? lineName = before.table.find? lineName
  file : after.table.find? fileName = before.table.find? fileName
  reader : after.reader = before.reader
  recorded : after.table.find? readerName = before.table.find? readerName
  listed : after.table.find? trailName = before.table.find? trailName
  trail : after.trail.Perm before.trail

section

variable {session final : Session} {step : LineStep}

variable {name : String}

/- A file that is processed while another is open gives back the state of the other. -/
theorem restored_of_processFile (hStep : StepGoes step)
    (hOpen : session.table.contains readerName = true)
    (hExec : exec (processFile step name path encoding) session =
        (.ok pieces, final)) : Restored session final := by
  obtain ⟨entry, entered, last, hEnter, hLines, hLeave⟩ := exec_processFile_eq_ok.1 hExec
  have hEntered := FileEntered.of_exec hEnter
  have hLeft := FileLeft.of_exec hLeave
  rcases lines_of_entered hStep hEntered hLines with ⟨hKeeps, hCan⟩
  cases hOuter : entry.outer with
  | none =>
    have hClosed := (hEntered.anew hOuter).1
    rw [hOpen] at hClosed
    cases hClosed
  | some state =>
    rcases hEntered.suspended state hOuter with ⟨hSuspends, hListed, _⟩
    have hResumed := hLeft.resumed state hOuter
    refine ⟨?_, ?_, ?_, ?_, ?_, ?_⟩
    · rw [hResumed.line, hSuspends.line]
    · rw [hResumed.file, hSuspends.file]
    · rw [hResumed.reader, hSuspends.reader]
    · rw [hResumed.record, hSuspends.record]
    · rw [hLeft.record, hListed]
    · exact trail_of_left hEntered hKeeps hCan hLeft hOuter

theorem exec_ownDirectory_eq_ok (hExec : exec (ownDirectory name) session = (.ok path, final)) :
    final = session := by
  rw [ownDirectory, exec_bind_eq_ok] at hExec
  rcases hExec with ⟨ends, middle, hEnds, hExec⟩
  have hMiddle : middle = session := by
    rw [nameEnds] at hEnds
    split at hEnds <;> cases hEnds
    rfl
  subst hMiddle
  dsimp only at hExec
  split_ifs at hExec
  · rw [exec_map, Prod.mk.injEq] at hExec
    rw [← hExec.2, exec_currentDirectory_snd]
  · cases hExec
    rfl

theorem exec_textOf_eq_ok (hExec : exec (textOf name) session = (.ok text, final)) :
    final = session := by
  rw [textOf, exec_bind_getTable] at hExec
  split at hExec <;> cases hExec
  rfl

/- An inclusion gives back the state that the including file has once the name of the file is known. -/
theorem restored_of_includeFile (hStep : StepGoes step)
    (hName : exec (includedName limit step operand) session = (.ok name, named))
    (hOpen : named.table.contains readerName = true)
    (hExec : exec (includeFile limit step operand) session =
        (.ok text, final)) : Restored named final := by
  rw [includeFile_eq] at hExec
  simp only [exec_bind_eq_ok] at hExec
  rcases hExec with
    ⟨_, _, hFound, path, _, hPath, encoding, _, hEncoding, pieces, _, hPieces, hResult⟩
  rw [hName] at hFound
  cases hFound
  cases exec_ownDirectory_eq_ok hPath
  cases exec_textOf_eq_ok hEncoding
  cases hResult
  exact restored_of_processFile hStep hOpen hPieces

end

/- Whether a name of a file stands in quotes or angle brackets. -/
def isQuotedName (operand : String) : Bool :=
  match (Text.trimEnd operand).toList.head?, (Text.trimEnd operand).toList.getLast? with
  | some first, some last =>
      (first = '"' || first = '<') && (last = '"' || last = '>')
  | _, _ => false

/- Such a name is taken as it is. -/
theorem exec_includedName_quoted (session : Session) (hQuoted : isQuotedName operand = true) :
    exec (includedName limit step operand) session = (.ok (Text.trimEnd operand), session) := by
  rw [isQuotedName] at hQuoted
  split at hQuoted
  · rename_i first last hFirst hLast
    have hEnds : nameEnds (Text.trimEnd operand) = pure (first, last) := by
      simp only [nameEnds, hFirst, hLast]
    simp only [includedName, hEnds, pure_bind]
    rw [if_pos (by simpa using hQuoted)]
    rfl
  · cases hQuoted

/-
  A completed inclusion restores the including file. The directive was read, and its file name
  stands in quotes or angle brackets or is found without reading a further line. Whatever the
  included file contains and includes, the number of the line, the name of the file, the file itself
  with the lines it has left and the files on the trail are as before.
-/
theorem include_restores
    {before session final : Session}
    {limit depth : Nat}
    {line text : String}
    {directive : Directive}
    (hRead : exec nextLine before = (.ok line, session))
    (hLine : Directive.ofLine? line = some directive)
    (hKeyword : directive.keyword = some .includeFile)
    (hName :
      isQuotedName directive.operandText = true ∨
        (exec
            (includedName limit (processNested limit depth)
              directive.operandText)
            session).2 =
          session)
    (hExec :
      exec (processNested limit (depth + 1) line) session =
        (.ok text, final)) :
    Restored session final := by
  have hOpen : session.table.contains readerName = true := by
    have hLineRead := LineRead.of_exec hRead
    rcases hLineRead.counted with ⟨_, _, _, _, _, _, hTable⟩
    rw [Macro.Table.contains, hTable, find?_setText, if_neg (by decide), hLineRead.canRead.record]
    rfl
  have hInclude : exec (includeFile limit (processNested limit depth) directive.operandText)
      session = (.ok text, final) := by
    rw [← hExec, processNested, processLineWith, hLine]
    simp only [processDirective, hKeyword]
  have hSame : (exec (includedName limit (processNested limit depth) directive.operandText)
      session).2 = session :=
    hName.elim (fun hQuoted => by
        rw [exec_includedName_quoted session hQuoted])
      id
  rcases hFound : exec (includedName limit (processNested limit depth) directive.operandText)
      session with ⟨fault | name, named⟩
  · rw [includeFile_eq, exec_bind, hFound] at hInclude
    cases hInclude
  · rw [hFound] at hSame
    cases hSame
    exact restored_of_includeFile (stepGoes_processNested depth) hFound hOpen hInclude

-- A file that includes itself

/- A session about to read a line that includes a file. The file includes itself once more. -/
def includingSession : Session :=
  { world := { tree := { files := [(["d", "a.h"], asciiBytes ("#ifndef X\n#define X 1\n" ++
      "#include \"a.h\"\n#endif\n"))] } },
    table := { names := [(readerName, .record), (lineName, .text "3"),
        (fileName, .text "\"main.h\""), (trailName, .record), (reentriesName, .record),
        (searchPathName, .record), (encodingName, .text "UTF-8")] },
    reader := some
      { path := some "/d/main.h",
        lines := [⟨"#include \"a.h\"\n", 0⟩, ⟨"y\n", 0⟩] },
    trail := ["/d/main.h"] }

/- The line is read, the file is processed twice, and the
  state of the including file is the same again. -/
theorem include_restores_twice :
    (exec nextLine includingSession).1.toOption =
        some "#include \"a.h\"\n" ∧
      (exec (processNested 2 5 "#include \"a.h\"\n")
          (exec nextLine includingSession).2).1.toOption =
        some "" ∧
      Restored (exec nextLine includingSession).2
        (exec (processNested 2 5 "#include \"a.h\"\n")
          (exec nextLine includingSession).2).2 := by
  have hRead : (exec nextLine includingSession).1.toOption = some "#include \"a.h\"\n" := by
    decide +kernel
  have hText : (exec (processNested 2 5 "#include \"a.h\"\n")
          (exec nextLine includingSession).2).1.toOption =
        some "" := by
    decide +kernel
  refine ⟨hRead, hText, ?_⟩
  exact include_restores (exec_eq_of_toOption hRead) rfl rfl
    (.inl (by decide)) (exec_eq_of_toOption hText)

end Source

end CHeader
