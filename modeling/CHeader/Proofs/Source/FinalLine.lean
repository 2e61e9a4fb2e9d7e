import CHeader.Proofs.Macro.Trailing
import CHeader.Proofs.Source.Append
import CHeader.Proofs.Source.LineBreak

/-
  The last line of a file.

  A line that is processed when no line is left has the same outcome with a line break behind it, up
  to that line break and to what was reported, except in three cases: the line ends right after the
  name of a directive, its text waits for an argument list or has a string or an argument list open,
  or it sets the line number with nothing behind the number. So a file whose last line is none of
  these can go without its last line break.

  Main declarations:
    * `Source.SameEnd`
    * `Source.EndsWhole`
    * `Source.layout_of_lines`
-/

namespace CHeader

namespace Source

open Directive Session

open List hiding concat

open Text Macro

variable {step : LineStep} {session : Session} {line text : String} {cs : List Char}

-- Texts that come to rest

/- The white space at the end of a text. -/
def trailing (line : String) : String :=
  String.ofList (line.toList.reverse.takeWhile isSpace).reverse

section

variable {line : String}

theorem trimEnd_append_trailing (line : String) : trimEnd line ++ trailing line = line := by
  rw [trimEnd, trailing, ← String.ofList_append, dropEnd, ← reverse_append,
    takeWhile_append_dropWhile, reverse_reverse, String.ofList_toList]

theorem isSpace_trailing : ∀ c ∈ (trailing line).toList, isSpace c = true := by
  intro c hMem
  rw [trailing, String.toList_ofList, mem_reverse] at hMem
  exact mem_takeWhile_imp hMem

theorem isSpace_getLast?_trimEnd : ∀ c ∈ (trimEnd line).toList.getLast?, isSpace c = false := by
  intro c hLast
  rw [trimEnd, String.toList_ofList, dropEnd, getLast?_reverse] at hLast
  have hHead := head?_dropWhile_not isSpace line.toList.reverse
  rw [Option.mem_def.1 hLast] at hHead
  simpa using hHead

theorem trimEnd_append_break (line : String) : trimEnd (line ++ "\n") = trimEnd line := by
  rw [trimEnd, String.toList_append, dropEnd, reverse_append]
  rfl

theorem trailing_append_break (line : String) :
    trailing (line ++ "\n") = trailing line ++ "\n" := by
  have hChars : (line ++ "\n").toList.reverse = '\n' :: line.toList.reverse := by
    simp
  have hBlank : isSpace '\n' = true := by decide
  rw [trailing, hChars, takeWhile_cons_of_pos hBlank, reverse_cons, String.ofList_append]
  rfl

end

/-
  Whether the expansion of a line comes to rest without a look at further lines: no string or
  argument list is open at its end, and no name waits there for its arguments.
-/
def Rested (limit : Nat) (step : LineStep) (session : Session) (line text : String) : Prop :=
  session.table.Worded ∧ ∃ list done, tokens session.table [] (trimEnd line) =
      (list, false) ∧
        spell list = trimEnd line ∧
        Rests step session limit list done ∧
        text = spell done ++ trailing line

theorem Rested.exec_expandLine (hRested : Rested limit step session line text) :
    exec (Macro.expandLine limit step line) session = (.ok text, session) ∧
      exec (Macro.expandLine limit step (line ++ "\n")) session =
        (.ok (text ++ "\n"), session) := by
  obtain ⟨hWorded, list, done, hTokens, hSpelled, hRests, rfl⟩ := hRested
  have hGap : ∀ gap : String, (∀ c ∈ gap.toList, isSpace c = true) →
      exec (Macro.expandLine limit step (trimEnd line ++ gap)) session =
        (.ok (spell done ++ gap), session) :=
    fun gap hSpace =>
      exec_expandLine_gap hSpace isSpace_getLast?_trimEnd hWorded hTokens hSpelled hRests
  constructor
  · rw [← hGap _ isSpace_trailing, trimEnd_append_trailing]
  · have hMore := hGap (trailing (line ++ "\n")) isSpace_trailing
    rw [← trimEnd_append_break, trimEnd_append_trailing,
      trailing_append_break, ← String.append_assoc] at hMore
    exact hMore

/- The number of a line stays with a line break behind it. -/
theorem numberAndRest?_append_break (hNumber : numberAndRest? skip cs = some found) :
    numberAndRest? skip (cs ++ ['\n']) = some found := by
  fun_induction numberAndRest? skip cs with
  | case1 => cases hNumber
  | case2 =>
    rename_i c rest hDigit digits d more hDrop hBlank tail
    have hTail : (d :: more ++ ['\n']).dropWhile isBlank = Text.withBreak tail :=
      dropWhile_append_break (by decide) _
    rw [cons_append, numberAndRest?, if_pos hDigit,
      ← cons_append, takeWhile_append_stop (by decide), dropWhile_append_stop (by decide), hDrop,
      ← hNumber, ← takeWhile_withBreak, ← hTail]
    exact if_pos hBlank
  | case3 =>
    rename_i c rest hDigit digits d more hDrop hBlank ih
    rw [cons_append, numberAndRest?, if_pos hDigit,
      ← cons_append, takeWhile_append_stop (by decide), dropWhile_append_stop (by decide), hDrop]
    exact (if_neg hBlank).trans (ih hNumber)
  | case4 => cases hNumber
  | case5 =>
    rename_i hDigit ih
    rw [cons_append, numberAndRest?, if_neg hDigit]
    exact ih hNumber
  | case6 =>
    rename_i ih
    exact ih hNumber

/- A group that is opened at the end of a file has no end. -/
theorem processGroup_error (hStep : StepGoes step) (hSpent : session.unread = 0)
    (keyword : Keyword) (line argument : String) :
    ∃ fault next, exec (processGroup limit step keyword line argument) session =
        (.error fault, next) := by
  rcases hGroup : exec (processGroup limit step keyword line argument) session with
    ⟨fault | text, next⟩
  · exact ⟨fault, next, rfl⟩
  rw [processGroup, exec_bind_eq_ok] at hGroup
  obtain ⟨selected, chosen, hSelected, hGroup⟩ := hGroup
  have hAt : Moment.At ⟨session, [], [⟨"", none, 0, 0, true⟩]⟩ ⟨"", none, []⟩ := ⟨0, 0, true, rfl⟩
  obtain ⟨_, _, _, hKept, _⟩ := (@Compositional.groupSelected _ processing_goes.toCompositional []
      step step (fun _ _ h => stepGoes_iff.1 hStep _ _ (.inl h)) _ keyword
      line argument _ _ hAt (List.Subset.refl _)).of_exec hSelected
  have hKeeps : session.Keeps chosen := hKept
  rw [exec_bind_eq_ok] at hGroup
  obtain ⟨_, _, hCount, hGroup⟩ := hGroup
  rw [exec_linesLeft] at hCount
  cases hCount
  rw [processGroupFrom, exec_bind_eq_ok] at hGroup
  obtain ⟨found, rest, hFound, -⟩ := hGroup
  have hRead := LineRead.of_exec hFound
  have hFewer := hRead.fewer
  have hNoMore := (hKeeps hRead.canRead).2.1
  omega

-- Outcomes of the last line

/- A session without what was reported. -/
def Session.silent (session : Session) : Session := { session with log := [] }

/- Whether two outcomes of a line are the same up to a line
  break at the end of the text and to what was reported. -/
def SameEnd (first second : Except Fault String × Session) : Prop :=
  match first.1, second.1 with
  | .ok text, .ok more =>
      (more = text ∨ more = text ++ "\n") ∧ second.2.silent = first.2.silent
  | .error _, .error _ => True
  | _, _ => False

/-
  Whether a line at the end of a file can go without a line break: it does not end right after the
  name of a directive, the expansion of a text comes to rest, and so does that of a line number,
  behind which something is left.
-/
structure EndsWhole (limit : Nat) (step : LineStep) (session : Session) (line : String) : Prop where
  bare?_eq_none : bare? line.toList = none
  text : ofLine? line = none → ∃ text, Rested limit step session line text
  number : ∀ directive, ofLine? line = some directive →
      directive.keyword = some .setLine → ∃ text, Rested limit step session
          (String.ofList directive.afterKeyword) text ∧
            (numberAndRest? 0 text.toList).isSome = true

section

variable {step : LineStep} {session : Session} {line : String} {directive : Directive}

theorem SameEnd.refl (result : Except Fault String × Session) : SameEnd result result := by
  rcases result with ⟨fault | text, session⟩
  · trivial
  · exact ⟨.inl rfl, rfl⟩

theorem ofLine?_append_break (hBare : bare? line.toList = none) :
    ofLine? (line ++ "\n") = (ofLine? line).map ended := by
  have hChars : (line ++ "\n").toList = line.toList ++ ['\n'] := String.toList_append
  rw [ofLine?, hChars, ofChars?_append_break, hBare]
  rfl

theorem ofList_withBreak (cs : List Char) : String.ofList (Text.withBreak cs) = String.ofList cs ∨
    String.ofList (Text.withBreak cs) = String.ofList cs ++ "\n" := by
  unfold Text.withBreak
  split_ifs with hEmpty
  · exact .inl (by rw [isEmpty_iff.1 hEmpty])
  · exact .inr (by rw [String.ofList_append])

theorem define_append_break (hBare : bare? line.toList = none)
    (hLine : ofLine? line = some directive) (table : Table) :
    define (line ++ "\n") table = define line table := by
  have hOperand : Definition.ofText? (operandOf (line ++ "\n")) =
      Definition.ofText? (operandOf line) := by
    rw [operandOf, operandOf, ofLine?_append_break hBare, hLine]
    show Definition.ofText? (String.ofList (Text.withBreak directive.operand)) =
      Definition.ofText? (String.ofList directive.operand)
    rcases ofList_withBreak directive.operand with hSame | hMore
    · rw [hSame]
    · rw [hMore, Definition.ofText?_append_break]
  rw [define, define, hOperand]

theorem argument_ended (directive : Directive) : directive.ended.argument = directive.argument := by
  show String.ofList ((Text.withBreak directive.operand).takeWhile
      (!isSpace ·)) = directive.argument
  unfold Text.withBreak
  split_ifs with hEmpty
  · rw [Directive.argument, isEmpty_iff.1 hEmpty]
  · rw [takeWhile_append_stop (by decide)]
    rfl

theorem includeFile_ended (directive : Directive) :
    includeFile limit step directive.ended.operandText =
      includeFile limit step directive.operandText := by
  have hName : trimEnd directive.ended.operandText = trimEnd directive.operandText := by
    rw [operandText, operandText, ended]
    rcases ofList_withBreak directive.operand with hSame | hMore
    · rw [hSame]
    · rw [hMore, trimEnd_append_break]
  rw [includeFile, includeFile, hName]

theorem exec_setLine_ended (hRested :
    Rested limit step session (String.ofList directive.afterKeyword) text)
    (hNumber : (numberAndRest? 0 text.toList).isSome = true) :
    exec (setLine limit step directive.ended.afterKeyword) session =
      exec (setLine limit step directive.afterKeyword) session := by
  obtain ⟨hText, hMore⟩ := hRested.exec_expandLine
  obtain ⟨found, hFound⟩ := Option.isSome_iff_exists.1 hNumber
  have hAfter : numberAndRest? 0 (text ++ "\n").toList = some found := by
    rw [String.toList_append]
    exact numberAndRest?_append_break hFound
  rw [setLine, setLine, exec_bind, exec_bind, hText]
  rcases ofList_withBreak directive.afterKeyword with hSame | hNext
  · rw [ended, hSame, hText]
  · rw [ended, hNext, hMore]
    simp only [hFound, hAfter]

theorem sameEnd_warn (line other : String) : SameEnd (exec (warn line >>= fun _ => pure "") session)
    (exec (warn other >>= fun _ => pure "") session) := by
  simp only [warn, exec_bind]
  rcases exec (textOf fileName) session with ⟨fault | file, next⟩
  · trivial
  dsimp only
  rcases exec (textOf lineName) next with ⟨fault | number, last⟩
  · trivial
  exact ⟨.inl rfl, rfl⟩

theorem sameEnd_processDirective (hStep : StepGoes step) (hSpent : session.unread = 0)
    (hEnds : EndsWhole limit step session line) (hLine : ofLine? line = some directive) :
    SameEnd (exec (processDirective limit step directive line) session)
      (exec (processDirective limit step directive.ended (line ++ "\n")) session) := by
  have hGroup : ∀ keyword other argument more, SameEnd
      (exec (processGroup limit step keyword line argument) session)
      (exec (processGroup limit step keyword other more) session) := by
    intro keyword other argument more
    obtain ⟨_, _, hFirst⟩ := processGroup_error hStep hSpent keyword line argument
    obtain ⟨_, _, hSecond⟩ := processGroup_error hStep hSpent keyword other more
    rw [hFirst, hSecond]
    trivial
  have hKeyword : directive.ended.keyword = directive.keyword := rfl
  rw [processDirective, processDirective, hKeyword]
  cases hName : directive.keyword with
  | none => exact .refl _
  | some keyword =>
    cases keyword with
    | includeFile =>
      simp only [includeFile_ended]
      exact .refl _
    | ifDefined => exact hGroup _ _ _ _
    | ifUndefined => exact hGroup _ _ _ _
    | ifTrue => exact hGroup _ _ _ _
    | define =>
      simp only [defineMacro, define_append_break hEnds.bare?_eq_none hLine]
      exact .refl _
    | undefine =>
      simp only [argument_ended]
      exact .refl _
    | error => trivial
    | warning => exact sameEnd_warn _ _
    | setLine =>
      obtain ⟨text, hRested, hNumber⟩ := hEnds.number directive hLine hName
      simp only [exec_bind, exec_setLine_ended hRested hNumber]
      exact .refl _
    | pragma => exact .refl _
    | elseGroup => trivial
    | elseIf => trivial
    | endIf => trivial

theorem sameEnd_processLineWith (hStep : StepGoes step) (hSpent : session.unread = 0)
    (hEnds : EndsWhole limit step session line) :
    SameEnd (exec (processLineWith limit step line) session)
      (exec (processLineWith limit step (line ++ "\n")) session) := by
  rw [processLineWith, processLineWith, ofLine?_append_break hEnds.bare?_eq_none]
  cases hLine : ofLine? line with
  | none =>
    obtain ⟨text, hRested⟩ := hEnds.text hLine
    obtain ⟨hText, hMore⟩ := hRested.exec_expandLine
    simp only [Option.map_none, hText, hMore]
    exact ⟨.inr rfl, rfl⟩
  | some directive =>
    exact sameEnd_processDirective hStep hSpent hEnds hLine

end

-- The end of a file

namespace Session

theorem Readable.canRead (hReadable : session.Readable) : session.CanRead := by
  obtain ⟨hRecord, reader, hReader, hClosed, _⟩ := hReadable
  exact ⟨hRecord, reader, hReader, hClosed⟩

theorem readable_withLines_iff (lines : List SourceLine) :
    (session.withLines lines).Readable ↔ session.Readable := by
  simp [Readable, withLines]

end Session

section

variable {step : LineStep} {session first second : Session}

/- A file that cannot be read ends the run. -/
theorem exec_nextLine?_of_not_readable (hReadable : ¬ session.Readable) :
    ∃ fault next, exec nextLine? session = (.error fault, next) := by
  obtain ⟨fault, hFault, hExec⟩ := exec_nextLine_of_not_readable hReadable
  simp [exec_nextLine?_eq, hExec, hFault]

/- Whether two outcomes of a text are the same up to a line break at the end. -/
def SameText (first second : Except Fault (List String) × Session) : Prop :=
  match first.1, second.1 with
  | .ok pieces, .ok more =>
      (concat more = concat pieces ∨ concat more = concat pieces ++ "\n") ∧
        second.2.table = first.2.table
  | .error _, .error _ => True
  | _, _ => False

theorem sameText_spent (hSilent : second.silent = first.silent)
    (hSpent : first.CanRead → first.unread = 0) (hText : more = piece ∨ more = piece ++ "\n")
    (count : Nat) :
    SameText (exec (processLines step (count + 1) [piece]) first)
      (exec (processLines step (count + 1) [more]) second) := by
  have hTable : second.silent.table = first.silent.table := congrArg table hSilent
  have hReader : second.silent.reader = first.silent.reader := congrArg reader hSilent
  change second.table = first.table at hTable
  change second.reader = first.reader at hReader
  rw [processLines, processLines, exec_bind, exec_bind]
  by_cases hReadable : first.Readable
  · have hOther : second.Readable := by
      rwa [Session.Readable, hTable, hReader]
    have hNone := hSpent hReadable.canRead
    have hAlso : second.unread = 0 := by
      rwa [unread, hReader]
    obtain ⟨_, hFirst, hKept⟩ := exec_nextLine?_of_spent hReadable hNone
    obtain ⟨_, hSecond, hSame⟩ := exec_nextLine?_of_spent hOther hAlso
    rw [hFirst, hSecond]
    refine ⟨?_, by simp [hKept, hSame, hTable]⟩
    simpa using hText
  · have hOther : ¬ second.Readable := by
      rwa [Session.Readable, hTable, hReader]
    obtain ⟨_, _, hFirst⟩ := exec_nextLine?_of_not_readable hReadable
    obtain ⟨_, _, hSecond⟩ := exec_nextLine?_of_not_readable hOther
    rw [hFirst, hSecond]
    trivial

/- The step for the lines inside the lines of a file. -/
def innerStep (limit : Nat) : LineStep := processNested (limit + 1) limit

theorem sameText_step (hSpent : session.unread = 0)
    (hEnd : SameEnd (exec (processLine limit line) session)
      (exec (processLine limit other) session)) (count : Nat) :
    SameText (exec (processLine limit line >>= fun piece =>
        processLines (processLine limit) (count + 1) [piece]) session)
      (exec (processLine limit other >>= fun piece =>
        processLines (processLine limit) (count + 1) [piece]) session) := by
  rw [exec_bind, exec_bind]
  rcases hFirst : exec (processLine limit line) session with
    ⟨fault | piece, next⟩ <;>
    rcases hSecond : exec (processLine limit other) session with ⟨other | more, last⟩ <;>
    rw [hFirst, hSecond] at hEnd
  · trivial
  · cases hEnd
  · cases hEnd
  · refine sameText_spent hEnd.2 ?_ hEnd.1 count
    intro hCan
    have hKeeps := (stepGoes_processNested _).keeps hFirst
    exact Nat.le_zero.1 (hSpent ▸ (hKeeps hCan).2.1)

/- What is to hold of the last line of a file when it is read. -/
def LastEndsWhole (limit : Nat) (session : Session) (last : String) : Prop :=
  ∀ line next, exec nextLine (session.withLines [⟨last, 0⟩]) = (.ok line, next) →
      EndsWhole (limit + 1) (innerStep limit) next line

theorem exec_nextLine_last (hReadable : session.Readable) (text : String) :
    exec nextLine (session.withLines [⟨text, 0⟩]) =
      match logicalLine? [text] with
      | none => (.error .endOfLines, session.withLines [])
      | some (line, count, _) =>
        exec (advanceLine count >>= fun _ => pure line) (session.withLines []) := by
  obtain ⟨hRecord, reader, hReader, hClosed, hBytes⟩ := hReadable
  have hSet : (session.withLines [⟨text, 0⟩]).reader =
      some { reader with lines := [⟨text, 0⟩] } := by
    simp [withLines, hReader]
  have hTaken : ∀ count, 0 < count → (session.withLines [⟨text, 0⟩]).taken
      { reader with lines := [⟨text, 0⟩] } count =
          session.withLines [] := by
    intro count hCount
    obtain ⟨count, rfl⟩ := Nat.exists_eq_succ_of_ne_zero hCount.ne'
    simp [taken, withLines, hReader, byteWarnings]
  have hKept : (session.withLines [⟨text, 0⟩]).table.find? readerName = some .record := hRecord
  rw [exec_nextLine_open hKept hSet hClosed hBytes]
  cases hText : logicalLine? [text] with
  | none =>
    simp only [map_cons, map_nil, hText]
    rw [hTaken _ (by simp)]
  | some found =>
    simp only [map_cons, map_nil, hText]
    rw [hTaken _ (logicalLine?_count hText).1]

/- The last physical line of a file with and without a line break. -/
theorem sameText_processLines (hEnds : LastEndsWhole limit session last) (count : Nat) :
    SameText (exec (processLines (processLine (limit + 1)) (count + 2) [])
        (session.withLines [⟨last, 0⟩]))
      (exec (processLines (processLine (limit + 1)) (count + 2) [])
        (session.withLines [⟨last ++ "\n", 0⟩])) := by
  rw [processLines, exec_bind, exec_bind]
  by_cases hReadable : session.Readable
  · have hNext := exec_nextLine_last hReadable
    rcases logicalLine?_append_break last with ⟨hNone, hAlso⟩ | ⟨text, more, hText, hMore, hSame⟩
    · -- the line is not complete either way
      simp only [exec_nextLine?_eq, hNext, hNone, hAlso]
      exact ⟨.inl rfl, rfl⟩
    · have hFirst := hNext last
      have hSecond := hNext (last ++ "\n")
      simp only [hText, exec_bind] at hFirst
      simp only [hMore, exec_bind] at hSecond
      have hSpent : (session.withLines []).unread = 0 := by
        cases hReader : session.reader <;> simp [withLines, unread, hReader]
      rcases exec_advanceLine (session.withLines []) 1 with
        ⟨_, _, number, _, _, _, hCount⟩ | ⟨fault, hFault, hCount⟩
      · obtain ⟨counted, hCounted, hLeft⟩ : ∃ counted : Session,
            exec (advanceLine 1) (session.withLines []) = (.ok (), counted) ∧
              counted.unread = 0 := ⟨_, hCount, hSpent⟩
        rw [hCounted] at hFirst hSecond
        have hEnd : SameEnd (exec (processLine (limit + 1) text) counted)
            (exec (processLine (limit + 1) more) counted) := by
          rcases hSame with rfl | rfl
          · exact .refl _
          · exact sameEnd_processLineWith (stepGoes_processNested _) hLeft (hEnds _ _ hFirst)
        simp only [exec_nextLine?_eq, hFirst, hSecond]
        exact sameText_step hLeft hEnd count
      · rw [hCount] at hFirst hSecond
        simp only [exec_nextLine?_eq, hFirst, hSecond, hFault]
        trivial
  · have hNone : ∀ lines, ¬ (session.withLines lines).Readable :=
      fun lines => mt (readable_withLines_iff lines).1 hReadable
    obtain ⟨_, _, hFirst⟩ := exec_nextLine?_of_not_readable (hNone [⟨last, 0⟩])
    obtain ⟨_, _, hSecond⟩ := exec_nextLine?_of_not_readable (hNone [⟨last ++ "\n", 0⟩])
    rw [hFirst, hSecond]
    trivial

end

-- Texts that end without a line break

section

variable {session after : Session} {first last : String} {lines : List LogicalLine}
variable {pieces : List String}

theorem cutLines_of_line (line : List Char) (hLine : ∀ c ∈ cs, endsLine c = false) :
    cutLines line cs = (if line.reverse ++ cs = [] then []
        else [line.reverse ++ cs]) ∧
      cutLines line (cs ++ ['\n']) = [line.reverse ++ cs ++ ['\n']] := by
  induction cs generalizing line with
  | nil =>
    refine ⟨?_, ?_⟩
    · simp [cutLines]
    · simp [cutLines]
  | cons c rest ih =>
    have hHere := hLine c mem_cons_self
    obtain ⟨hWhole, hBreak⟩ := ih (c :: line) (fun d hd => hLine d (mem_cons_of_mem c hd))
    have hPair : ∀ more follow, c = '\r' → more = '\n' :: follow → False := by
      rintro _ _ rfl -
      exact absurd hHere (by decide)
    rw [cons_append, cutLines.eq_3 _ _ _ (hPair _),
      cutLines.eq_3 _ _ _ (hPair _), hHere, hWhole, hBreak]
    simp

theorem textLines_of_line (hSome : last ≠ "") (hLine : ∀ c ∈ last.toList, endsLine c = false) :
    textLines last = [⟨last, 0⟩] ∧ textLines (last ++ "\n") = [⟨last ++ "\n", 0⟩] := by
  obtain ⟨hWhole, hBreak⟩ := cutLines_of_line [] hLine
  have hChars : (last ++ "\n").toList = last.toList ++ ['\n'] := String.toList_append
  have hList : last.toList ≠ [] := mt String.toList_eq_nil_iff.1 hSome
  rw [textLines, textLines, splitLines, splitLines, hChars, hWhole, hBreak]
  simp [hList]

theorem SameText.map (hSame : SameText result other) (pieces : List String) :
    SameText (result.1.map (pieces ++ ·), result.2) (other.1.map (pieces ++ ·), other.2) := by
  rcases result with ⟨fault | found, next⟩ <;>
    rcases other with ⟨fault | more, last⟩
  · trivial
  · exact hSame
  · exact hSame
  · obtain ⟨hText, hTable⟩ := hSame
    refine ⟨?_, hTable⟩
    rcases hText with hText | hText
    · exact .inl (by simp [hText])
    · exact .inr (by simp [hText, String.append_assoc])

theorem textLines_append_of_broken (hBreak : ∀ c ∈ first.toList.getLast?, c = '\n')
    (second : String) : textLines (first ++ second) = textLines first ++ textLines second := by
  cases hLast : first.toList.getLast? with
  | none =>
    have hEmpty : first = "" := String.toList_eq_nil_iff.1 (getLast?_eq_none_iff.1 hLast)
    subst hEmpty
    rfl
  | some c =>
    rw [hBreak c hLast] at hLast
    exact textLines_append second hLast

/- A text whose last line can go without a line break. -/
theorem sameText_processText (hBreak : ∀ c ∈ first.toList.getLast?, c = '\n')
    (hLines : textLines first = physical lines)
    (hFirst : processText (limit + 1) session first = (.ok pieces, after)) (hSome : last ≠ "")
    (hLast : ∀ c ∈ last.toList, endsLine c = false) (hEnds : LastEndsWhole limit after last) :
    SameText (processText (limit + 1) session (first ++ last))
      (processText (limit + 1) session (first ++ last ++ "\n")) := by
  obtain ⟨hOne, hMore⟩ := textLines_of_line hSome hLast
  rw [String.append_assoc, processText, processText, textLines_append_of_broken hBreak,
    textLines_append_of_broken hBreak, hOne, hMore, exec_processLines_more _ hLines hFirst,
    exec_processLines_more _ hLines hFirst]
  exact (sameText_processLines hEnds 1).map pieces

end

-- Layout

/- The line of a directive, by the blanks before its number
  sign, before its name and before its operand. -/
def directiveLine (lead middle : List Char) (keyword : Keyword) (gap operand : List Char) :
    String :=
  String.ofList (lead ++ '#' :: (middle ++ (keyword.spelling.toList ++ (gap ++ operand))))

/- Whether an operand begins with one of the marks that need no blank before them. -/
def beginsWithMark (operand : List Char) : Bool := operand.head?.any (['(', '<', '"'].contains ·)

section

variable {lead middle gap operand : List Char} {keyword : Keyword}

theorem head?_of_beginsWithMark (hMark : beginsWithMark operand = true) : ∀ c ∈ operand.head?,
    isBlank c = false ∧ c.isAlpha = false := by
  intro c hc
  rw [beginsWithMark, Option.mem_def.1 hc] at hMark
  simp only [Option.any_some, contains_eq_mem, mem_cons, not_mem_nil, or_false,
    decide_eq_true_eq] at hMark
  rcases hMark with rfl | rfl | rfl <;> decide

/- A directive with blanks before its operand is processed as such. -/
theorem processLineWith_spaced (step : LineStep) (hLead : ∀ c ∈ lead, isBlank c = true)
    (hMiddle : ∀ c ∈ middle, isBlank c = true) (hGap : ∀ c ∈ gap, isBlank c = true)
    (hSome : gap ≠ []) (hMark : beginsWithMark operand = true) :
    processLineWith limit step (directiveLine lead middle keyword gap operand) =
      processDirective limit step ⟨some keyword, gap ++ operand, operand⟩
        (directiveLine lead middle keyword gap operand) := by
  have hHead := head?_of_beginsWithMark hMark
  rw [processLineWith, ofLine?, directiveLine, String.toList_ofList,
    ofChars?_spaced keyword hLead hMiddle hGap hSome (fun c hc => (hHead c hc).1)]

/- Without the blanks it is a text, or it is ignored if blanks follow the number sign. -/
theorem processLineWith_unspaced (step : LineStep) (hLead : ∀ c ∈ lead, isBlank c = true)
    (hMiddle : ∀ c ∈ middle, isBlank c = true) (hMark : beginsWithMark operand = true) :
    processLineWith limit step (directiveLine lead middle keyword [] operand) =
      if middle = [] then Macro.expandLine limit step (directiveLine lead middle keyword [] operand)
      else pure "" := by
  have hHead := head?_of_beginsWithMark hMark
  rw [processLineWith, ofLine?, directiveLine, String.toList_ofList, nil_append,
    ofChars?_unspaced keyword hLead hMiddle hHead]
  split_ifs <;> rfl

end

/-
  How much the recognition of directives depends on layout.

  A text whose last line can go without a line break has the same outcome with one, up to that line
  break. A line break changes what a line is recognized as only if the line ends right after the
  name of a directive or its number sign; without the line break no directive of a name is found
  there. And a directive whose operand begins with a mark is none of that name without the blanks
  before the operand: its line is expanded as a text, or ignored if a blank follows the number sign.
-/
theorem layout_of_lines
    (limit : Nat)
    (session after : Session)
    (first last : String)
    (pieces : List String)
    (lines : List LogicalLine)
    (hBreak : ∀ c ∈ first.toList.getLast?, c = '\n')
    (hLines : textLines first = physical lines)
    (hFirst : processText (limit + 1) session first = (.ok pieces, after))
    (hSome : last ≠ "")
    (hLast : ∀ c ∈ last.toList, Text.endsLine c = false)
    (hEnds : LastEndsWhole limit after last) :
    SameText (processText (limit + 1) session (first ++ last))
        (processText (limit + 1) session (first ++ last ++ "\n")) ∧
      (∀ line : String,
        Directive.ofLine? (line ++ "\n") =
            (Directive.bare? line.toList).or
              ((Directive.ofLine? line).map Directive.ended) ∧
          ((Directive.bare? line.toList).isSome = true →
            (Directive.ofLine? line).bind (·.keyword) = none)) ∧
      ∀ (step : LineStep) (keyword : Keyword)
        (lead middle gap operand : List Char),
        (∀ c ∈ lead, Text.isBlank c = true) →
          (∀ c ∈ middle, Text.isBlank c = true) →
          (∀ c ∈ gap, Text.isBlank c = true) →
          gap ≠ [] →
          beginsWithMark operand = true →
            processLineWith (limit + 1) step
                (directiveLine lead middle keyword gap operand) =
              processDirective (limit + 1) step
                ⟨some keyword, gap ++ operand, operand⟩
                (directiveLine lead middle keyword gap
                  operand) ∧
            processLineWith (limit + 1) step
                (directiveLine lead middle keyword [] operand) =
              if middle = [] then
                Macro.expandLine (limit + 1) step
                  (directiveLine lead middle keyword [] operand)
              else pure "" := by
  refine ⟨sameText_processText hBreak hLines hFirst hSome hLast hEnds, ?_, ?_⟩
  · intro line
    refine ⟨?_, fun hBare => ?_⟩
    · rw [Directive.ofLine?, String.toList_append]
      exact Directive.ofChars?_append_break line.toList
    · cases hLine : Directive.ofLine? line with
      | none => rfl
      | some directive =>
        exact Directive.keyword_of_bare? hBare hLine
  · intro step keyword lead middle gap operand hLead hMiddle hGap hNonempty hMark
    exact ⟨processLineWith_spaced step hLead hMiddle hGap hNonempty hMark,
      processLineWith_unspaced step hLead hMiddle hMark⟩

/- The definition of a size. -/
def sizeText : String := "#define N 2\n"

def sizeLine : LogicalLine := singleLine sizeText (by cbv)

/- A declaration at the end of a file, without a line break. -/
def arrayText : String := "int a[N];"

/- The session that has read the definition. -/
def sizedSession : Session := (processText 2 (openSession []) sizeText).2

/- The session that has read the declaration, too. -/
def arraySession : Session := (exec nextLine (sizedSession.withLines [⟨arrayText, 0⟩])).2

theorem rested_array : Rested 2 (innerStep 1) arraySession arrayText "int a[2];" := by
  have hWorded : ∀ entry ∈ arraySession.table.names, isWordText entry.1 = true := by
    decide +kernel
  obtain ⟨tokens, hRest, hText⟩ : ∃ tokens ∈ rest? (innerStep 1) arraySession 2
      ((pieces arrayText).map (Macro.Token.ofPiece [])),
        "int a[2];" = spell tokens ++ trailing arrayText := by
    decide +kernel
  refine ⟨Macro.Table.worded_of_all hWorded, _, tokens, ?_, ?_, rests_of_rest? hRest, hText⟩
  · decide +kernel
  · decide +kernel

theorem exec_nextLine_array : exec nextLine (sizedSession.withLines [⟨arrayText, 0⟩]) =
    (.ok arrayText, arraySession) := by
  decide +kernel

theorem lastEndsWhole_array : LastEndsWhole 1 sizedSession arrayText := by
  intro line next hNext
  rw [exec_nextLine_array] at hNext
  cases hNext
  refine ⟨by decide, fun _ => ⟨_, rested_array⟩, ?_⟩
  intro directive hDirective
  cases hDirective

theorem processText_size : processText 2 (openSession []) sizeText = (.ok [""], sizedSession) := by
  decide +kernel

/- A declaration that ends a file, a line that ends right after the name of its directive, and a
  condition in parentheses with and without the blank before them. -/
theorem layout_of_lines_array :
    SameText
        (processText 2 (openSession []) (sizeText ++ arrayText))
        (processText 2 (openSession [])
          (sizeText ++ arrayText ++ "\n")) ∧
      (processText 2 (openSession [])
        (sizeText ++ arrayText)).1.toOption =
          some ["", "int a[2];"] ∧
      Directive.ofLine? "#endif" = none ∧
      Directive.ofLine? ("#endif" ++ "\n") =
        some ⟨some .endIf, ['\n'], []⟩ ∧
      processLineWith 2 (processLine 2) "#if (1)" =
        processDirective 2 (processLine 2)
          ⟨some .ifTrue, [' ', '(', '1', ')'], ['(', '1', ')']⟩
          "#if (1)" ∧
      processLineWith 2 (processLine 2) "#if(1)" =
        Macro.expandLine 2 (processLine 2) "#if(1)" := by
  have hEnd : sizeText.toList.getLast? = some '\n' := by decide
  have hLine : arrayText.toList.all (fun c => !Text.endsLine c) = true := by
    decide
  obtain ⟨hSame, hBreaks, hBlanks⟩ := layout_of_lines 1 (openSession []) _ sizeText arrayText [""]
      [sizeLine]
      (fun c hc => Option.some.inj (hc.symm.trans hEnd))
      rfl processText_size (by decide)
      (by simpa using hLine) lastEndsWhole_array
  obtain ⟨hSpaced, hUnspaced⟩ := hBlanks (processLine 2) .ifTrue [] [] [' '] ['(', '1', ')']
      nofun nofun (List.forall_mem_singleton.2 (by decide))
      (by simp) rfl
  refine ⟨hSame, by decide +kernel, by decide, ?_, hSpaced,
    hUnspaced⟩
  rw [(hBreaks "#endif").1]
  decide

end Source

end CHeader
