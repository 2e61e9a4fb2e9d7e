import CHeader.Proofs.Source.LineBreak
import CHeader.Proofs.Source.NextLine

/-
  Comments and strings of a line.

  A line of plain text, block comments and strings keeps its text and its strings, and each comment
  becomes one blank. A comment to the end of the line is found there too, but it is cut off at the
  place that it has in the line as it was read. For every character that block comments before it
  have taken away, one of its own stays.

  Main declarations:
    * `Source.Part`
    * `Source.exec_nextLine_blockComments`
    * `Source.exec_nextLine_lineComment`
-/

namespace CHeader

open List

namespace Source

-- Parts of a line

/- A part of a line that begins and ends with a mark. -/
inductive Part where
  | comment (body : List Char)
  | string (content : List Char)

namespace Part

def written : Part → List Char
| comment body => '/' :: '*' :: (body ++ ['*', '/'])
| string content => '"' :: (content ++ ['"'])

def kept : Part → List Char
| comment _ => [' ']
| string content => '"' :: (content ++ ['"'])

/- Whether a part ends at its last mark and not before. -/
def Closed : Part → Prop
| comment body => '/' ∉ body
| string content => '"' ∉ content ∧ '\\' ∉ content

/-
  Whether slashes at the end of a text come in pairs. A single one would join the star of the end
  mark.
-/
def slashesPaired : List Char → Bool
| [] => true
| ['/'] => false
| '/' :: '/' :: rest => slashesPaired rest
| _ :: rest => slashesPaired rest

/- Whether the end of a part is found at its last mark. -/
def Ends : Part → Prop
| comment body => ¬['*', '/'] <:+: body ∧ slashesPaired body = true
| string content => '"' ∉ content ∧ '\\' ∉ content

theorem Closed.ends {part : Part} (hPart : part.Closed) : part.Ends := by
  cases part with
  | string content => exact hPart
  | comment body =>
    refine ⟨fun hEnd => hPart (hEnd.subset (by simp)), ?_⟩
    induction body with
    | nil => rfl
    | cons c body ih =>
      have hSlash : c ≠ '/' ∧ '/' ∉ body := by simpa [Closed, eq_comm] using hPart
      rw [slashesPaired]
      · exact ih hSlash.2
      · exact fun hC => absurd hC hSlash.1
      · exact fun _ hC => absurd hC hSlash.1

theorem length_kept_le (part : Part) : part.kept.length ≤ part.written.length := by
  cases part <;> simp [kept, written]

end Part

/- A text without marks, also where a mark follows it. -/
structure PlainText (text : List Char) : Prop where
  noSlash : '/' ∉ text
  noQuote : '"' ∉ text
  noStar : text.getLast? ≠ some '*'

variable (parts : List (Part × List Char))

def writtenParts : List Char :=
  parts.flatMap fun item => item.1.written ++ item.2

def keptParts : List Char :=
  parts.flatMap fun item => item.1.kept ++ item.2

theorem length_keptParts_le : (keptParts parts).length ≤ (writtenParts parts).length := by
  induction parts with
  | nil => exact Nat.le_refl _
  | cons item parts ih =>
    have hItem := item.1.length_kept_le
    simp only [keptParts, writtenParts, flatMap_cons, length_append] at ih ⊢
    omega

/- Nothing is taken away if and only if there are no comments. -/
theorem length_keptParts_eq_iff :
    (keptParts parts).length = (writtenParts parts).length ↔
      ∀ item ∈ parts, ∃ content, item.1 = .string content := by
  induction parts with
  | nil => simp [keptParts, writtenParts]
  | cons item parts ih =>
    have hRest := length_keptParts_le parts
    rw [forall_mem_cons, ← ih]
    rcases item with ⟨body | content, text⟩
    · simp [keptParts, writtenParts, Part.kept, Part.written] at hRest ⊢
      omega
    · simp [keptParts, writtenParts, Part.kept, Part.written]

-- Marks

section

variable {source line : List Char} {removed : Nat}
variable {rest text done : List Char} {parts : List (Part × List Char)}

/- A character that begins no mark. -/
theorem marks_cons (hSlash : c ≠ '/') (hQuote : c ≠ '"') (hStar : c = '*' → rest.head? ≠ some '/')
    (position : Nat) (before : Char) :
    marks position before (c :: rest) = marks (position + 1) c rest := by
  rw [marks.eq_6]
  · exact hQuote
  · exact fun _ hC => absurd hC hSlash
  · exact fun more hC hRest => hStar hC (by rw [hRest]; rfl)
  · exact fun _ hC => absurd hC hSlash

theorem marks_plain (hText : PlainText text) (position : Nat) (before : Char) (rest : List Char) :
    ∃ last, marks position before (text ++ rest) = marks (position + text.length) last rest := by
  induction text generalizing position before with
  | nil => exact ⟨before, rfl⟩
  | cons c text ih =>
    have hSlash : c ≠ '/' ∧ '/' ∉ text := by simpa [eq_comm] using hText.noSlash
    have hQuote : c ≠ '"' ∧ '"' ∉ text := by simpa [eq_comm] using hText.noQuote
    have hStar : text.getLast? ≠ some '*' := fun hLast => hText.noStar (by cases text <;> simp_all)
    obtain ⟨last, hRest⟩ := ih ⟨hSlash.2, hQuote.2, hStar⟩ (position + 1) c
    refine ⟨last, ?_⟩
    rw [length_cons, Nat.add_comm text.length 1, ← Nat.add_assoc, ← hRest]
    refine marks_cons hSlash.1 hQuote.1 ?_ position before
    -- a star is not the last character, so the next one is in the text
    rintro rfl
    cases text with
    | nil => exact absurd rfl hText.noStar
    | cons d text => exact fun hNext => hSlash.2 (mem_of_mem_head? hNext)

theorem stripMarks_comment (hBody : (Part.comment body).Ends) (start position : Nat)
    (before : Char) (rest : List Char) :
    stripMarks source line removed (.comment start)
        (marks position before (body ++ '*' :: '/' :: rest)) =
      stripMarks source (line.take start ++ ' ' :: source.drop (position + body.length + 2))
        (position + body.length + 2 - start - 1) .code
        (marks (position + body.length + 2) '/' rest) := by
  obtain ⟨hOpen, hPaired⟩ := hBody
  fun_induction marks position before body with
  | case1 => rfl
  | case2 position before body ih =>
    refine (ih (fun hIn => hOpen (infix_cons hIn)) hPaired).trans ?_
    rw [length_cons, Nat.add_right_comm position, Nat.add_assoc position]
  | case3 position before body ih | case5 position before body ih =>
    refine (ih (fun hIn => hOpen (infix_cons (infix_cons hIn))) hPaired).trans ?_
    rw [length_cons, length_cons, Nat.add_assoc position 2, Nat.add_comm 2]
  | case4 => exact absurd (prefix_append ['*', '/'] _).isInfix hOpen
  | case6 position before c body hNone hBlock hClose hLine ih =>
    -- a slash is not the last character, so no mark goes over into the end
    have hLast : c = '/' → body ≠ [] := by
      rintro rfl rfl
      cases hPaired
    rw [Part.slashesPaired.eq_4 _ _ hLast hLine] at hPaired
    rw [cons_append, marks.eq_6 _ _ _ _ hNone, ih (fun hIn => hOpen (infix_cons hIn))
      hPaired, length_cons, Nat.add_right_comm position, Nat.add_assoc position]
    all_goals
      cases body <;> simp_all

theorem stripMarks_string (hQuote : '"' ∉ content) (hEscape : '\\' ∉ content) (position : Nat)
    (before : Char) (hBefore : before ≠ '\\') (rest : List Char) :
    stripMarks source line removed .string (marks position before (content ++ '"' :: rest)) =
      stripMarks source line removed .code (marks (position + content.length + 1) '"' rest) := by
  fun_induction marks position before content with
  | case1 position before =>
    rw [nil_append, marks.eq_2, decide_eq_false hBefore]
    rfl
  | case2 => simp at hQuote
  | case3 _ _ content ih | case4 _ _ content ih | case5 _ _ content ih =>
    simp only [mem_cons, not_or] at hQuote hEscape
    refine (ih hQuote.2.2 hEscape.2.2 (by decide)).trans ?_
    rw [length_cons, length_cons, Nat.add_assoc _ 2, Nat.add_comm 2]
  | case6 position before c content hNone hOpen hClose hLine ih =>
    have hNext : ∀ d more, d ≠ '"' → content ++ '"' :: rest = d :: more →
        ∃ left, content = d :: left := by
      intro d more hOther hMore
      cases content with
      | nil => exact absurd (cons.inj hMore).1.symm hOther
      | cons e left => exact ⟨left, by rw [(cons.inj hMore).1]⟩
    simp only [mem_cons, not_or] at hQuote hEscape
    rw [cons_append, marks.eq_6 _ _ _ _ hNone, ih hQuote.2 hEscape.2 (Ne.symm hEscape.1),
      length_cons, Nat.add_right_comm position, Nat.add_assoc position]
    · exact fun more hC hMore => (hNext _ _ (by decide) hMore).elim (hOpen · hC)
    · exact fun more hC hMore => (hNext _ _ (by decide) hMore).elim (hClose · hC)
    · exact fun more hC hMore => (hNext _ _ (by decide) hMore).elim (hLine · hC)

/- A part is left or taken away, and the marks after it are those of the rest. -/
theorem stripMarks_part {part : Part} (hPart : part.Ends) {kept : List Char}
    (hSource : source = done ++ (part.written ++ rest)) (hLess : kept.length ≤ done.length)
    (before : Char) : ∃ last,
    stripMarks source (kept ++ (part.written ++ rest)) (done.length - kept.length) .code
        (marks done.length before (part.written ++ rest)) =
      stripMarks source (kept ++ part.kept ++ rest)
        ((done ++ part.written).length - (kept ++ part.kept).length) .code
        (marks (done ++ part.written).length last rest) := by
  cases part with
  | comment body =>
    refine ⟨'/', ?_⟩
    have hStart : done.length - (done.length - kept.length) = kept.length := by omega
    have hDrop : source.drop (done.length + 2 + body.length + 2) = rest := by
      rw [hSource, Part.written, ← append_assoc]
      exact drop_left' (by simp; omega)
    have hStep := @stripMarks_comment source (kept ++ (Part.written (.comment body) ++ rest))
      (done.length - kept.length) body hPart kept.length (done.length + 2) '*' rest
    rw [hDrop] at hStep
    have hLength : (done ++ Part.written (.comment body)).length =
        done.length + 2 + body.length + 2 := by
      simp [Part.written]
      omega
    rw [hLength]
    simp only [Part.written, cons_append, marks, stripMarks, hStart] at hStep ⊢
    simpa [Part.kept, Nat.sub_sub] using hStep
  | string content =>
    refine ⟨'"', ?_⟩
    have hStep := @stripMarks_string source (kept ++ (Part.written (.string content) ++ rest))
      (done.length - kept.length) content hPart.1 hPart.2 (done.length + 1) '"' (by decide) rest
    have hLength : (done ++ Part.written (.string content)).length =
        done.length + 1 + content.length + 1 := by
      simp [Part.written]
      omega
    have hSame : done.length + 1 + content.length + 1 - (kept ++ Part.kept (.string content)).length =
        done.length - kept.length := by
      simp [Part.kept]
      omega
    rw [hLength, hSame]
    simpa [Part.written, Part.kept, marks, stripMarks] using hStep

theorem stripMarks_parts (hParts : ∀ item ∈ parts, item.1.Ends ∧ PlainText item.2)
    {done kept : List Char} (hSource : source = done ++ (writtenParts parts ++ rest))
    (hLess : kept.length ≤ done.length) (before : Char) : ∃ last,
    stripMarks source (kept ++ (writtenParts parts ++ rest)) (done.length - kept.length) .code
        (marks done.length before (writtenParts parts ++ rest)) =
      stripMarks source (kept ++ keptParts parts ++ rest)
        ((done ++ writtenParts parts).length - (kept ++ keptParts parts).length) .code
        (marks (done ++ writtenParts parts).length last rest) := by
  induction parts generalizing done kept before with
  | nil => exact ⟨before, by simp [writtenParts, keptParts]⟩
  | cons item parts ih =>
    rw [forall_mem_cons] at hParts
    have hWritten : writtenParts (item :: parts) ++ rest =
        item.1.written ++ (item.2 ++ (writtenParts parts ++ rest)) := by simp [writtenParts]
    have hKept : keptParts (item :: parts) = item.1.kept ++ (item.2 ++ keptParts parts) := by
      simp [keptParts]
    have hItem := item.1.length_kept_le
    rw [hWritten] at hSource ⊢
    obtain ⟨middle, hPart⟩ := stripMarks_part hParts.1.1 hSource hLess before
    obtain ⟨next, hText⟩ := marks_plain hParts.1.2 (done ++ item.1.written).length middle
      (writtenParts parts ++ rest)
    obtain ⟨last, hRest⟩ := @ih hParts.2 (done ++ item.1.written ++ item.2)
      (kept ++ item.1.kept ++ item.2) (by simpa using hSource) (by simp; omega) next
    refine ⟨last, hPart.trans ?_⟩
    rw [hText, ← length_append]
    have hRemoved : (done ++ item.1.written).length - (kept ++ item.1.kept).length =
        (done ++ item.1.written ++ item.2).length - (kept ++ item.1.kept ++ item.2).length := by
      simp only [length_append]
      omega
    rw [hRemoved, ← append_assoc _ item.2, hRest, hKept]
    simp [writtenParts]

/- A text with parts after it, in a line of which the marks before it have been seen. -/
theorem stripMarks_text
    (hText : PlainText text) (hParts : ∀ item ∈ parts, item.1.Ends ∧ PlainText item.2)
    (start : List Char) (hSource : source = start ++ text ++ (writtenParts parts ++ rest))
    (before : Char) : ∃ last, stripMarks source source 0 .code
        (marks start.length before (text ++ (writtenParts parts ++ rest))) =
      stripMarks source (start ++ text ++ keptParts parts ++ rest)
        ((start ++ text ++ writtenParts parts).length - (start ++ text ++ keptParts parts).length)
        .code (marks (start ++ text ++ writtenParts parts).length last rest) := by
  obtain ⟨middle, hMarks⟩ := marks_plain hText start.length before (writtenParts parts ++ rest)
  obtain ⟨last, hStrip⟩ := stripMarks_parts hParts hSource (Nat.le_refl _) middle
  rw [Nat.sub_self, ← hSource] at hStrip
  rw [hMarks, ← length_append]
  exact ⟨last, hStrip⟩

end

-- Lines

theorem withBreak_append_eq_iff : Text.withBreak (line ++ more) = Text.withBreak line ↔
    more = [] := by
  refine ⟨fun hSame => ?_, fun hNone => by rw [hNone, append_nil]⟩
  cases more with
  | nil => rfl
  | cons c more =>
    have hLength := congrArg List.length hSame
    rw [Text.withBreak, Text.withBreak] at hLength
    split_ifs at hLength <;> simp_all

section

variable {line : String} {lines follow : List String} {count : Nat} {first rest kept : List Char}
variable {parts : List (Part × List Char)}

variable (hFirst : PlainText first) (hJoin : joinContinued line.toList 1 lines =
    some (first ++ (writtenParts parts ++ rest), count, follow))
  (hRest : ∀ source removed last, stripMarks source (first ++ keptParts parts ++ rest) removed
    .code (marks (first ++ writtenParts parts).length last rest) = .whole kept)
include hFirst hJoin hRest

/- A logical line whose marks are those of its parts and of what follows them. -/
theorem logicalLine?_ends (hParts : ∀ item ∈ parts, item.1.Ends ∧ PlainText item.2) :
    logicalLine? (line :: lines) = some (String.ofList kept, count, follow) := by
  obtain ⟨last, hStrip⟩ := stripMarks_text hFirst hParts [] rfl ' '
  rw [nil_append, length_nil, hRest] at hStrip
  rw [logicalLine?, hJoin]
  simp only [Option.bind_some]
  rw [stripComments_eq, drop_zero, hStrip]
  rfl

theorem logicalLine?_parts (hParts : ∀ item ∈ parts, item.1.Closed ∧ PlainText item.2) :
    logicalLine? (line :: lines) = some (String.ofList kept, count, follow) :=
  logicalLine?_ends hFirst hJoin hRest fun item hMem =>
    (hParts item hMem).imp_left Part.Closed.ends

end

structure Counting (session : Session) (reader : Reader) (count : Nat) (number : String) : Prop where
  record : session.table.find? readerName = some .record
  reading : session.reader = some reader
  isOpen : reader.closed = false ∧ reader.undecodable = false
  counted : ∃ old n, session.table.find? lineName = some (.text old) ∧
    Text.readInteger? old = some n ∧ Text.writeInteger? (n + (count : Int)) = some number

/- The session after lines of the open file were taken and counted. -/
def Session.counted (session : Session) (reader : Reader) (count : Nat) (number : String) :
    Session :=
  { session.taken reader count with table := session.table.setText lineName number }

theorem Counting.exec_nextLine {session : Session} {reader : Reader} {line number : String}
    {left : List String} {count : Nat} (hSession : Counting session reader count number)
    (hLine : logicalLine? (reader.lines.map SourceLine.text) = some (line, count, left)) :
    exec nextLine session = (.ok line, session.counted reader count number) := by
  obtain ⟨old, n, hFind, hRead, hWrite⟩ := hSession.counted
  rw [exec_nextLine_open hSession.record hSession.reading hSession.isOpen.1 hSession.isOpen.2, hLine]
  simp [advanceLine, textOf, exec_bind, Session.taken, hFind, hRead, hWrite, Session.counted,
    Except.map]

/-
  A line of plain text, comments and strings is read as its text and its strings, with one blank for
  each comment. No other line is taken.
-/
theorem exec_nextLine_blockComments
    (session : Session)
    (reader : Reader)
    (line : SourceLine)
    (follow : List SourceLine)
    (number : String)
    (first : List Char)
    (parts : List (Part × List Char))
    (hSession : Counting session reader 1 number)
    (hLines : reader.lines = line :: follow)
    (hText : line.text.toList = first ++ writtenParts parts)
    (hWhole : continuation? line.text.toList = none)
    (hFirst : PlainText first)
    (hParts : ∀ item ∈ parts, item.1.Closed ∧ PlainText item.2) :
    exec nextLine session =
      (.ok (String.ofList (first ++ keptParts parts)), session.counted reader 1 number) := by
  have hJoin : joinContinued line.text.toList 1 (follow.map SourceLine.text) =
      some (first ++ (writtenParts parts ++ []), 1, follow.map SourceLine.text) := by
    rw [joinContinued, hWhole, List.append_nil, hText]
  have hLine := @logicalLine?_parts _ _ _ _ _ _ (first ++ keptParts parts) _ hFirst hJoin
    (fun _ _ _ => by rw [List.append_nil]; rfl) hParts
  rw [← List.map_cons, ← hLines] at hLine
  exact hSession.exec_nextLine hLine

def lineSession (number : String) (lines : List String) : Session :=
  { table := { names := [(readerName, .record), (lineName, .text number)] }
    reader := some { path := none, lines := lines.map fun line => ⟨line, 0⟩ } }

theorem exec_nextLine_blockComments_mixed :
    exec nextLine (lineSession "7" ["x/*a*//**/\"/*\"/*\"*/y\n", "z\n"]) =
      (.ok "x  \"/*\" y\n", lineSession "8" ["z\n"]) := by
  have hNone : PlainText [] := ⟨by simp, by simp, by simp⟩
  have hLine := exec_nextLine_blockComments (lineSession "7" ["x/*a*//**/\"/*\"/*\"*/y\n", "z\n"])
    { path := none, lines := [⟨"x/*a*//**/\"/*\"/*\"*/y\n", 0⟩, ⟨"z\n", 0⟩] } _ _ "8" ['x']
    [(.comment ['a'], []), (.comment [], []), (.string ['/', '*'], []),
      (.comment ['"'], ['y', '\n'])]
    ⟨rfl, rfl, ⟨rfl, rfl⟩, "7", 7, rfl, by decide +kernel, by decide +kernel⟩ rfl
    (by decide +kernel) (by decide +kernel) ⟨by decide, by decide, by decide⟩ (by
      simp only [List.forall_mem_cons, Part.Closed]
      exact ⟨⟨by decide, hNone⟩, ⟨by decide, hNone⟩, ⟨by decide, hNone⟩,
        ⟨by decide, by decide, by decide, by decide⟩, by simp⟩)
  rw [hLine]
  decide +kernel

/-
  A comment to the end of the line is cut off where it stands in the line as it was read. So as many
  of its characters stay as the comments before it have lost, and none stays exactly if there are no
  comments before it.
-/
theorem exec_nextLine_lineComment
    (session : Session)
    (reader : Reader)
    (line : SourceLine)
    (more : List SourceLine)
    (left : List String)
    (count : Nat)
    (number : String)
    (first rest : List Char)
    (parts : List (Part × List Char))
    (hSession : Counting session reader count number)
    (hLines : reader.lines = line :: more)
    (hJoin : joinContinued line.text.toList 1 (more.map SourceLine.text) =
      some (first ++ (writtenParts parts ++ '/' :: '/' :: rest), count, left))
    (hFirst : PlainText first)
    (hParts : ∀ item ∈ parts, item.1.Closed ∧ PlainText item.2) :
    ∃ stays, stays =
        ('/' :: '/' :: rest).take ((writtenParts parts).length - (keptParts parts).length) ∧
      exec nextLine session =
        (.ok (String.ofList (Text.withBreak (first ++ keptParts parts ++ stays))),
          session.counted reader count number) ∧
      (Text.withBreak (first ++ keptParts parts ++ stays) =
          Text.withBreak (first ++ keptParts parts) ↔
        ∀ item ∈ parts, ∃ content, item.1 = .string content) := by
  have hLess := length_keptParts_le parts
  have hTake : (first ++ keptParts parts ++ '/' :: '/' :: rest).take
      (first ++ writtenParts parts).length = first ++ keptParts parts ++
        ('/' :: '/' :: rest).take ((writtenParts parts).length - (keptParts parts).length) := by
    rw [List.take_append, List.take_of_length_le (by simpa using hLess)]
    simp [Nat.add_sub_add_left]
  have hLine := logicalLine?_parts hFirst hJoin
    (fun _ _ _ => by rw [marks, stripMarks, hTake]) hParts
  rw [← List.map_cons, ← hLines] at hLine
  refine ⟨_, rfl, hSession.exec_nextLine hLine, ?_⟩
  rw [withBreak_append_eq_iff, ← length_keptParts_eq_iff, List.take_eq_nil_iff]
  simp
  omega

theorem exec_nextLine_lineComment_continued :
    exec nextLine (lineSession "7" ["a/*xyz*/b//c\\\n", "de\n", "z\n"]) =
      (.ok "a b//cde\n\n", lineSession "9" ["z\n"]) := by
  obtain ⟨stays, rfl, hLine, -⟩ := exec_nextLine_lineComment
    (lineSession "7" ["a/*xyz*/b//c\\\n", "de\n", "z\n"])
    { path := none, lines := [⟨"a/*xyz*/b//c\\\n", 0⟩, ⟨"de\n", 0⟩, ⟨"z\n", 0⟩] } _ _ ["z\n"] 2 "9" ['a']
    ['c', 'd', 'e', '\n'] [(.comment ['x', 'y', 'z'], ['b'])]
    ⟨rfl, rfl, ⟨rfl, rfl⟩, "7", 7, rfl, by decide +kernel, by decide +kernel⟩ rfl
    (by decide +kernel) ⟨by decide, by decide, by decide⟩ (by
      simp only [List.forall_mem_cons, Part.Closed]
      exact ⟨⟨by decide, by decide, by decide, by decide⟩, by simp⟩)
  rw [hLine]
  decide +kernel

end Source

end CHeader
