import CHeader.Text.Trim

/-
  Logical lines: physical lines joined at continuations and freed from comments.

  A line whose last character before blanks is a backslash goes on in the next one. A comment to the
  end of the line is cut off together with what follows it; a block comment becomes one blank if it
  ends on its line and nothing at all if it goes on over the next ones. Neither starts inside a
  string.

  Key definitions include:
    * `Source.continuation?`
    * `Source.Mark`
    * `Source.stripMarks`
-/

namespace CHeader

namespace Source

-- Continued lines

def continuation? (line : List Char) : Option (List Char) :=
  match line.reverse.dropWhile Text.isBlank with
  | '\\' :: before => some before.reverse
  | _ => none

/-
  Join a line with those that continue it. The answer has the joined line, the number of lines it
  took and the lines left; there is none if a continuation is missing.
-/
def joinContinued (line : List Char) (count : Nat) (lines : List String) :
    Option (List Char × Nat × List String) :=
  match continuation? line with
  | none => some (line, count, lines)
  | some head =>
      match lines with
      | [] => none
      | next :: rest =>
          joinContinued (head ++ next.toList) (count + 1) rest

theorem joinContinued_length {line joined : List Char} {count total : Nat}
    {lines rest : List String} (h : joinContinued line count lines = some (joined, total, rest)) :
    rest.length ≤ lines.length := by
  induction lines generalizing line count with
  | nil =>
      unfold joinContinued at h
      cases hCont : continuation? line with
      | none =>
          simp only [hCont, Option.some.injEq, Prod.mk.injEq] at h
          simp [← h.2.2]
      | some head => simp [hCont] at h
  | cons next more ih =>
      unfold joinContinued at h
      cases hCont : continuation? line with
      | none =>
          simp only [hCont, Option.some.injEq, Prod.mk.injEq] at h
          simp [← h.2.2]
      | some head =>
          simp only [hCont] at h
          have := ih h
          simp only [List.length_cons]
          omega

-- Block comments over several lines

/-
  Read lines up to the end of a block comment. The answer has the text after it, the number of lines
  read and the lines left.
-/
def closeComment (count : Nat) (lines : List String) : Option (List Char × Nat × List String) :=
  match lines with
  | [] => none
  | line :: rest =>
      match h : joinContinued line.toList (count + 1) rest with
      | none => none
      | some (joined, total, left) =>
          have := joinContinued_length h
          match Text.findSub? ['*', '/'] joined with
          | some position =>
              some (joined.drop (position + 2), total, left)
          | none => closeComment total left
termination_by lines.length
decreasing_by
  simp only [List.length_cons]
  omega

theorem closeComment_length {count total : Nat} {lines rest : List String} {after : List Char}
    (h : closeComment count lines = some (after, total, rest)) : rest.length < lines.length := by
  fun_induction closeComment count lines with
  | case1 => simp at h
  | case2 => simp at h
  | case3 =>
      simp only [Option.some.injEq, Prod.mk.injEq] at h
      obtain ⟨_, _, rfl⟩ := h
      simp only [List.length_cons]
      omega
  | case4 =>
      rename_i ih
      have := ih h
      simp only [List.length_cons]
      omega

-- Marks of a line

/- The places of a line at which strings and comments begin or end. -/
inductive Mark where
  | quote (escaped : Bool)
  | openBlock
  | closeBlock
  | lineComment
  deriving DecidableEq, Repr

/- The marks of a text with their positions, from left to right and without overlap. -/
def marks (position : Nat) (before : Char) : List Char → List (Mark × Nat)
| [] => []
| '"' :: rest =>
    (.quote (before = '\\'), position) :: marks (position + 1) '"' rest
| '/' :: '*' :: rest =>
    (.openBlock, position) :: marks (position + 2) '*' rest
| '*' :: '/' :: rest =>
    (.closeBlock, position) :: marks (position + 2) '/' rest
| '/' :: '/' :: rest =>
    (.lineComment, position) :: marks (position + 2) '/' rest
| c :: rest => marks (position + 1) c rest

/- What the text at a mark belongs to. -/
inductive Mode where
  | code
  | string
  | comment (start : Nat)
  deriving DecidableEq, Repr

/- A line freed from comments, or the part before a block comment that is still open at its end. -/
inductive Stripped where
  | whole (line : List Char)
  | opened (before : List Char)
  deriving DecidableEq, Repr

/-
  Free a line from comments by its marks. The positions of the marks are those of the line as it was
  read; the number of characters removed since then shifts them to the line as it is now.
-/
def stripMarks (source : List Char) (line : List Char) (removed : Nat) (mode : Mode) :
    List (Mark × Nat) → Stripped
| [] =>
    match mode with
    | .comment start => .opened (line.take start)
    | _ => .whole line
| (mark, position) :: rest =>
    match mode, mark with
    | .string, .quote false =>
        stripMarks source line removed .code rest
    | .string, _ =>
        stripMarks source line removed .string rest
    | .comment start, .closeBlock =>
        stripMarks source (line.take start ++ ' ' :: source.drop (position + 2))
          (position + 2 - start - 1) .code rest
    | .comment start, _ =>
        stripMarks source line removed (.comment start) rest
    | .code, .quote _ =>
        stripMarks source line removed .string rest
    | .code, .lineComment =>
        let kept := line.take position
        .whole (if kept.isEmpty then [] else kept ++ ['\n'])
    | .code, .openBlock =>
        stripMarks source line removed (.comment (position - removed)) rest
    | .code, .closeBlock =>
        stripMarks source line removed .code rest

-- Logical lines

/-
  Free a joined line from comments, reading on while a block comment stays open. Marks before the
  given position have been seen already.
-/
def stripComments (position : Nat) (line : List Char) (count : Nat) (lines : List String) :
    Option (List Char × Nat × List String) :=
  match stripMarks line line 0 .code (marks position ' ' (line.drop position)) with
  | .whole kept => some (kept, count, lines)
  | .opened before =>
      match h : closeComment count lines with
      | none => none
      | some (after, total, rest) =>
          have := closeComment_length h
          stripComments before.length (before ++ after) total rest
termination_by lines.length

/-
  The next logical line, the number of physical lines it takes, and the lines left. There is none if
  the lines run out before it ends.
-/
def logicalLine? : List String → Option (String × Nat × List String)
| [] => none
| line :: rest =>
    (joinContinued line.toList 1 rest).bind (fun (joined, count, left) =>
        (stripComments 0 joined count left).map (fun (kept, total, after) =>
            (String.ofList kept, total, after)))

end Source

end CHeader
