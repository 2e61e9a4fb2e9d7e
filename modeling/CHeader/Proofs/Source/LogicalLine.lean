import Mathlib
import CHeader.Source.Session
import CHeader.Source.Directive

/-
  Logical lines inside a file.

  Which physical lines make a logical line does not depend on the lines after them, so a file can be
  cut into logical lines once and for all. The physical lines that a logical line takes are counted
  one by one.

  Main declarations:
    * `Source.logicalLine?_append`
    * `Source.logicalLine?_count`
    * `Source.LogicalLine`
-/

namespace CHeader

open List

namespace Source

variable {line : List Char} {count total : Nat} {lines left : List String}
variable {joined after kept : List Char} {position : Nat}

-- Lines that follow

theorem joinContinued_append (more : List String)
    (hJoined : joinContinued line count lines = some (joined, total, left)) :
    joinContinued line count (lines ++ more) = some (joined, total, left ++ more) := by
  fun_induction joinContinued line count lines with
  | case1 line count lines hWhole =>
    cases hJoined
    unfold joinContinued
    rw [hWhole]
  | case2 => cases hJoined
  | case3 line count head hHead next rest ih =>
    unfold joinContinued
    rw [hHead]
    exact ih hJoined

/- The search for the end of a comment in its first line and then in the others. -/
theorem closeComment_cons (count : Nat) (line : String) (rest : List String) :
    closeComment count (line :: rest) = (joinContinued line.toList (count + 1) rest).bind
        fun (joined, total, left) =>
          match Text.findSub? ['*', '/'] joined with
          | some position =>
            some (joined.drop (position + 2), total, left)
          | none => closeComment total left := by
  rw [closeComment]
  split
  · rename_i hJoined
    symm
    exact congrArg (Option.bind · _) hJoined
  · rename_i hJoined
    symm
    exact congrArg (Option.bind · _) hJoined

theorem closeComment_append (more : List String)
    (hClosed : closeComment count lines = some (after, total, left)) :
    closeComment count (lines ++ more) = some (after, total, left ++ more) := by
  fun_induction closeComment count lines with
  | case1 | case2 => cases hClosed
  | case3 count line rest joined _ _ hJoined _ _ hFound =>
    cases hClosed
    rw [cons_append, closeComment_cons, joinContinued_append more hJoined, Option.bind_some]
    simp only [hFound]
  | case4 count line rest joined _ _ hJoined _ hNone ih =>
    rw [cons_append, closeComment_cons, joinContinued_append more hJoined, Option.bind_some]
    simp only [hNone]
    exact ih hClosed

/- The comments of a line and those that it leaves open. -/
theorem stripComments_eq (position : Nat) (line : List Char) (count : Nat) (lines : List String) :
    stripComments position line count lines =
      match stripMarks line line 0 .code (marks position ' ' (line.drop position)) with
      | .whole kept => some (kept, count, lines)
      | .opened before =>
        (closeComment count lines).bind fun (after, total, rest) =>
            stripComments before.length (before ++ after) total rest := by
  rw [stripComments]
  split
  · simp only [*]
  · simp only [*]
    split
    · rename_i hClosed
      simp only [hClosed, Option.bind_none]
    · rename_i hClosed
      simp only [hClosed, Option.bind_some]

theorem stripComments_append (more : List String)
    (hStripped : stripComments position line count lines = some (kept, total, left)) :
    stripComments position line count (lines ++ more) = some (kept, total, left ++ more) := by
  fun_induction stripComments position line count lines with
  | case1 position line count lines _ hWhole =>
    cases hStripped
    rw [stripComments_eq]
    simp only [hWhole]
  | case2 => cases hStripped
  | case3 position line count lines _ hOpened _ _ _ hClosed _ ih =>
      rw [stripComments_eq]
      simp only [hOpened]
      rw [closeComment_append more hClosed]
      exact ih hStripped

/- A logical line ends at the same place whatever follows it. -/
theorem logicalLine?_append {line : String} (more : List String)
    (hLine : logicalLine? lines = some (line, count, left)) :
    logicalLine? (lines ++ more) = some (line, count, left ++ more) := by
  cases lines with
  | nil => cases hLine
  | cons first rest =>
    rw [cons_append]
    simp only [logicalLine?, Option.bind_eq_some_iff,
      Option.map_eq_some_iff, Prod.exists] at hLine ⊢
    rcases hLine with ⟨joined, total, after, hJoined, kept, _, _, hStripped, hSame⟩
    cases hSame
    exact ⟨joined, total, after ++ more, joinContinued_append more hJoined, kept, count,
      left ++ more, stripComments_append more hStripped, rfl⟩

-- Lines that are taken

theorem joinContinued_count (hJoined :
    joinContinued line count lines = some (joined, total, left)) :
    count ≤ total ∧ total + left.length = count + lines.length := by
  fun_induction joinContinued line count lines with
  | case1 =>
    cases hJoined
    exact ⟨Nat.le_refl _, rfl⟩
  | case2 => cases hJoined
  | case3 _ _ _ _ _ _ ih =>
    have hRest := ih hJoined
    rw [length_cons]
    omega

theorem closeComment_count (hClosed : closeComment count lines = some (after, total, left)) :
    count ≤ total ∧ total + left.length = count + lines.length := by
  fun_induction closeComment count lines with
  | case1 | case2 => cases hClosed
  | case3 _ _ _ _ _ _ hJoined =>
    cases hClosed
    have hFirst := joinContinued_count hJoined
    rw [length_cons]
    omega
  | case4 _ _ _ _ _ _ hJoined _ _ ih =>
    have hFirst := joinContinued_count hJoined
    have hRest := ih hClosed
    rw [length_cons]
    omega

theorem stripComments_count
    (hStripped : stripComments position line count lines = some (kept, total, left)) :
    count ≤ total ∧ total + left.length = count + lines.length := by
  fun_induction stripComments position line count lines with
  | case1 =>
    cases hStripped
    exact ⟨Nat.le_refl _, rfl⟩
  | case2 => cases hStripped
  | case3 _ _ _ _ _ _ _ _ _ hClosed _ ih =>
    have hFirst := closeComment_count hClosed
    have hRest := ih hStripped
    omega

/- A logical line takes one line at least, and all that it takes are counted. -/
theorem logicalLine?_count {line : String} (hLine : logicalLine? lines = some (line, count, left)) :
    0 < count ∧ count + left.length = lines.length := by
  cases lines with
  | nil => cases hLine
  | cons first rest =>
    simp only [logicalLine?, Option.bind_eq_some_iff, Option.map_eq_some_iff, Prod.exists] at hLine
    rcases hLine with ⟨_, _, _, hJoined, _, _, _, hStripped, hSame⟩
    cases hSame
    have hFirst := joinContinued_count hJoined
    have hRest := stripComments_count hStripped
    rw [length_cons]
    omega

-- Logical lines

/- A logical line together with the physical lines that it is made of. -/
structure LogicalLine where
  lines : List SourceLine
  text : String
  reads : logicalLine? (lines.map SourceLine.text) = some (text, lines.length, [])

namespace LogicalLine

def keyword? (line : LogicalLine) : Option Keyword :=
  (Directive.ofLine? line.text).bind Directive.keyword

theorem length_pos (line : LogicalLine) : 0 < line.lines.length := by
  rw [length_pos_iff]
  intro hEmpty
  have hReads := line.reads
  rw [hEmpty] at hReads
  cases hReads

theorem logicalLine?_lines_append (line : LogicalLine) (follow : List SourceLine) :
    logicalLine? ((line.lines ++ follow).map SourceLine.text) = some (line.text, line.lines.length,
        follow.map SourceLine.text) := by
  rw [map_append]
  exact logicalLine?_append _ line.reads

end LogicalLine

def physical (lines : List LogicalLine) : List SourceLine := lines.flatMap LogicalLine.lines

@[simp] theorem physical_nil : physical [] = [] := rfl

@[simp] theorem physical_cons (line : LogicalLine) (lines : List LogicalLine) :
    physical (line :: lines) = line.lines ++ physical lines := rfl

@[simp] theorem physical_append (first second : List LogicalLine) : physical (first ++ second) =
    physical first ++ physical second := flatMap_append

theorem length_le_physical (lines : List LogicalLine) : lines.length ≤ (physical lines).length := by
  induction lines with
  | nil => exact Nat.le_refl _
  | cons line lines ih =>
    have hLine := line.length_pos
    rw [physical_cons, length_append, length_cons]
    omega

theorem physical_sublist (hSublist : first.Sublist second) :
    (physical first).Sublist (physical second) :=
  hSublist.flatMap LogicalLine.lines

end Source

end CHeader
