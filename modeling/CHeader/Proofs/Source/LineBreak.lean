import CHeader.Proofs.Source.LogicalLine
import CHeader.Proofs.Source.Recognition

/-
  A line break at the end of a file.

  The marks of a line are the same with a line break behind it, and so are the comments that they
  bound. The logical line of the last physical line is therefore the same with a line break, or has
  one more at its end. A definition ends with its line either way.

  Main declarations:
    * `Source.Placed`
    * `Source.stripMarks_append_break`
    * `Source.logicalLine?_append_break`
-/

namespace CHeader

open List Text

namespace Source

-- Marks

def Mark.width : Mark → Nat
| quote _ => 1
| _ => 2

/- Whether marks lie between two positions, one after another. -/
def Placed (low high : Nat) : List (Mark × Nat) → Prop
| [] => True
| (mark, position) :: rest =>
    low ≤ position ∧ position + mark.width ≤ high ∧ Placed (position + 1) high rest

theorem Placed.mono (hPlaced : Placed low high list) (hLess : other ≤ low) :
    Placed other high list := by
  cases list with
  | nil => trivial
  | cons first rest =>
    exact ⟨hLess.trans hPlaced.1, hPlaced.2⟩

/- A mark is placed before those that begin after it. -/
theorem placed_cons {mark : Mark} {position length : Nat} {rest : List (Mark × Nat)}
    (hRest : Placed (position + mark.width) (position + mark.width + length) rest) :
    Placed position (position + (length + mark.width)) ((mark, position) :: rest) := by
  have hWidth : 1 ≤ mark.width := by cases mark <;> simp [Mark.width]
  rw [Nat.add_comm length, ← Nat.add_assoc]
  exact ⟨le_rfl, Nat.le_add_right _ _, hRest.mono (by omega)⟩

theorem placed_marks (position : Nat) (before : Char) (cs : List Char) :
    Placed position (position + cs.length) (marks position before cs) := by
  fun_induction marks position before cs with
  | case1 => trivial
  | case2 _ _ _ ih | case3 _ _ _ ih | case4 _ _ _ ih | case5 _ _ _ ih => exact placed_cons ih
  | case6 position before c rest _ _ _ _ ih =>
    rw [length_cons, Nat.add_comm rest.length, ← Nat.add_assoc]
    exact ih.mono (Nat.le_succ position)

theorem marks_append_break (position : Nat) (before : Char) (cs : List Char) :
    marks position before (cs ++ ['\n']) = marks position before cs := by
  fun_induction marks position before cs with
  | case1 => rfl
  | case2 | case3 | case4 | case5 => simp_all [marks]
  | case6 position before c rest hQuote hOpen hClose hLine ih =>
    have hSame : ∀ d, d ≠ '\n' → (∀ more, rest = d :: more → False) →
        ∀ more, rest ++ ['\n'] = d :: more → False := by
      rintro d hOther hNone more hRest
      cases rest with
      | nil => exact hOther (cons.inj hRest).1.symm
      | cons e rest => exact hNone rest (by cases hRest; rfl)
    rw [cons_append, marks.eq_6, ih]
    · exact hQuote
    · intro more hc
      exact hSame '*' (by decide) (fun more => hOpen more hc) more
    · intro more hc
      exact hSame '/' (by decide) (fun more => hClose more hc) more
    · intro more hc
      exact hSame '/' (by decide) (fun more => hLine more hc) more

-- Comments

/- How a line freed from comments is with a line break behind it. -/
def Stripped.EndsAs : Stripped → Stripped → Prop
| .whole kept, .whole more => more = kept ∨ more = kept ++ ['\n']
| .opened before, .opened same => same = before
| _, _ => False

/-
  Comments are cut off a line with a line break behind it as off the line. What was removed is the
  difference between the line as it was read and as it is, and a comment that is open starts before
  the marks to come.
-/
theorem stripMarks_append_break (hPlaced : Placed low source.length list)
    (hLength : line.length + removed = source.length) (hSome : line = [] → removed = 0)
    (hMode : ∀ start, mode = .comment start → start ≤ line.length ∧ start ≤ low) :
    (stripMarks source line removed mode list).EndsAs
      (stripMarks (source ++ ['\n']) (line ++ ['\n']) removed mode list) := by
  fun_induction stripMarks source line removed mode list generalizing low with
  | case1 =>
    have hStart := (hMode _ rfl).1
    rw [stripMarks, take_append_of_le_length hStart]
    rfl
  | case2 =>
    rename_i hOther
    rw [stripMarks]
    · exact .inr rfl
    · exact hOther
  | case3 =>
    rename_i ih
    exact ih hPlaced.2.2 hLength hSome nofun
  | case4 =>
    rename_i hOther ih
    rw [stripMarks]
    · exact ih hPlaced.2.2 hLength hSome nofun
    · exact hOther
  | case5 =>
    rename_i line _ position rest start ih
    obtain ⟨hStart, hLow⟩ := hMode _ rfl
    obtain ⟨hBefore, hInside, hRest⟩ := hPlaced
    have hTwo : position + 2 ≤ source.length := hInside
    rw [stripMarks, take_append_of_le_length hStart, drop_append_of_le_length hTwo]
    have hLater := ih hRest (by simp; omega) (by simp) nofun
    rwa [append_assoc, cons_append] at hLater
  | case6 =>
    rename_i start hOther ih
    rw [stripMarks]
    · refine ih hPlaced.2.2 hLength hSome fun other hSame => ?_
      obtain ⟨hStart, hLow⟩ := hMode other hSame
      exact ⟨hStart, by have := hPlaced.1; omega⟩
    · exact hOther
  | case7 =>
    rename_i ih
    exact ih hPlaced.2.2 hLength hSome nofun
  | case8 =>
    rename_i line removed position rest kept
    have hTwo : position + 2 ≤ source.length := hPlaced.2.1
    rw [stripMarks]
    by_cases hInside : position ≤ line.length
    · rw [take_append_of_le_length hInside]
      exact .inl rfl
    · -- the position is one of the line as it was read
      have hLine : line ≠ [] := by
        intro hNil
        rw [hSome hNil] at hLength
        simp at hLength
        omega
      have hKept : kept = line := take_of_length_le (by omega)
      rw [take_of_length_le (by simp; omega), hKept]
      simp [Stripped.EndsAs, hLine]
  | case9 =>
    rename_i line removed position rest ih
    have hTwo : position + 2 ≤ source.length := hPlaced.2.1
    refine ih hPlaced.2.2 hLength hSome ?_
    rintro _ ⟨⟩
    omega
  | case10 =>
    rename_i ih
    exact ih hPlaced.2.2 hLength hSome nofun

-- Logical lines

theorem continuation?_append_break (line : List Char) :
    continuation? (line ++ ['\n']) = continuation? line := by
  rw [continuation?, reverse_append]
  rfl

/- The last physical line of a file, freed from comments. -/
theorem stripComments_last (line : List Char) : stripComments 0 line 1 [] =
    match stripMarks line line 0 .code (marks 0 ' ' line) with
    | .whole kept => some (kept, 1, [])
    | .opened _ => none := by
  rw [stripComments_eq, drop_zero]
  cases stripMarks line line 0 .code (marks 0 ' ' line) with
  | whole kept => rfl
  | opened before =>
    rw [closeComment]
    rfl

/-
  The logical line of the last physical line of a file: with a line break it is the same, or has one
  more at its end. Where the line is not complete it is none either way.
-/
theorem logicalLine?_append_break (line : String) :
    (logicalLine? [line] = none ∧ logicalLine? [line ++ "\n"] = none) ∨
      ∃ text more, logicalLine? [line] = some (text, 1, []) ∧
          logicalLine? [line ++ "\n"] = some (more, 1, []) ∧
          (more = text ∨ more = text ++ "\n") := by
  have hJoined : ∀ cs, joinContinued cs 1 [] =
      if (continuation? cs).isSome then none
      else some (cs, 1, []) := by
    intro cs
    rw [joinContinued]
    cases continuation? cs <;> rfl
  have hChars : (line ++ "\n").toList = line.toList ++ ['\n'] := String.toList_append
  simp only [logicalLine?, hJoined, hChars, continuation?_append_break]
  by_cases hCont : (continuation? line.toList).isSome = true
  · simp [hCont]
  simp only [hCont, Bool.false_eq_true, if_false, Option.bind_some,
    stripComments_last, marks_append_break]
  have hEnds : (stripMarks line.toList line.toList 0 .code (marks 0 ' ' line.toList)).EndsAs
      (stripMarks (line.toList ++ ['\n']) (line.toList ++ ['\n']) 0 .code
        (marks 0 ' ' line.toList)) :=
    stripMarks_append_break (by simpa using placed_marks 0 ' ' line.toList)
      (Nat.add_zero _) (fun _ => rfl) (by simp)
  revert hEnds
  generalize stripMarks line.toList line.toList 0 .code (marks 0 ' ' line.toList) = first
  generalize stripMarks (line.toList ++ ['\n']) _ 0 .code (marks 0 ' ' line.toList) = second
  intro hEnds
  cases first with
  | opened before =>
    cases second with
    | opened same => exact .inl ⟨rfl, rfl⟩
    | whole more => cases hEnds
  | whole kept =>
    cases second with
    | opened same => cases hEnds
    | whole more =>
      refine .inr ⟨_, _, rfl, rfl, ?_⟩
      rcases hEnds with rfl | rfl
      · exact .inl rfl
      · exact .inr (by simp)

end Source

-- Definitions

namespace Macro

/- The body of a definition ends with its line. -/
theorem takeWhile_withBreak (cs : List Char) : (withBreak cs).takeWhile (· ≠ '\n') =
    cs.takeWhile (· ≠ '\n') := by
  unfold withBreak
  split_ifs with hEmpty
  · rw [isEmpty_iff.1 hEmpty]
  · exact takeWhile_append_stop (by decide) cs

theorem takeParamText?_append_break (cs : List Char) :
    takeParamText? (cs ++ ['\n']) = (takeParamText? cs).map
        (fun (params, rest) => (params, rest ++ ['\n'])) := by
  cases cs with
  | nil => rfl
  | cons c rest =>
    by_cases hOpen : c = '('
    · subst hOpen
      rw [cons_append, takeParamText?, takeParamText?, dropWhile_append_break (by decide)]
      cases hClose : rest.dropWhile (· ≠ ')') with
      | nil => rfl
      | cons d after =>
        have hTake : (rest ++ ['\n']).takeWhile (· ≠ ')') = rest.takeWhile (· ≠ ')') := by
          refine takeWhile_append_of_ends fun hAll => ?_
          rw [dropWhile_eq_nil_iff.2 hAll] at hClose
          cases hClose
        rw [hTake]
        rfl
    · rw [cons_append, takeParamText?, takeParamText?]
      · rfl
      · rintro _ ⟨⟩
        exact hOpen rfl
      · rintro _ ⟨⟩
        exact hOpen rfl

theorem Definition.ofText?_append_break (s : String) :
    Definition.ofText? (s ++ "\n") = Definition.ofText? s := by
  have hChars : (s ++ "\n").toList = s.toList ++ ['\n'] := String.toList_append
  have hBlank : isSpace '\n' = true := by decide
  simp only [Definition.ofText?, hChars]
  rw [dropWhile_append_break (by decide)]
  by_cases hNone : s.toList.dropWhile (!isWord ·) = []
  · simp [hNone, withBreak]
  have hBreak : withBreak (s.toList.dropWhile (!isWord ·)) =
      s.toList.dropWhile (!isWord ·) ++ ['\n'] := by
    simp [withBreak, hNone]
  rw [hBreak, takeWhile_append_stop (by decide), dropWhile_append_stop (by decide),
    takeParamText?_append_break]
  split_ifs
  · rfl
  cases takeParamText? _ with
  | none =>
    simp only [Option.map_none, dropWhile_append_break hBlank, takeWhile_withBreak]
  | some found =>
    simp only [Option.map_some, dropWhile_append_break hBlank, takeWhile_withBreak]

end Macro

end CHeader
