import CHeader.Proofs.Expr.Layout
import CHeader.Proofs.Macro.Cutting
import CHeader.Source.Process

/-
  Which lines are directives.

  The name of a directive is the run of letters after the number sign, and it counts if a blank
  follows. So a line break behind a line brings out a directive only if the line ends right after
  its name or its number sign. All other lines are recognized as before, and the operand ends with
  the line break. Without the blanks between the name and an operand that does not begin with one
  the line is no directive of that name.

  Main declarations:
    * `Source.Keyword.named?`
    * `Source.Directive.named?`
    * `Source.Directive.bare?`
-/

namespace CHeader

open List

-- Texts with a line break

namespace Text

def withBreak (cs : List Char) : List Char :=
  if cs.isEmpty then [] else cs ++ ['\n']

section

variable {p : Char → Bool}

theorem dropWhile_append_break (hBreak : p '\n' = true) (cs : List Char) :
    (cs ++ ['\n']).dropWhile p = withBreak (cs.dropWhile p) := by
  rw [dropWhile_append]
  unfold withBreak
  split_ifs
  · simp [hBreak]
  · rfl

/- A run of another class ends before the line break. -/
theorem dropWhile_append_stop (hStop : p '\n' = false) (cs : List Char) :
    (cs ++ ['\n']).dropWhile p = cs.dropWhile p ++ ['\n'] := by
  rw [dropWhile_append]
  split_ifs with hEmpty
  · simp [isEmpty_iff.1 hEmpty, hStop]
  · rfl

theorem takeWhile_append_stop (hStop : p '\n' = false) (cs : List Char) :
    (cs ++ ['\n']).takeWhile p = cs.takeWhile p := by
  refine Macro.takeWhile_append_of_ends fun _ => ?_
  rintro _ ⟨⟩
  exact hStop

end

end Text

namespace Source

open Text

-- Keywords

namespace Keyword

def named? (name : List Char) : Option Keyword :=
  all.find? (fun keyword => keyword.spelling.toList = name)

theorem named?_spelling (keyword : Keyword) : named? keyword.spelling.toList = some keyword := by
  cases keyword <;> decide

theorem spelling_of_named? (hNamed : named? name = some keyword) :
    keyword.spelling.toList = name := by
  simpa using find?_some hNamed

theorem isAlpha_spelling (keyword : Keyword) : ∀ c ∈ keyword.spelling.toList, c.isAlpha = true := by
  rw [← all_eq_true]
  cases keyword <;> decide

end Keyword

theorem not_isAlpha_of_isBlank (hBlank : isBlank c = true) : c.isAlpha = false :=
  forall_isBlank (P := fun c => c.isAlpha = false) (by decide +kernel) hBlank

section

variable {word after : List Char}

theorem span_isAlpha (hWord : ∀ c ∈ word, c.isAlpha = true)
    (hAfter : ∀ c ∈ after.head?, c.isAlpha = false) :
    (word ++ after).takeWhile Char.isAlpha = word ∧
      (word ++ after).dropWhile Char.isAlpha = after := by
  rw [takeWhile_append_of_pos hWord, dropWhile_append_of_pos hWord]
  cases after with
  | nil => simp
  | cons c after => simp [hAfter c rfl]

/- A keyword is read off a text by its letters. -/
theorem afterKeyword?_eq (keyword : Keyword) (text : List Char) : afterKeyword? keyword text =
    if keyword.spelling.toList = text.takeWhile Char.isAlpha ∧
        (text.dropWhile Char.isAlpha).head?.any isBlank = true then
      some (text.dropWhile Char.isAlpha)
    else none := by
  unfold afterKeyword?
  have hLength : ∀ rest, (keyword.spelling.toList ++ rest).drop keyword.spelling.length = rest :=
    fun _ => drop_left
  split_ifs with hStart hNamed hNamed
  · obtain ⟨rest, rfl⟩ := startsWith_eq_true_iff.1 hStart
    have hRest : (keyword.spelling.toList ++ rest).dropWhile Char.isAlpha = rest := by
      have hSame : keyword.spelling.toList ++
          (keyword.spelling.toList ++ rest).dropWhile Char.isAlpha =
            keyword.spelling.toList ++ rest := by
        nth_rw 1 [hNamed.1]
        exact takeWhile_append_dropWhile
      exact append_cancel_left hSame
    rw [hLength, hRest]
    rw [hRest] at hNamed
    cases rest with
    | nil => exact absurd hNamed.2 (by simp)
    | cons c rest => exact if_pos (by simpa using hNamed.2)
  · obtain ⟨rest, rfl⟩ := startsWith_eq_true_iff.1 hStart
    rw [hLength]
    cases rest with
    | nil => rfl
    | cons c rest =>
      refine if_neg fun hBlank => hNamed ?_
      have hAfter : ∀ d ∈ (c :: rest).head?, d.isAlpha = false := by
        rintro _ ⟨⟩
        exact not_isAlpha_of_isBlank hBlank
      obtain ⟨hTake, hDrop⟩ := span_isAlpha keyword.isAlpha_spelling hAfter
      rw [hTake, hDrop]
      exact ⟨rfl, by simpa using hBlank⟩
  · refine absurd (startsWith_eq_true_iff.2 ?_) hStart
    rw [hNamed.1]
    exact takeWhile_prefix _
  · rfl

end

namespace Directive

/- The directive with a name that a text after the number sign spells. -/
def named? (text : List Char) : Option Directive :=
  let after := text.dropWhile Char.isAlpha
  if after.head?.any isBlank then
    (Keyword.named? (text.takeWhile Char.isAlpha)).map
      (⟨some ·, after, after.dropWhile isBlank⟩)
  else none

theorem findSome?_eq_named? (text : List Char) : Keyword.all.findSome? (fun keyword =>
    (afterKeyword? keyword text).map (fun after =>
        (⟨some keyword, after, after.dropWhile isBlank⟩ : Directive))) = named? text := by
  simp only [afterKeyword?_eq, named?]
  split_ifs with hBlank
  · simp only [hBlank, and_true, Keyword.named?, find?_eq_findSome?_guard, map_findSome?]
    congr 1
    funext keyword
    simp only [Function.comp_apply, Option.guard, decide_eq_true_eq]
    split_ifs <;> rfl
  · simp [hBlank]

section

variable {cs rest lead middle gap operand : List Char} {keyword : Keyword}

theorem ofChars?_of_number (hNumber : cs.dropWhile isBlank = '#' :: rest) :
    ofChars? cs = (named? (rest.dropWhile isBlank)).or
        (if rest.length = (rest.dropWhile isBlank).length then none
          else some ⟨none, rest.dropWhile isBlank, rest.dropWhile isBlank⟩) := by
  rw [ofChars?, hNumber]
  simp only [findSome?_eq_named?]
  cases named? (rest.dropWhile isBlank) <;> rfl

theorem ofChars?_of_other (hOther : (cs.dropWhile isBlank).head? ≠ some '#') :
    ofChars? cs = none := by
  rw [ofChars?]
  split
  · next hNumber =>
    rw [hNumber] at hOther
    exact absurd rfl hOther
  · rfl

-- Lines with a line break

def ended (directive : Directive) : Directive :=
  ⟨directive.keyword, Text.withBreak directive.afterKeyword, Text.withBreak directive.operand⟩

/-
  The directive that only a line break brings out: a line that ends right after the name of the
  directive, or right after its number sign.
-/
def bare? (cs : List Char) : Option Directive :=
  match cs.dropWhile isBlank with
  | '#' :: rest =>
      if rest = [] then some ⟨none, [], []⟩
      else
        (Keyword.named? (rest.dropWhile isBlank)).map (⟨some ·, ['\n'], []⟩)
  | _ => none

theorem bare?_of_number (hNumber : cs.dropWhile isBlank = '#' :: rest) :
    bare? cs = if rest = [] then some ⟨none, [], []⟩
      else (Keyword.named? (rest.dropWhile isBlank)).map (⟨some ·, ['\n'], []⟩) := by
  rw [bare?, hNumber]
  rfl

theorem named?_append_break (text : List Char) : named? (text ++ ['\n']) =
    ((Keyword.named? text).map (⟨some ·, ['\n'], []⟩)).or ((named? text).map ended) := by
  by_cases hAll : ∀ c ∈ text, c.isAlpha = true
  · have hBreak : ∀ c ∈ ['\n'].head?, c.isAlpha = false := by
      rintro _ ⟨⟩
      decide
    have hEnd : ∀ c ∈ ([] : List Char).head?, c.isAlpha = false := nofun
    have hText := span_isAlpha hAll hEnd
    rw [append_nil] at hText
    obtain ⟨hTake, hDrop⟩ := span_isAlpha hAll hBreak
    have hNone : named? text = none := by simp [named?, hText]
    rw [hNone, Option.map_none, Option.or_none, named?, hTake, hDrop]
    exact if_pos rfl
  · have hTake : (text ++ ['\n']).takeWhile Char.isAlpha = text.takeWhile Char.isAlpha :=
      Macro.takeWhile_append_of_ends fun h => absurd h hAll
    have hSome : text.dropWhile Char.isAlpha ≠ [] := by
      rwa [Ne, dropWhile_eq_nil_iff]
    have hDrop : (text ++ ['\n']).dropWhile Char.isAlpha =
        text.dropWhile Char.isAlpha ++ ['\n'] := by
      rw [dropWhile_append, if_neg (by simpa using hSome)]
    have hNone : Keyword.named? text = none := by
      by_contra hNamed
      obtain ⟨keyword, hKeyword⟩ := Option.ne_none_iff_exists'.1 hNamed
      rw [← Keyword.spelling_of_named? hKeyword] at hAll
      exact hAll keyword.isAlpha_spelling
    have hHead : (text.dropWhile Char.isAlpha ++ ['\n']).head? =
        (text.dropWhile Char.isAlpha).head? :=
      head?_append_of_ne_nil _ hSome
    rw [hNone, Option.map_none, Option.none_or, named?, named?,
      hTake, hDrop, hHead, dropWhile_append_break (by decide)]
    split_ifs
    · rw [Option.map_map]
      congr 1
      funext keyword
      simp [ended, Text.withBreak, hSome]
    · rfl

theorem ofChars?_append_break (cs : List Char) : ofChars? (cs ++ ['\n']) =
    (bare? cs).or ((ofChars? cs).map ended) := by
  have hStart := dropWhile_append_break (p := isBlank) (by decide) cs
  by_cases hNumber : (cs.dropWhile isBlank).head? = some '#'
  · obtain ⟨rest, hRest⟩ := head?_eq_some_iff.1 hNumber
    have hLine : (cs ++ ['\n']).dropWhile isBlank = '#' :: (rest ++ ['\n']) := by
      rw [hStart, hRest]
      rfl
    have hBlank : isBlank '\n' = true := by decide
    rw [ofChars?_of_number hLine, ofChars?_of_number hRest,
      bare?_of_number hRest, dropWhile_append_break hBlank]
    by_cases hText : rest.dropWhile isBlank = []
    · -- nothing but blanks after the number sign
      have hNone : named? [] = none := rfl
      have hUnnamed : Keyword.named? [] = none := by decide
      rw [hText]
      cases rest with
      | nil => rfl
      | cons c rest =>
        simp [Text.withBreak, hNone, hUnnamed, ended]
    · have hSome : rest ≠ [] := by
        rintro rfl
        exact hText rfl
      have hBreak : Text.withBreak (rest.dropWhile isBlank) =
          rest.dropWhile isBlank ++ ['\n'] := by
        simp [Text.withBreak, hText]
      rw [hBreak, named?_append_break, if_neg hSome, Option.map_or, Option.or_assoc]
      simp only [length_append, Nat.add_right_cancel_iff]
      split_ifs
      · rfl
      · simp [ended, hBreak]
  · have hBare : bare? cs = none := by
      rw [bare?]
      split
      · next hRest =>
        rw [hRest] at hNumber
        exact absurd rfl hNumber
      · rfl
    rw [hBare, ofChars?_of_other hNumber, ofChars?_of_other]
    · rfl
    · rw [hStart, Text.withBreak]
      split_ifs with hEmpty
      · nofun
      · rwa [head?_append_of_ne_nil _ (by simpa using hEmpty)]

/- What only a line break brings out has no name without it. -/
theorem keyword_of_bare? (hBare : (bare? cs).isSome = true)
    (hChars : ofChars? cs = some directive) : directive.keyword = none := by
  by_cases hNumber : (cs.dropWhile isBlank).head? = some '#'
  · obtain ⟨rest, hRest⟩ := head?_eq_some_iff.1 hNumber
    rw [bare?_of_number hRest] at hBare
    rw [ofChars?_of_number hRest] at hChars
    have hNone : named? (rest.dropWhile isBlank) = none := by
      split_ifs at hBare with hSome
      · rw [hSome]
        rfl
      · rw [Option.isSome_map] at hBare
        obtain ⟨keyword, hKeyword⟩ := Option.isSome_iff_exists.1 hBare
        have hAlpha := keyword.isAlpha_spelling
        rw [Keyword.spelling_of_named? hKeyword] at hAlpha
        simp [named?, dropWhile_eq_nil_iff.2 hAlpha]
    rw [hNone, Option.none_or] at hChars
    split_ifs at hChars
    cases hChars
    rfl
  · rw [ofChars?_of_other hNumber] at hChars
    cases hChars

-- Lines without blanks before the operand

theorem dropWhile_number (hLead : ∀ c ∈ lead, isBlank c = true) :
    (lead ++ '#' :: rest).dropWhile isBlank = '#' :: rest := by
  rw [dropWhile_append_of_pos hLead]
  rfl

theorem dropWhile_name (keyword : Keyword) (hMiddle : ∀ c ∈ middle, isBlank c = true) :
    (middle ++ (keyword.spelling.toList ++ rest)).dropWhile
        isBlank = keyword.spelling.toList ++ rest := by
  rw [dropWhile_append_of_pos hMiddle]
  cases keyword <;> rfl

section

variable (keyword : Keyword) (hLead : ∀ c ∈ lead, isBlank c = true)
  (hMiddle : ∀ c ∈ middle, isBlank c = true)
include hLead hMiddle

theorem ofChars?_spaced (hGap : ∀ c ∈ gap, isBlank c = true)
    (hSome : gap ≠ []) (hOperand : ∀ c ∈ operand.head?, isBlank c = false) :
    ofChars? (lead ++ '#' :: (middle ++ (keyword.spelling.toList ++ (gap ++ operand)))) =
      some ⟨some keyword, gap ++ operand, operand⟩ := by
  have hHead : ∀ c ∈ (gap ++ operand).head?, isBlank c = true ∧ c.isAlpha = false := by
    intro c hc
    rw [head?_append_of_ne_nil _ hSome] at hc
    have hBlank := hGap c (mem_of_mem_head? hc)
    exact ⟨hBlank, not_isAlpha_of_isBlank hBlank⟩
  obtain ⟨hTake, hDrop⟩ := span_isAlpha keyword.isAlpha_spelling (fun c hc => (hHead c hc).2)
  have hAny : (gap ++ operand).head?.any isBlank = true := by
    cases hFirst : (gap ++ operand).head? with
    | none => simp_all
    | some c => exact (hHead c hFirst).1
  have hLast : (gap ++ operand).dropWhile isBlank = operand := by
    rw [dropWhile_append_of_pos hGap]
    cases operand with
    | nil => rfl
    | cons d operand => simp [hOperand d rfl]
  rw [ofChars?_of_number (dropWhile_number hLead),
    dropWhile_name keyword hMiddle, named?, hTake, hDrop, Keyword.named?_spelling, hLast]
  simp only [hAny, if_true, Option.map_some, Option.some_or]

theorem ofChars?_unspaced
    (hOperand : ∀ c ∈ operand.head?, isBlank c = false ∧ c.isAlpha = false) :
    ofChars? (lead ++ '#' :: (middle ++ (keyword.spelling.toList ++ operand))) =
      if middle = [] then none else
        some ⟨none, keyword.spelling.toList ++ operand, keyword.spelling.toList ++ operand⟩ := by
  obtain ⟨hTake, hDrop⟩ := span_isAlpha keyword.isAlpha_spelling (fun c hc => (hOperand c hc).2)
  have hAny : operand.head?.any isBlank = false := by
    cases hFirst : operand.head? with
    | none => rfl
    | some c => exact (hOperand c hFirst).1
  have hNone : named? (keyword.spelling.toList ++ operand) = none := by
    rw [named?, hTake, hDrop]
    simp [hAny]
  rw [ofChars?_of_number (dropWhile_number hLead),
    dropWhile_name keyword hMiddle, hNone, Option.none_or]
  simp

end

end

end Directive

end Source

end CHeader
