import Mathlib.Data.List.TakeWhile
import CHeader.Expr.Lexeme
import CHeader.Proofs.Text.Space

/-
  Items laid out in a text.

  Words and operators that stand in a text with white space between them are its lexemes. No white
  space is needed between two of them unless they would be read as one: two words, a word and a
  parenthesis after it, or an operator that begins a longer one.

  Main declarations:
    * `Expr.isItem`
    * `Expr.endsBefore`
    * `Expr.LaidOut`
-/

namespace CHeader

open List

namespace Text

theorem startsWith_eq_true_iff : startsWith cs start = true ↔ start <+: cs := by
  fun_induction startsWith cs start with
  | case1 | case2 => simp
  | case3 c cs p ps ih =>
    rw [Bool.and_eq_true, ih, cons_prefix_cons, decide_eq_true_eq, eq_comm]

end Text

namespace Expr

open Text

-- Items

/- Whether a text is a word of an expression. The word
  `defined` is read off also where it only begins one. -/
def isWordItem (t : String) : Bool :=
  !t.toList.isEmpty && t.toList.all isLexemeChar && !startsWith t.toList "defined".toList

/- Whether a text is one lexeme by itself. -/
def isItem (t : String) : Bool := isWordItem t || operators.contains t

/- Whether an item ends before a character, whatever comes after that. -/
def endsBefore (t : String) (d : Char) : Bool :=
  if isWordItem t then !isLexemeChar d && d ≠ '('
  else operatorLength? (t.toList ++ [d]) = some t.length

/- Whether two items are two also without white space. -/
def apart (t u : String) : Bool := u.toList.head?.all (endsBefore t)

section

variable {t : String} {c : Char} {rest : List Char}

theorem isWordItem_iff : isWordItem t = true ↔
    t.toList ≠ [] ∧ (∀ c ∈ t.toList, isLexemeChar c = true) ∧ ¬ "defined".toList <+: t.toList := by
  rw [← startsWith_eq_true_iff]
  simp [isWordItem, and_assoc]

theorem isItem_iff : isItem t = true ↔ isWordItem t = true ∨ t ∈ operators := by
  simp [isItem]

theorem toList_ne_nil_of_isItem (hItem : isItem t = true) : t.toList ≠ [] := by
  rcases isItem_iff.1 hItem with hWord | hMem
  · exact (isWordItem_iff.1 hWord).1
  · have hAll : ∀ u ∈ operators, u.toList ≠ [] := by decide
    exact hAll t hMem

theorem apart_iff : apart t u = true ↔ ∀ d ∈ u.toList.head?, endsBefore t d = true := by
  unfold apart
  cases u.toList.head? <;> simp

theorem endsBefore_of_isSpace (hItem : isItem t = true) (hSpace : isSpace c = true) :
    endsBefore t c = true := by
  unfold endsBefore
  split_ifs with hWord
  · exact forall_isSpace (P := fun c => (!isLexemeChar c && c ≠ '(') = true)
      (by decide +kernel) hSpace
  · have hMem := (isItem_iff.1 hItem).resolve_left hWord
    have hAll : ∀ u ∈ operators, ∀ code ∈ spaceCodes,
        operatorLength? (u.toList ++ [Char.ofNat code]) = some u.length := by
      decide +kernel
    rw [decide_eq_true_eq]
    exact forall_isSpace (P := fun c => operatorLength? (t.toList ++ [c]) =
        some t.length) (hAll t hMem) hSpace

/- The characters of an item are no white space, and few marks are among them. -/
theorem mem_item (hItem : isItem t = true) (hMem : c ∈ t.toList) :
    isSpace c = false ∧ c ∉ ['.', '"', '\x00'] := by
  have hOperators : operators.all (fun op => op.toList.all fun c =>
      !Text.isSpace c && !(['.', '"', '\x00'].contains c)) =
      true := by
    decide
  rcases isItem_iff.1 hItem with hWord | hOperator
  · have hHere := (isWordItem_iff.1 hWord).2.1 c hMem
    refine ⟨?_, ?_⟩
    · by_contra hSpace
      have hOther : isLexemeChar c = false :=
        forall_isSpace (P := fun c => isLexemeChar c = false)
          (by decide +kernel) (by simpa using hSpace)
      rw [hHere] at hOther
      cases hOther
    · intro hMark
      simp only [mem_cons, not_mem_nil, or_false] at hMark
      rcases hMark with rfl | rfl | rfl <;>
        exact absurd hHere (by decide)
  · rw [all_eq_true] at hOperators
    have hHere := all_eq_true.1 (hOperators t hOperator) c hMem
    simpa using hHere

/- No word goes on after an item that ends. -/
theorem not_isWord_of_endsBefore (hItem : isItem t = true) (hMem : c ∈ t.toList)
    (hWord : isWord c = true) (hEnds : endsBefore t d = true) : isWord d = false := by
  have hOperators : operators.all (fun op => op.toList.all fun c =>
      !isWord c) = true := by
    decide
  by_cases hItemWord : isWordItem t = true
  · rw [endsBefore, if_pos hItemWord] at hEnds
    simp only [isLexemeChar] at hEnds
    simp_all
  · have hOperator := (isItem_iff.1 hItem).resolve_left hItemWord
    rw [all_eq_true] at hOperators
    have hHere := all_eq_true.1 (hOperators t hOperator) c hMem
    simp [hWord] at hHere

-- Single lexemes

/- No more than two characters decide on an operator. -/
theorem operatorLength?_cons_cons (c d : Char) (rest : List Char) :
    operatorLength? (c :: d :: rest) = operatorLength? [c, d] := by
  have hShort : ∀ op ∈ operators, op.toList.length ≤ 2 := by
    decide
  have hSame : ∀ op ∈ operators, startsWith (c :: d :: rest) op.toList =
      startsWith [c, d] op.toList := by
    intro op hMem
    have hLength := hShort op hMem
    match op.toList, hLength with
    | [], _ => rfl
    | [_], _ => rfl
    | [_, _], _ => simp [startsWith]
  unfold operatorLength?
  rw [List.find?_congr hSame]

theorem operatorLength?_operator (hMem : t ∈ operators) (hEnds : ∀ d ∈ rest.head?,
    operatorLength? (t.toList ++ [d]) = some t.length) :
    operatorLength? (t.toList ++ rest) = some t.length := by
  cases rest with
  | nil =>
    have hAll : ∀ u ∈ operators, operatorLength? (u.toList ++ []) = some u.length := by
      decide
    exact hAll t hMem
  | cons d rest =>
    have hOne := hEnds d rfl
    rw [← hOne]
    have hSome := toList_ne_nil_of_isItem (isItem_iff.2 (.inr hMem))
    match t.toList, hSome with
    | [c], _ => exact operatorLength?_cons_cons c d rest
    | c :: b :: more, _ =>
      simp only [cons_append]
      rw [operatorLength?_cons_cons, operatorLength?_cons_cons c b (more ++ [d])]

theorem callLength?_of_not_isWord (hWord : isWord c = false) : callLength? (c :: rest) = none := by
  simp [callLength?, hWord]

theorem lexemeLength?_of_isSpace (hSpace : isSpace c = true) :
    lexemeLength? (c :: rest) = none := by
  have hFree : isLexemeChar c = false ∧ ("defined" :: operators).all
      (fun op => op.toList.head? != some c) = true :=
    forall_isSpace (P := fun c => isLexemeChar c = false ∧ ("defined" :: operators).all
        (fun op => op.toList.head? != some c) = true)
      (by decide +kernel) hSpace
  have hStart : ∀ op ∈ "defined" :: operators, startsWith (c :: rest) op.toList = false := by
    intro op hMem
    have hHead := all_eq_true.1 hFree.2 op hMem
    have hSome : ∀ u ∈ "defined" :: operators, u.toList ≠ [] := by
      decide
    obtain ⟨d, more, hOp⟩ := exists_cons_of_ne_nil (hSome op hMem)
    rw [hOp] at hHead ⊢
    have hOther : d ≠ c := by simpa using hHead
    simp [startsWith, hOther.symm]
  have hWord := not_isWord_of_isSpace hSpace
  rw [lexemeLength?, hStart _ mem_cons_self, callLength?_of_not_isWord hWord]
  simp only [takeWhile_cons, hFree.1, operatorLength?]
  rw [List.find?_eq_none.2]
  · rfl
  · intro op hMem
    rw [hStart op (mem_cons_of_mem _ hMem)]
    decide

theorem lexemeLength?_word (hWord : isWordItem t = true)
    (hEnds : ∀ d ∈ rest.head?, isLexemeChar d = false ∧ d ≠ '(') :
    lexemeLength? (t.toList ++ rest) = some t.length := by
  obtain ⟨_, hAll, hDefined⟩ := isWordItem_iff.1 hWord
  have hStop : rest.takeWhile isLexemeChar = [] := by
    cases rest with
    | nil => rfl
    | cons d rest => simp [(hEnds d rfl).1]
  have hStart : startsWith (t.toList ++ rest) "defined".toList = false := by
    rw [← Bool.not_eq_true, startsWith_eq_true_iff]
    intro hWhole
    rcases prefix_or_prefix_of_prefix hWhole
        (prefix_append t.toList rest) with hLess | hMore
    · exact hDefined hLess
    · -- the word would go on with a letter of `defined`
      obtain ⟨more, hMore⟩ := hMore
      rw [← hMore, prefix_append_right_inj] at hWhole
      cases more with
      | nil => exact hDefined (by simp [← hMore])
      | cons d more =>
        obtain ⟨later, rfl⟩ := hWhole
        have hLetters : ∀ d ∈ "defined".toList, isLexemeChar d = true :=
          all_eq_true.1 (by decide)
        have hLetter := hLetters d (by simp [← hMore])
        rw [(hEnds d rfl).1] at hLetter
        cases hLetter
  have hCall : callLength? (t.toList ++ rest) = none := by
    have hHead : ∀ d ∈ ((t.toList ++ rest).dropWhile isWord).head?, d ≠ '(' := by
      intro d hd
      rw [dropWhile_append] at hd
      split_ifs at hd with hEmpty
      · cases rest with
        | nil => cases hd
        | cons e rest =>
          have hOther : isWord e = false := by
            have hLexeme := (hEnds e rfl).1
            simp only [isLexemeChar, Bool.or_eq_false_iff] at hLexeme
            exact hLexeme.1.1
          rw [dropWhile_cons, hOther] at hd
          exact (hEnds d hd).2
      · have hMem : d ∈ t.toList := by
          refine dropWhile_subset isWord ?_
          cases hDrop : t.toList.dropWhile isWord with
          | nil => simp [hDrop] at hEmpty
          | cons e more =>
            rw [hDrop] at hd
            cases hd
            exact mem_cons_self
        rintro rfl
        exact absurd (hAll _ hMem) (by decide)
    unfold callLength?
    dsimp only
    split
    · next hDrop => exact absurd rfl (hHead _ (by rw [hDrop]; rfl))
    · rfl
  rw [lexemeLength?, hStart, hCall, takeWhile_append_of_pos hAll, hStop]
  simp [String.length_toList]

/- An item is one lexeme before a character that ends it. -/
theorem lexemeLength?_item (hItem : isItem t = true)
    (hEnds : ∀ d ∈ rest.head?, endsBefore t d = true) :
    lexemeLength? (t.toList ++ rest) = some t.length := by
  by_cases hWord : isWordItem t = true
  · refine lexemeLength?_word hWord fun d hd => ?_
    have hEnd := hEnds d hd
    rw [endsBefore, if_pos hWord] at hEnd
    simpa using hEnd
  · have hMem := (isItem_iff.1 hItem).resolve_left hWord
    have hFirst : operators.all (fun u => u.toList.head?.all (!isLexemeChar ·)) = true := by
      decide
    have hLength := operatorLength?_operator hMem fun d hd => by
      simpa [endsBefore, hWord] using hEnds d hd
    obtain ⟨c, more, hList⟩ := exists_cons_of_ne_nil (toList_ne_nil_of_isItem hItem)
    have hOther : isLexemeChar c = false := by
      have hHead := all_eq_true.1 hFirst t hMem
      rw [hList] at hHead
      simpa using hHead
    rw [← hLength, hList, cons_append, lexemeLength?, callLength?_of_not_isWord]
    · have hLetter : c ≠ 'd' := by
        rintro rfl
        exact absurd hOther (by decide)
      simp [startsWith, hLetter, hOther]
    · simp only [isLexemeChar, Bool.or_eq_false_iff] at hOther
      exact hOther.1.1

-- Whole texts

theorem lexemesFrom_skip (n : Nat) (cs : List Char) :
    lexemesFrom n cs = lexemesFrom 0 (cs.drop n) := by
  induction cs generalizing n with
  | nil => simp [lexemesFrom]
  | cons c rest ih =>
    cases n with
    | zero => rfl
    | succ n =>
      rw [lexemesFrom, ih]
      rfl

theorem lexemesFrom_append (hSome : t.toList ≠ [])
    (hLength : lexemeLength? (t.toList ++ rest) = some t.length) :
    lexemesFrom 0 (t.toList ++ rest) = t :: lexemesFrom 0 rest := by
  obtain ⟨c, more, hList⟩ := exists_cons_of_ne_nil hSome
  have hSize : t.length = more.length + 1 := by
    rw [← String.length_toList, hList, length_cons]
  rw [hList, cons_append] at hLength ⊢
  rw [lexemesFrom, hLength]
  simp only
  rw [lexemesFrom_skip, hSize, Nat.add_sub_cancel, drop_left, ← cons_append, ← hList,
    take_left' (by rw [hList, length_cons]), String.ofList_toList]

theorem lexemesFrom_gap (hGap : ∀ c ∈ gap, isSpace c = true) (rest : List Char) :
    lexemesFrom 0 (gap ++ rest) = lexemesFrom 0 rest := by
  induction gap with
  | nil => rfl
  | cons c gap ih =>
    rw [forall_mem_cons] at hGap
    rw [cons_append, lexemesFrom, lexemeLength?_of_isSpace hGap.1]
    exact ih hGap.2

end

inductive LaidOut : List String → List Char → Prop where
  | nil {gap : List Char} (hGap : ∀ c ∈ gap, isSpace c = true) : LaidOut [] gap
  | cons {gap : List Char} {item : String} {items : List String} {rest : List Char}
      (hGap : ∀ c ∈ gap, isSpace c = true)
      (hRest : LaidOut items rest) :
      LaidOut (item :: items) (gap ++ (item.toList ++ rest))

/- A text in which items stand so that each of them ends before what comes after it. -/
inductive Spaced : List String → List Char → Prop where
  | nil {gap : List Char} (hGap : ∀ c ∈ gap, isSpace c = true) : Spaced [] gap
  | cons {gap : List Char} {item : String} {items : List String} {rest : List Char}
      (hGap : ∀ c ∈ gap, isSpace c = true)
      (hItem : isItem item = true)
      (hEnds : ∀ d ∈ rest.head?, endsBefore item d = true)
      (hRest : Spaced items rest) :
      Spaced (item :: items) (gap ++ (item.toList ++ rest))

/- Whether items stand in a text, where all white space in front of an item is passed over. -/
def isLaidOut : List String → List Char → Bool
| [], text => text.all isSpace
| item :: items, text =>
    let rest := text.dropWhile isSpace
    startsWith rest item.toList && isLaidOut items (rest.drop item.length)

/- The same where each item ends before what comes after it. -/
def isSpaced : List String → List Char → Bool
| [], text => text.all isSpace
| item :: items, text =>
    let rest := text.dropWhile isSpace
    let after := rest.drop item.length
    startsWith rest item.toList && isItem item &&
      after.head?.all (endsBefore item) && isSpaced items after

namespace Spaced

variable {items : List String} {text : List Char}

theorem of_isSpaced (hText : isSpaced items text = true) : Spaced items text := by
  induction items generalizing text with
  | nil => exact .nil (by simpa [isSpaced] using hText)
  | cons item items ih =>
    rw [isSpaced, Bool.and_eq_true, Bool.and_eq_true,
      Bool.and_eq_true, startsWith_eq_true_iff] at hText
    obtain ⟨⟨⟨⟨rest, hRest⟩, hItem⟩, hEnds⟩, hMore⟩ := hText
    rw [← hRest, ← String.length_toList, drop_left] at hEnds hMore
    rw [← takeWhile_append_dropWhile (p := isSpace) (l := text), ← hRest]
    refine .cons (fun c => mem_takeWhile_imp) hItem ?_ (ih hMore)
    intro d hd
    rw [Option.mem_def.1 hd] at hEnds
    exact hEnds

/- Items that end before what comes after them are the lexemes of the text. -/
theorem lexemesFrom_eq (hText : Spaced items text) : lexemesFrom 0 text = items := by
  induction hText with
  | @nil gap hGap =>
    have hSame := lexemesFrom_gap hGap []
    rwa [append_nil] at hSame
  | @cons gap item items rest hGap hItem hEnds hRest ih =>
    rw [lexemesFrom_gap hGap, lexemesFrom_append (toList_ne_nil_of_isItem hItem)
      (lexemeLength?_item hItem hEnds), ih]

end Spaced

namespace LaidOut

variable {items : List String} {text : List Char}

theorem of_isLaidOut (hText : isLaidOut items text = true) : LaidOut items text := by
  induction items generalizing text with
  | nil => exact .nil (by simpa [isLaidOut] using hText)
  | cons item items ih =>
    rw [isLaidOut, Bool.and_eq_true, startsWith_eq_true_iff] at hText
    obtain ⟨⟨rest, hRest⟩, hMore⟩ := hText
    rw [← hRest, ← String.length_toList, drop_left] at hMore
    rw [← takeWhile_append_dropWhile (p := isSpace) (l := text), ← hRest]
    exact .cons (fun c => mem_takeWhile_imp) (ih hMore)

section

variable (hText : LaidOut items text) (hItems : ∀ item ∈ items, isItem item = true)
include hText hItems

/- What stands first in a text with items. -/
theorem head_cases (hHead : d ∈ text.head?) :
    isSpace d = true ∨ ∃ item ∈ items.head?, d ∈ item.toList.head? := by
  cases hText with
  | nil hGap => exact .inl (hGap d (mem_of_mem_head? hHead))
  | @cons gap item items rest hGap hRest =>
    cases gap with
    | cons c gap =>
      cases hHead
      exact .inl (hGap _ mem_cons_self)
    | nil =>
      refine .inr ⟨item, rfl, ?_⟩
      obtain ⟨c, more, hList⟩ := exists_cons_of_ne_nil
        (toList_ne_nil_of_isItem (hItems item mem_cons_self))
      rw [hList] at hHead ⊢
      exact hHead

/- Items that stay apart end before what comes after them. -/
theorem spaced (hApart : items.IsChain (apart · ·)) : Spaced items text := by
  induction hText with
  | nil hGap => exact .nil hGap
  | @cons gap item items rest hGap hRest ih =>
    rw [forall_mem_cons] at hItems
    refine .cons hGap hItems.1 ?_ (ih hItems.2 hApart.tail)
    intro d hd
    rcases hRest.head_cases hItems.2 hd with
      hSpace | ⟨next, hNext, hd⟩
    · exact endsBefore_of_isSpace hItems.1 hSpace
    · cases items with
      | nil => cases hNext
      | cons first items =>
        cases hNext
        exact apart_iff.1 (isChain_cons_cons.1 hApart).1 d hd

theorem lexemesFrom_eq (hApart : items.IsChain (apart · ·)) : lexemesFrom 0 text = items :=
  (hText.spaced hItems hApart).lexemesFrom_eq

end

theorem append (hText : LaidOut items text) (hRest : LaidOut others rest) :
    LaidOut (items ++ others) (text ++ rest) := by
  induction hText with
  | @nil gap hGap =>
    cases hRest with
    | @nil last hLast =>
      exact .nil (forall_mem_append.2 ⟨hGap, hLast⟩)
    | @cons last item items rest hLast hRest =>
      rw [← append_assoc]
      exact .cons (forall_mem_append.2 ⟨hGap, hLast⟩) hRest
  | @cons gap item items more hGap hMore ih =>
    rw [append_assoc, append_assoc]
    exact .cons hGap ih

theorem singleton (item : String) : LaidOut [item] item.toList := by
  have hOne : LaidOut [item] ([] ++ (item.toList ++ [])) := .cons nofun (.nil nofun)
  simpa using hOne

end LaidOut

namespace Spaced

variable {items : List String} {text : List Char}

variable (hText : Spaced items text)
include hText

theorem laidOut : LaidOut items text := by
  induction hText with
  | nil hGap => exact .nil hGap
  | cons hGap _ _ _ ih => exact .cons hGap ih

theorem isItem (hMem : item ∈ items) : Expr.isItem item = true := by
  induction hText with
  | nil => cases hMem
  | cons _ hItem _ _ ih =>
    rcases mem_cons.1 hMem with rfl | hMem
    · exact hItem
    · exact ih hMem

/- The characters of a text with items. -/
theorem mem_cases (hMem : c ∈ text) : isSpace c = true ∨ ∃ item ∈ items, c ∈ item.toList := by
  induction hText with
  | nil hGap => exact .inl (hGap c hMem)
  | @cons gap item items rest hGap hItem hEnds hRest ih =>
    rw [mem_append, mem_append] at hMem
    rcases hMem with hHere | hHere | hHere
    · exact .inl (hGap c hHere)
    · exact .inr ⟨item, mem_cons_self, hHere⟩
    · refine (ih hHere).imp_right ?_
      rintro ⟨other, hOther, hMem⟩
      exact ⟨other, mem_cons_of_mem _ hOther, hMem⟩

/- Blanks in front of the items do not count. -/
theorem dropWhile_isBlank : Spaced items (text.dropWhile isBlank) := by
  have hBlank : ∀ gap : List Char, (∀ c ∈ gap, isSpace c = true) →
      ∀ c ∈ gap, isBlank c = true := by
    intro gap hGap c hMem
    simp [isBlank, hGap c hMem]
  cases hText with
  | nil hGap =>
    rw [dropWhile_eq_nil_iff.2 (hBlank text hGap)]
    exact .nil nofun
  | @cons gap item items rest hGap hItem hEnds hRest =>
    have hOne : Spaced (item :: items) ([] ++ (item.toList ++ rest)) :=
      .cons nofun hItem hEnds hRest
    obtain ⟨c, more, hList⟩ := exists_cons_of_ne_nil (toList_ne_nil_of_isItem hItem)
    obtain ⟨hSpace, hMark⟩ := mem_item (c := c) hItem (by simp [hList])
    rw [dropWhile_append_of_pos (hBlank gap hGap), hList,
      cons_append, dropWhile_cons, if_neg]
    · simpa [hList] using hOne
    · simp_all [isBlank]

/- A word that stands in the text stands in an item. -/
theorem exists_infix (hSome : word ≠ []) (hWord : ∀ c ∈ word, isWord c = true)
    (hInfix : word <:+: text) : ∃ item ∈ items, word <:+: item.toList := by
  have hSpace : ∀ gap : List Char, (∀ c ∈ gap, isSpace c = true) → ∀ part : List Char,
      part <:+: gap → (∀ c ∈ part, isWord c = true) → part = [] := by
    intro gap hGap part hPart hAll
    by_contra hNone
    obtain ⟨c, rest, rfl⟩ := exists_cons_of_ne_nil hNone
    have hOther := not_isWord_of_isSpace (hGap c (hPart.subset mem_cons_self))
    rw [hAll c mem_cons_self] at hOther
    cases hOther
  induction hText with
  | @nil gap hGap =>
    exact absurd (hSpace gap hGap word hInfix hWord) hSome
  | @cons gap item items rest hGap hItem hEnds hRest ih =>
    have hLater : word <:+: rest → ∃ other ∈ item :: items, word <:+: other.toList := by
      intro hRest
      obtain ⟨other, hOther, hInfix⟩ := ih hRest
      exact ⟨other, mem_cons_of_mem _ hOther, hInfix⟩
    have hInside : word <:+: item.toList ++ rest → ∃ other ∈ item :: items,
        word <:+: other.toList := by
      intro hInfix
      rcases infix_append_iff.1 hInfix with
        hHere | hHere | ⟨first, second, rfl, hFirst, hSecond⟩
      · exact ⟨item, mem_cons_self, hHere⟩
      · exact hLater hHere
      · -- no word goes across the end of an item
        rw [forall_mem_append] at hWord
        cases second with
        | nil =>
          rw [append_nil]
          exact ⟨item, mem_cons_self, hFirst.isInfix⟩
        | cons d second =>
          rcases eq_nil_or_concat first with rfl | ⟨init, c, rfl⟩
          · exact hLater (by simpa using hSecond.isInfix)
          · have hHead : d ∈ rest.head? := by
              obtain ⟨more, rfl⟩ := hSecond
              rfl
            have hOther := not_isWord_of_endsBefore hItem
              (hFirst.subset (by simp)) (hWord.1 c (by simp))
              (hEnds d hHead)
            rw [hWord.2 d mem_cons_self] at hOther
            cases hOther
    rcases infix_append_iff.1 hInfix with
      hHere | hHere | ⟨first, second, rfl, hFirst, hSecond⟩
    · exact absurd (hSpace gap hGap word hHere hWord) hSome
    · exact hInside hHere
    · rw [forall_mem_append] at hWord
      rw [hSpace gap hGap first hFirst.isInfix hWord.1] at hInside ⊢
      exact hInside hSecond.isInfix

theorem item_infix (hMem : item ∈ items) : item.toList <:+: text := by
  induction hText with
  | nil => cases hMem
  | @cons gap other items rest hGap hItem hEnds hRest ih =>
    rcases mem_cons.1 hMem with rfl | hMem
    · exact ⟨gap, rest, by simp⟩
    · refine (ih hMem).trans ?_
      rw [← append_assoc]
      exact (suffix_append _ rest).isInfix

end Spaced

end Expr

end CHeader
