import CHeader.Proofs.Macro.Passes
import CHeader.Proofs.Text.Space

/-
  Lexemes that are put together.

  A lexeme is a word or has no character of one, and the marks that grouping looks for stand alone.
  Where texts of that kind stand one after another and no two words touch, the text they spell has
  the same words again, however it is cut into lexemes. A parenthesis that is read again therefore
  fits in its place.

  Main declarations:
    * `Macro.IsLexeme`
    * `Macro.Cut`
    * `Macro.Cut.filter_eq`
-/

namespace CHeader

namespace Macro

open Text

variable {c : Char} {s t : String} {cs first second : List Char}

/- The characters that are a lexeme by themselves and that grouping looks for. -/
def marks : List Char := ['(', ')', '"']

structure IsLexeme (t : String) : Prop where
  ne_empty : t ≠ ""
  pure : isWordText t = true ∨ ∀ c ∈ t.toList, isWord c = false
  alone : ∀ c ∈ marks, c ∈ t.toList → t = String.singleton c

theorem marks_other (hMark : c ∈ marks) : isWord c = false ∧ isSpace c = false ∧ c ≠ '.' := by
  fin_cases hMark <;> decide

theorem isWordText_iff : isWordText s = true ↔ s.toList ≠ [] ∧ ∀ c ∈ s.toList, isWord c = true := by
  simp [isWordText]

theorem isWordText_ofList (hSome : cs ≠ []) (hAll : ∀ c ∈ cs, isWord c = true) :
    isWordText (String.ofList cs) = true := by
  rw [isWordText, String.toList_ofList, List.all_eq_true.2 hAll]
  simpa using hSome

theorem isLexeme_firstLexeme (c : Char) (rest : List Char) :
    IsLexeme (String.ofList (firstLexeme c rest)) := by
  have hSome : firstLexeme c rest ≠ [] := nofun
  have hText : String.ofList (firstLexeme c rest) ≠ "" := by
    simpa using hSome
  by_cases hWord : isWord c = true
  · have hAll : ∀ d ∈ firstLexeme c rest, isWord d = true := by
      rw [(firstLexeme_of_isWord hWord rest).1, List.forall_mem_cons]
      exact ⟨hWord, fun d => List.mem_takeWhile_imp⟩
    refine ⟨hText, .inl (isWordText_ofList hSome hAll), ?_⟩
    intro mark hMark hMem
    rw [String.toList_ofList] at hMem
    have hOther := (marks_other hMark).1
    rw [hAll mark hMem] at hOther
    cases hOther
  · rw [Bool.not_eq_true] at hWord
    have hCases : (∀ d ∈ firstLexeme c rest, isSpace d = true ∨ d = '.') ∨
        firstLexeme c rest = [c] := by
      unfold firstLexeme lexemeLength
      rw [if_neg (by rw [hWord]; nofun)]
      split_ifs with hSpace hDots
      · left
        rw [Nat.add_sub_cancel, (take_length_takeWhile _ _).1, List.forall_mem_cons]
        exact ⟨.inl hSpace, fun d hd => .inl (List.mem_takeWhile_imp hd)⟩
      · rcases rest with _ | ⟨first, _ | ⟨second, more⟩⟩ <;>
          simp_all [startsWith]
      · right
        rfl
    rcases hCases with hAll | hOne
    · refine ⟨hText, .inr ?_, ?_⟩
      · rw [String.toList_ofList]
        intro d hd
        rcases hAll d hd with hSpace | rfl
        · exact not_isWord_of_isSpace hSpace
        · decide
      · intro mark hMark hMem
        rw [String.toList_ofList] at hMem
        obtain ⟨_, hSpace, hDot⟩ := marks_other hMark
        rcases hAll mark hMem with hOther | hOther
        · rw [hSpace] at hOther
          cases hOther
        · exact absurd hOther hDot
    · rw [hOne] at hText ⊢
      refine ⟨hText, .inr ?_, ?_⟩
      · simpa using hWord
      · intro mark _ hMem
        rw [String.toList_ofList, List.mem_singleton] at hMem
        rw [hMem]
        rfl

theorem isLexeme_of_mem (hMem : t ∈ lexemes s) : IsLexeme t := by
  rw [lexemes] at hMem
  generalize s.toList = cs at hMem
  induction cs using lexeme_induction with
  | hNil => cases hMem
  | hCons c rest ih =>
    rw [lexemesFrom_cons] at hMem
    rcases List.mem_cons.1 hMem with rfl | hMem
    · exact isLexeme_firstLexeme c rest
    · exact ih hMem

theorem concat_lexemes (s : String) : concat (lexemes s) = s := by
  have hAll : ∀ cs, concat (lexemesFrom 0 [] cs) = String.ofList cs := by
    intro cs
    induction cs using lexeme_induction with
    | hNil => rfl
    | hCons c rest ih =>
      rw [lexemesFrom_cons, concat_cons, ih, ← String.ofList_append, firstLexeme, afterLexeme,
        List.cons_append, List.take_append_drop]
  rw [lexemes, hAll, String.ofList_toList]

-- Texts side by side

/- Whether a lexeme ends between two characters. -/
def breaks (c d : Char) : Bool :=
  !(isWord c && isWord d) && !(isSpace c && isSpace d) && !(c = '.' && d = '.')

theorem breaks_comm (c d : Char) : breaks c d = breaks d c := by
  simp only [breaks, Bool.and_comm]

theorem breaks_of_isWord (hWord : isWord c = true) (hOther : isWord d = false) :
    breaks c d = true := by
  have hSpace : isSpace c = false := by
    by_contra hSpace
    rw [not_isWord_of_isSpace (by simpa using hSpace)] at hWord
    cases hWord
  have hDot : c ≠ '.' := by
    rintro rfl
    exact absurd hWord (by decide)
  simp [breaks, hOther, hSpace, hDot]

theorem breaks_of_mark (hMark : c ∈ marks) (d : Char) : breaks c d = true := by
  obtain ⟨hWord, hSpace, hDot⟩ := marks_other hMark
  simp [breaks, hWord, hSpace, hDot]

/- A run ends with its text if the next character is not of its class. -/
theorem takeWhile_append_of_ends
    (hEnds : (∀ c ∈ first, p c = true) → ∀ d ∈ second.head?, p d = false) :
    (first ++ second).takeWhile p = first.takeWhile p := by
  by_cases hAll : ∀ c ∈ first, p c = true
  · have hNone : second.takeWhile p = [] := by
      cases second with
      | nil => rfl
      | cons d second => simp [hEnds hAll d rfl]
    rw [List.takeWhile_append_of_pos hAll, hNone,
      List.append_nil, List.takeWhile_eq_self_iff.2 hAll]
  · rw [List.takeWhile_append, if_neg]
    intro hLength
    exact hAll (List.takeWhile_eq_self_iff.1 ((List.takeWhile_prefix p).eq_of_length hLength))

theorem lexemeLength_append
    (hBreak : ∀ d ∈ (c :: rest).getLast?, ∀ e ∈ second.head?, breaks d e = true) :
    lexemeLength c (rest ++ second) = lexemeLength c rest ∧
      lexemeLength c rest - 1 ≤ rest.length := by
  have hRun : ∀ p, p = isWord ∨ p = isSpace → p c = true →
      (rest ++ second).takeWhile p = rest.takeWhile p := by
    intro p hKnown hHere
    have hClass : ∀ d e, breaks d e = true → p d = true → p e = false := by
      intro d e hBetween hd
      rcases hKnown with rfl | rfl <;> simp_all [breaks]
    refine takeWhile_append_of_ends fun hAll e he => ?_
    obtain ⟨d, hLast⟩ := Option.ne_none_iff_exists'.1
      (mt List.getLast?_eq_none_iff.1 (List.cons_ne_nil c rest))
    refine hClass d e (hBreak d hLast e he) ?_
    rcases List.mem_cons.1 (List.mem_of_mem_getLast? hLast) with
      rfl | hMem
    · exact hHere
    · exact hAll d hMem
  unfold lexemeLength
  by_cases hWord : isWord c = true
  · rw [if_pos hWord, if_pos hWord, hRun _ (.inl rfl) hWord, Nat.add_sub_cancel]
    exact ⟨rfl, (List.takeWhile_prefix _).length_le⟩
  · rw [if_neg hWord, if_neg hWord]
    by_cases hSpace : isSpace c = true
    · rw [if_pos hSpace, if_pos hSpace, hRun _ (.inr rfl) hSpace, Nat.add_sub_cancel]
      exact ⟨rfl, (List.takeWhile_prefix _).length_le⟩
    · rw [if_neg hSpace, if_neg hSpace]
      -- the second text does not go on with a dot after one
      have hDot : '.' ∈ (c :: rest).getLast? → startsWith second ['.'] = false := by
        intro hLast
        cases second with
        | nil => rfl
        | cons e second =>
          simp_all [breaks, startsWith]
      have hDots : startsWith (c :: (rest ++ second)) ['.', '.', '.'] =
          startsWith (c :: rest) ['.', '.', '.'] := by
        rcases rest with _ | ⟨d, _ | ⟨e, rest⟩⟩
        · by_cases hc : c = '.'
          · cases second <;> simp_all [startsWith]
          · simp [startsWith, hc]
        · by_cases hd : d = '.'
          · subst hd
            simp [startsWith, hDot rfl]
          · simp [startsWith, hd]
        · simp [startsWith]
      rw [hDots]
      split_ifs with hStart
      · rcases rest with _ | ⟨d, _ | ⟨e, rest⟩⟩ <;>
          simp_all [startsWith]
      · simp

theorem lexemesFrom_append (hBreak : ∀ c ∈ first.getLast?, ∀ d ∈ second.head?, breaks c d = true) :
    lexemesFrom 0 [] (first ++ second) = lexemesFrom 0 [] first ++ lexemesFrom 0 [] second := by
  induction first using lexeme_induction with
  | hNil => rfl
  | hCons c rest ih =>
    obtain ⟨hLength, hShort⟩ := lexemeLength_append hBreak
    rw [List.cons_append, lexemesFrom_cons, lexemesFrom_cons, firstLexeme, afterLexeme, hLength,
      List.take_append_of_le_length hShort, List.drop_append_of_le_length hShort, List.cons_append]
    congr 1
    refine ih fun d hd => hBreak d ?_
    rw [afterLexeme, List.getLast?_drop] at hd
    split_ifs at hd
    · cases hd
    · rw [List.getLast?_cons]
      exact Option.mem_def.2 (by rw [Option.mem_def.1 hd]; rfl)

theorem lexemes_append_word (hWord : isWordText word = true)
    (hAfter : ∀ c ∈ s.toList.head?, isWord c = false) :
    lexemes (word ++ s) = word :: lexemes s := by
  have hAll := (isWordText_iff.1 hWord).2
  rw [lexemes, String.toList_append, lexemesFrom_append]
  · exact congrArg (· ++ lexemes s) (lexemes_of_isWordText hWord)
  · intro c hc d hd
    exact breaks_of_isWord (hAll c (List.mem_of_mem_getLast? hc)) (hAfter d hd)

theorem lexemes_append_mark (hMark : c ∈ marks) (s : String) :
    lexemes (String.singleton c ++ s) = String.singleton c :: lexemes s := by
  rw [lexemes, String.toList_append, String.toList_singleton, lexemesFrom_append]
  · rfl
  · rintro _ ⟨⟩ d -
    exact breaks_of_mark hMark d

theorem lexemes_around_mark (hMark : c ∈ marks) (s t : String) :
    lexemes (s ++ (String.singleton c ++ t)) = lexemes s ++ String.singleton c :: lexemes t := by
  rw [lexemes, String.toList_append, lexemesFrom_append]
  · exact congrArg _ (lexemes_append_mark hMark t)
  · intro d _ e he
    obtain rfl : c = e := by simpa using he
    rw [breaks_comm]
    exact breaks_of_mark hMark d

-- Lists of lexemes

def wordRuns (cs : List Char) : List (List Char) := (cs.splitOnP (!isWord ·)).filter (· ≠ [])

theorem wordRuns_cons_other (hOther : isWord c = false) (after : List Char) :
    wordRuns (c :: after) = wordRuns after := by
  simp [wordRuns, List.splitOnP_cons_eq_if_modifyHead, hOther]

theorem wordRuns_append_other (hOther : ∀ c ∈ cs, isWord c = false) (after : List Char) :
    wordRuns (cs ++ after) = wordRuns after := by
  induction cs with
  | nil => rfl
  | cons c cs ih =>
    obtain ⟨hHere, hRest⟩ := List.forall_mem_cons.1 hOther
    rw [List.cons_append, wordRuns_cons_other hHere, ih hRest]

theorem wordRuns_append_word (hSome : word ≠ []) (hWord : ∀ c ∈ word, isWord c = true)
    (hAfter : ∀ c ∈ after.head?, isWord c = false) :
    wordRuns (word ++ after) = word :: wordRuns after := by
  have hNone : ∀ c ∈ word, (!isWord c) = false := by
    intro c hc
    rw [hWord c hc]
    rfl
  cases after with
  | nil =>
    rw [List.append_nil, wordRuns, List.splitOnP_eq_singleton hNone]
    simp [hSome, wordRuns]
  | cons c more =>
    have hEnd := hAfter c rfl
    rw [wordRuns, List.splitOnP_append_cons_of_forall_mem hNone c
      (by rw [hEnd]; rfl), List.filter_cons_of_pos (by simpa), wordRuns_cons_other hEnd]
    rfl

structure Cut (texts : List String) : Prop where
  lexeme : ∀ t ∈ texts, IsLexeme t
  apart : WordsApart texts

theorem cut_lexemes (s : String) : Cut (lexemes s) :=
  ⟨fun _ => isLexeme_of_mem, wordsApart_lexemes s⟩

theorem cut_append {first second : List String} : Cut (first ++ second) ↔ Cut first ∧ Cut second ∧
    ∀ x ∈ first.getLast?, ∀ y ∈ second.head?, isWordText x = true → isWordText y = false := by
  constructor
  · rintro ⟨hLexeme, hApart⟩
    obtain ⟨hFirst, hSecond⟩ := List.forall_mem_append.1 hLexeme
    obtain ⟨hBefore, hAfter, hBetween⟩ := List.isChain_append.1 hApart
    exact ⟨⟨hFirst, hBefore⟩, ⟨hSecond, hAfter⟩, hBetween⟩
  · rintro ⟨hFirst, hSecond, hBetween⟩
    exact ⟨List.forall_mem_append.2 ⟨hFirst.lexeme, hSecond.lexeme⟩,
      List.isChain_append.2 ⟨hFirst.apart, hSecond.apart, hBetween⟩⟩

/- A text begins and ends as its first and its last lexeme do. -/
theorem head?_concat (hSome : t ≠ "") (rest : List String) :
    (concat (t :: rest)).toList.head? = t.toList.head? := by
  rw [concat_cons, String.toList_append, List.head?_append_of_ne_nil _ (by simpa using hSome)]

theorem getLast?_concat (hSome : t ≠ "") (before : List String) :
    (concat (before ++ [t])).toList.getLast? = t.toList.getLast? := by
  rw [concat_append, String.toList_append, concat_cons,
    concat_nil, String.append_empty, List.getLast?_append_of_ne_nil _ (by simpa using hSome)]

theorem not_isWordText_of_mark (hMark : c ∈ marks) (hMem : c ∈ t.toList) :
    isWordText t = false := by
  rw [isWordText, Bool.and_eq_false_iff, List.all_eq_false]
  exact .inr ⟨c, hMem, by simp [(marks_other hMark).1]⟩

theorem ne_mark_of_isWordText (hWord : isWordText t = true) :
    ∀ c ∈ marks, t ≠ String.singleton c := by
  rintro c hc rfl
  rw [not_isWordText_of_mark hc (by simp)] at hWord
  cases hWord

namespace Cut

variable {texts : List String}

/- The words of a text are those it was put together of. -/
theorem wordRuns_concat (hCut : Cut texts) : wordRuns (concat texts).toList =
    (texts.filter isWordText).map String.toList := by
  induction texts with
  | nil => rfl
  | cons t rest ih =>
    obtain ⟨hLexeme, hRest⟩ := List.forall_mem_cons.1 hCut.lexeme
    obtain ⟨hNext, hApart⟩ := wordsApart_cons.1 hCut.apart
    have hLater := ih ⟨hRest, hApart⟩
    rw [concat_cons, String.toList_append]
    cases hWord : isWordText t with
    | true =>
      rw [List.filter_cons_of_pos hWord, List.map_cons, ← hLater]
      have hChars := hWord
      rw [isWordText, Bool.and_eq_true, List.all_eq_true] at hChars
      refine wordRuns_append_word (by simpa using hChars.1) hChars.2 ?_
      -- what follows a word is a lexeme of another kind
      cases rest with
      | nil => simp
      | cons u more =>
        have hOther := (hRest u List.mem_cons_self).pure.resolve_left (by simp [hNext u rfl hWord])
        rw [head?_concat (hRest u List.mem_cons_self).ne_empty]
        exact fun c hc => hOther c (List.mem_of_mem_head? hc)
    | false =>
      rw [List.filter_cons_of_neg (by simp [hWord]), ← hLater]
      refine wordRuns_append_other ?_ _
      exact hLexeme.pure.resolve_left (by simp [hWord])

/- A text can be put together in one way only, as far as its words go. -/
theorem filter_eq (hCut : Cut texts) (hOthers : Cut others) (hSame : concat texts = concat others) :
    texts.filter isWordText = others.filter isWordText := by
  have hInjective : Function.Injective String.toList := fun _ _ => String.toList_injective
  apply List.map_injective_iff.2 hInjective
  rw [← hCut.wordRuns_concat, hSame, hOthers.wordRuns_concat]

/- A parenthesis that is cut again fits in its place. -/
theorem recut {before inner after : List String}
    (hCut : Cut (before ++ ("(" :: inner ++ [")"]) ++ after)) :
    Cut (before ++ lexemes (concat ("(" :: inner ++ [")"])) ++ after) := by
  have hConcat := concat_lexemes (concat ("(" :: inner ++ [")"]))
  generalize hList : lexemes (concat ("(" :: inner ++ [")"])) = list at hConcat ⊢
  have hNew : Cut list := hList ▸ cut_lexemes _
  have hFirst : ∀ y ∈ list.head?, isWordText y = false := by
    intro y hy
    obtain ⟨rest, rfl⟩ := List.head?_eq_some_iff.1 hy
    have hLexeme := hNew.lexeme y List.mem_cons_self
    have hHead := head?_concat hLexeme.ne_empty rest
    rw [hConcat, List.cons_append, head?_concat (by decide)] at hHead
    exact not_isWordText_of_mark (c := '(') (by decide) (List.mem_of_mem_head? hHead.symm)
  have hLast : ∀ x ∈ list.getLast?, isWordText x = false := by
    intro x hx
    obtain ⟨rest, rfl⟩ := List.getLast?_eq_some_iff.1 hx
    have hLexeme := hNew.lexeme x (by simp)
    have hEnd := getLast?_concat hLexeme.ne_empty rest
    rw [hConcat, getLast?_concat (by decide)] at hEnd
    exact not_isWordText_of_mark (c := ')') (by decide) (List.mem_of_mem_getLast? hEnd.symm)
  obtain ⟨hOld, hAfter, _⟩ := cut_append.1 hCut
  obtain ⟨hBefore, _, _⟩ := cut_append.1 hOld
  have hSome : list ≠ [] := by
    rintro rfl
    have hHead := congrArg (·.toList.head?) hConcat
    simp only [List.cons_append] at hHead
    rw [head?_concat (by decide)] at hHead
    cases hHead
  rw [cut_append, cut_append]
  refine ⟨⟨hBefore, hNew, fun _ _ y hy _ => hFirst y hy⟩, hAfter, ?_⟩
  intro x hx y _ hWord
  rw [List.getLast?_append_of_ne_nil _ hSome] at hx
  rw [hLast x hx] at hWord
  cases hWord

end Cut

end Macro

end CHeader
