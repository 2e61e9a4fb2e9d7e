import CHeader.Proofs.Macro.Printing
import CHeader.Proofs.Macro.Trailing

/-
  Texts in which parentheses and strings close.

  An argument list whose parentheses and strings all close is read up to its own closing parenthesis
  and is split at the commas outside of them. Both are the same after its white space is made single
  blanks.

  Main declarations:
    * `Macro.Enclosed`
    * `Macro.Enclosed.takeCall_eq`
    * `Macro.lexemes_collapsed`
-/

namespace CHeader

open List

variable {c : Char}

namespace Macro

-- Closed texts

/- Lexemes in which every parenthesis that opens closes and every string does. Commas may be kept
  out of the top level. -/
inductive Enclosed : Bool → List String → Prop where
  | nil {commas : Bool} : Enclosed commas []
  | text {commas : Bool} {lexeme : String} {rest : List String}
      (hPlain : lexeme ≠ "(" ∧ lexeme ≠ ")" ∧ lexeme ≠ "\"")
      (hComma : commas = true ∨ lexeme ≠ ",")
      (hRest : Enclosed commas rest) :
      Enclosed commas (lexeme :: rest)
  | string {commas : Bool} {taken rest : List String}
      (hString : takeString '"' taken = some (taken, []))
      (hRest : Enclosed commas rest) :
      Enclosed commas ("\"" :: (taken ++ rest))
  | paren {commas : Bool} {inner rest : List String} (hInner : Enclosed true inner)
      (hRest : Enclosed commas rest) :
      Enclosed commas ("(" :: (inner ++ ")" :: rest))

theorem takeString_closed (hString : takeString '"' taken = some (taken, [])) (rest : List String) :
    takeString '"' (taken ++ rest) = some (taken, rest) :=
  takeString_append hString

def commaList : List (List String) → List String
| [] => []
| [list] => list
| list :: next :: rest => list ++ "," :: commaList (next :: rest)

namespace Enclosed

variable {commas : Bool} {list : List String}
variable {args : List (List String)}

section

variable (hList : Enclosed commas list)
include hList

theorem append (hRest : Enclosed commas rest) : Enclosed commas (list ++ rest) := by
  induction hList with
  | nil => exact hRest
  | text hPlain hComma _ ih => exact .text hPlain hComma (ih hRest)
  | string hString _ ih =>
    rw [cons_append, append_assoc]
    exact .string hString (ih hRest)
  | paren hInner _ _ ih =>
    rw [cons_append, append_assoc]
    exact .paren hInner (ih hRest)

theorem with_commas : Enclosed true list := by
  induction hList with
  | nil => exact .nil
  | text hPlain _ _ ih => exact .text hPlain (.inl rfl) ih
  | string hString _ ih => exact .string hString ih
  | paren hInner _ _ ih => exact .paren hInner ih

omit hList in
theorem of_commaList (hArgs : ∀ list ∈ args, Enclosed false list) :
    Enclosed true (commaList args) := by
  induction args with
  | nil => exact .nil
  | cons list args ih =>
    rw [forall_mem_cons] at hArgs
    cases args with
    | nil => exact hArgs.1.with_commas
    | cons next args =>
      exact hArgs.1.with_commas.append (.text (by decide) (.inl rfl) (ih hArgs.2))

/- A closed text is passed over within parentheses. -/
theorem takeParens_append (opened : Nat) (before : Char) (tail : List String) :
    ∃ here, takeParens (opened + 1) before (list ++ tail) = (takeParens (opened + 1) here tail).map
        fun step => (list ++ step.1, step.2) := by
  induction hList generalizing opened before tail with
  | nil => exact ⟨before, by simp⟩
  | @text _ lexeme rest hPlain _ _ ih =>
    obtain ⟨here, hHere⟩ := ih opened (lastChar before lexeme) tail
    refine ⟨here, ?_⟩
    rw [cons_append, takeParens]
    simp only [hPlain, hHere, Option.map_map]
    rfl
  | @string _ taken rest hString _ ih =>
    obtain ⟨here, hHere⟩ := ih opened '"' tail
    have hTaken := takeString_closed hString (rest ++ tail)
    refine ⟨here, ?_⟩
    rw [cons_append, append_assoc, takeParens_string hTaken, hHere]
    simp [Function.comp_def]
  | @paren _ inner rest _ _ ihInner ihRest =>
    obtain ⟨mid, hMid⟩ := ihInner (opened + 1) (lastChar before "(") (")" :: (rest ++ tail))
    obtain ⟨here, hHere⟩ := ihRest opened (lastChar mid ")") tail
    refine ⟨here, ?_⟩
    rw [cons_append, append_assoc, cons_append, takeParens, hMid, takeParens]
    simp [hHere, Function.comp_def]

theorem takeParens_closed (before : Char) (rest : List String) :
    takeParens 1 before (list ++ ")" :: rest) = some (list ++ [")"], rest) := by
  obtain ⟨here, hHere⟩ := hList.takeParens_append 0 before (")" :: rest)
  rw [hHere, takeParens]
  simp

theorem takeCall_eq (before : Char) (rest : List String) :
    ∃ pieces size, takeCall before (list ++ ")" :: rest) = some (pieces, size, rest) ∧
        Text.concat pieces = Text.concat list := by
  induction hList generalizing before with
  | nil => exact ⟨[], 1, by simp [takeCall], rfl⟩
  | @text _ lexeme more hPlain _ _ ih =>
    obtain ⟨pieces, size, hTake, hSpell⟩ := ih (lastChar before lexeme)
    refine ⟨lexeme :: pieces, lexeme.length + size, ?_, ?_⟩
    · rw [cons_append, takeCall]
      simp only [hPlain, hTake]
      rfl
    · rw [Text.concat_cons, Text.concat_cons, hSpell]
  | @string _ taken more hString _ ih =>
    obtain ⟨pieces, size, hTake, hSpell⟩ := ih '"'
    have hTaken := takeString_closed hString (more ++ ")" :: rest)
    refine ⟨Text.concat ("\"" :: taken) :: pieces,
      (Text.concat ("\"" :: taken)).length + size, ?_, by simp [hSpell, String.append_assoc]⟩
    rw [cons_append, append_assoc, takeCall_string hTaken, hTake]
    rfl
  | @paren _ inner more hInner _ ihInner ihMore =>
    obtain ⟨pieces, size, hTake, hSpell⟩ := ihMore ')'
    refine ⟨Text.concat ("(" :: (inner ++ [")"])) :: pieces,
      (Text.concat ("(" :: (inner ++ [")"]))).length + size, ?_, ?_⟩
    · rw [cons_append, append_assoc, cons_append,
        takeCall_parens (hInner.takeParens_closed _ _), hTake]
      rfl
    · simp [hSpell, String.append_assoc]

end

/- A text without commas at the top level is one field. -/
theorem splitFields_append (hList : Enclosed false list)
    (field : List String) (before : Char) (tail : List String) :
    ∃ here, splitFields field before (list ++ tail) =
        splitFields (list.reverse ++ field) here tail := by
  generalize hFlag : false = commas at hList
  induction hList generalizing field before tail with
  | nil => exact ⟨before, rfl⟩
  | @text _ lexeme rest hPlain hComma _ ih =>
    subst hFlag
    obtain ⟨here, hHere⟩ := ih (lexeme :: field) (lastChar before lexeme) tail rfl
    refine ⟨here, ?_⟩
    rw [cons_append, splitFields]
    simp [hComma.resolve_left (by decide), hPlain, hHere]
  | @string _ taken rest hString _ ih =>
    obtain ⟨here, hHere⟩ := ih (taken.reverse ++ "\"" :: field) '"' tail hFlag
    have hTaken := takeString_closed hString (rest ++ tail)
    refine ⟨here, ?_⟩
    rw [cons_append, append_assoc, splitFields_string hTaken]
    simpa using hHere
  | @paren _ inner rest hInner _ _ ihRest =>
    obtain ⟨here, hHere⟩ := ihRest ((inner ++ [")"]).reverse ++ "(" :: field) ')' tail hFlag
    refine ⟨here, ?_⟩
    rw [cons_append, append_assoc, cons_append, splitFields_parens (hInner.takeParens_closed _ _)]
    simpa using hHere

theorem splitFields_commaList (hSome : args ≠ []) (hArgs : ∀ list ∈ args, Enclosed false list)
    (before : Char) : splitFields [] before (commaList args) = args := by
  induction args generalizing before with
  | nil => exact absurd rfl hSome
  | cons list args ih =>
    rw [forall_mem_cons] at hArgs
    cases args with
    | nil =>
      obtain ⟨here, hHere⟩ := hArgs.1.splitFields_append [] before []
      rw [splitFields] at hHere
      simpa [commaList] using hHere
    | cons next args =>
      obtain ⟨here, hHere⟩ := hArgs.1.splitFields_append [] before ("," :: commaList (next :: args))
      rw [commaList, hHere, splitFields, ih (by simp) hArgs.2]
      simp

end Enclosed

-- Single blanks

end Macro

namespace Text

theorem collapseSpaces_of_not_isSpace (hOther : isSpace c = false) (rest : List Char) :
    collapseSpaces (c :: rest) = c :: collapseSpaces rest := by
  cases rest <;> simp [collapseSpaces, hOther]

theorem collapseSpaces_of_isSpace (hSpace : isSpace c = true) (rest : List Char) :
    collapseSpaces (c :: rest) = ' ' :: collapseSpaces (rest.dropWhile isSpace) := by
  induction rest generalizing c with
  | nil => simp [collapseSpaces, hSpace]
  | cons d rest ih =>
    rw [collapseSpaces]
    split_ifs with hNext
    · rw [ih hNext, dropWhile_cons_of_pos hNext]
    · rw [dropWhile_cons_of_neg hNext]

/- A text that begins with other characters still does. -/
theorem startsWith_collapseSpaces (hStart : ∀ c ∈ start, isSpace c = false) (cs : List Char) :
    startsWith (collapseSpaces cs) start = startsWith cs start := by
  induction start generalizing cs with
  | nil => cases cs <;> simp [startsWith]
  | cons p start ih =>
    rw [forall_mem_cons] at hStart
    cases cs with
    | nil => rfl
    | cons c cs =>
      cases hSpace : isSpace c with
      | false =>
        rw [collapseSpaces_of_not_isSpace hSpace, startsWith, startsWith, ih hStart.2]
      | true =>
        have hOther : ∀ d, isSpace d = true → d ≠ p := by
          rintro d hd rfl
          exact absurd (hStart.1.symm.trans hd) (by decide)
        rw [collapseSpaces_of_isSpace hSpace, startsWith, startsWith]
        simp [hOther c hSpace, hOther ' ' (by decide)]

/- A word at the start stays. -/
theorem takeWhile_collapseSpaces (cs : List Char) :
    (collapseSpaces cs).takeWhile isWord = cs.takeWhile isWord ∧
      (collapseSpaces cs).dropWhile isWord = collapseSpaces (cs.dropWhile isWord) := by
  induction cs with
  | nil => exact ⟨rfl, rfl⟩
  | cons c cs ih =>
    cases hSpace : isSpace c with
    | true =>
      have hWord := not_isWord_of_isSpace hSpace
      have hBlank : isWord ' ' = false := by decide
      simp [collapseSpaces_of_isSpace hSpace, hWord, hBlank]
    | false =>
      cases hWord : isWord c <;> simp [hWord, ih, collapseSpaces_of_not_isSpace hSpace]

end Text

namespace Macro

open Text

/- A text with single blanks for its white space. -/
def collapsed (s : String) : String := String.ofList (collapseSpaces s.toList)

def asArgument (s : String) : String := Text.trim (collapsed s)

def singleBlank (lexeme : String) : String :=
  if isSpaceText lexeme then " " else lexeme

theorem singleBlank_of_not_isSpace (hOther : isSpace c = false) (rest : List Char) :
    singleBlank (String.ofList (c :: rest)) = String.ofList (c :: rest) := by
  simp [singleBlank, isSpaceText, hOther]

theorem firstLexeme_collapseSpaces (c : Char) (rest : List Char) : ∃ d more,
    collapseSpaces (c :: rest) = d :: more ∧
    String.ofList (firstLexeme d more) = singleBlank (String.ofList (firstLexeme c rest)) ∧
    afterLexeme d more = collapseSpaces (afterLexeme c rest) := by
  cases hSpace : isSpace c with
  | true =>
    have hWord := not_isWord_of_isSpace hSpace
    have hBlank : isWord ' ' = false ∧ isSpace ' ' = true := by decide
    have hNone : (collapseSpaces (rest.dropWhile isSpace)).takeWhile isSpace =
        [] := by
      cases hRest : rest.dropWhile isSpace with
      | nil => rfl
      | cons d tail =>
        have hHead : isSpace d = false := by
          have hNot := head_dropWhile_not isSpace (l := rest) (by simp [hRest])
          simpa [hRest] using hNot
        rw [collapseSpaces_of_not_isSpace hHead, takeWhile_cons_of_neg (by simp [hHead])]
    obtain ⟨hTake, hDrop⟩ := take_length_takeWhile isSpace rest
    refine ⟨' ', _, collapseSpaces_of_isSpace hSpace rest, ?_, ?_⟩
    · simp [firstLexeme, lexemeLength, hBlank, hNone, hWord, hSpace, hTake, singleBlank,
        isSpaceText]
    · simp [afterLexeme, lexemeLength, hBlank, hNone, hWord, hSpace, hDrop]
  | false =>
    refine ⟨c, _, collapseSpaces_of_not_isSpace hSpace rest, ?_⟩
    cases hWord : isWord c with
    | true =>
      obtain ⟨hTake, hDrop⟩ := takeWhile_collapseSpaces rest
      rw [(firstLexeme_of_isWord hWord _).1, (firstLexeme_of_isWord hWord _).1,
        (firstLexeme_of_isWord hWord _).2, (firstLexeme_of_isWord hWord _).2, hTake, hDrop,
        singleBlank_of_not_isSpace hSpace]
      exact ⟨rfl, rfl⟩
    | false =>
      have hDot : isSpace '.' = false := by decide
      have hDots : ∀ c ∈ ['.', '.'], isSpace c = false := by simp [hDot]
      have hLength : lexemeLength c (collapseSpaces rest) = lexemeLength c rest := by
        simp only [lexemeLength, hWord, hSpace, Bool.false_eq_true, if_false]
        rw [startsWith, startsWith_collapseSpaces hDots, startsWith]
      have hCut : (collapseSpaces rest).take (lexemeLength c rest - 1) =
          rest.take (lexemeLength c rest - 1) ∧
          (collapseSpaces rest).drop (lexemeLength c rest - 1) =
            collapseSpaces (rest.drop (lexemeLength c rest - 1)) := by
        simp only [lexemeLength, hWord, hSpace, Bool.false_eq_true, if_false]
        split_ifs with hThree
        · -- the two dots after the first are no white space
          obtain ⟨-, tail, rfl⟩ : c = '.' ∧ ∃ tail, rest = '.' :: '.' :: tail := by
            rcases rest with _ | ⟨d, _ | ⟨e, tail⟩⟩ <;>
              simp_all [startsWith]
          simp [collapseSpaces_of_not_isSpace hDot]
        · simp
      rw [firstLexeme, firstLexeme, singleBlank_of_not_isSpace hSpace, afterLexeme, hLength,
        hCut.1, hCut.2]
      exact ⟨rfl, rfl⟩

/- The lexemes of a text are kept, white space apart. -/
theorem lexemes_collapsed (s : String) : lexemes (collapsed s) = (lexemes s).map singleBlank := by
  rw [lexemes, collapsed, String.toList_ofList, lexemes]
  induction s.toList using lexeme_induction with
  | hNil => rfl
  | hCons c rest ih =>
    obtain ⟨d, more, hCollapse, hFirst, hAfter⟩ := firstLexeme_collapseSpaces c rest
    rw [hCollapse, lexemesFrom_cons, lexemesFrom_cons, hFirst, hAfter, ih, map_cons]

-- Arguments

theorem singleBlank_eq_iff (hMark : isSpaceText mark = false) :
    singleBlank lexeme = mark ↔ lexeme = mark := by
  unfold singleBlank
  split_ifs with hSpace
  · refine ⟨?_, ?_⟩ <;> rintro rfl
    · exact absurd hMark (by decide)
    · exact absurd (hMark.symm.trans hSpace) (by decide)
  · rfl

/- Strings close where they did. -/
theorem takeString_singleBlank (hBefore : before = '\\' ↔ other = '\\') (items : List String) :
    takeString before (items.map singleBlank) = (takeString other items).map
        fun found => (found.1.map singleBlank, found.2.map singleBlank) := by
  induction items generalizing before other with
  | nil => rfl
  | cons lexeme rest ih =>
    have hClose : singleBlank lexeme = "\"" ∧ before ≠ '\\' ↔ lexeme = "\"" ∧ other ≠ '\\' := by
      rw [singleBlank_eq_iff (by decide), ne_eq, hBefore]
    have hLast : lastChar before (singleBlank lexeme) = '\\' ↔ lastChar other lexeme = '\\' := by
      rw [lastChar, lastChar, singleBlank]
      split_ifs with hSpace
      · cases hEnd : lexeme.toList.getLast? with
        | none =>
          obtain rfl : lexeme = "" := by simpa using hEnd
          exact absurd hSpace (by decide)
        | some c =>
          rw [isSpaceText, Bool.and_eq_true, all_eq_true] at hSpace
          have hChar := hSpace.2 c (mem_of_getLast? hEnd)
          refine iff_of_false (by simp) ?_
          rintro rfl
          exact absurd hChar (by decide)
      · cases lexeme.toList.getLast? <;> simp [hBefore]
    rw [map_cons, takeString, takeString, ih hLast]
    by_cases hEnds : lexeme = "\"" ∧ other ≠ '\\'
    · rw [if_pos (hClose.2 hEnds), if_pos hEnds]
      rfl
    · rw [if_neg (hClose.not.2 hEnds), if_neg hEnds, Option.map_map, Option.map_map]
      rfl

theorem Enclosed.map_singleBlank (hList : Enclosed commas list) :
    Enclosed commas (list.map singleBlank) := by
  have hMark : ∀ mark ∈ ["(", ")", "\"", ","], ∀ lexeme,
      singleBlank lexeme = mark ↔ lexeme = mark := fun mark hMem lexeme =>
    singleBlank_eq_iff (by revert mark; decide)
  simp only [forall_mem_cons] at hMark
  obtain ⟨hOpen, hClose, hQuote, hComma, -⟩ := hMark
  induction hList with
  | nil => exact .nil
  | @text _ lexeme _ hPlain hOther _ ih =>
    refine .text ?_ ?_ ih
    · simpa [hOpen, hClose, hQuote] using hPlain
    · simpa [hComma] using hOther
  | string hString _ ih =>
    rw [map_cons, map_append]
    refine .string ?_ ih
    rw [takeString_singleBlank Iff.rfl, hString]
    rfl
  | paren _ _ ihInner ih =>
    rw [map_cons, map_append, map_cons]
    exact .paren ihInner ih

theorem lexemes_joinWith (args : List String) :
    lexemes (joinWith "," args) = commaList (args.map lexemes) := by
  have hBreak : ∀ c, breaks c ',' = true := fun c => by
    have hComma : isWord ',' = false ∧ isSpace ',' = false := by decide
    simp [breaks, hComma]
  induction args with
  | nil => rfl
  | cons first args ih =>
    cases args with
    | nil => rfl
    | cons second args =>
      rw [joinWith_cons_cons, String.append_assoc, lexemes, String.toList_append,
        String.toList_append, lexemesFrom_append, lexemesFrom_append]
      · change _ ++ (lexemesFrom 0 [] [','] ++ lexemes _) = _
        rw [ih]
        rfl
      · rintro _ ⟨⟩ d -
        rw [breaks_comm]
        exact hBreak d
      · rintro c - _ ⟨⟩
        exact hBreak c

theorem map_singleBlank_commaList (lists : List (List String)) :
    (commaList lists).map singleBlank = commaList (lists.map (List.map singleBlank)) := by
  induction lists with
  | nil => rfl
  | cons list lists ih =>
    cases lists with
    | nil => rfl
    | cons next lists =>
      rw [commaList, map_append, map_cons, ih]
      rfl

theorem lexemes_collapsed_joinWith (args : List String) :
    lexemes (collapsed (joinWith "," args)) = commaList (args.map (lexemes ∘ collapsed)) := by
  rw [lexemes_collapsed, lexemes_joinWith, map_singleBlank_commaList, map_map]
  exact congrArg _ (map_congr_left fun arg _ => (lexemes_collapsed arg).symm)

theorem collapsed_joinWith (args : List String) :
    collapsed (joinWith "," args) = joinWith "," (args.map collapsed) := by
  rw [← concat_lexemes (collapsed _), lexemes_collapsed_joinWith, ← map_map, ← lexemes_joinWith,
    concat_lexemes]

/- The arguments of a call, each trimmed and with single blanks. -/
theorem splitArguments_joinWith (hSome : args ≠ [])
    (hArgs : ∀ arg ∈ args, Enclosed false (lexemes arg)) :
    (splitArguments (joinWith "," args)).1 = args.map asArgument := by
  change (splitFields [] ' ' (lexemes (collapsed _))).map _ = _
  rw [lexemes_collapsed_joinWith, Enclosed.splitFields_commaList, map_map]
  · refine map_congr_left fun arg _ => ?_
    simp [concat_lexemes, asArgument]
  · simpa using hSome
  · simp only [forall_mem_map, Function.comp_apply, lexemes_collapsed]
    exact fun arg hMem => (hArgs arg hMem).map_singleBlank

end Macro

end CHeader
