import CHeader.Proofs.Macro.Spread

/-
  White space at the end of a line.

  A string or an argument list that closes is taken off the front of a line in the same way whatever
  follows. The strands of a line with white space behind it are therefore those of the line and the
  white space, if the strands of the line spell all of it. The expansion of a line that comes to
  rest goes over into that of the longer line.

  Main declarations:
    * `Macro.takeCall_append`
    * `Macro.strandsFrom_append`
    * `Macro.strands_append_gap`
-/

namespace CHeader

namespace Macro

open Text

open Source (Run Session exec)

variable {before : Char} {items taken left more : List String}
variable {isFunction : String → Bool} {called : Bool} {list : List Strand}

theorem takeString_append (hString : takeString before items = some (taken, left)) :
    takeString before (items ++ more) = some (taken, left ++ more) := by
  induction items generalizing before taken left with
  | nil => simp [takeString] at hString
  | cons lexeme rest ih =>
    rw [List.cons_append, takeString]
    rw [takeString] at hString
    split at hString
    · next hQuote =>
      cases hString
      rw [if_pos hQuote]
    · next hQuote =>
      obtain ⟨⟨string, after⟩, hRest, hSame⟩ := Option.map_eq_some_iff.1 hString
      cases hSame
      rw [if_neg hQuote, ih hRest]
      rfl

theorem takeParens_append (hParens : takeParens opened before items = some (taken, left)) :
    takeParens opened before (items ++ more) = some (taken, left ++ more) := by
  fun_induction takeParens opened before items generalizing taken left with
  | case1 | case5 => cases hParens
  | case3 =>
    rename_i hLast _
    cases hParens
    rw [List.cons_append, takeParens]
    simp [hLast]
  | case6 =>
    rename_i hString _ ih
    obtain ⟨⟨inside, after⟩, hRest, hSame⟩ := Option.map_eq_some_iff.1 hParens
    cases hSame
    rw [List.cons_append, takeParens_string (takeString_append hString), ih hRest]
    rfl
  | case2 | case4 | case7 =>
    rename_i ih
    obtain ⟨⟨inside, after⟩, hRest, hSame⟩ := Option.map_eq_some_iff.1 hParens
    cases hSame
    rw [List.cons_append, takeParens]
    simp [*]
    exact ih hRest

theorem takeCall_append (hCall : takeCall before items = some (inside, size, after)) :
    takeCall before (items ++ more) = some (inside, size, after ++ more) ∧ concat items =
        concat inside ++ ")" ++ concat after := by
  fun_induction takeCall before items generalizing inside size after with
  | case1 | case3 | case5 => cases hCall
  | case2 =>
    cases hCall
    rw [List.cons_append, takeCall]
    simp
  | case4 =>
    rename_i hParens _ piece ih
    obtain ⟨⟨pieces, count, rest⟩, hRest, hSame⟩ := Option.map_eq_some_iff.1 hCall
    cases hSame
    obtain ⟨hMore, hText⟩ := ih hRest
    rw [List.cons_append, takeCall_parens (takeParens_append hParens), hMore]
    exact ⟨rfl, by simp [piece, ← (append_of_takeParens hParens).1, hText, String.append_assoc]⟩
  | case6 =>
    rename_i hString _ piece ih
    obtain ⟨⟨pieces, count, rest⟩, hRest, hSame⟩ := Option.map_eq_some_iff.1 hCall
    cases hSame
    obtain ⟨hMore, hText⟩ := ih hRest
    rw [List.cons_append, takeCall_string (takeString_append hString), hMore]
    exact ⟨rfl, by simp [piece, ← (append_of_takeString hString).1, hText, String.append_assoc]⟩
  | case7 =>
    rename_i hClose hOpen hQuote ih
    obtain ⟨⟨pieces, count, rest⟩, hRest, hSame⟩ := Option.map_eq_some_iff.1 hCall
    cases hSame
    obtain ⟨hMore, hText⟩ := ih hRest
    refine ⟨?_, by simp [hText, String.append_assoc]⟩
    rw [List.cons_append, takeCall]
    simp only [hOpen, hClose, hQuote]
    exact congrArg (Option.map _) hMore

-- Strands

/- What stands before a lexeme does not matter for it. -/
theorem strandsFrom_cons_before (hSome : lexeme ≠ "") (before other : Char) (rest : List String) :
    strandsFrom isFunction called before (lexeme :: rest) =
      strandsFrom isFunction called other (lexeme :: rest) := by
  have hHere : lastChar before lexeme = lastChar other lexeme := by
    cases hLast : lexeme.toList.getLast? with
    | none => exact absurd (by simpa using hLast) hSome
    | some c => simp [lastChar, hLast]
  rw [strandsFrom, strandsFrom]
  generalize lastChar before lexeme = here at hHere ⊢
  subst hHere
  rfl

/-
  Lexemes behind those whose strands spell them all. Without the name of a function-like macro
  before them they are cut as they are by themselves.
-/
theorem strandsFrom_append (hNext : next ≠ "") (more : List String)
    (hStrands : strandsFrom isFunction called before items = (list, false))
    (hSpelled : spelled list = concat items) :
    ∃ later, strandsFrom isFunction called before (items ++ next :: more) =
        (list ++ (strandsFrom isFunction later ' ' (next :: more)).1,
          (strandsFrom isFunction later ' ' (next :: more)).2) ∧
      (called = false → (∀ s, .text s ∈ list → isFunction s = false) → later = false) := by
  fun_induction strandsFrom isFunction called before items generalizing list with
  | case1 called before =>
    cases hStrands
    refine ⟨called, ?_, fun hCalled _ => hCalled⟩
    rw [List.nil_append, List.nil_append, strandsFrom_cons_before hNext before ' ']
  | case2 => cases hStrands
  | case3 =>
    rename_i hCalled pieces size after hCall _ more opened hMore ih
    cases hStrands
    obtain ⟨hCallMore, hCallText⟩ := takeCall_append hCall
    have hRest : spelled more = concat after := by
      simp only [spelled, List.map_cons, concat_cons, Strand.spelling, hCallText, hCalled.1,
        String.append_assoc, String.append_right_inj] at hSpelled
      exact hSpelled
    obtain ⟨later, hLater, -⟩ := ih hMore hRest
    refine ⟨later, ?_, fun hNone => absurd hCalled.2 (by simp [hNone])⟩
    obtain ⟨rfl, rfl⟩ := hCalled
    rw [List.cons_append, strandsFrom_call hCallMore, hLater]
    rfl
  | case4 =>
    -- the last character is lost, so not all is spelled
    cases hStrands
    have hLength := congrArg (List.length ∘ String.toList) hSpelled
    simp [spelled, Strand.spelling, withoutLast] at hLength
  | case5 =>
    rename_i taken left more opened hMore _ _ hString _ ih
    cases hStrands
    have hRest : spelled more = concat left := by
      simp only [spelled, List.map_cons, concat_cons, Strand.spelling, concat_append,
        ← (append_of_takeString hString).1, String.append_assoc, String.append_right_inj] at hSpelled
      exact hSpelled
    obtain ⟨later, hLater, hNone⟩ := ih hMore hRest
    refine ⟨later, ?_, fun hCalled hTexts =>
      hNone hCalled fun s hMem => hTexts s (List.mem_cons_of_mem _ hMem)⟩
    rw [List.cons_append, strandsFrom_string (takeString_append hString), hLater]
    rfl
  | case6 =>
    rename_i rest _ hCalled hQuote called more opened hMore ih
    cases hStrands
    have hRest : spelled more = concat rest := by
      simp only [spelled, List.map_cons, concat_cons,
        Strand.spelling, String.append_right_inj] at hSpelled
      exact hSpelled
    obtain ⟨later, hLater, hNone⟩ := ih hMore hRest
    refine ⟨later, ?_, fun hBefore hTexts => hNone
      (by simp [called, hBefore, hTexts _ List.mem_cons_self])
      fun s hMem => hTexts s (List.mem_cons_of_mem _ hMem)⟩
    rw [List.cons_append, strandsFrom]
    simp only [hCalled, hQuote]
    rw [hLater]
    rfl

section

variable {table : Table} {body gap : String}

theorem Table.Worded.contains_of_isSpace (hWorded : table.Worded)
    (hSpace : ∀ c ∈ gap.toList, isSpace c = true) : table.contains gap = false := by
  by_contra hName
  obtain ⟨hSome, hWord⟩ := isWordText_iff.1 (hWorded gap (by simpa using hName))
  obtain ⟨c, hMem⟩ := List.exists_mem_of_ne_nil _ hSome
  have hOther := not_isWord_of_isSpace (hSpace c hMem)
  rw [hWord c hMem] at hOther
  cases hOther

section

variable (hSome : gap ≠ "") (hSpace : ∀ c ∈ gap.toList, isSpace c = true)
include hSome hSpace

theorem lexemes_of_isSpace : lexemes gap = [gap] := by
  have hText : String.ofList gap.toList = gap := String.ofList_toList
  rw [lexemes]
  cases hChars : gap.toList with
  | nil => exact absurd (String.toList_eq_nil_iff.1 hChars) hSome
  | cons c rest =>
    rw [hChars] at hSpace hText
    have hHere := hSpace c List.mem_cons_self
    have hRun : rest.takeWhile isSpace = rest := List.takeWhile_eq_self_iff.2 fun d hd =>
        hSpace d (List.mem_cons_of_mem c hd)
    have hLength : lexemeLength c rest - 1 = rest.length := by
      simp [lexemeLength, not_isWord_of_isSpace hHere, hHere, hRun]
    rw [lexemesFrom_cons, firstLexeme, afterLexeme, hLength,
      List.take_length, List.drop_length, hText]
    rfl

theorem lexemes_append_gap (hEnd : ∀ c ∈ body.toList.getLast?, isSpace c = false) :
    lexemes (body ++ gap) = lexemes body ++ [gap] := by
  rw [lexemes, String.toList_append, lexemesFrom_append]
  · exact congrArg _ (lexemes_of_isSpace hSome hSpace)
  · intro c hc d hd
    have hAfter := hSpace d (List.mem_of_mem_head? hd)
    have hDot : d ≠ '.' := by
      rintro rfl
      exact absurd hAfter (by decide)
    simp [breaks, hEnd c hc, not_isWord_of_isSpace hAfter, hDot]

theorem strands_append_gap (hEnd : ∀ c ∈ body.toList.getLast?, isSpace c = false)
    (hStrands : strands table body = (list, false)) (hSpelled : spelled list = body) :
    strands table (body ++ gap) = (list ++ [.text gap], false) := by
  have hParen : gap ≠ "(" := by
    rintro rfl
    exact absurd (hSpace '(' (by simp)) (by decide)
  have hQuote : gap ≠ "\"" := by
    rintro rfl
    exact absurd (hSpace '"' (by simp)) (by decide)
  obtain ⟨later, hMore, -⟩ := strandsFrom_append hSome [] hStrands
    (hSpelled.trans (concat_lexemes body).symm)
  rw [strands, lexemes_append_gap hSome hSpace hEnd, hMore]
  simp [strandsFrom, hParen, hQuote]

end

/- The expansion of a line that comes to rest, with white space behind it. -/
theorem exec_expandLine_gap {ahead : String → Run String}
    {session : Session} {list done : List Token} (hSpace : ∀ c ∈ gap.toList, isSpace c = true)
    (hEnd : ∀ c ∈ body.toList.getLast?, isSpace c = false) (hWorded : session.table.Worded)
    (hTokens : tokens session.table [] body = (list, false)) (hSpelled : spell list = body)
    (hRests : Rests ahead session limit list done) :
    exec (expandLine limit ahead (body ++ gap)) session = (.ok (spell done ++ gap), session) := by
  have hNone : Kept ahead session [] [] := kept_quiet nofun
  by_cases hSome : gap = ""
  · subst hSome
    have hLine : tokens session.table [] body = ([] ++ (list ++ []), false) := by
      simpa using hTokens
    rw [String.append_empty, exec_expandLine_between hLine hNone hNone hRests (by simp) (by simp)]
    simp [spell]
  have hOpen : (Token.ofPiece [] gap).strand.mentions '(' = false := by
    simp only [Token.ofPiece, Token.ofStrand, Strand.mentions]
    rw [List.contains_eq_mem, decide_eq_false_iff_not]
    intro hMem
    exact absurd (hSpace '(' hMem) (by decide)
  have hMore : tokens session.table [] (body ++ gap) =
      ([] ++ (list ++ [Token.ofPiece [] gap]), false) := by
    rw [tokens, Prod.mk.injEq] at hTokens
    rw [tokens, strands_append_gap hSome hSpace hEnd (Prod.ext rfl hTokens.2)]
    · simp [← hTokens.1, Token.ofPiece]
    · refine Eq.trans ?_ hSpelled
      rw [← hTokens.1]
      simp [spelled, spell, Function.comp_def, Token.ofStrand]
  rw [exec_expandLine_between hMore hNone hNone hRests (List.forall_mem_singleton.2
      (inert_ofPiece [] (hWorded.contains_of_isSpace hSpace)).quiet)
    (by simpa using hOpen)]
  simp [spell, Token.ofPiece, Token.ofStrand, Strand.spelling]

end

end Macro

end CHeader
