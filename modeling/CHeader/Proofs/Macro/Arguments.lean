import CHeader.Proofs.Macro.Enclosed
import CHeader.Proofs.Macro.QuotedText

/-
  Argument lists as texts.

  The arguments of a call are texts whose parentheses and strings close. Put together with commas
  they are split into themselves again, since a comma inside parentheses or a string splits nothing.

  Main declarations:
    * `Macro.Closed`
    * `Macro.IsArgument`
    * `Macro.splitArguments_of_isArgument`
-/

namespace CHeader

open List

namespace Macro

open Text

variable {commas : Bool} {c : Char} {cs body front rest : List Char}

-- Closed texts

/- What may stand between the quotes of a string: each quote has a backslash before it, and the
  last character is no backslash. -/
structure IsInside (body : List Char) : Prop where
  quotes : ('"' :: body).IsChain fun c d => d = '"' → c = '\\'
  stop : body.getLast? ≠ some '\\'

/- Texts in which parentheses are balanced and strings close. Commas may be kept out of the top
  level. -/
inductive Closed : Bool → List Char → Prop where
  | nil {commas : Bool} : Closed commas []
  | char {commas : Bool} {c : Char} {rest : List Char} (hPlain : c ∉ marks)
      (hComma : commas = true ∨ c ≠ ',') (hRest : Closed commas rest) : Closed commas (c :: rest)
  | string {commas : Bool} {body rest : List Char} (hBody : IsInside body)
      (hRest : Closed commas rest) : Closed commas ('"' :: (body ++ '"' :: rest))
  | paren {commas : Bool} {inner rest : List Char} (hInner : Closed true inner)
      (hRest : Closed commas rest) : Closed commas ('(' :: (inner ++ ')' :: rest))

theorem Closed.tail (hPlain : c ∉ marks) (hText : Closed commas (c :: rest)) :
    Closed commas rest := by
  cases hText with
  | char _ _ hRest => exact hRest
  | string => exact absurd (by decide) hPlain
  | paren => exact absurd (by decide) hPlain

/- The rest of a closed text behind characters outside parentheses and strings is closed. -/
theorem Closed.of_append (hFront : ∀ c ∈ front, c ∉ marks) (hText : Closed commas (front ++ rest)) :
    Closed commas rest := by
  induction front with
  | nil => exact hText
  | cons c front ih =>
    rw [forall_mem_cons] at hFront
    exact ih hFront.2 (hText.tail hFront.1)

/- Marks are lexemes of their own. -/
theorem not_mem_marks_of_firstLexeme (hPlain : c ∉ marks) :
    ∀ d ∈ firstLexeme c rest, d ∉ marks := by
  intro d hMem hMark
  have hAlone := (isLexeme_firstLexeme c rest).alone d hMark (by simpa using hMem)
  obtain ⟨rfl, -⟩ := cons.inj (String.ofList_injective hAlone)
  exact hPlain hMark

/- What is inside a string closes none. -/
theorem IsInside.takeString_eq (hBody : IsInside body) (more : List String) :
    takeString '"' (lexemes (String.ofList body) ++ "\"" :: more) =
      some (lexemes (String.ofList body) ++ ["\""], more) := by
  have hOpen : takeString '"' (lexemes (String.ofList body)) = none := by
    refine takeString_eq_none fun front back hText => ?_
    rw [String.toList_ofList] at hText
    have hQuotes := hBody.quotes
    rw [hText, ← cons_append, isChain_append] at hQuotes
    have hLast := hQuotes.2.2 _ getLast?_cons '"' rfl rfl
    cases hFront : front.getLast? with
    | none => simp [hFront] at hLast
    | some c => simpa [hFront] using hLast
  rw [takeString_append_quote hOpen, concat_lexemes, lastChar, String.toList_ofList, if_neg]
  cases hLast : body.getLast? with
  | none => decide
  | some c =>
    rintro rfl
    exact hBody.stop hLast

/- By induction on the length of the text, since a lexeme may have many characters. -/
theorem Closed.enclosed (hText : Closed commas cs) :
    Enclosed commas (lexemes (String.ofList cs)) := by
  have hAround : ∀ c ∈ marks, ∀ inner rest : List Char,
      lexemes (String.ofList (inner ++ c :: rest)) = lexemes (String.ofList inner) ++
        String.singleton c :: lexemes (String.ofList rest) := by
    intro c hMark inner rest
    rw [← lexemes_around_mark hMark, String.ofList_append, String.ofList_cons]
  induction hLength : cs.length using Nat.strong_induction_on generalizing commas cs with
  | _ n ih =>
    cases hText with
    | nil => exact .nil
    | @char _ c rest hPlain hComma hRest =>
      have hSplit : firstLexeme c rest ++ afterLexeme c rest = c :: rest := by
        simp [firstLexeme, afterLexeme]
      have hFirst : ∀ d, c ≠ d → String.ofList (firstLexeme c rest) ≠ String.singleton d :=
        fun d hOther hSame => hOther (cons.inj (String.ofList_injective hSame)).1
      have hNone : ∀ mark ∈ marks, String.ofList (firstLexeme c rest) ≠ String.singleton mark :=
        fun mark hMark => hFirst mark fun hSame => hPlain (hSame ▸ hMark)
      have hAfter := ih (afterLexeme c rest).length
        (by simpa [← hLength, Nat.lt_succ_iff] using length_afterLexeme c rest)
        (.of_append (not_mem_marks_of_firstLexeme hPlain)
          (hSplit.symm ▸ Closed.char hPlain hComma hRest)) rfl
      rw [lexemes, String.toList_ofList, lexemesFrom_cons]
      rw [lexemes, String.toList_ofList] at hAfter
      exact .text ⟨hNone '(' (by decide), hNone ')' (by decide), hNone '"' (by decide)⟩
        (hComma.imp_right (hFirst ',')) hAfter
    | @string _ body rest hBody hRest =>
      have hMark := hAround '"' (by decide)
      rw [length_cons, length_append, length_cons] at hLength
      have hString := Enclosed.string (hBody.takeString_eq []) (ih rest.length (by omega) hRest rfl)
      rw [append_assoc] at hString
      rw [← nil_append ('"' :: _), hMark, hMark]
      exact hString
    | @paren _ inner rest hInner hRest =>
      rw [length_cons, length_append, length_cons] at hLength
      rw [← nil_append ('(' :: _), hAround '(' (by decide), hAround ')' (by decide)]
      exact .paren (ih _ (by omega) hInner rfl) (ih _ (by omega) hRest rfl)

-- Arguments

/- Whether a text is one argument: closed, without commas at the top level, trimmed, and with single
  blanks as its white space. -/
structure IsArgument (s : String) : Prop where
  closed : Closed false s.toList
  trimmed : dropEnds isSpace s.toList = s.toList
  blanks : ∀ c ∈ s.toList, isSpace c = true → c = ' '
  apart : s.toList.IsChain fun c d => isSpace c = true → isSpace d = false

theorem collapseSpaces_eq_self (hBlanks : ∀ c ∈ cs, isSpace c = true → c = ' ')
    (hApart : cs.IsChain fun c d => isSpace c = true → isSpace d = false) :
    collapseSpaces cs = cs := by
  induction cs with
  | nil => rfl
  | cons c cs ih =>
    rw [forall_mem_cons] at hBlanks
    rw [isChain_cons] at hApart
    cases hSpace : isSpace c with
    | false => rw [collapseSpaces_of_not_isSpace hSpace, ih hBlanks.2 hApart.2]
    | true =>
      have hRun : cs.dropWhile isSpace = cs := by
        cases cs with
        | nil => rfl
        | cons d cs => exact dropWhile_cons_of_neg (by simp [hApart.1 d rfl hSpace])
      rw [collapseSpaces_of_isSpace hSpace, hRun, ih hBlanks.2 hApart.2, hBlanks.1 hSpace]

/- Arguments with commas between them are split into themselves. -/
theorem splitArguments_of_isArgument
    {args : List String}
    (hSome : args ≠ [])
    (hArgs : ∀ arg ∈ args, IsArgument arg) :
    splitArguments (joinWith "," args) = (args, (joinWith "," args).length) := by
  have hCollapsed : ∀ arg ∈ args, collapsed arg = arg := fun arg hMem => by
    rw [collapsed, collapseSpaces_eq_self (hArgs arg hMem).blanks (hArgs arg hMem).apart,
      String.ofList_toList]
  have hClosed : ∀ arg ∈ args, Enclosed false (lexemes arg) := fun arg hMem => by
    simpa using (hArgs arg hMem).closed.enclosed
  have hText : collapsed (joinWith "," args) = joinWith "," args := by
    rw [collapsed_joinWith, map_congr_left hCollapsed, map_id']
  refine Prod.ext ?_ (congrArg String.length hText)
  rw [splitArguments_joinWith hSome hClosed]
  conv_rhs => rw [← map_id' args]
  refine map_congr_left fun arg hMem => ?_
  rw [asArgument, hCollapsed arg hMem, trim, (hArgs arg hMem).trimmed, String.ofList_toList]

theorem splitArguments_of_isArgument_nested :
    (∀ arg ∈ ["f(a,\"(,\\\"\")", "", "g h"], IsArgument arg) ∧
      splitArguments "f(a,\"(,\\\"\"),,g h" = (["f(a,\"(,\\\"\")", "", "g h"], 16) := by
  have hString : Closed true "\"(,\\\"\"".toList :=
    @Closed.string true "(,\\\"".toList [] ⟨by decide, by decide⟩ .nil
  have hCall : Closed false "f(a,\"(,\\\"\")".toList :=
    .char (by decide) (by decide) (@Closed.paren false "a,\"(,\\\"\"".toList []
      (.char (by decide) (by decide) (.char (by decide) (by decide) hString)) .nil)
  have hWords : Closed false "g h".toList :=
    .char (by decide) (by decide) (.char (by decide) (by decide)
      (.char (by decide) (by decide) .nil))
  have hArgs : ∀ arg ∈ ["f(a,\"(,\\\"\")", "", "g h"], IsArgument arg := by
    have hBlank : ∀ {s : String},
        (s.toList.all fun c => decide (isSpace c = true → c = ' ')) = true → ∀ c ∈ s.toList, isSpace c = true → c = ' ' :=
      fun hAll c hMem => of_decide_eq_true (all_eq_true.1 hAll c hMem)
    simp only [forall_mem_cons]
    exact ⟨⟨hCall, by decide +kernel, hBlank (by decide +kernel), by decide +kernel⟩,
      ⟨.nil, rfl, nofun, .nil⟩,
      ⟨hWords, by decide +kernel, hBlank (by decide +kernel), by decide +kernel⟩, nofun⟩
  have hText : joinWith "," ["f(a,\"(,\\\"\")", "", "g h"] = "f(a,\"(,\\\"\"),,g h" := by
    decide +kernel
  have hSplit := splitArguments_of_isArgument (by simp) hArgs
  rw [hText] at hSplit
  exact ⟨hArgs, hSplit.trans (congrArg _ (by decide +kernel))⟩

end Macro

end CHeader
