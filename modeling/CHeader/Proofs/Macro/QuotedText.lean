import CHeader.Proofs.Macro.Cutting

/-
  Lines that begin with the literal for a text.

  Between the quotes of a literal every quote and every backslash of the text has a backslash before
  it. A quote behind a backslash does not close a string, also where the backslash is itself behind
  one, so the literal for a text that ends with a backslash goes on into the line.

  Main declarations:
    * `Macro.escaped`
    * `Macro.takeString_escaped_quote`
    * `Macro.strands_quote_iff`
-/

namespace CHeader

namespace Macro

open Text

variable {before : Char} {items taken left : List String}

-- Ends of strings

theorem lastChar_append (before : Char) (s t : String) :
    lastChar before (s ++ t) = lastChar (lastChar before s) t := by
  cases h : t.toList.getLast? <;> simp [lastChar]

/- The quote at the end of a string has no backslash before it. -/
theorem quote_of_takeString (hString : takeString before items = some (taken, left)) :
    ∃ inner, taken = inner ++ ["\""] ∧ lastChar before (concat inner) ≠ '\\' := by
  induction items generalizing before taken with
  | nil => cases hString
  | cons lexeme rest ih =>
    rw [takeString] at hString
    split at hString
    · next hQuote =>
      cases hString
      exact ⟨[], by rw [hQuote.1]; rfl, hQuote.2⟩
    · obtain ⟨⟨string, _⟩, hRest, hSame⟩ := Option.map_eq_some_iff.1 hString
      cases hSame
      obtain ⟨inner, rfl, hLast⟩ := ih hRest
      exact ⟨lexeme :: inner, rfl, by rwa [concat_cons, lastChar_append]⟩

/- A string that is still open ends with the next quote, unless a backslash stands before it. -/
theorem takeString_append_quote (hOpen : takeString before items = none) (rest : List String) :
    takeString before (items ++ "\"" :: rest) =
      if lastChar before (concat items) = '\\' then
        (takeString '"' rest).map fun step => (items ++ "\"" :: step.1, step.2)
      else some (items ++ ["\""], rest) := by
  induction items generalizing before with
  | nil => by_cases hSlash : before = '\\' <;> simp [takeString, lastChar]
  | cons lexeme items ih =>
    rw [takeString] at hOpen
    split at hOpen
    · cases hOpen
    · next hQuote =>
      rw [List.cons_append, takeString, if_neg hQuote, ih (by simpa using hOpen), concat_cons,
        lastChar_append]
      split <;> simp [Function.comp_def]

/- A text closes no string if every quote in it has a backslash before it. -/
theorem takeString_eq_none
    (hQuotes : ∀ front back, s.toList = front ++ '"' :: back → front.getLast? = some '\\') :
    takeString '"' (lexemes s) = none := by
  by_contra hSome
  obtain ⟨⟨taken, left⟩, hString⟩ := Option.ne_none_iff_exists'.1 hSome
  obtain ⟨front, rfl, hLast⟩ := quote_of_takeString hString
  have hText := congrArg String.toList (concat_lexemes s)
  rw [← (append_of_takeString hString).1] at hText
  have hSlash := hQuotes (concat front).toList (concat left).toList (by simpa using hText.symm)
  exact hLast (by simp [lastChar, hSlash])

theorem strandsFrom_unclosed (hOpen : takeString '"' items = none) (before : Char) :
    strandsFrom isFunction called before ("\"" :: items) =
      ([.text (withoutLast ("\"" :: items))], false) := by
  rw [strandsFrom]
  simp only [String.reduceEq, false_and, if_false, if_true, lastChar_quote]
  split <;> simp_all

-- Literals

/- What stands between the quotes of the literal for a text. -/
def escaped (s : String) : String :=
  String.ofList (s.toList.flatMap fun c => if c = '\\' ∨ c = '"' then ['\\', c] else [c])

theorem quote_eq (s : String) : quote s = "\"" ++ (escaped s ++ "\"") := String.append_assoc ..

/- Every quote between the quotes of a literal has a backslash before it. -/
theorem getLast?_of_escaped {front back : List Char}
    (hEscaped : (escaped s).toList = front ++ '"' :: back) : front.getLast? = some '\\' := by
  rw [escaped, String.toList_ofList] at hEscaped
  generalize s.toList = cs at hEscaped
  induction cs generalizing front with
  | nil => simp at hEscaped
  | cons c cs ih =>
    rw [List.flatMap_cons] at hEscaped
    split_ifs at hEscaped with hMark
    · rcases front with _ | ⟨a, _ | ⟨b, front⟩⟩
      · cases hEscaped
      · cases hEscaped
        rfl
      · simp [List.getLast?_cons, ih (List.cons.inj (List.cons.inj hEscaped).2).2]
    · rcases front with _ | ⟨a, front⟩
      · exact absurd (.inr (List.cons.inj hEscaped).1) hMark
      · simp [List.getLast?_cons, ih (List.cons.inj hEscaped).2]

theorem lastChar_escaped (s : String) :
    lastChar '"' (escaped s) = '\\' ↔ s.toList.getLast? = some '\\' := by
  rcases List.eq_nil_or_concat s.toList with hNil | ⟨init, c, hLast⟩
  · simp [lastChar, escaped, hNil]
  · rw [lastChar, escaped, hLast, List.concat_eq_append, List.flatMap_append]
    simp only [List.flatMap_cons]
    split_ifs <;> simp

/- What stands between the quotes of a literal closes no string. -/
theorem takeString_escaped (s : String) : takeString '"' (lexemes (escaped s)) = none :=
  takeString_eq_none fun _ _ hEscaped => getLast?_of_escaped hEscaped

/- A literal is closed by its own quote, unless its text ends with a backslash. -/
theorem takeString_escaped_quote (s : String) (rest : List String) :
    takeString '"' (lexemes (escaped s) ++ "\"" :: rest) =
      if s.toList.getLast? = some '\\' then
        (takeString '"' rest).map fun step => (lexemes (escaped s) ++ "\"" :: step.1, step.2)
      else some (lexemes (escaped s) ++ ["\""], rest) := by
  rw [takeString_append_quote (takeString_escaped s), concat_lexemes,
    if_congr (lastChar_escaped s) rfl rfl]

theorem lexemes_quote_append (s rest : String) :
    lexemes (quote s ++ rest) = "\"" :: (lexemes (escaped s) ++ "\"" :: lexemes rest) := by
  rw [quote_eq, String.append_assoc, String.append_assoc]
  exact (lexemes_append_mark (c := '"') (by decide) _).trans
    (congrArg _ (lexemes_around_mark (c := '"') (by decide) _ _))

theorem concat_quote (s : String) (more : List String) :
    concat ("\"" :: (lexemes (escaped s) ++ "\"" :: more)) = quote s ++ concat more := by
  simp [quote_eq, String.append_assoc, concat_lexemes]

/- Only a single character can be lost behind a literal. -/
theorem dropLast_quote_append (s rest : String) :
    String.ofList (quote s ++ rest).toList.dropLast = quote s ↔ ∃ c, rest = String.singleton c := by
  constructor
  · intro hText
    have hLength := congrArg String.length hText
    have hSome : 0 < (quote s).length := by
      rw [quote_eq, String.length_append]
      exact Nat.add_pos_left (by decide) _
    simp only [String.length_ofList, List.length_dropLast, String.length_toList,
      String.length_append] at hLength
    obtain ⟨c, hChar⟩ : ∃ c, rest.toList = [c] :=
      List.length_eq_one_iff.1 (by rw [String.length_toList]; omega)
    exact ⟨c, String.toList_injective (by simpa using hChar)⟩
  · rintro ⟨c, rfl⟩
    simp

/-
  A line that begins with the literal for a text has it as its first strand if and only if the text
  does not end with a backslash, or all that follows is a character that is lost with the string.
-/
theorem strands_quote_iff
    (table : Table)
    (s rest : String) :
    (strands table (quote s ++ rest)).1.head? = some (.text (quote s)) ↔
      s.toList.getLast? ≠ some '\\' ∨ ∃ c, c ≠ '"' ∧ rest = String.singleton c := by
  have hTake := takeString_escaped_quote s (lexemes rest)
  rw [strands, lexemes_quote_append]
  by_cases hEnd : s.toList.getLast? = some '\\'
  · rw [if_pos hEnd] at hTake
    rw [or_iff_right (not_not_intro hEnd)]
    cases hRest : takeString '"' (lexemes rest) with
    | none =>
      rw [hRest] at hTake
      rw [strandsFrom_unclosed hTake, withoutLast, concat_quote, concat_lexemes, List.head?_cons,
        Option.some_inj, Strand.text.injEq, dropLast_quote_append]
      refine exists_congr fun c => (and_iff_right_of_imp ?_).symm
      rintro rfl rfl
      exact absurd hRest (by decide)
    | some step =>
      rw [hRest] at hTake
      obtain ⟨front, hTaken, -⟩ := quote_of_takeString hRest
      have hText := concat_lexemes rest
      rw [← (append_of_takeString hRest).1, hTaken] at hText
      rw [strandsFrom_string hTake, concat_quote]
      refine iff_of_false (fun hSame => ?_) ?_
      · have hLength := congrArg String.length (Strand.text.inj (Option.some.inj hSame))
        simp [hTaken] at hLength
      · rintro ⟨c, hOther, rfl⟩
        have hMem := congrArg (fun s => '"' ∈ s.toList) hText
        simp [hOther.symm] at hMem
  · rw [if_neg hEnd] at hTake
    rw [strandsFrom_string hTake, concat_quote]
    simp [hEnd, concat]

end Macro

end CHeader
