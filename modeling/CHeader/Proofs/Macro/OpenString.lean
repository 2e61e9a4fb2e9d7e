import CHeader.Proofs.Macro.Uncalled

/-
  Lines in which no macro is named.

  Such a line is expanded to itself, unless it ends inside a string. A string that is not closed
  loses its last character, and with it the line.

  Main declarations:
    * `Macro.insideString`
    * `Macro.concat_piecesFrom`
    * `Macro.exec_expandLine_unnamed`
-/

namespace CHeader

open List

namespace Macro

open Source (Run Session exec)

-- Strings that close

/- Whether lexemes end inside a string, by whether they begin
  inside one and by the character before them. -/
def insideString : Bool → Char → List String → Bool
| inside, _, [] => inside
| true, before, lexeme :: rest =>
    insideString (lexeme ≠ "\"" || before = '\\') (lastChar before lexeme) rest
| false, before, lexeme :: rest =>
    insideString (lexeme = "\"") (lastChar before lexeme) rest

section

variable {before : Char} {items taken left : List String}

/- Outside of strings the character before does not count. -/
theorem insideString_false (before : Char) (items : List String) :
    insideString false before items = insideString false ' ' items := by
  induction items generalizing before with
  | nil => rfl
  | cons lexeme items ih =>
    by_cases hQuote : lexeme = "\""
    · subst hQuote
      rfl
    · simp only [insideString, hQuote, decide_false]
      rw [ih, ih (lastChar ' ' lexeme)]

theorem insideString_cons (hQuote : lexeme ≠ "\"") :
    insideString false ' ' (lexeme :: items) = insideString false ' ' items := by
  simp only [insideString, hQuote]
  exact insideString_false _ _

/- A string ends where it is taken off, and nowhere if there is nothing to take. -/
theorem insideString_true : insideString true before items =
    match takeString before items with
    | none => true
    | some (_, left) => insideString false ' ' left := by
  induction items generalizing before with
  | nil => rfl
  | cons lexeme items ih =>
    rw [takeString, insideString]
    split_ifs with hQuote
    · simp [hQuote, insideString_false]
    · rw [show (lexeme ≠ "\"" || before = '\\' : Bool) = true by
        simpa [imp_iff_not_or] using hQuote, ih]
      cases takeString (lastChar before lexeme) items <;> rfl

theorem insideString_of_string (hString : takeString '"' items = some (taken, left)) :
    insideString false ' ' ("\"" :: items) = insideString false ' ' left := by
  change insideString true '"' items = _
  rw [insideString_true, hString]

-- Pieces of a line

/- The pieces of lexemes spell them, but for the last character if they end inside a string. -/
theorem concat_piecesFrom (before : Char) (items : List String) : ∃ lost : List Char,
    (Text.concat items).toList = (Text.concat (piecesFrom none before items)).toList ++ lost ∧
      lost.length = (insideString false ' ' items).toNat := by
  induction before, items using piecesFrom_induction with
  | hNil => exact ⟨[], rfl, rfl⟩
  | hLexeme before lexeme rest hQuote ih =>
    obtain ⟨lost, hText, hLost⟩ := ih
    exact ⟨lost, by simp [piecesFrom_lexeme before hQuote, hText],
      by rw [insideString_cons hQuote, hLost]⟩
  | hUnclosed before rest hString =>
    have hOpen : insideString false ' ' ("\"" :: rest) = true := by
      change insideString true '"' rest = _
      rw [insideString_true, hString]
    refine ⟨[(Text.concat ("\"" :: rest)).toList.getLast (by simp)], ?_, by rw [hOpen]; rfl⟩
    simp [piecesFrom_unclosed before hString, withoutLast, dropLast_append_getLast]
  | hClosed before rest taken left hString ih =>
    obtain ⟨lost, hText, hLost⟩ := ih
    refine ⟨lost, ?_, by rw [insideString_of_string hString, hLost]⟩
    rw [piecesFrom_closed before hString, ← (append_of_takeString hString).1]
    simp [hText]

theorem mem_of_mem_piecesFrom (hMem : piece ∈ piecesFrom none before items)
    (hWord : isWordText piece = true) : piece ∈ items := by
  induction before, items using piecesFrom_induction with
  | hNil => exact hMem
  | hLexeme before lexeme rest hQuote ih =>
    rw [piecesFrom_lexeme before hQuote, mem_cons] at hMem
    exact mem_cons.2 (hMem.imp_right ih)
  | hUnclosed before rest hString =>
    rw [piecesFrom_unclosed before hString, mem_singleton] at hMem
    rw [hMem, isWordText_withoutLast] at hWord
    cases hWord
  | hClosed before rest taken left hString ih =>
    rw [piecesFrom_closed before hString, mem_cons] at hMem
    rcases hMem with rfl | hMem
    · rw [isWordText_concat_quote] at hWord
      cases hWord
    · rw [← (append_of_takeString hString).1]
      exact mem_cons_of_mem _ (mem_append_right _ (ih hMem))

end

/-
  A line none of whose words is a macro is expanded to itself if its strings close, and else to
  itself without the last character.
-/
theorem exec_expandLine_unnamed
    (limit : Nat)
    (ahead : String → Run String)
    (session : Session)
    (line : String)
    (hWorded : session.table.Worded)
    (hWords : ∀ word ∈ words line, session.table.contains word = false) :
    exec (expandLine (limit + 1) ahead line) session =
      (.ok (if insideString false ' ' (lexemes line) then String.ofList line.toList.dropLast
        else line), session) := by
  have hNone : ∀ piece ∈ pieces line, session.table.contains piece = false := by
    intro piece hMem
    by_contra hName
    have hWord := hWorded piece (by simpa using hName)
    have hIn : piece ∈ words line := List.mem_filter.2
      ⟨mem_of_mem_piecesFrom hMem hWord, List.all_eq_true.2 (isWordText_iff.1 hWord).2⟩
    exact hName (hWords piece hIn)
  have hLine : exec (expandLine (limit + 1) ahead line) session =
      (.ok (Text.concat (pieces line)), session) :=
    exec_expandWith_unnamed hNone limit
  obtain ⟨lost, hText, hLost⟩ := concat_piecesFrom ' ' (lexemes line)
  rw [concat_lexemes, ← pieces] at hText
  rw [hLine]
  split_ifs with hOpen
  · rw [hOpen] at hLost
    obtain ⟨c, rfl⟩ := List.length_eq_one_iff.1 hLost
    rw [hText, List.dropLast_concat, String.ofList_toList]
  · rw [Bool.not_eq_true] at hOpen
    rw [hOpen] at hLost
    rw [List.eq_nil_of_length_eq_zero hLost, List.append_nil] at hText
    rw [← String.toList_injective hText]

theorem exec_expandLine_unnamed_open :
    exec (expandLine 1 pure "it's \"b\\\"\" \\\"(c") { table := wrapTable } =
      (.ok "it's \"b\\\"\" \\\"(", { table := wrapTable }) := by
  rw [exec_expandLine_unnamed 0 pure { table := wrapTable } _ (Table.worded_of_all (by decide))
    (by decide +kernel)]
  decide +kernel

end Macro

end CHeader
