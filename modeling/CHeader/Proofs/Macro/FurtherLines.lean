import CHeader.Proofs.Macro.Uncalled

/-
  Calls that need further lines.

  The name of a function-like macro at the end of a line waits for an argument list in the lines after
  it. A line that does not begin with a parenthesis is processed at once, out of its turn, and the
  text that it gives is put directly behind the name.

  Main declarations:
    * `Macro.exec_expandLine_lookAhead`
-/

namespace CHeader

namespace Macro

open Source (Run Session exec exec_bind exec_getTable exec_pure linesLeft)

section

variable {ahead : String → Run String} {session next : Session} {name line : String}

/- The end of a line after the name of a function-like macro. -/
theorem exec_scanTokens_lineEnd (hAwaiting : state.awaiting = some name)
    (hLive : token.live = true) (hText : token.strand = .text "\n") (rest : List Token) :
    exec (scanTokens expander ahead false state (token :: rest)) session =
      exec (PassResult.finished <$> lookAhead expander ahead state) session := by
  rw [scanTokens_cons, exec_bind]
  simp [hAwaiting, hLive, hText]

/- A line that does not begin with a parenthesis is put behind the tokens so far. -/
theorem exec_lookAhead_text
    (hRead : exec (do nextSolidLine ((← linesLeft) + 1)) session = (.ok line, next))
    (hStart : (Text.trim line).toList.head? = some c) (hOpen : c ≠ '(') (expander : Expander)
    (state : Pass) : exec (lookAhead expander ahead state) session =
      exec ((fun text => state.done.reverse ++ [⟨.text text, text, false, [], 0⟩]) <$> ahead line)
        next := by
  have hSplit : lookAhead expander ahead state =
      (do nextSolidLine ((← linesLeft) + 1)) >>= fun line => _ := (bind_assoc _ _ _).symm
  rw [hSplit, exec_bind, hRead]
  dsimp only
  split
  · simp [‹_ = []›] at hStart
  · rename_i hParen
    rw [hParen] at hStart
    cases hStart
    exact absurd rfl hOpen
  · rw [map_eq_pure_bind]

end

/-
  The line after the name of a function-like macro, if it does not begin with a parenthesis, is
  processed by itself. Its text follows the name at once, without the line break.
-/
theorem exec_expandLine_lookAhead
    (limit : Nat)
    (ahead : String → Run String)
    (session next : Session)
    (before name line : String)
    (c : Char)
    (hName : isWordText name = true)
    (hFind : session.table.find? name = some .function)
    (hBefore : Still session.table before)
    (hApart : ∀ c ∈ before.toList.getLast?, Text.isWord c = false)
    (hRead : exec (do nextSolidLine ((← linesLeft) + 1)) session = (.ok line, next))
    (hStart : (Text.trim line).toList.head? = some c)
    (hOpen : c ≠ '(') :
    exec (expandLine (limit + 1) ahead (before ++ (name ++ "\n"))) session =
      exec ((fun text => before ++ (name ++ text)) <$> ahead line) next := by
  obtain ⟨-, hInert, hSpell⟩ := tokens_of_still hBefore []
  have hBehind : strandsBehind session.table "\n" = ([.text "\n"], false) := by
    simp [strandsBehind, lexemes, lexemesFrom, strandsFrom]
  have hAfter : ∀ c ∈ "\n".toList.head?, Text.isWord c = false := by
    rintro _ ⟨⟩
    decide
  rw [expandLine, expandWith, exec_bind, exec_getTable]
  dsimp only
  rw [tokens_around hName hFind hBefore hApart hAfter, hBehind, expandTokens,
    expandOnce, exec_bind, exec_bind, exec_scanTokens_quiet rfl fun token hMem =>
      (hInert token hMem).quiet, exec_scanTokens_function rfl rfl rfl rfl hFind,
    List.map_singleton, exec_scanTokens_lineEnd rfl rfl rfl, map_eq_pure_bind, exec_bind,
    exec_lookAhead_text hRead hStart hOpen,
    map_eq_pure_bind, map_eq_pure_bind, exec_bind, exec_bind]
  rcases exec (ahead line) next with ⟨fault | text, last⟩
  · rfl
  · have hDone : spell (((pieces before).map (Token.ofPiece [])).map Token.rested) = before := by
      rw [spell_rested, hSpell]
    simp only [exec_pure, List.reverse_cons, List.append_nil, List.reverse_reverse, spell_append,
      hDone]
    simp [spell, Token.ofPiece, Token.ofStrand, Strand.spelling, String.append_assoc]

/- A file from a line on, after `#define F(y) y`. -/
def waitSession (number : String) (lines : List String) : Session :=
  { table := { names := [("F", .function), (Source.readerName, .record), ("__LINE__", .text number)] }
    reader := some { path := none, lines := lines.map fun line => ⟨line, 0⟩ } }

theorem exec_expandLine_lookAhead_word :
    exec (expandLine 1 pure "- F\n") (waitSession "1" ["\n", "y\n", "z\n"]) =
      (.ok "- Fy\n", waitSession "3" ["z\n"]) := by
  exact exec_expandLine_lookAhead 0 pure (waitSession "1" ["\n", "y\n", "z\n"])
    (waitSession "3" ["z\n"]) "- " "F" "y\n" 'y' rfl rfl ⟨by decide +kernel, by decide +kernel⟩ (by rintro _ ⟨⟩; decide)
    (by decide +kernel) (by decide) (by decide)

end Macro

end CHeader
