import CHeader.Proofs.Fault
import CHeader.Proofs.Macro.Grounded
import CHeader.Proofs.Macro.Between

/-
  Lines that are expanded name by name.

  If every name of a line settles by itself and none stands right before a parenthesis, the
  expansion of the line is the line with each name replaced by its own expansion. The names may
  stand for texts in which function-like macros are called.

  Main declarations:
    * `Macro.spread`
    * `Macro.settles_pieces`
    * `Macro.exec_expandLine_spread`
-/

namespace CHeader

open List

namespace Macro

open Source (Run Session exec exec_bind exec_getTable exec_lift)

/- A text in which every name is replaced by what it stands for. -/
def spread (table : Table) (value : String → String) (list : List String) : String :=
  Text.concat (list.map fun piece =>
    if table.contains piece then value piece else piece)

section

variable {ahead : String → Run String} {session : Session} {depth : Nat} {name text : String}
variable {table : Table} {list : List Token} {value : String → String} {line : String}

/- A function-like macro by itself waits for its arguments, so it does not settle. -/
theorem Settles.isFunction_eq_false (hName : Settles ahead session depth
    [Token.ofPiece [] name] text) : session.table.isFunction name = false := by
  cases depth with
  | zero =>
    obtain ⟨_, hRests, _⟩ := hName
    cases hRests
  | succ depth =>
    obtain ⟨-, last, hScan, hAwaiting, -⟩ := hName.first
    by_contra hFunction
    have hFind : session.table.find? name = some .function := by
      simpa [Table.isFunction] using hFunction
    rw [scanTokens_cons, exec_bind] at hScan
    simp [Token.ofPiece, Token.ofStrand, hFind, scanTokens_nil] at hScan
    rw [← hScan] at hAwaiting
    cases hAwaiting

theorem isFunction_of_unnamed (hUnnamed : table.contains s = false) :
    table.isFunction s = false := by
  have hFind : table.find? s = none := by simpa [Table.contains] using hUnnamed
  simp [Table.isFunction, hFind]

theorem inert_ofPiece (painted : List String) (hUnnamed : session.table.contains name = false) :
    Inert session.table (Token.ofPiece painted name) := by
  refine ⟨rfl, hUnnamed, ?_⟩
  rintro _ ⟨⟩
  simpa [Table.contains] using hUnnamed

theorem regroup_inert
    (hInert : ∀ token ∈ list, Inert table token) : regroup table list = .ok (list, false) := by
  have hGroup : list.foldlM (Grouping.step table) { done := [] } = _ :=
    Grouping.foldlM_unnamed (fun token hMem => (hInert token hMem).unnamed) (by simp)
  rw [regroup, hGroup]
  simp

/- Pieces of which every name settles by itself and is not
  followed by a parenthesis settle together. -/
theorem settles_pieces (hWorded : session.table.Worded)
    {list : List String} (hWords : WordsApart list)
    (hNames : ∀ piece ∈ list, session.table.contains piece = true →
        Settles ahead session (depth + 1) [Token.ofPiece [] piece] (value piece))
    (hOpen : list.IsChain fun piece next =>
        session.table.contains piece = true → '(' ∉ next.toList) :
    Settles ahead session (depth + 1) (list.map (Token.ofPiece []))
      (spread session.table value list) := by
  -- a name is taken together with what stands after it
  induction list using List.twoStepInduction with
  | nil => exact settles_nil
  | singleton piece =>
    have hSame : spread session.table value [piece] =
        if session.table.contains piece then value piece
        else piece := by
      simp [spread]
    rw [hSame]
    split_ifs with hName
    · exact hNames piece mem_cons_self hName
    · have hInert : Inert session.table (Token.ofPiece [] piece) :=
        inert_ofPiece [] (by simpa using hName)
      have hRest : Settles ahead session (depth + 1) [Token.ofPiece [] piece] (spell [_]) :=
        settles_inert (by simpa using hInert)
      simpa [spell, Token.ofPiece, Token.ofStrand, Strand.spelling] using hRest
  | cons_cons piece next rest ih ihNext =>
    rw [isChain_cons_cons] at hOpen
    rw [wordsApart_cons] at hWords
    have hLater := ihNext next hWords.2
      (fun piece hMem => hNames piece (mem_cons_of_mem _ hMem))
      hOpen.2
    by_cases hName : session.table.contains piece = true
    · have hOther : session.table.contains next = false := by
        by_contra hNext
        have hWord := hWorded next (by simpa using hNext)
        rw [hWords.1 next rfl (hWorded piece hName)] at hWord
        cases hWord
      have hRest := ih hWords.2.tail (fun piece hMem => hNames piece
          (mem_cons_of_mem _ (mem_cons_of_mem _ hMem)))
        hOpen.2.tail
      have hBoth := Settles.append (hNames piece mem_cons_self hName)
        (inert_ofPiece [] hOther) (fun hMentions => absurd (by simpa [Token.ofPiece, Token.ofStrand,
            Strand.mentions] using hMentions)
          (hOpen.1 hName)) hRest
      simpa [spread, hName, hOther, Token.ofPiece, Token.ofStrand,
        Strand.spelling, String.append_assoc] using hBoth
    · rw [Bool.not_eq_true] at hName
      have hBoth := Settles.append settles_nil (inert_ofPiece [] hName) (fun _ => rfl) hLater
      simpa [spread, hName, Token.ofPiece, Token.ofStrand, Strand.spelling] using hBoth

/- A line whose pieces settle expands to their text. -/
theorem Settles.exec_expandWith (hTexts :
    ∀ piece ∈ pieces line, session.table.isFunction piece = false)
    (hPieces : Settles ahead session depth ((pieces line).map (Token.ofPiece [])) text) :
    exec (expandWith (expandTokens ahead depth) line) session = (.ok text, session) := by
  have hTokens : tokens session.table [] line = ((pieces line).map (Token.ofPiece []), false) := by
    rw [tokens, strands_of_unnamed hTexts]
    simp [Token.ofPiece]
  obtain ⟨list, hList, hText⟩ := hPieces.exec_expandTokens line
  rw [expandWith, exec_bind, exec_getTable]
  simp only [hTokens]
  rw [exec_bind, hList, ← hText]
  rfl

theorem Settles.exec_expandWith_name (hWord : isWordText name = true)
    (hName : Settles ahead session depth [Token.ofPiece [] name] text) :
    exec (expandWith (expandTokens ahead depth) name) session = (.ok text, session) := by
  have hPieces := pieces_of_isWordText hWord
  refine Settles.exec_expandWith ?_ ?_
  · rw [hPieces]
    simpa using hName.isFunction_eq_false
  · rwa [hPieces]

theorem exec_expandLine_spread (hWorded : session.table.Worded)
    (hNames : ∀ piece ∈ pieces line, session.table.contains piece = true →
        Settles ahead session (limit + 1) [Token.ofPiece [] piece] (value piece))
    (hOpen : (pieces line).IsChain fun piece next =>
        session.table.contains piece = true → '(' ∉ next.toList) :
    exec (expandLine (limit + 1) ahead line) session =
      (.ok (spread session.table value (pieces line)), session) := by
  refine Settles.exec_expandWith ?_ (settles_pieces hWorded (wordsApart_pieces line) hNames hOpen)
  intro piece hMem
  by_cases hName : session.table.contains piece = true
  · exact (hNames piece hMem hName).isFunction_eq_false
  · exact isFunction_of_unnamed (by simpa using hName)

/- The tokens that replace the call of a function-like macro without variable arguments. -/
theorem exec_expandCall (hQuote : name ≠ quoteName) (hJoin : name ≠ joinName)
    (hBody : session.table.body! name = .ok meaning)
    (hParams : session.table.params! name = .ok params) (hRest : "..." ∉ params.toList)
    (hWritten : (splitArguments (Text.inner 1 token.text)).1 = written)
    (hExpanded : exec (expandArguments expander meaning written
        params.toList) session = (.ok expanded, session))
    (hFilled : fillPieces session.table (some (bindArguments params.toList written expanded))
        (addName name token.painted) meaning.toPieces = .ok list) :
    exec (expandCall expander name token) session = (.ok (list, [name]), session) := by
  subst hWritten
  unfold expandCall
  simp [hQuote, hJoin, exec_bind, hBody, hParams, hExpanded, hFilled, hRest]

end

end Macro

end CHeader
