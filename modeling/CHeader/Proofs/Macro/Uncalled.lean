import CHeader.Proofs.Macro.Calls

/-
  The name of a function-like macro that is not called.

  Such a name waits for an argument list until the first token that is not blank. It stays in the
  line and so does what stands before it. The text behind it is expanded, but it is cut as if the
  name were called: the next parenthesis opens an argument list, however far away it is, and nothing
  in the list is expanded. Where the text is cut alike by itself the name does not disturb it.

  Main declarations:
    * `Macro.strandsBehind`
    * `Macro.EndsWait`
    * `Macro.exec_expandLine_uncalled`
-/

namespace CHeader

open List

namespace Macro

open Source (Run Session exec)

-- Texts around a name

/- The strands of a text behind the name of a function-like macro. -/
def strandsBehind (table : Table) (s : String) : List Strand × Bool :=
  strandsFrom table.isFunction true ' ' (lexemes s)

section

variable {table : Table} {before name after : String}

theorem lexemes_around (hName : isWordText name = true)
    (hBefore : ∀ c ∈ before.toList.getLast?, Text.isWord c = false)
    (hAfter : ∀ c ∈ after.toList.head?, Text.isWord c = false) :
    lexemes (before ++ (name ++ after)) = lexemes before ++ name :: lexemes after := by
  obtain ⟨hSome, hAll⟩ := isWordText_iff.1 hName
  rw [lexemes, String.toList_append, lexemesFrom_append]
  · exact congrArg _ (lexemes_append_word hName hAfter)
  · intro c hc d hd
    rw [String.toList_append, List.head?_append_of_ne_nil _ hSome] at hd
    rw [breaks_comm]
    exact breaks_of_isWord (hAll d (mem_of_mem_head? hd)) (hBefore c hc)

theorem strandsFrom_lexemes (called : Bool) (c : Char) (s : String) :
    strandsFrom isFunction called c (lexemes s) =
      strandsFrom isFunction called ' ' (lexemes s) := by
  cases hItems : lexemes s with
  | nil => rw [strandsFrom, strandsFrom]
  | cons lexeme rest =>
    have hLexeme : IsLexeme lexeme := isLexeme_of_mem (hItems ▸ mem_cons_self)
    exact strandsFrom_cons_before hLexeme.ne_empty c ' ' rest

/- A line is cut at the name of a function-like macro, if none is named before it. -/
theorem strands_around {front : List Strand} (hName : isWordText name = true)
    (hFunction : table.isFunction name = true)
    (hBefore : ∀ c ∈ before.toList.getLast?, Text.isWord c = false)
    (hAfter : ∀ c ∈ after.toList.head?, Text.isWord c = false)
    (hFront : strands table before = (front, false)) (hSpelled : spelled front = before)
    (hTexts : ∀ s, .text s ∈ front → table.isFunction s = false) :
    strands table (before ++ (name ++ after)) =
      (front ++ .text name :: (strandsBehind table after).1, (strandsBehind table after).2) := by
  have hMark := ne_mark_of_isWordText hName
  have hSome : name ≠ "" := by
    rintro rfl
    cases hName
  obtain ⟨later, hLine, hLater⟩ := strandsFrom_append hSome
    (lexemes after) hFront (hSpelled.trans (concat_lexemes before).symm)
  obtain rfl := hLater rfl hTexts
  rw [strands, lexemes_around hName hBefore hAfter, hLine, strandsFrom]
  simp [show name ≠ "\"" from hMark '"' (by decide), hFunction, strandsFrom_lexemes, strandsBehind]

/- The tokens of a line around the name of a function-like macro. -/
theorem tokens_around (hName : isWordText name = true) (hFind : table.find? name = some .function)
    (hBefore : Still table before) (hApart : ∀ c ∈ before.toList.getLast?, Text.isWord c = false)
    (hAfter : ∀ c ∈ after.toList.head?, Text.isWord c = false) :
    tokens table [] (before ++ (name ++ after)) =
      ((pieces before).map (Token.ofPiece []) ++ Token.ofPiece [] name ::
        (strandsBehind table after).1.map (Token.ofStrand []), (strandsBehind table after).2) := by
  have hSpelled : spelled ((pieces before).map .text) = before := by
    conv_rhs => rw [← hBefore.spells]
    simp [spelled, Strand.spelling, Function.comp_def]
  rw [tokens, strands_around hName (by simp [Table.isFunction, hFind]) hApart hAfter
    (strands_of_unnamed hBefore.isFunction) hSpelled (by simpa using hBefore.isFunction)]
  simp [Token.ofPiece]

end

-- The end of the wait

/- Whether blanks and a text after them end the wait for an argument list. The text is not taken for
  the beginning of one when the line is grouped. -/
structure EndsWait (table : Table) (gaps : List String) (first : String) : Prop where
  blank : ∀ gap ∈ gaps, ∀ c ∈ gap.toList, c = ' ' ∨ c = '\t'
  solid : ∃ c ∈ first.toList, c ≠ ' ' ∧ c ≠ '\t'
  inLine : first ≠ "\n"
  unnamed : table.contains first = false
  apart : gaps = [] → '(' ∉ first.toList

/- The tokens of a name that is not called, up to the end of the wait. -/
def uncalled (name : String) (gaps : List String) (first : String) : List Token :=
  (name :: (gaps ++ [first])).map (Token.ofPiece [])

section

variable {ahead : String → Run String} {session : Session} {name after first : String}
variable {gaps : List String}
variable {list : List Strand} {expander : Expander} {state : Pass} {done : List Token}

/- By themselves the blanks and the text are at rest. -/
theorem EndsWait.quiet (hEnds : EndsWait session.table gaps first)
    (hWorded : session.table.Worded) :
    ∀ token ∈ (gaps ++ [first]).map (Token.ofPiece []), Quiet session.table token := by
  simp only [forall_mem_map, forall_mem_append, forall_mem_singleton]
  refine ⟨fun gap hMem => ?_, (inert_ofPiece [] hEnds.unnamed).quiet⟩
  have hSpace : ∀ c ∈ gap.toList, Text.isSpace c = true := by
    intro c hc
    rcases hEnds.blank gap hMem c hc with rfl | rfl <;> decide
  exact (inert_ofPiece [] (hWorded.contains_of_isSpace hSpace)).quiet

theorem inert_strands (hWorded : session.table.Worded)
    (hTexts : ∀ s, .text s ∈ list → session.table.contains s = false) :
    ∀ token ∈ list.map (Token.ofStrand []), Inert session.table token := by
  simp only [forall_mem_map]
  intro strand hMem
  cases strand with
  | text s => exact inert_ofPiece [] (hTexts s hMem)
  | call inside size =>
    refine ⟨rfl, ?_, nofun⟩
    by_contra hName
    have hWord := hWorded _ (by simpa using hName)
    rw [not_isWordText_of_mark (c := '(') (by decide)] at hWord
    · cases hWord
    · simp [Token.ofStrand, Strand.spelling]

/- The wait goes on with blanks and ends with the text after them. -/
theorem exec_scanTokens_waiting (hEnds : EndsWait session.table gaps first)
    (hAwaiting : state.awaiting = some awaiting) (rest : List Token) :
    exec (scanTokens expander ahead false state
        ((gaps ++ [first]).map (Token.ofPiece []) ++ rest)) session =
      exec (scanTokens expander ahead false { state with
          seen := state.seen + (gaps.length + 1)
          done := ((gaps ++ [first]).map (Token.ofPiece [])).reverse ++ state.done
          awaiting := none } rest) session := by
  obtain ⟨hBlank, ⟨c, hc, hSolid⟩, hLine, hUnnamed, -⟩ := hEnds
  have hBlanks : ∀ token ∈ gaps.map (Token.ofPiece []), Blank token := by
    simp only [forall_mem_map]
    exact fun gap hMem => ⟨rfl, gap, rfl, hBlank gap hMem⟩
  have hNone : awaitAfter session.table awaiting first = none := by
    rw [awaitAfter, if_neg]
    · simp [isFunction_of_unnamed hUnnamed]
    · rw [all_eq_true]
      exact fun hAll => absurd (hAll c hc) (by simpa using hSolid)
  rw [map_append, append_assoc, exec_scanTokens_blanks hAwaiting hBlanks,
    map_singleton, singleton_append,
    exec_scanTokens_wait (by exact hAwaiting) rfl rfl hLine, hNone]
  simp [Nat.add_assoc]

/- A pass leaves a name that is not called and the tokens up to the end of the wait. -/
theorem exec_scanTokens_uncalled
    (hFind : session.table.find? name = some .function) (hEnds : EndsWait session.table gaps first)
    (hAwaiting : state.awaiting = none) (rest : List Token) :
    exec (scanTokens expander ahead false state (uncalled name gaps first ++ rest)) session =
      exec (scanTokens expander ahead false { state with
          seen := state.seen + (uncalled name gaps first).length
          done := (uncalled name gaps first).reverse ++ state.done }
        rest) session := by
  rw [uncalled, map_cons, cons_append,
    exec_scanTokens_function hAwaiting rfl rfl rfl hFind]
  refine (exec_scanTokens_waiting hEnds rfl rest).trans ?_
  simp [Nat.add_assoc, Nat.add_comm 1, hAwaiting]

theorem foldlM_step_uncalled (hWorded : session.table.Worded) (hName : isWordText name = true)
    (hEnds : EndsWait session.table gaps first) (done : List Token) :
    (uncalled name gaps first).foldlM (Grouping.step session.table) { done := done } =
      .ok { done := (uncalled name gaps first).reverse ++ done } := by
  have hText : ∀ s : String, '(' ∉ s.toList → (Token.ofPiece [] s).strand.mentions '(' = false := by
    simp [Token.ofPiece, Token.ofStrand, Strand.mentions]
  have hOpen : '(' ∉ name.toList := fun hMem =>
    absurd ((isWordText_iff.1 hName).2 '(' hMem) (by decide)
  rw [uncalled, map_cons, foldlM_cons,
    Grouping.step_of_not_mentions rfl (hText name hOpen)]
  change List.foldlM _ ({ done := _ :: done } : Grouping) _ = _
  have hQuiet := hEnds.quiet hWorded
  cases hGaps : gaps with
  | nil =>
    rw [nil_append, map_singleton, foldlM_cons,
      Grouping.step_of_not_mentions rfl (hText first (hEnds.apart hGaps))]
    rfl
  | cons gap others =>
    have hGap : '(' ∉ gap.toList := by
      intro hMem
      exact absurd (hEnds.blank gap (by simp [hGaps]) '(' hMem) (by decide)
    rw [hGaps, cons_append, map_cons, forall_mem_cons] at hQuiet
    rw [cons_append, map_cons, foldlM_cons,
      Grouping.step_of_not_mentions rfl (hText gap hGap)]
    refine (Grouping.foldlM_unnamed (fun token hMem => (hQuiet.2 token hMem).unnamed) ?_).trans
      (by simp)
    rintro _ ⟨⟩
    exact hQuiet.1.unnamed

theorem kept_uncalled (hWorded : session.table.Worded) (hName : isWordText name = true)
    (hFind : session.table.find? name = some .function) (hEnds : EndsWait session.table gaps first)
    {front : List Token} (hFront : ∀ token ∈ front, Quiet session.table token) :
    Kept ahead session (front ++ uncalled name gaps first)
      (front.map Token.rested ++ uncalled name gaps first) := by
  have hKept : Kept ahead session front (front.map Token.rested) := kept_quiet hFront
  refine ⟨fun expander state rest hAwaiting => ?_, ?_, ?_⟩
  · rw [append_assoc, hKept.scan _ _ _ hAwaiting,
      exec_scanTokens_uncalled hFind hEnds (by exact hAwaiting)]
    simp [Nat.add_assoc]
  · rw [foldlM_append, hKept.group]
    refine (foldlM_step_uncalled hWorded hName hEnds _).trans ?_
    simp
  · have hLast : (uncalled name gaps first).reverse.head? = some (Token.ofPiece [] first) := by
      simp [uncalled]
    rw [reverse_append, List.head?_append, hLast]
    rintro _ ⟨⟩
    exact hEnds.unnamed

-- Lines

/- A text that is cut as it is behind the name. -/
theorem EndsWait.exec_expandLine
    (hEnds : EndsWait session.table gaps first) (hWorded : session.table.Worded)
    (hStrands : strands session.table after = ((gaps ++ [first]).map .text ++ list, false))
    (hRests : Rests ahead session limit (list.map (Token.ofStrand [])) done) :
    exec (expandLine limit ahead after) session =
      (.ok (Text.concat (gaps ++ [first]) ++ spell done), session) := by
  have hLine : tokens session.table [] after = ((gaps ++ [first]).map (Token.ofPiece []) ++
      (list.map (Token.ofStrand []) ++ []), false) := by
    rw [tokens, hStrands]
    simp
    rfl
  have hFront := hEnds.quiet hWorded
  have hKept : Kept ahead session _ _ := kept_quiet (quiet_map_rested hFront)
  rw [map_rested_rested] at hKept
  rw [exec_expandLine_between hLine (kept_quiet hFront) hKept hRests (by simp) (by simp),
    spell_rested, spell_ofPiece]
  simp [spell]

theorem spell_of_rests (hWorded : session.table.Worded)
    (hTexts : ∀ s, .text s ∈ list → session.table.contains s = false)
    (hRests : Rests ahead session (limit + 1) (list.map (Token.ofStrand [])) done) :
    spell done = spelled list := by
  have hSettles : Settles ahead session (limit + 1) _ _ :=
    settles_inert (inert_strands hWorded hTexts)
  obtain ⟨tokens, hExpand, hSpell⟩ := hSettles.exec_expandTokens ""
  have hSame : exec (expandTokens ahead (limit + 1) "" _ false) session = _ :=
    hRests.exec_expandTokens ""
  rw [hSame] at hExpand
  cases hExpand
  rw [hSpell]
  simp [spell, spelled, Function.comp_def, Token.ofStrand]

end

/-
  The name of a function-like macro that is not called stays in the line, after a text in which
  nothing is named. The text behind it is expanded as it is cut there.
-/
theorem exec_expandLine_uncalled
    (limit : Nat)
    (ahead : String → Run String)
    (session : Session)
    (before name after first : String)
    (gaps : List String)
    (list : List Strand)
    (done : List Token)
    (hWorded : session.table.Worded)
    (hFind : session.table.find? name = some .function)
    (hBefore : Still session.table before)
    (hApart : ∀ c ∈ before.toList.getLast?, Text.isWord c = false)
    (hAfter : ∀ c ∈ after.toList.head?, Text.isWord c = false)
    (hEnds : EndsWait session.table gaps first)
    (hBehind : strandsBehind session.table after = ((gaps ++ [first]).map .text ++ list, false))
    (hRests : Rests ahead session (limit + 1) (list.map (Token.ofStrand [])) done) :
    exec (expandLine (limit + 1) ahead (before ++ (name ++ after))) session =
        (.ok (before ++ (name ++ (Text.concat (gaps ++ [first]) ++ spell done))), session) ∧
      exec (expandLine (limit + 1) ahead before) session = (.ok before, session) ∧
      (strands session.table after = strandsBehind session.table after →
        exec (expandLine (limit + 1) ahead after) session =
          (.ok (Text.concat (gaps ++ [first]) ++ spell done), session)) ∧
      ((∀ s, .text s ∈ list → session.table.contains s = false) → spell done = spelled list) := by
  refine ⟨?_, hBefore.exec_expandWith limit,
    fun hAlike => hEnds.exec_expandLine hWorded (hAlike.trans hBehind) hRests,
    fun hTexts => spell_of_rests hWorded hTexts hRests⟩
  have hName : isWordText name = true := hWorded name (by simp [Table.contains, hFind])
  obtain ⟨-, hInert, hSpell⟩ := tokens_of_still hBefore []
  have hQuiet := fun token hMem => (hInert token hMem).quiet
  have hLine : tokens session.table [] (before ++ (name ++ after)) =
      (((pieces before).map (Token.ofPiece []) ++ uncalled name gaps first) ++
        (list.map (Token.ofStrand []) ++ []), false) := by
    rw [tokens_around hName hFind hBefore hApart hAfter, hBehind]
    simp [uncalled]
    rfl
  have hFront : Kept ahead session _ _ := kept_uncalled hWorded hName hFind hEnds hQuiet
  have hKept : Kept ahead session _ _ :=
    kept_uncalled hWorded hName hFind hEnds (quiet_map_rested hQuiet)
  rw [map_rested_rested] at hKept
  rw [exec_expandLine_between hLine hFront hKept hRests (by simp) (by simp), spell_append,
    spell_rested, hSpell, uncalled, spell_ofPiece]
  simp [spell, String.append_assoc]

/- The table after `#define F(y) y` and `#define A 1`. -/
def wrapTable : Table where
  names := [("A", .text "1"), ("F", .function), (paramsName, .record), (bodiesName, .record)]
  params := [("F", .names ["y"])]
  bodies := [("F", .pieces [.text (place "y")])]

theorem exec_expandLine_uncalled_apart :
    exec (expandLine 2 pure "- F x A (A)") { table := wrapTable } =
      (.ok "- F x 1 (A)", { table := wrapTable }) := by
  have hEnds : EndsWait wrapTable [" "] "x" :=
    ⟨by simp, ⟨'x', by simp, by decide⟩, by decide, by decide, nofun⟩
  obtain ⟨done, hRests, -, hText⟩ : Settles pure { table := wrapTable } 2
        ([.text " ", .text "A", .text " ",
          .call ["A"] (some 3)].map (Token.ofStrand [])) " 1 (A)" :=
    .of_rest? (by decide +kernel)
  have hLine := (exec_expandLine_uncalled 1 pure { table := wrapTable }
    "- " "F" " x A (A)" "x" [" "] _ done
    (Table.worded_of_all (by decide)) rfl ⟨by decide +kernel, by decide +kernel⟩
    (by rintro _ ⟨⟩; decide) (by rintro _ ⟨⟩; decide) hEnds (by decide +kernel) hRests).1
  rw [hText] at hLine
  exact hLine

end Macro

end CHeader
