import CHeader.Proofs.Macro.Segments

/-
  A part of a line that comes to rest between tokens that stay as they are.

  Tokens that are closed or at rest are left in place by every pass and by grouping. A part between
  them is expanded like the part by itself, unless it could be taken together with a parenthesis
  behind it.

  Main declarations:
    * `Macro.Kept`
    * `Macro.Rests.exec_expandTokens_between`
    * `Macro.Rests.exec_expandTokens`
-/

namespace CHeader

open List

namespace Macro

open Source (Run Session exec exec_bind exec_bind_getTable exec_lift)

variable {ahead : String → Run String} {session : Session} {depth : Nat}
variable {list front kept tail tokens : List Token}

def spelled (list : List Strand) : String := Text.concat (list.map Strand.spelling)

-- Tokens that stay

/- Tokens before others that a pass leaves as they are, or closes, and that grouping leaves alone. -/
structure Kept (ahead : String → Run String) (session : Session)
    (front kept : List Token) : Prop where
  scan : ∀ (expander : Expander) (state : Pass) (rest : List Token), state.awaiting = none →
      exec (scanTokens expander ahead false state (front ++ rest)) session =
        exec (scanTokens expander ahead false { state with
            seen := state.seen + front.length
            done := kept.reverse ++ state.done } rest) session
  group : kept.foldlM (Grouping.step session.table) {} = .ok { done := kept.reverse }
  ends : ∀ token ∈ kept.reverse.head?, session.table.contains token.text = false

theorem kept_quiet (hQuiet : ∀ token ∈ front, Quiet session.table token) :
    Kept ahead session front (front.map Token.rested) := by
  have hRested := fun token hMem => (quiet_map_rested hQuiet token hMem).unnamed
  refine ⟨fun _ _ rest hAwaiting => exec_scanTokens_quiet hAwaiting hQuiet rest, ?_, ?_⟩
  · have hGroup : (front.map Token.rested).foldlM
        (Grouping.step session.table) { done := [] } = _ :=
      Grouping.foldlM_unnamed hRested nofun
    simpa using hGroup
  · intro token hMem
    exact hRested token (mem_reverse.1 (mem_of_mem_head? hMem))

/- A pass over a part that comes to rest, between tokens that
  are kept and tokens that are left in place. -/
theorem Kept.exec_scanTokens (hFront : Kept ahead session front kept)
    (hKin : ∀ token ∈ list, token.kin = 0)
    (hScan : exec (scanTokens expander ahead false { line := "" } list)
        session = (.ok (.scanned last), session)) (hAwaiting : last.awaiting = none)
    (hTail : ∀ token ∈ tail, Quiet session.table token) (line : String) :
    ∃ final, exec (scanTokens expander ahead false { line := line }
        (front ++ (list ++ tail))) session =
        (.ok (.scanned final), session) ∧
      final.replaced = last.replaced ∧
      final.done.reverse = kept ++ (last.done.reverse ++ tail.map Token.rested) := by
  have hStill : exec (scanTokens expander ahead false
      (last.behind { line := line, seen := front.length, done := kept.reverse }) tail) session = _ :=
    exec_scanTokens_still hAwaiting hTail
  rw [hFront.scan _ _ _ rfl, exec_scanTokens_segment hKin hScan rfl]
  exact ⟨_, by simpa using hStill, by simp [Pass.behind]⟩

theorem Kept.foldlM_step (hFront : Kept ahead session front kept)
    (hGroup : list.foldlM (Grouping.step session.table) {} = .ok { done := grouped })
    (hTail : ∀ token ∈ tail, Quiet session.table token)
    (hOpen : ∀ token ∈ tail.head?, token.strand.mentions '(' = false) :
    (kept ++ (list ++ tail)).foldlM (Grouping.step session.table) {} =
      .ok { done := tail.reverse ++ (grouped ++ kept.reverse) } := by
  have hBehind : list.foldlM (Grouping.step session.table) { done := kept.reverse } =
      .ok { done := grouped ++ kept.reverse } :=
    Grouping.foldlM_behind hGroup hFront.ends
  rw [foldlM_append, hFront.group]
  change List.foldlM _ ({ done := kept.reverse } : Grouping) _ = _
  rw [foldlM_append, hBehind]
  change List.foldlM _ ({ done := grouped ++ kept.reverse } : Grouping)
    _ = _
  cases tail with
  | nil => rfl
  | cons token tail =>
    rw [forall_mem_cons] at hTail
    rw [foldlM_cons, Grouping.step_of_not_mentions rfl (hOpen token rfl)]
    refine (Grouping.foldlM_unnamed (fun token hMem => (hTail.2 token hMem).unnamed) ?_).trans
      (by simp)
    rintro _ ⟨⟩
    exact hTail.1.unnamed

/-
  The expansion of a part that comes to rest, between tokens that are kept and tokens that are left
  in place, of which the first must not open a parenthesis.
-/
theorem Rests.exec_expandTokens_between (hList : Rests ahead session depth list tokens)
    (hFront : Kept ahead session front kept) (hKept : Kept ahead session kept kept)
    (hTail : ∀ token ∈ tail, Quiet session.table token)
    (hOpen : ∀ token ∈ tail.head?, token.strand.mentions '(' = false) (line : String) :
    exec (expandTokens ahead depth line (front ++ (list ++ tail)) false) session =
      (.ok (kept ++ (tokens ++ tail.map Token.rested)), session) := by
  induction hList generalizing front tail line with
  | @stays depth list last hKin hScan hAwaiting hReplaced =>
    obtain ⟨final, hFinal, hSame, hDone⟩ := hFront.exec_scanTokens hKin hScan hAwaiting hTail line
    rw [expandTokens, expandOnce, exec_bind, hFinal]
    simp [hSame, hReplaced, hDone]
  | @again depth list grouped tokens last hKin hScan hAwaiting hReplaced hGroup hLater ih =>
    obtain ⟨final, hFinal, hSame, hDone⟩ := hFront.exec_scanTokens hKin hScan hAwaiting hTail line
    have hRested := quiet_map_rested hTail
    have hOpenRested : ∀ token ∈ (tail.map Token.rested).head?,
        token.strand.mentions '(' = false := by
      simpa [Token.strand_rested] using hOpen
    have hRegroup : regroup session.table final.done.reverse =
        .ok (kept ++ (grouped.reverse ++ tail.map Token.rested), false) := by
      rw [regroup, hDone, hKept.foldlM_step hGroup hRested hOpenRested]
      simp [Bind.bind, Except.bind, pure, Except.pure]
    rw [expandTokens, expandOnce, exec_bind, hFinal]
    simp only [hSame, hReplaced, if_true]
    rw [exec_bind_getTable]
    rw [exec_bind, exec_lift, hRegroup]
    dsimp only
    rw [ih hKept hRested hOpenRested, map_rested_rested]

/- Tokens that come to rest are expanded, and nothing is read. -/
theorem Rests.exec_expandTokens (hList : Rests ahead session depth list tokens) (line : String) :
    exec (expandTokens ahead depth line list false) session = (.ok tokens, session) := by
  have hNone : Kept ahead session [] [] := kept_quiet nofun
  have hWhole : exec (expandTokens ahead depth line ([] ++ (list ++ [])) false) session = _ :=
    hList.exec_expandTokens_between hNone hNone (by simp) (by simp) line
  simpa using hWhole

theorem Settles.exec_expandTokens (hList : Settles ahead session depth list text) (line : String) :
    ∃ tokens, exec (expandTokens ahead depth line list false) session = (.ok tokens, session) ∧
        spell tokens = text := by
  obtain ⟨tokens, hRests, -, hText⟩ := hList
  exact ⟨tokens, hRests.exec_expandTokens line, hText⟩

theorem exec_expandLine_between (hLine : Macro.tokens session.table [] line =
    (front ++ (list ++ tail), false))
    (hFront : Kept ahead session front kept) (hKept : Kept ahead session kept kept)
    (hList : Rests ahead session limit list tokens)
    (hTail : ∀ token ∈ tail, Quiet session.table token)
    (hOpen : ∀ token ∈ tail.head?, token.strand.mentions '(' = false) :
    exec (expandLine limit ahead line) session =
      (.ok (spell kept ++ (spell tokens ++ spell tail)), session) := by
  rw [expandLine, expandWith, exec_bind_getTable]
  simp only [hLine]
  rw [exec_bind, hList.exec_expandTokens_between hFront hKept hTail hOpen line]
  simp [spell_append, spell_rested]

end Macro

end CHeader
