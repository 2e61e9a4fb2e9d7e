import CHeader.Proofs.Macro.Between
import CHeader.Proofs.Macro.Cutting

/-
  The wait for an argument list.

  A pass that meets the name of a function-like macro goes on over blanks. An argument list behind
  them is taken together with the name and what was waited over, and the expansion of the call takes
  their place. Only kin of the argument list is painted.

  Main declarations:
    * `Macro.exec_scanTokens_blanks`
    * `Macro.exists_paintKinAll_eq_map`
    * `Macro.exec_scanTokens_called`
-/

namespace CHeader

open List

namespace Macro

open Source (Run Session exec exec_bind exec_getTable exec_lift)

/- What painting does to each token. Tokens that are no kin stay as they are. -/
theorem exists_paintKinAll_eq_map (kin : Nat) (names : List String) : ∃ paint : Token → Token,
    (∀ list, paintKinAll kin names list = list.map paint) ∧
    (∀ token, ∃ painted, paint token = { token with painted := painted }) ∧
    ∀ token : Token, (token.kin = kin → kin = 0) → paint token = token := by
  induction names with
  | nil =>
    exact ⟨id, fun _ => (map_id _).symm, fun _ => ⟨_, rfl⟩, fun _ _ => rfl⟩
  | cons name names ih =>
    obtain ⟨later, hMap, hSame, hOther⟩ := ih
    by_cases hZero : kin = 0
    · exact ⟨later, fun list => by
        rw [paintKinAll, hMap, hZero, paintKin_zero], hSame, hOther⟩
    refine ⟨fun token => later (if token.kin = kin then
        { token with painted := addName name token.painted }
      else token), fun list => ?_, fun token => ?_, fun token hKin => ?_⟩
    · rw [paintKinAll, hMap, paintKin, if_neg hZero, map_map]
      rfl
    · dsimp only
      split_ifs
      · exact hSame _
      · exact hSame token
    · dsimp only
      rw [if_neg fun hSome => hZero (hKin hSome)]
      exact hOther token hKin

-- Tokens that are waited over

/- A token that is waited over. -/
structure Blank (token : Token) : Prop where
  live : token.live = true
  blank : ∃ s, token.strand = .text s ∧ ∀ c ∈ s.toList, c = ' ' ∨ c = '\t'

theorem Blank.strand_ne (hBlank : Blank token) (hName : isWordText name = true) :
    token.strand ≠ .text name := by
  obtain ⟨s, hText, hChars⟩ := hBlank.blank
  obtain ⟨hSome, hWord⟩ := isWordText_iff.1 hName
  obtain ⟨c, hMem⟩ := exists_mem_of_ne_nil _ hSome
  rw [hText]
  rintro ⟨⟩
  have hLetter := hWord c hMem
  rcases hChars c hMem with rfl | rfl <;> exact absurd hLetter (by decide)

section

variable {expander : Expander} {ahead : String → Run String} {session : Session} {opened : Bool}
variable {state : Pass} {name s : String} {token : Token}
variable {blanks before : List Token} {call : Token} {pieces : List String} {size : Option Nat}

theorem exec_scanTokens_function (hAwaiting : state.awaiting = none) (hLive : token.live = true)
    (hText : token.strand = .text name) (hPainted : token.painted.contains name = false)
    (hFind : session.table.find? name = some .function) (rest : List Token) :
    exec (scanTokens expander ahead false state (token :: rest)) session =
      exec (scanTokens expander ahead false { state with
          seen := state.seen + 1
          done := token :: state.done
          awaiting := some name } rest) session := by
  rw [scanTokens_cons, exec_bind, exec_getTable]
  simp only [hAwaiting, hLive, hText, hFind, hPainted]
  rfl

theorem exec_scanTokens_wait (hAwaiting : state.awaiting = some name) (hLive : token.live = true)
    (hText : token.strand = .text s) (hLine : s ≠ "\n") (rest : List Token) :
    exec (scanTokens expander ahead opened state (token :: rest)) session =
      exec (scanTokens expander ahead opened { state with
          seen := state.seen + 1
          done := token :: state.done
          awaiting := awaitAfter session.table name s } rest)
        session := by
  rw [scanTokens_cons, exec_bind]
  simp [hAwaiting, hLive, hText, hLine, Pass.push]

theorem exec_scanTokens_blanks (hAwaiting : state.awaiting = some name)
    (hBlanks : ∀ token ∈ blanks, Blank token) (rest : List Token) :
    exec (scanTokens expander ahead opened state (blanks ++ rest)) session =
      exec (scanTokens expander ahead opened { state with
          seen := state.seen + blanks.length
          done := blanks.reverse ++ state.done } rest) session := by
  induction blanks generalizing state with
  | nil => rfl
  | cons token blanks ih =>
    rw [forall_mem_cons] at hBlanks
    obtain ⟨hLive, s, hText, hChars⟩ := hBlanks.1
    have hLine : s ≠ "\n" := by
      rintro rfl
      exact absurd (hChars '\n' (by simp)) (by decide)
    have hAwait : awaitAfter session.table name s = some name := by
      rw [awaitAfter, if_pos (all_eq_true.2 (by simpa using hChars))]
    rw [cons_append, exec_scanTokens_wait hAwaiting hLive hText
      hLine, hAwait, ih rfl hBlanks.2]
    simp [Nat.add_assoc, Nat.add_comm 1, hAwaiting]

/- The name goes with what was waited over, and nothing before it is painted. -/
theorem Pass.dropName_paint (hName : isWordText name = true)
    (hDone : state.done = blanks ++ token :: before) (hBlanks : ∀ token ∈ blanks, Blank token)
    (hText : token.strand = .text name) (hBefore : ∀ other ∈ before, other.kin = kin → kin = 0)
    (names : List String) :
    (state.paint kin names).dropName name = .ok { state with done := before } := by
  obtain ⟨paint, hMap, hSame, hOther⟩ := exists_paintKinAll_eq_map kin names
  have hStrand : ∀ token, (paint token).strand = token.strand := by
    intro token
    obtain ⟨painted, hPaint⟩ := hSame token
    rw [hPaint]
  have hSkip : ∀ token ∈ blanks.map paint, decide (token.strand ≠ .text name) = true := by
    simp only [forall_mem_map, hStrand, decide_eq_true_eq]
    exact fun token hMem => (hBlanks token hMem).strand_ne hName
  have hKeep : before.map paint = before := (map_congr_left fun other hMem =>
      hOther other (hBefore other hMem)).trans (map_id before)
  rw [dropName, Pass.paint, hMap, hDone, map_append, map_cons,
    hKeep, dropWhile_append_of_pos hSkip,
    dropWhile_cons_of_neg (by simp [hStrand, hText])]

/- An argument list ends the wait. What was waited over goes with the name. -/
theorem exec_scanTokens_called (hName : isWordText name = true)
    (hAwaiting : state.awaiting = some name) (hDone : state.done = blanks ++ token :: before)
    (hBlanks : ∀ token ∈ blanks, Blank token) (hText : token.strand = .text name)
    (hLive : call.live = true) (hCall : call.strand = .call pieces size)
    (hBefore : ∀ other ∈ before, other.kin = call.kin → call.kin = 0) (rest : List Token) :
    exec (scanTokens expander ahead false state (call :: rest)) session =
      exec (expandCall expander name call >>= fun found =>
        scanTokens expander ahead false { state with
            seen := state.seen + 1
            done := found.1.reverse ++ before
            replaced := true
            awaiting := none }
          (paintKinAll call.kin found.2 rest)) session := by
  have hSome : name ≠ "" := by
    rintro rfl
    cases hName
  rcases state with ⟨line, seen, done, replaced, awaiting⟩
  cases hAwaiting
  cases hDone
  rw [scanTokens_cons, exec_bind, exec_getTable]
  simp only [hLive, hCall, Bool.not_true, Bool.false_eq_true, if_false]
  rw [exec_bind, exec_bind]
  rcases exec (expandCall expander name call) session with ⟨_ | found, next⟩
  · rfl
  dsimp only
  rw [exec_bind, exec_lift, Pass.dropName_paint hName rfl hBlanks hText hBefore]

/- A call that is no kin of other tokens is replaced, with the blanks before its parentheses. -/
theorem exec_scanTokens_call (hName : isWordText name = true)
    (hFind : session.table.find? name = some .function) (hAwaiting : state.awaiting = none)
    (hLive : token.live = true) (hText : token.strand = .text name)
    (hPainted : token.painted.contains name = false) (hBlanks : ∀ token ∈ blanks, Blank token)
    (hCall : call.live = true ∧ call.strand = .call pieces size ∧ call.kin = 0)
    (hExpand : exec (expandCall expander name call) session = (.ok (list, names), session))
    (rest : List Token) :
    exec (scanTokens expander ahead false state (token :: (blanks ++ call :: rest))) session =
      exec (scanTokens expander ahead false { state with
          seen := state.seen + (blanks.length + 2)
          done := list.reverse ++ state.done
          replaced := true } rest) session := by
  rw [exec_scanTokens_function hAwaiting hLive hText hPainted hFind,
    exec_scanTokens_blanks rfl hBlanks, exec_scanTokens_called hName rfl rfl
      (fun token hMem => hBlanks token (mem_reverse.1 hMem)) hText hCall.1 hCall.2.1
      (fun _ _ _ => hCall.2.2), exec_bind, hExpand]
  simp only [hCall.2.2, paintKinAll_zero, hAwaiting]
  congr 3
  omega

end

end Macro

end CHeader
