import CHeader.Proofs.Macro.Passes

/-
  Segments of a line that are expanded side by side.

  A pass over a line does in each part of it what it would do if the part stood alone, as long as no
  part ends while an argument list is waited for. Grouping between two passes keeps to the parts as
  well if none ends with a name before a parenthesis. A part that settles, that is, whose passes
  come to an end with nothing open and no name left, has therefore the same expansion in a line as
  by itself.

  Main declarations:
    * `Macro.exec_scanTokens_append`
    * `Macro.exec_scanTokens_behind`
    * `Macro.Rests`
-/

namespace CHeader

namespace Macro

open List Token Grouping PassResult

open Source (Run Session exec exec_bind exec_bind_eq_ok exec_getTable exec_lift exec_pure)

variable {state : Pass} {token : Token} {list : List Token} {table : Table}

-- Tokens without kin

theorem paintKin_zero (name : String) (list : List Token) : paintKin 0 name list = list := rfl

theorem paintKinAll_zero (names : List String)
    (list : List Token) : paintKinAll 0 names list = list := by
  induction names with
  | nil => rfl
  | cons name names ih => exact ih

namespace Pass

theorem paint_zero (state : Pass) (names : List String) : state.paint 0 names = state := by
  rw [paint, paintKinAll_zero]

def behind (state before : Pass) : Pass :=
  { line := before.line
    seen := before.seen + state.seen
    done := state.done ++ before.done
    replaced := before.replaced || state.replaced
    awaiting := state.awaiting }

theorem dropName_behind {next : Pass} (hDrop : state.dropName name = .ok next) (before : Pass) :
    (state.behind before).dropName name = .ok (next.behind before) := by
  unfold dropName at hDrop ⊢
  rw [behind, dropWhile_append]
  cases hDone : state.done.dropWhile (·.strand ≠ .text name) with
  | nil =>
    rw [hDone] at hDrop
    cases hDrop
  | cons token rest =>
    rw [hDone] at hDrop
    cases hDrop
    rfl

end Pass

def PassResult.goOn (result : PassResult) (rest : Pass → Run PassResult) : Run PassResult :=
  match result with
  | .finished tokens => pure (.finished tokens)
  | .scanned state => rest state

-- Passes over parts

section

variable {expander : Expander} {ahead : String → Run String} {session next : Session}
variable {last : Pass}

/- With no argument list open, a pass looks at one token and goes on with the others. -/
theorem exec_scanTokens_step (state : Pass) (hKin : token.kin = 0) (rest : List Token) :
    exec (scanTokens expander ahead false state (token :: rest)) session =
      exec (scanTokens expander ahead false state [token] >>= fun result => result.goOn fun state =>
          scanTokens expander ahead false state rest) session := by
  rw [scanTokens_cons, scanTokens_cons, bind_assoc, exec_bind, exec_bind, exec_getTable]
  by_cases hLive : token.live = true
  · simp only [hLive, Bool.not_true, Bool.false_eq_true, if_false]
    split
    · split_ifs
      · simp [goOn]
      · simp [scanTokens_nil, goOn]
    · simp [scanTokens_nil, goOn]
    · simp [scanTokens_nil, goOn, hKin, paintKinAll_zero]
    · simp [scanTokens_nil, goOn]
    · rename_i s _ _
      cases session.table.find? s with
      | none => simp [scanTokens_nil, goOn]
      | some meaning =>
        by_cases hPainted : token.painted.contains s = true
        · simp only [hPainted]
          simp [scanTokens_nil, goOn]
        · simp only [hPainted]
          cases meaning with
          | record => rfl
          | text body =>
            simp [scanTokens_nil, goOn, hKin, paintKin_zero]
          | function => simp [scanTokens_nil, goOn]
  · simp [hLive, scanTokens_nil, goOn]

theorem exec_scanTokens_append
    (hKin : ∀ token ∈ list, token.kin = 0) (state : Pass) (rest : List Token) :
    exec (scanTokens expander ahead false state (list ++ rest)) session =
      exec (scanTokens expander ahead false state list >>= fun result => result.goOn fun state =>
          scanTokens expander ahead false state rest) session := by
  induction list generalizing state session with
  | nil => simp [scanTokens_nil, goOn]
  | cons token list ih =>
    rw [forall_mem_cons] at hKin
    rw [cons_append, exec_scanTokens_step state hKin.1 (list ++ rest),
      exec_bind, exec_bind, exec_scanTokens_step state hKin.1 list, exec_bind]
    rcases hFirst : exec (scanTokens expander ahead false state
        [token]) session with ⟨_ | _ | later, next⟩
    · rfl
    · rfl
    · simp only [goOn]
      rw [ih hKin.2, exec_bind]
      rfl

/- A token behind others is treated as it is by itself. -/
theorem exec_scanTokens_behind_singleton (hKin : token.kin = 0)
    (hScan : exec (scanTokens expander ahead false state [token])
        session = (.ok (.scanned last), next)) (before : Pass) :
    exec (scanTokens expander ahead false (state.behind before) [token]) session =
      (.ok (.scanned (last.behind before)), next) := by
  rw [scanTokens_cons, exec_bind, exec_getTable] at hScan ⊢
  have hAwait : (state.behind before).awaiting = state.awaiting := rfl
  have hDone : ∀ {state : Pass}, exec (scanTokens expander ahead false state []) session =
      (.ok (.scanned last), next) → exec (scanTokens expander ahead false (state.behind before) [])
        session = (.ok (.scanned (last.behind before)), next) := by
    intro state hScan
    rw [scanTokens_nil] at hScan ⊢
    cases hScan
    rfl
  by_cases hLive : token.live = true
  · simp only [hLive, Bool.not_true, Bool.false_eq_true, if_false] at hScan ⊢
    rw [hAwait]
    split at hScan
    · split_ifs at hScan ⊢
      · obtain ⟨_, _, _, hScan⟩ := (exec_bind_eq_ok _).1 hScan
        cases hScan
      · exact hDone hScan
    · exact hDone hScan
    · rename_i name _ _ _ _ _
      obtain ⟨found, _, hCall, hScan⟩ := (exec_bind_eq_ok _).1 hScan
      obtain ⟨dropped, _, hDrop, hScan⟩ := (exec_bind_eq_ok _).1 hScan
      rw [exec_lift] at hDrop
      simp only [hKin, Pass.paint_zero, paintKinAll_zero] at hDrop hScan ⊢
      obtain ⟨hName, rfl⟩ := Prod.mk.inj hDrop
      have hBehind : Pass.dropName { state.behind before with
          seen := (state.behind before).seen + 1,
          awaiting := state.awaiting } name =
            .ok (dropped.behind before) :=
        Pass.dropName_behind hName before
      rw [exec_bind, hCall]
      dsimp only
      rw [exec_bind, exec_lift, hBehind]
      dsimp only
      rw [scanTokens_nil] at hScan ⊢
      cases hScan
      simp [Pass.behind]
    · exact hDone hScan
    · rename_i s _ _
      cases hFind : session.table.find? s with
      | none =>
        simp only [hFind] at hScan ⊢
        exact hDone hScan
      | some meaning =>
        simp only [hFind] at hScan ⊢
        by_cases hPainted : token.painted.contains s = true
        · simp only [hPainted, if_true] at hScan ⊢
          exact hDone hScan
        · simp only [hPainted, Bool.false_eq_true, if_false] at hScan ⊢
          cases meaning with
          | record => cases hScan
          | text body =>
            simp only [hKin, Pass.paint_zero, paintKin_zero] at hScan ⊢
            rw [scanTokens_nil] at hScan ⊢
            cases hScan
            simp [Pass.behind, Nat.add_assoc]
          | function => exact hDone hScan
  · simp only [hLive, Bool.not_false, if_true] at hScan ⊢
    exact hDone hScan

theorem exec_scanTokens_behind (hKin : ∀ token ∈ list, token.kin = 0)
    (hScan : exec (scanTokens expander ahead false state list)
        session = (.ok (.scanned last), next)) (before : Pass) :
    exec (scanTokens expander ahead false (state.behind before) list) session =
      (.ok (.scanned (last.behind before)), next) := by
  induction list generalizing state session with
  | nil =>
    rw [scanTokens_nil] at hScan ⊢
    cases hScan
    rfl
  | cons token list ih =>
    rw [forall_mem_cons] at hKin
    have hStep : ∀ state, exec (scanTokens expander ahead false state
        (token :: list)) session = _ :=
      fun state => exec_scanTokens_step state hKin.1 list
    rw [hStep] at hScan ⊢
    obtain ⟨result, middle, hFirst, hScan⟩ := (exec_bind_eq_ok _).1 hScan
    cases result with
    | finished tokens => cases hScan
    | scanned later =>
      rw [exec_bind, exec_scanTokens_behind_singleton hKin.1 hFirst before]
      exact ih hKin.2 hScan

/- A first part of a line is treated as it is by itself, and the pass goes on after it. -/
theorem exec_scanTokens_segment (hKin : ∀ token ∈ list, token.kin = 0)
    (hScan : exec (scanTokens expander ahead false { line := line } list)
        session = (.ok (.scanned last), next))
    (hBefore : before.awaiting = none) (rest : List Token) :
    exec (scanTokens expander ahead false before (list ++ rest)) session =
      exec (scanTokens expander ahead false (last.behind before) rest) next := by
  have hHere := exec_scanTokens_behind hKin hScan before
  have hStart : Pass.behind { line := line } before = before := by
    rcases before with ⟨_, _, _, _, _⟩
    cases hBefore
    simp [Pass.behind]
  rw [hStart] at hHere
  rw [exec_scanTokens_append hKin, exec_bind, hHere]
  rfl

end

-- Grouping of parts

namespace Grouping

variable {table : Table}
variable {state next : Grouping} {before : List Token}

def behind (state : Grouping) (before : List Token) : Grouping :=
  { state with done := state.done ++ before }

/- Tokens that do not end with a name change nothing in what is grouped behind them. -/
theorem step_behind (hStep : step table state token = .ok next)
    (hBefore : ∀ last ∈ before.head?, table.contains last.text = false) :
    step table (state.behind before) token = .ok (next.behind before) := by
  rcases state with ⟨done, held, depth, opened⟩
  change step table ⟨done ++ before, held, depth, opened⟩ token = _
  unfold step at hStep ⊢
  dsimp only at hStep ⊢
  by_cases hDepth : depth ≠ 0
  · rw [if_pos hDepth] at hStep ⊢
    by_cases hClose : token.strand.mentions ')' = true
    · rw [if_pos hClose] at hStep ⊢
      by_cases hLast : depth + depthChange token.strand ≤ 0
      · rw [if_pos hLast] at hStep ⊢
        cases hStrand : token.strand with
        | call pieces size =>
          rw [hStrand] at hStep
          cases hStep
        | text s =>
          rw [hStrand] at hStep
          cases hStep
          simp [behind]
      · rw [if_neg hLast] at hStep ⊢
        cases hStep
        rfl
    · split_ifs at hStep ⊢ <;> cases hStep <;> rfl
  · rw [if_neg hDepth] at hStep ⊢
    by_cases hOpen : token.strand.mentions '(' = true
    · rw [if_pos hOpen] at hStep ⊢
      cases done with
      | cons last rest =>
        dsimp only [cons_append] at hStep ⊢
        split_ifs at hStep ⊢ <;> cases hStep <;> rfl
      | nil =>
        cases hStep
        cases before with
        | nil => rfl
        | cons last rest => simp [behind, hBefore last rfl]
    · rw [if_neg hOpen] at hStep ⊢
      cases hStep
      rfl

theorem foldlM_behind (hGroup : list.foldlM (step table) state = .ok next)
    (hBefore : ∀ last ∈ before.head?, table.contains last.text = false) :
    list.foldlM (step table) (state.behind before) = .ok (next.behind before) := by
  induction list generalizing state with
  | nil =>
    cases hGroup
    rfl
  | cons token list ih =>
    rw [foldlM_cons] at hGroup ⊢
    cases hStep : step table state token with
    | error fault =>
      rw [hStep] at hGroup
      cases hGroup
    | ok later =>
      rw [hStep] at hGroup
      rw [step_behind hStep hBefore]
      exact ih hGroup

/- A token without an opening parenthesis stays where nothing is open. -/
theorem step_of_not_mentions (hDepth : state.depth = 0)
    (hOpen : token.strand.mentions '(' = false) :
    step table state token = .ok { state with done := token :: state.done } := by
  simp [step, hDepth, hOpen]

/- Tokens that are no names stay as they are. -/
theorem foldlM_unnamed (hList : ∀ token ∈ list, table.contains token.text = false)
    (hBefore : ∀ last ∈ before.head?, table.contains last.text = false) :
    list.foldlM (step table) { done := before } = .ok { done := list.reverse ++ before } := by
  induction list generalizing before with
  | nil => rfl
  | cons token list ih =>
    rw [forall_mem_cons] at hList
    have hStep : step table { done := before } token = .ok { done := token :: before } := by
      cases hOpen : token.strand.mentions '(' with
      | false => exact step_of_not_mentions rfl hOpen
      | true =>
        cases before with
        | nil => simp [step]
        | cons last rest => simp [step, hBefore last rfl]
    rw [foldlM_cons, hStep]
    refine (ih hList.2 ?_).trans (by simp)
    rintro _ ⟨⟩
    exact hList.1

end Grouping

-- Tokens at rest

/- A token that no pass replaces: it has no kin and is no name. -/
structure Inert (table : Table) (token : Token) : Prop where
  kin_eq : token.kin = 0
  unnamed : table.contains token.text = false
  find?_eq : ∀ s, token.strand = .text s → table.find? s = none

/- What a pass makes of a token that it does not replace. -/
def Token.rested (token : Token) : Token :=
  match token.strand with
  | .text _ => token.close
  | .call _ _ => token

theorem Token.text_rested (token : Token) : token.rested.text = token.text := by
  unfold rested
  split <;> rfl

theorem Token.strand_rested (token : Token) : token.rested.strand = token.strand := by
  unfold rested
  split <;> rfl

theorem Inert.rested (hInert : Inert table token) : Inert table token.rested := by
  refine ⟨?_, ?_, fun s hStrand => ?_⟩
  · unfold Token.rested
    split <;> exact hInert.kin_eq
  · rw [token.text_rested]
    exact hInert.unnamed
  · rw [token.strand_rested] at hStrand
    exact hInert.find?_eq s hStrand

/- A token that a pass leaves in its place: it is no name, and it is closed or at rest. -/
structure Quiet (table : Table) (token : Token) : Prop where
  unnamed : table.contains token.text = false
  still : token.live = false ∨ Inert table token

theorem Inert.quiet (hInert : Inert table token) : Quiet table token :=
  ⟨hInert.unnamed, .inr hInert⟩

theorem map_rested_rested (list : List Token) : (list.map rested).map rested = list.map rested := by
  rw [map_map]
  refine map_congr_left fun token _ => ?_
  rcases token with ⟨strand, _, _, _, _⟩
  cases strand <;> rfl

theorem Quiet.rested (hQuiet : Quiet table token) : Quiet table token.rested := by
  refine ⟨by rw [token.text_rested]; exact hQuiet.unnamed, ?_⟩
  rcases hQuiet.still with hClosed | hInert
  · left
    unfold Token.rested
    split
    · rfl
    · exact hClosed
  · exact .inr hInert.rested

theorem quiet_map_rested (hQuiet : ∀ token ∈ list, Quiet table token) :
    ∀ token ∈ list.map rested, Quiet table token :=
  forall_mem_map.2 fun token hMem => (hQuiet token hMem).rested

section

variable {expander : Expander} {ahead : String → Run String} {opened : Bool} {session : Session}
variable {state : Pass}

/- A pass goes on after tokens that are closed or name nothing. -/
theorem exec_scanTokens_unnamed (hAwaiting : state.awaiting = none)
    (hStill : ∀ token ∈ list, token.live = false ∨
      ∀ s, token.strand = .text s → session.table.find? s = none) (rest : List Token) :
    exec (scanTokens expander ahead opened state (list ++ rest)) session =
      exec (scanTokens expander ahead opened { state with
          seen := state.seen + list.length
          done := (list.map rested).reverse ++ state.done }
        rest) session := by
  induction list generalizing state with
  | nil => rfl
  | cons token list ih =>
    rw [forall_mem_cons] at hStill
    have hHere : exec (scanTokens expander ahead opened state (token :: (list ++ rest))) session =
        exec (scanTokens expander ahead opened { state with
          seen := state.seen + 1
          done := token.rested :: state.done } (list ++ rest)) session := by
      rw [scanTokens_cons, exec_bind]
      rcases state with ⟨line, seen, done, replaced, awaiting⟩
      cases hAwaiting
      rcases token with ⟨strand, text, live, painted, kin⟩
      cases live with
      | false => cases strand <;> rfl
      | true =>
        rcases hStill.1 with ⟨⟨⟩⟩ | hFind
        cases strand with
        | call pieces size => rfl
        | text s => simp [hFind s rfl, rested, Pass.push]
    rw [cons_append, hHere, ih _ hStill.2]
    · simp [Nat.add_assoc, Nat.add_comm 1]
    · exact hAwaiting

theorem exec_scanTokens_quiet (hAwaiting : state.awaiting = none)
    (hQuiet : ∀ token ∈ list, Quiet session.table token) (rest : List Token) :
    exec (scanTokens expander ahead opened state (list ++ rest)) session =
      exec (scanTokens expander ahead opened { state with
          seen := state.seen + list.length
          done := (list.map rested).reverse ++ state.done }
        rest) session :=
  exec_scanTokens_unnamed hAwaiting
    (fun token hMem => (hQuiet token hMem).still.imp id Inert.find?_eq) rest

theorem exec_scanTokens_still (hAwaiting : state.awaiting = none)
    (hQuiet : ∀ token ∈ list, Quiet session.table token) :
    exec (scanTokens expander ahead opened state list) session = (.ok (.scanned { state with
        seen := state.seen + list.length
        done := (list.map rested).reverse ++ state.done }),
        session) := by
  have hScan : exec (scanTokens expander ahead opened state (list ++ [])) session = _ :=
    exec_scanTokens_quiet hAwaiting hQuiet []
  rwa [append_nil, scanTokens_nil] at hScan

end

-- Parts that settle

/-
  The tokens to which the passes over some tokens lead, of which a number is allowed. No pass reads
  a line, ends while an argument list is waited for or leaves a parenthesis open.
-/
inductive Rests (ahead : String → Run String) (session : Session) :
    Nat → List Token → List Token → Prop where
  | stays {depth : Nat} {list : List Token} {last : Pass} (hKin : ∀ token ∈ list, token.kin = 0)
      (hScan : exec (scanTokens (expandTokens ahead depth) ahead false
          { line := "" } list) session =
          (.ok (.scanned last), session))
      (hAwaiting : last.awaiting = none)
      (hReplaced : last.replaced = false) :
      Rests ahead session (depth + 1) list last.done.reverse
  | again {depth : Nat} {list grouped tokens : List Token} {last : Pass}
      (hKin : ∀ token ∈ list, token.kin = 0)
      (hScan : exec (scanTokens (expandTokens ahead depth) ahead false
          { line := "" } list) session =
          (.ok (.scanned last), session))
      (hAwaiting : last.awaiting = none)
      (hReplaced : last.replaced = true)
      (hGroup : last.done.reverse.foldlM (step session.table) {} = .ok { done := grouped })
      (hLater : Rests ahead session depth grouped.reverse tokens) :
      Rests ahead session (depth + 1) list tokens

/- Whether the passes over some tokens come to rest with no
  name left. The text is what the tokens spell then. -/
def Settles (ahead : String → Run String) (session : Session) (depth : Nat) (list : List Token)
    (text : String) : Prop :=
  ∃ tokens, Rests ahead session depth list tokens ∧ (∀ token ∈ tokens, Inert session.table token) ∧
      spell tokens = text

instance (table : Table) (token : Token) : Decidable (Inert table token) :=
  decidable_of_iff (token.kin = 0 ∧ table.contains token.text = false ∧
      (token.strand = .text token.strand.spelling → table.find? token.strand.spelling = none))
    ⟨fun ⟨hKin, hText, hFind⟩ => ⟨hKin, hText, fun s hStrand => by
        rw [hStrand] at hFind
        exact hFind rfl⟩,
      fun hInert => ⟨hInert.kin_eq, hInert.unnamed, hInert.find?_eq _⟩⟩

/- The tokens to which the passes over some tokens lead, if
  these come to rest, found by carrying them out. -/
def rest? (ahead : String → Run String) (session : Session) : Nat → List Token → Option (List Token)
| 0, _ => none
| depth + 1, list =>
    match exec (scanTokens (expandTokens ahead depth) ahead false
        { line := "" } list) session with
    | (.ok (.scanned last), next) =>
        if (∀ token ∈ list, token.kin = 0) ∧ next = session ∧ last.awaiting = none then
          if last.replaced then
            match last.done.reverse.foldlM (step session.table) {} with
            | .ok state =>
                if state = { done := state.done } then
                  rest? ahead session depth state.done.reverse
                else none
            | .error _ => none
          else some last.done.reverse
        else none
    | _ => none

section

variable {ahead : String → Run String} {session : Session} {depth : Nat}
variable {list rest : List Token} {mark : Token} {text more : String}

theorem rests_of_rest? {tokens : List Token}
    (hRest : rest? ahead session depth list = some tokens) :
    Rests ahead session depth list tokens := by
  induction depth generalizing list with
  | zero => cases hRest
  | succ depth ih =>
    rw [rest?] at hRest
    split at hRest
    · rename_i last next hScan
      split_ifs at hRest with hLast hReplaced
      · obtain ⟨hKin, rfl, hAwaiting⟩ := hLast
        split at hRest
        · rename_i state hGroup
          split_ifs at hRest with hDone
          rw [hDone] at hGroup
          exact .again hKin hScan hAwaiting hReplaced hGroup (ih hRest)
        · cases hRest
      · obtain ⟨hKin, rfl, hAwaiting⟩ := hLast
        cases hRest
        exact .stays hKin hScan hAwaiting (by simpa using hReplaced)
    · cases hRest

theorem Settles.of_rest? (hRest : ∃ tokens ∈ rest? ahead session depth list,
    (∀ token ∈ tokens, Inert session.table token) ∧ spell tokens = text) :
    Settles ahead session depth list text := by
  obtain ⟨tokens, hTokens, hInert, hText⟩ := hRest
  exact ⟨tokens, rests_of_rest? hTokens, hInert, hText⟩

theorem spell_append (first second : List Token) :
    spell (first ++ second) = spell first ++ spell second := by
  simp [spell]

theorem spell_rested (list : List Token) : spell (list.map rested) = spell list := by
  unfold spell
  rw [map_map]
  congr 1
  exact map_congr_left fun token _ => token.text_rested

theorem settles_inert (hInert : ∀ token ∈ list, Inert session.table token) :
    Settles ahead session (depth + 1) list (spell list) := by
  have hRested : ∀ token ∈ (list.map rested).reverse, Inert session.table token := by
    intro token hMem
    rw [mem_reverse, mem_map] at hMem
    obtain ⟨first, hFirst, rfl⟩ := hMem
    exact (hInert first hFirst).rested
  have hScan : exec (scanTokens (expandTokens ahead depth) ahead false
      { line := "" } list) session = _ :=
    exec_scanTokens_still rfl fun token hMem => (hInert token hMem).quiet
  refine ⟨_, .stays (fun token hMem => (hInert token hMem).kin_eq)
    hScan rfl rfl, by simpa using hRested, ?_⟩
  simp [spell_rested]

/-
  The first pass over tokens that settle. Either nothing is replaced and the tokens are at rest, or
  they settle after they are grouped again. Tokens at rest do so too if another pass is allowed.
-/
theorem Settles.first (hList : Settles ahead session (depth + 1) list text) :
    (∀ token ∈ list, token.kin = 0) ∧ ∃ last : Pass,
        exec (scanTokens (expandTokens ahead depth) ahead false { line := "" } list) session =
            (.ok (.scanned last), session) ∧
          last.awaiting = none ∧
          (last.replaced = false → (∀ token ∈ last.done, Inert session.table token) ∧
              text = spell last.done.reverse) ∧
          (last.replaced = true → depth ≠ 0) ∧
          (depth ≠ 0 → ∃ grouped, last.done.reverse.foldlM (step session.table) {} =
              .ok { done := grouped } ∧ Settles ahead session depth grouped.reverse text) := by
  obtain ⟨tokens, hRests, hInert, rfl⟩ := hList
  cases hRests with
  | @stays _ _ last hKin hScan hAwaiting hReplaced =>
    have hInert : ∀ token ∈ last.done, Inert session.table token :=
      fun token hMem => hInert token (mem_reverse.2 hMem)
    refine ⟨hKin, last, hScan, hAwaiting, fun _ => ⟨hInert, rfl⟩, by simp [hReplaced], ?_⟩
    intro hDepth
    obtain ⟨depth, rfl⟩ := Nat.exists_eq_succ_of_ne_zero hDepth
    refine ⟨last.done, ?_, ?_⟩
    · have hGroup : last.done.reverse.foldlM (step session.table) { done := [] } = _ :=
        foldlM_unnamed (fun token hMem =>
          (hInert token (mem_reverse.1 hMem)).unnamed) nofun
      simpa using hGroup
    · exact settles_inert fun token hMem => hInert token (mem_reverse.1 hMem)
  | @again _ _ grouped _ last hKin hScan hAwaiting hReplaced hGroup hLater =>
    refine ⟨hKin, last, hScan, hAwaiting, by simp [hReplaced], ?_,
      fun _ => ⟨grouped, hGroup, tokens, hLater, hInert, rfl⟩⟩
    rintro - rfl
    cases hLater

/-
  Two parts that settle, with a token at rest between them, settle together. The token must not open
  a parenthesis after a first part.
-/
theorem Settles.append (hList : Settles ahead session depth list text)
    (hMark : Inert session.table mark) (hOpen : mark.strand.mentions '(' = true → list = [])
    (hRest : Settles ahead session depth rest more) :
    Settles ahead session depth (list ++ mark :: rest) (text ++ mark.text ++ more) := by
  induction depth generalizing list text mark rest more with
  | zero =>
    obtain ⟨_, hRests, _⟩ := hList
    cases hRests
  | succ depth ih =>
    obtain ⟨hKin, first, hScan, hAwaiting, hStays, hPositive, hLater⟩ := hList.first
    obtain ⟨hKinRest, second, hScanRest, hAwaitingRest,
      hStaysRest, hPositiveRest, hLaterRest⟩ := hRest.first
    have hKinAll : ∀ token ∈ list ++ mark :: rest, token.kin = 0 := by
      simp only [forall_mem_append, forall_mem_cons]
      exact ⟨hKin, hMark.kin_eq, hKinRest⟩
    -- the passes over the parts, one behind the other
    have hWhole : exec (scanTokens (expandTokens ahead depth) ahead false
        { line := "" } (list ++ mark :: rest)) session = _ :=
      exec_scanTokens_segment hKin hScan rfl (mark :: rest)
    rw [← singleton_append,
      exec_scanTokens_quiet (by exact hAwaiting) (forall_mem_singleton.2 hMark.quiet),
      ← append_nil rest, exec_scanTokens_segment hKinRest hScanRest (by exact hAwaiting) [],
      scanTokens_nil, append_nil] at hWhole
    by_cases hNone : first.replaced = false ∧ second.replaced = false
    · obtain ⟨hInert, rfl⟩ := hStays hNone.1
      obtain ⟨hInertRest, rfl⟩ := hStaysRest hNone.2
      refine ⟨_, .stays hKinAll hWhole hAwaitingRest (by simp [Pass.behind, hNone]), ?_, ?_⟩
      · intro token hMem
        simp only [Pass.behind, append_nil, mem_reverse] at hMem
        have hAll := forall_mem_append.2
          ⟨hInertRest, forall_mem_cons.2 ⟨hMark.rested, hInert⟩⟩
        exact hAll token hMem
      · simp [Pass.behind, spell, mark.text_rested, String.append_assoc]
    · have hDepth : depth ≠ 0 := by
        rcases Classical.not_and_iff_not_or_not.1 hNone with
          hSome | hSome
        · exact hPositive (by simpa using hSome)
        · exact hPositiveRest (by simpa using hSome)
      obtain ⟨grouped, hGroup, hSettles⟩ := hLater hDepth
      obtain ⟨groupedRest, hGroupRest, hSettlesRest⟩ := hLaterRest hDepth
      have hEmpty : mark.strand.mentions '(' = true → grouped = [] := by
        intro hMentions
        have hNil := hOpen hMentions
        subst hNil
        rw [scanTokens_nil] at hScan
        cases hScan
        cases hGroup
        rfl
      have hStep : step session.table { done := grouped } mark.rested =
          .ok { done := mark.rested :: grouped } := by
        cases hMentions : mark.strand.mentions '(' with
        | false =>
          exact step_of_not_mentions rfl (by rw [mark.strand_rested, hMentions])
        | true =>
          rw [hEmpty hMentions]
          simp [step]
      have hBefore : ∀ last ∈ (mark.rested :: grouped).head?,
          session.table.contains last.text = false := by
        rintro _ ⟨⟩
        exact hMark.rested.unnamed
      have hBehind := foldlM_behind hGroupRest hBefore
      have hBoth := ih hSettles hMark.rested (by
        rw [mark.strand_rested]
        intro hMentions
        rw [hEmpty hMentions]
        rfl) hSettlesRest
      obtain ⟨tokens, hRests, hInert, hText⟩ := hBoth
      refine ⟨tokens, .again hKinAll hWhole hAwaitingRest ?_ (show _ = Except.ok
          ({ done := groupedRest ++ mark.rested :: grouped } : Grouping) from ?_) ?_, hInert, ?_⟩
      · simpa [Pass.behind, Classical.not_and_iff_not_or_not, -not_and] using hNone
      · simp only [Pass.behind, append_nil, reverse_append, append_assoc]
        rw [foldlM_append, hGroup]
        change (mark.rested :: second.done.reverse).foldlM
          (step session.table) { done := grouped } = _
        rw [foldlM_cons, hStep]
        exact hBehind
      · simpa using hRests
      · rw [hText, mark.text_rested]

theorem settles_nil : Settles ahead session (depth + 1) [] "" := settles_inert nofun

end

end Macro

end CHeader
