import CHeader.Proofs.Source.Files

/-
  Relations of runs that go through the expansion of lines.

  A relation of runs is compositional if it holds of the small steps, passes from the parts of runs
  to the whole and, where a number bounds the lines that a run may read, does not hang on that
  number. It may depend on the lines that were read, and tables with the same macros need not be
  told apart. Such a relation holds of all that the expansion of a line is made of.

  Main declarations:
    * `Macro.SameContents`
    * `Source.Within`
    * `Source.Compositional`
-/

namespace CHeader

open List

-- Tables with the same macros

namespace Macro

/- Whether tables have the same names, in any order, with the same meanings, parameters and bodies. -/
structure SameContents (first second : Table) : Prop where
  find? : first.find? = second.find?
  params : lookup first.params = lookup second.params
  bodies : lookup first.bodies = lookup second.bodies

namespace SameContents

variable {first second : Table}

theorem refl (table : Table) : SameContents table table := ⟨rfl, rfl, rfl⟩

variable (hSame : SameContents first second)
include hSame

theorem isFunction : first.isFunction = second.isFunction := by
  unfold Table.isFunction
  rw [hSame.find?]

theorem contains : first.contains = second.contains := by
  unfold Table.contains
  rw [hSame.find?]

theorem strands : strands first = strands second := by
  unfold Macro.strands
  rw [hSame.isFunction]

theorem tokens : tokens first = tokens second := by
  unfold Macro.tokens
  rw [hSame.strands]

theorem params! : first.params! = second.params! := by
  funext name
  simp only [Table.params!, Table.recorded, Table.checkRecord, hSame.find?, hSame.params]

theorem body! : first.body! = second.body! := by
  funext name
  simp only [Table.body!, Table.recorded, Table.checkRecord, hSame.find?, hSame.bodies]

theorem fillPieces : Macro.fillPieces first = Macro.fillPieces second := by
  have hUsed : usedByPlace first = usedByPlace second := by
    unfold usedByPlace namesIn
    rw [hSame.contains]
  have hPiece : fillPiece first = fillPiece second := by
    funext arguments painted piece
    cases piece with
    | operands parts => rfl
    | text s => simp only [fillPiece, hSame.strands]
  funext arguments painted pieces
  induction pieces generalizing painted with
  | nil => rfl
  | cons piece pieces ih =>
    simp only [Macro.fillPieces, hUsed, hPiece, ih]

theorem regroup : Macro.regroup first = Macro.regroup second := by
  have hStep : Grouping.step first = Grouping.step second := by
    unfold Grouping.step
    rw [hSame.tokens, hSame.contains]
  unfold Macro.regroup
  rw [hStep]

end SameContents

end Macro

namespace Source

open Macro

open Macro (SameContents)

-- Bounds on the lines

/- Whether every result of a run is a result of another one. -/
def Within {α : Type} (first second : Run α) : Prop :=
  ∀ session a next, exec first session = (.ok a, next) → exec second session = (.ok a, next)

section

variable {α : Type}

theorem Within.refl (run : Run α) : Within run run := fun _ _ _ hExec => hExec

theorem Within.of_throw (fault : Fault) (run : Run α) :
    Within (throw fault) run := fun _ _ _ hExec => nomatch hExec

theorem Within.bind (hFirst : Within first second) (hRest : ∀ a, Within (rest a) (more a)) :
    Within (first >>= rest) (second >>= more) := by
  intro session b final hExec
  rw [exec_bind_eq_ok] at hExec ⊢
  rcases hExec with ⟨a, next, hNext, hExec⟩
  exact ⟨a, next, hFirst _ _ _ hNext, hRest a _ _ _ hExec⟩

/- A bound that one more line keeps is kept by any number of further lines. -/
theorem Within.of_le {run : Nat → Run α} (hMore : ∀ count, Within (run count) (run (count + 1)))
    {count bound : Nat} (hBound : count ≤ bound) : Within (run count) (run bound) := by
  induction hBound with
  | refl => exact .refl _
  | step _ ih =>
    intro session a next hExec
    exact hMore _ _ _ _ (ih _ _ _ hExec)

end

theorem within_joinUntilClosed (count : Nat) (line : String) :
    Within (joinUntilClosed count line) (joinUntilClosed (count + 1) line) := by
  induction count generalizing line with
  | zero => exact .of_throw _ _
  | succ count ih =>
    refine .bind (.refl _) fun _ => ?_
    refine .bind (.refl _) fun _ => ?_
    split_ifs
    · exact ih _
    · exact .refl _

theorem within_nextSolidLine (count : Nat) : Within (nextSolidLine count)
    (nextSolidLine (count + 1)) := by
  induction count with
  | zero => exact .of_throw _ _
  | succ count ih =>
    refine .bind (.refl _) fun _ => ?_
    split_ifs
    · exact ih
    · exact .refl _

theorem within_skipGroupFrom (count inside : Nat) : Within (skipGroupFrom count inside)
    (skipGroupFrom (count + 1) inside) := by
  induction count generalizing inside with
  | zero => exact .of_throw _ _
  | succ count ih =>
    refine .bind (.refl _) fun line => ?_
    cases groupMark? line with
    | none => exact ih _
    | some mark =>
      cases mark with
      | opens => exact ih _
      | closes =>
        cases inside with
        | zero => exact .refl _
        | succ inside => exact ih _

theorem within_processGroupFrom (step : LineStep) (count : Nat) (selected : Bool) (text : String) :
    Within (processGroupFrom limit step count selected text)
      (processGroupFrom limit step (count + 1) selected text) := by
  induction count generalizing selected text with
  | zero => exact .of_throw _ _
  | succ count ih =>
    refine .bind (.refl _) fun line => ?_
    dsimp only
    split
    · exact .refl _
    · exact .refl _
    · exact .refl _
    · exact .bind (.refl _) fun _ => ih _ _
    · exact ih _ _
    · refine .bind (.refl _) fun _ => ?_
      split_ifs
      · exact .refl _
      · exact ih _ _
    · split_ifs
      · exact .bind (.refl _) fun _ => ih _ _
      · exact ih _ _
    · exact ih _ _

-- Compositional relations

/-
  A relation of runs that goes through the expansion of lines. It may need that lines were read. A
  run that takes its bound from the number of lines that are left may only find more if the bound is
  raised.
-/
structure Compositional (rel : {α : Type} → List String → Run α → Run α → Prop) : Prop where
  mono : ∀ {α : Type} {heard more : List String}
      {run other : Run α}, heard ⊆ more → rel heard run other → rel more run other
  pure : ∀ {α : Type} {heard : List String} (a : α), rel heard (pure a) (pure a)
  throw : ∀ {α : Type} {heard : List String} (fault : Fault),
      rel heard (throw fault : Run α) (throw fault)
  bind : ∀ {α β : Type} {heard : List String} {run other : Run α} {rest more : α → Run β},
      rel heard run other → (∀ a, rel heard (rest a) (more a)) →
        rel heard (run >>= rest) (other >>= more)
  getTable : ∀ {α : Type} {heard : List String} {rest more : Macro.Table → Run α},
      (∀ table alike, SameContents table alike → rel heard (rest table) (more alike)) →
        rel heard (getTable >>= rest) (getTable >>= more)
  nextLine : ∀ {α : Type} {heard : List String} {rest more : String → Run α},
      (∀ line, rel (line :: heard) (rest line) (more line)) →
        rel heard (nextLine >>= rest) (nextLine >>= more)
  bounded : ∀ {α : Type} {heard : List String} {run other : Nat → Run α},
      (∀ count, rel heard (run count) (other count)) →
        (∀ count, Within (run count) (run (count + 1))) →
          rel heard (linesLeft >>= fun count => run (count + 1))
            (linesLeft >>= fun count => other (count + 1))

namespace Compositional

variable {rel : {α : Type} → List String → Run α → Run α → Prop} (hRel : Compositional rel)
variable {heard : List String}

include hRel

theorem lift (result : Except Fault α) : rel heard (lift result) (lift result) := by
  cases result with
  | ok a => exact hRel.pure a
  | error fault => exact hRel.throw fault

theorem map {β : Type} (f : α → β) (hRun : rel heard run other) :
    rel heard (f <$> run) (f <$> other) := by
  exact hRel.bind hRun fun _ => hRel.pure _

theorem textOf (name : String) : rel heard (textOf name) (textOf name) := by
  refine hRel.getTable fun table alike hSame => ?_
  rw [hSame.find?]
  split
  · exact hRel.pure _
  · exact hRel.throw _
  · exact hRel.throw _

theorem joinUntilClosed (count : Nat) (line : String) : rel heard (joinUntilClosed count line)
    (joinUntilClosed count line) := by
  induction count generalizing heard line with
  | zero => exact hRel.throw _
  | succ count ih =>
    refine hRel.nextLine fun _ => ?_
    refine hRel.getTable fun _ _ hSame => ?_
    rw [hSame.strands]
    split_ifs
    · exact ih _
    · exact hRel.pure _

/- What is done with the next line that is not blank. -/
theorem nextSolidLine (hRest : ∀ line, rel (line :: heard) (rest line) (more line)) (count : Nat) :
    rel heard (nextSolidLine count >>= rest) (nextSolidLine count >>= more) := by
  induction count generalizing heard with
  | zero => exact hRel.throw _
  | succ count ih =>
    rw [nextSolidLine, bind_assoc, bind_assoc]
    refine hRel.nextLine fun line => ?_
    split_ifs
    · exact ih fun next => hRel.mono
        (cons_subset_cons _ (subset_cons_self _ _)) (hRest next)
    · exact hRest line

section

variable {first second : Expander} (hExpander : ∀ heard line list opened,
    rel heard (first line list opened) (second line list opened))

include hExpander

theorem expandWith (line : String) : rel heard (expandWith first line)
    (expandWith second line) := by
  refine hRel.getTable fun _ _ hSame => ?_
  rw [hSame.tokens]
  exact hRel.bind (hExpander _ _ _ _) fun _ => hRel.pure _

theorem expandArguments (body : Macro.Body) (written params : List String) :
    rel heard (expandArguments first body written params)
      (expandArguments second body written params) := by
  rw [Macro.expandArguments, Macro.expandArguments]
  induction written.zip params with
  | nil => exact hRel.pure _
  | cons pair pairs ih =>
    rw [mapM_cons, mapM_cons]
    refine hRel.bind ?_ fun _ => hRel.bind ih fun _ => hRel.pure _
    dsimp only
    split_ifs
    · exact hRel.expandWith hExpander _
    · exact hRel.pure _

theorem expandCall (name : String) (token : Macro.Token) :
    rel heard (expandCall first name token) (expandCall second name token) := by
  rw [Macro.expandCall, Macro.expandCall]
  split_ifs
  all_goals refine hRel.getTable fun _ _ hSame => ?_
  iterate 2
    · rw [hSame.fillPieces]
      exact hRel.bind (hRel.lift _) fun _ => hRel.pure _
  · rw [hSame.body!, hSame.params!]
    refine hRel.bind (hRel.lift _) fun _ => ?_
    refine hRel.bind (hRel.lift _) fun _ => ?_
    refine hRel.bind (hRel.expandArguments hExpander _ _ _) fun _ => ?_
    refine hRel.getTable fun _ _ hSame => ?_
    rw [hSame.fillPieces, hSame.tokens]
    refine hRel.bind (hRel.lift _) fun _ => ?_
    split_ifs
    · exact hRel.bind (hRel.lift _) fun _ => hRel.pure _
    · exact hRel.pure _

variable {step other : LineStep} (hStep : ∀ heard line, line ∈ heard →
    rel heard (step line) (other line))

include hStep

/- A line that is looked at ahead was read, so it may be processed. -/
theorem lookAhead (state : Macro.Pass) : rel heard (lookAhead first step state)
    (lookAhead second other state) := by
  refine hRel.bounded (hRel.nextSolidLine fun line => ?_)
    fun count => (within_nextSolidLine count).bind fun _ => .refl _
  split
  · exact hRel.throw _
  · refine hRel.getTable fun _ _ hSame => ?_
    rw [hSame.tokens]
    exact hExpander _ _ _ _
  · exact hRel.bind (hStep _ line mem_cons_self) fun _ => hRel.pure _

/- One pass over tokens, along its own recursion: over the tokens, and again over a longer list once
  further lines were joined. -/
theorem scanTokens (opened : Bool) (state : Macro.Pass) (list : List Macro.Token) :
    rel heard (scanTokens first step opened state list)
      (scanTokens second other opened state list) := by
  match list with
  | [] =>
    rw [scanTokens_nil, scanTokens_nil]
    exact hRel.pure _
  | token :: rest =>
    rw [scanTokens_cons, scanTokens_cons]
    refine hRel.getTable fun table alike hSame => ?_
    have hAwait : awaitAfter table = awaitAfter alike := by
      unfold awaitAfter
      rw [hSame.isFunction]
    rw [hAwait, hSame.find?, hSame.tokens]
    by_cases hLive : (!token.live) = true
    · rw [if_pos hLive, if_pos hLive]
      exact scanTokens opened _ rest
    rw [if_neg hLive, if_neg hLive]
    split
    · split_ifs
      · exact hRel.bind (hRel.lookAhead hExpander hStep _) fun _ => hRel.pure _
      · exact scanTokens opened _ rest
    · exact scanTokens opened _ rest
    · refine hRel.bind (hRel.expandCall hExpander _ _) fun found => ?_
      refine hRel.bind (hRel.lift _) fun _ => ?_
      exact scanTokens opened _ (paintKinAll token.kin found.2 rest)
    · exact scanTokens opened _ rest
    · rename_i name _ _
      cases alike.find? name with
      | none => exact scanTokens opened _ rest
      | some meaning =>
        by_cases hPainted : token.painted.contains name = true
        · simp only [hPainted]
          exact scanTokens opened _ rest
        simp only [hPainted]
        cases meaning with
        | record => exact hRel.throw _
        | text body =>
          exact scanTokens opened _ (paintKin token.kin name rest)
        | function =>
          cases opened with
          | true =>
            have hJoined : rel heard _ _ := hRel.bounded (fun count =>
                hRel.joinUntilClosed count state.line)
                (fun count => within_joinUntilClosed count _)
            rw [joinLines, joinLines, ← bind_assoc, ← bind_assoc]
            refine hRel.bind hJoined fun line => ?_
            refine hRel.getTable fun _ _ hSame => ?_
            rw [kinTokens, kinTokens, hSame.strands]
            exact scanTokens false _ _
          | false => exact scanTokens false _ rest
termination_by (opened.toNat, list.length)
decreasing_by
  all_goals first
    | (apply Prod.Lex.right
       simp only [length_cons, length_paintKinAll, length_paintKin]
       omega)
    | (apply Prod.Lex.left
       simp)

theorem expandOnce (line : String) (list : List Macro.Token) (opened : Bool) :
    rel heard (expandOnce first step line list opened)
      (expandOnce second other line list opened) := by
  refine hRel.bind (hRel.scanTokens hExpander hStep _ _ _) fun result => ?_
  cases result with
  | finished tokens => exact hRel.pure _
  | scanned state =>
    dsimp only
    split_ifs
    · refine hRel.getTable fun _ _ hSame => ?_
      rw [hSame.regroup]
      exact hRel.bind (hRel.lift _) fun _ => hExpander _ _ _ _
    · exact hRel.pure _

omit hExpander in
/- Nested passes, by induction on their bound. -/
theorem expandTokens (depth : Nat) (line : String) (list : List Macro.Token) (opened : Bool) :
    rel heard (expandTokens step depth line list opened)
      (expandTokens other depth line list opened) := by
  induction depth generalizing heard line list opened with
  | zero => exact hRel.throw _
  | succ depth ih =>
    exact hRel.expandOnce (fun _ => ih) hStep line list opened

omit hExpander in
theorem expandLine (line : String) : rel heard (Macro.expandLine limit step line)
    (Macro.expandLine limit other line) :=
  hRel.expandWith (fun _ => hRel.expandTokens hStep _) line

-- Conditions

omit hExpander in
theorem substituteNames (afterDefined : Bool) (lexemes : List String) :
    rel heard (Source.substituteNames limit step afterDefined lexemes)
      (Source.substituteNames limit other afterDefined lexemes) := by
  have hName : ∀ lexeme,
      rel heard (substituteName limit step lexeme) (substituteName limit other lexeme) := by
    intro lexeme
    rw [substituteName, substituteName]
    cases Text.isIdentifier? lexeme with
    | none => exact hRel.throw _
    | some isName =>
      cases isName with
      | false => exact hRel.pure _
      | true =>
        refine hRel.getTable fun _ _ hSame => ?_
        rw [hSame.contains]
        split_ifs
        · exact hRel.expandLine hStep _
        · exact hRel.pure _
  induction lexemes generalizing afterDefined with
  | nil => exact hRel.pure _
  | cons lexeme rest ih =>
    rw [Source.substituteNames, Source.substituteNames]
    split_ifs
    · exact hRel.bind (ih false) fun _ => hRel.pure _
    · exact hRel.bind (ih true) fun _ => hRel.pure _
    · refine hRel.bind (hName _) fun _ => ?_
      exact hRel.bind (ih false) fun _ => hRel.pure _

omit hExpander in
theorem conditionHolds (line : String) : rel heard (Source.conditionHolds limit step line)
    (Source.conditionHolds limit other line) := by
  refine hRel.bind (hRel.substituteNames hStep _ _) fun _ => ?_
  refine hRel.getTable fun _ _ hSame => ?_
  rw [hSame.contains]
  exact hRel.bind (hRel.lift _) fun _ => hRel.pure _

omit hExpander in
theorem groupSelected (keyword : Keyword) (line argument : String) :
    rel heard (Source.groupSelected limit step keyword line argument)
      (Source.groupSelected limit other keyword line argument) := by
  rw [groupSelected.eq_def, groupSelected.eq_def limit other]
  split
  · refine hRel.getTable fun _ _ hSame => ?_
    rw [hSame.contains]
    exact hRel.pure _
  · refine hRel.getTable fun _ _ hSame => ?_
    rw [hSame.contains]
    exact hRel.pure _
  · exact hRel.conditionHolds hStep line

end

end Compositional

end Source

end CHeader
