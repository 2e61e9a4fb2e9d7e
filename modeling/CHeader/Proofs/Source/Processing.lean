import CHeader.Proofs.Source.Compositional
import CHeader.Proofs.Source.Groups

/-
  Relations of runs that go through the processing of lines.

  A compositional relation that holds of what directives do holds of every line that may be
  processed: conditions and groups are made of expansions and of lines inside lines.

  Main declarations:
    * `Source.Processing`
    * `Source.Processing.processDirective`
    * `Source.Processing.processNested`
-/

namespace CHeader

namespace Source

open Directive

/- Whether a line may be processed: it was read, or it is
  made of the operand of one to open a group. -/
def Offered (heard : List String) (line : String) : Prop :=
  line ∈ heard ∨ ∃ operand, line = "#if " ++ operand

/- Only a line that opens a group may be processed without having been read. -/
theorem Offered.mem_heard (hOffered : Offered heard line) (hLine : ofLine? line = some directive)
    (hKeyword : directive.keyword ≠ some .ifTrue) : line ∈ heard := by
  rcases hOffered with hHeard | ⟨operand, rfl⟩
  · exact hHeard
  · rw [ofLine?_if] at hLine
    cases hLine
    exact absurd rfl hKeyword

-- Conditions and groups

/-
  A relation that goes through the processing of lines, each of them a line that may be processed.
  Directives are those of lines that were read.
-/
structure Processing (rel : {α : Type} → List String → Run α → Run α → Prop) :
    Prop extends Compositional rel where
  report : ∀ {heard : List String} level message,
      rel heard (report level message) (report level message)
  define : ∀ {heard : List String} {line : String} {directive : Directive}, line ∈ heard →
      ofLine? line = some directive →
      directive.keyword = some .define → rel heard (defineMacro line) (defineMacro line)
  undefine : ∀ {heard : List String} {line : String} {directive : Directive}, line ∈ heard →
      ofLine? line = some directive →
      directive.keyword = some .undefine → rel heard (modifyTable (·.erase directive.argument))
          (modifyTable (·.erase directive.argument))
  setLine : ∀ {heard : List String} {line : String} {directive : Directive} {depth : Nat},
      (∀ heard line, Offered heard line → rel heard
        (processNested limit depth line) (processNested limit depth line)) →
      line ∈ heard → ofLine? line = some directive →
      directive.keyword = some .setLine → rel heard
          (setLine limit (processNested limit depth) directive.afterKeyword)
          (setLine limit (processNested limit depth) directive.afterKeyword)
  currentDirectory : ∀ {heard : List String}, rel heard currentDirectory currentDirectory
  processFile : ∀ {heard : List String} {step : LineStep} name path encoding,
      (∀ heard line, Offered heard line → rel heard (step line) (step line)) →
        rel heard (processFile step name path encoding) (processFile step name path encoding)

namespace Processing

variable {rel : {α : Type} → List String → Run α → Run α → Prop} (hRel : Processing rel)
variable {heard : List String}

include hRel

section

variable {step : LineStep} (hStep : ∀ heard line, Offered heard line →
    rel heard (step line) (step line))

include hStep

omit hStep in
theorem skipGroup : rel heard skipGroup skipGroup := by
  have hFrom : ∀ count inside, rel heard (skipGroupFrom count inside)
      (skipGroupFrom count inside) := by
    intro count
    induction count generalizing heard with
    | zero => exact fun _ => hRel.throw _
    | succ count ih =>
      intro inside
      rw [skipGroupFrom.eq_def]
      refine hRel.nextLine fun line => ?_
      cases groupMark? line with
      | none => exact ih _
      | some mark =>
        cases mark with
        | opens => exact ih _
        | closes =>
          cases inside with
          | zero => exact hRel.pure _
          | succ inside => exact ih _
  exact hRel.bounded (fun count => hFrom count 0) (fun count => within_skipGroupFrom count 0)

/- The lines of a group are read here, and those of a selected part are processed. -/
theorem processGroupFrom (count : Nat) (selected : Bool) (text : String) :
    rel heard (processGroupFrom limit step count selected text)
      (processGroupFrom limit step count selected text) := by
  induction count generalizing heard selected text with
  | zero => exact hRel.throw _
  | succ count ih =>
    refine hRel.nextLine fun line => ?_
    dsimp only
    split
    · exact hRel.pure _
    · exact hRel.bind hRel.skipGroup fun _ => hRel.pure _
    · exact hRel.bind hRel.skipGroup fun _ => hRel.pure _
    · exact hRel.bind (hStep _ line (.inl List.mem_cons_self)) fun _ => ih _ _
    · exact ih _ _
    · refine hRel.bind (hRel.conditionHolds (fun _ _ h => hStep _ _ (.inl h)) _) fun _ => ?_
      split_ifs
      · exact hRel.bind (hStep _ _ (.inr ⟨_, rfl⟩)) fun _ => hRel.pure _
      · exact ih _ _
    · split_ifs
      · exact hRel.bind hRel.skipGroup fun _ => ih _ _
      · exact ih _ _
    · exact ih _ _

theorem processGroup (keyword : Keyword) (line argument : String) :
    rel heard (processGroup limit step keyword line argument)
      (processGroup limit step keyword line argument) := by
  refine hRel.bind (hRel.groupSelected (fun _ _ h => hStep _ _ (.inl h)) keyword line argument)
    fun selected => ?_
  exact hRel.bounded (fun count => hRel.processGroupFrom hStep count _ _)
    (fun count => within_processGroupFrom step count _ _)

-- Directives

omit hStep in
theorem warn (line : String) : rel heard (warn line) (warn line) := by
  refine hRel.bind (hRel.textOf _) fun _ => ?_
  refine hRel.bind (hRel.textOf _) fun _ => ?_
  exact hRel.report _ _

omit hStep in
theorem nameEnds (name : String) : rel heard (nameEnds name) (nameEnds name) := by
  rw [Source.nameEnds]
  split
  · exact hRel.pure _
  · exact hRel.throw _

theorem includeFile (operand : String) : rel heard (includeFile limit step operand)
    (includeFile limit step operand) := by
  have hName : rel heard (includedName limit step operand) (includedName limit step operand) := by
    refine hRel.bind (hRel.nameEnds _) fun ends => ?_
    dsimp only
    split_ifs
    · exact hRel.pure _
    · exact hRel.map _ (hRel.expandLine (fun _ _ h => hStep _ _ (.inl h)) _)
  have hDirectory : ∀ name, rel heard (ownDirectory name) (ownDirectory name) := by
    intro name
    refine hRel.bind (hRel.nameEnds _) fun ends => ?_
    dsimp only
    split_ifs
    · exact hRel.map _ hRel.currentDirectory
    · exact hRel.pure _
  rw [includeFile_eq]
  refine hRel.bind hName fun _ => ?_
  refine hRel.bind (hDirectory _) fun _ => ?_
  refine hRel.bind (hRel.textOf _) fun _ => ?_
  exact hRel.bind (hRel.processFile _ _ _ hStep) fun _ => hRel.pure _

end

theorem processDirective (hStep : ∀ heard line, Offered heard line → rel heard
    (processNested limit depth line) (processNested limit depth line))
    (hOffered : Offered heard line) (hLine : ofLine? line = some directive) :
    rel heard (processDirective limit (processNested limit depth) directive line)
      (processDirective limit (processNested limit depth) directive line) := by
  have hHeard := hOffered.mem_heard hLine
  rw [processDirective.eq_def]
  cases hKeyword : directive.keyword with
  | none => exact hRel.pure _
  | some keyword =>
    rw [hKeyword] at hHeard
    cases keyword with
    | define =>
      exact hRel.bind (hRel.define (hHeard nofun) hLine hKeyword) fun _ => hRel.pure _
    | undefine =>
      exact hRel.bind (hRel.undefine (hHeard nofun) hLine hKeyword) fun _ => hRel.pure _
    | ifTrue => exact hRel.processGroup hStep _ _ _
    | ifDefined => exact hRel.processGroup hStep _ _ _
    | ifUndefined => exact hRel.processGroup hStep _ _ _
    | warning => exact hRel.bind (hRel.warn _) fun _ => hRel.pure _
    | error => exact hRel.throw _
    | includeFile => exact hRel.includeFile hStep _
    | setLine =>
      exact hRel.bind (hRel.setLine hStep (hHeard nofun) hLine hKeyword) fun _ => hRel.pure _
    | pragma => exact hRel.pure _
    | elseGroup => exact hRel.throw _
    | elseIf => exact hRel.throw _
    | endIf => exact hRel.throw _

/- Lines inside lines, by induction on the nesting. -/
theorem processNested (depth : Nat) (hOffered : Offered heard line) :
    rel heard (processNested limit depth line) (processNested limit depth line) := by
  induction depth generalizing heard line with
  | zero => exact hRel.throw _
  | succ depth ih =>
    rw [processNested, processLineWith]
    cases hLine : ofLine? line with
    | none => exact hRel.expandLine (fun _ _ h => ih (.inl h)) line
    | some directive =>
      exact hRel.processDirective (fun _ _ => ih) hOffered hLine

end Processing

end Source

end CHeader
