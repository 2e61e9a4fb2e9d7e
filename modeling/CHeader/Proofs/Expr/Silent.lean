import CHeader.Expr.Evaluate
import CHeader.Proofs.Fault
import CHeader.Proofs.Macro.Lexeme

/-
  Expressions that ask for no definition.

  An evaluation asks whether a name is defined only after the word `defined`. Texts that have a
  character which that word does not have never become it: not by being read, joined or repeated.
  The value of an expression that has no other words is therefore the same whatever is defined.

  Main declarations:
    * `Expr.Operand.Silent`
    * `Expr.Agree`
    * `Expr.agree_evaluate`
-/

namespace CHeader

open List

namespace Expr

variable {op : Operand} {item : String}

-- Operands

/- A number, the empty text or a text with a character that the word `defined` does not have. -/
def Operand.Silent : Operand → Prop
| .int _ => True
| .text s => s = "" ∨ ∃ c ∈ s.toList, c ∉ "defined".toList

namespace Operand

open BinaryOp

variable {s t : String} {left right value : Operand}
variable {operand : Operand} {kind : Int}

theorem Silent.ne_defined (hSilent : (text s).Silent) : s ≠ "defined" := by
  rintro rfl
  rcases hSilent with hEmpty | ⟨c, hMem, hOther⟩
  · simp at hEmpty
  · exact hOther hMem

theorem silent_append (hFirst : (text s).Silent)
    (hSecond : (text t).Silent) : (text (s ++ t)).Silent := by
  rcases hFirst with rfl | ⟨c, hMem, hOther⟩
  · simpa using hSecond
  · exact .inr ⟨c, by simp [hMem], hOther⟩

theorem silent_concat (hParts : ∀ part ∈ parts, (text part).Silent) :
    (text (Text.concat parts)).Silent := by
  induction parts with
  | nil => exact .inl rfl
  | cons part parts ih =>
    rw [forall_mem_cons] at hParts
    rw [Text.concat_cons]
    exact silent_append hParts.1 (ih hParts.2)

theorem silent_repeated (hText : (text s).Silent) (hRepeated : repeated s n = .ok t) :
    (text t).Silent := by
  unfold repeated at hRepeated
  split_ifs at hRepeated <;> cases hRepeated
  · exact .inl rfl
  · refine silent_concat fun part hMem => ?_
    rwa [eq_of_mem_replicate hMem]

theorem Silent.complement (hValue : operand.complement = .ok value) : value.Silent := by
  cases operand <;> cases hValue
  trivial

theorem Silent.negate (hValue : operand.negate = .ok value) : value.Silent := by
  cases operand <;> cases hValue
  trivial

theorem silent_onInts (hValue : onInts f left right = .ok value) : value.Silent := by
  unfold onInts at hValue
  split at hValue
  · rename_i m n
    cases hResult : f m n <;> rw [hResult] at hValue <;> cases hValue
    trivial
  · cases hValue

theorem silent_compare {onInts : Int → Int → Bool} {onTexts : String → String → Bool}
    (hValue : compare onInts onTexts left right = .ok value) : value.Silent := by
  unfold BinaryOp.compare at hValue
  split at hValue <;> cases hValue <;> trivial

theorem silent_conclude (hValue : conclude operand = .ok value) : value.Silent := by
  unfold conclude at hValue
  split at hValue <;> cases hValue <;> trivial

/- No operator makes the word of other texts. -/
theorem Silent.apply {op : BinaryOp} (hLeft : left.Silent) (hRight : right.Silent)
    (hValue : op.apply left right = .ok value) : value.Silent := by
  unfold BinaryOp.apply at hValue
  split at hValue
  case h_2 =>
    rename_i s n
    cases hText : repeated s n <;>
      rw [hText] at hValue <;> cases hValue
    exact silent_repeated hLeft hText
  case h_3 =>
    rename_i n s
    cases hText : repeated s n <;>
      rw [hText] at hValue <;> cases hValue
    exact silent_repeated hRight hText
  case h_9 =>
    cases hValue
    exact silent_append hLeft hRight
  all_goals first
    | exact silent_onInts hValue
    | exact silent_compare hValue
    | exact silent_conclude hValue
    | (cases hValue; trivial)
    | cases hValue

theorem Silent.toUnsigned (hOperand : operand.Silent)
    (hValue : Expr.toUnsigned kind operand = .ok value) : value.Silent := by
  unfold Expr.toUnsigned at hValue
  split_ifs at hValue
  · cases hValue
    exact hOperand
  · split at hValue
    · cases hValue
    · cases hInt : operand.toInt <;> rw [hInt] at hValue <;>
        cases hValue
      trivial

theorem Silent.balance (hLeft : left.Silent) (hRight : right.Silent)
    (hBoth : Expr.balance op kind itemKind left right = .ok both) :
    both.1.Silent ∧ both.2.Silent := by
  unfold Expr.balance at hBoth
  split_ifs at hBoth with hShift hMore hPositive hLess hOther
  · cases hBoth
    exact ⟨hLeft, hRight⟩
  · cases hValue : Expr.toUnsigned kind right <;>
      rw [hValue] at hBoth <;> cases hBoth
    exact ⟨hLeft, hRight.toUnsigned hValue⟩
  · cases hBoth
    exact ⟨hLeft, hRight⟩
  · cases hValue : Expr.toUnsigned itemKind left <;>
      rw [hValue] at hBoth <;> cases hBoth
    exact ⟨hLeft.toUnsigned hValue, hRight⟩
  · cases hBoth
    exact ⟨hLeft, hRight⟩
  · cases hBoth
    exact ⟨hLeft, hRight⟩

theorem silent_read (hItem : (text item).Silent) (hRead : Constant.read item = .ok found) :
    found.value.Silent := by
  unfold Constant.read at hRead
  split at hRead
  · split_ifs at hRead
    · cases hNumber : readUnsigned item <;>
        rw [hNumber] at hRead <;> cases hRead
      trivial
    · split at hRead <;> cases hRead
      trivial
  · split at hRead
    · split at hRead <;> cases hRead
      trivial
    · cases hRead
      unfold Constant.readQuoted
      dsimp only
      split
      · trivial
      · split
        · trivial
        · split
          · trivial
          · exact hItem

end Operand

-- Steps that agree

/- A step that leaves no operand with the word. -/
structure Progress.Silent {size : Nat} (step : Progress size) : Prop where
  value : step.value.Silent
  token : step.token.Silent
  rest : ∀ item ∈ step.rest, (Operand.text item).Silent

/- Two results that are the same and leave no operand with the word. -/
def Agree {size : Nat} (first second : Except Fault (Progress size)) : Prop :=
  first = second ∧ ∀ step, first = .ok step → step.Silent

section

variable {size sizeHere : Nat}

theorem agree_ok (hStep : step.Silent) : Agree (.ok step) (.ok step) := by
  refine ⟨rfl, fun _ hSame => ?_⟩
  cases hSame
  exact hStep

theorem agree_error (fault : Fault) : Agree (.error fault : Except Fault (Progress size))
    (.error fault) :=
  ⟨rfl, nofun⟩

theorem Agree.bind {first second : Except Fault (Progress sizeHere)}
    {next later : Progress sizeHere → Except Fault (Progress size)} (hAgree : Agree first second)
    (hNext : ∀ step, step.Silent → Agree (next step) (later step)) :
    Agree (first >>= next) (second >>= later) := by
  obtain ⟨rfl, hSilent⟩ := hAgree
  cases first with
  | error fault => exact agree_error fault
  | ok step => exact hNext step (hSilent step rfl)

theorem agree_bind {α : Type} {result : Except Fault α}
    {next later : α → Except Fault (Progress size)}
    (hNext : ∀ value, result = .ok value → Agree (next value) (later value)) :
    Agree (result >>= next) (result >>= later) := by
  cases result with
  | error fault => exact agree_error fault
  | ok value => exact hNext value rfl

theorem agree_closeParen (hStep : step.Silent) : Agree (closeParen step) (closeParen step) := by
  obtain ⟨value, token, rest, hBound⟩ := step
  obtain ⟨hValue, -, hRest⟩ := hStep
  unfold closeParen
  split
  · cases rest with
    | nil => exact agree_ok ⟨hValue, .inl rfl, nofun⟩
    | cons item rest =>
      rw [forall_mem_cons] at hRest
      exact agree_ok ⟨hValue, hRest.1, hRest.2⟩
  · exact agree_error _

end

-- Evaluation

section

variable (isDefined isOther : String → Bool)

def EvaluateAgrees (items : List String) : Prop :=
  ∀ token strengthHere stopped kind, token.Silent →
    Agree (evaluate isDefined token strengthHere stopped kind items)
      (evaluate isOther token strengthHere stopped kind items)

def GoOnAgrees (items : List String) : Prop :=
  ∀ strengthHere applying stopped kind left token, left.Silent → token.Silent →
      Agree (evaluateFrom isDefined strengthHere applying stopped kind left token items)
        (evaluateFrom isOther strengthHere applying stopped kind left token items)

variable {isDefined isOther} {items : List String}

section

variable (hItems : ∀ item ∈ items, (Operand.text item).Silent)
  (hEvaluate : EvaluateAgrees isDefined isOther items) (hOp : op.Silent)
include hItems hEvaluate hOp

theorem agree_unaryStep {next : Constant} (hNext : next.value.Silent) :
    Agree (unaryStep isDefined op next items) (unaryStep isOther op next items) := by
  rw [unaryStep.eq_def, unaryStep.eq_def]
  split
  · exact absurd rfl hOp.ne_defined
  · refine (hEvaluate _ _ _ _ hNext).bind fun step hStep => ?_
    exact agree_ok ⟨trivial, hStep.token, hStep.rest⟩
  · refine (hEvaluate _ _ _ _ hNext).bind fun step hStep => ?_
    refine agree_bind fun value hValue => ?_
    exact agree_ok ⟨.complement hValue, hStep.token, hStep.rest⟩
  · exact hEvaluate _ _ _ _ hNext
  · refine (hEvaluate _ _ _ _ hNext).bind fun step hStep => ?_
    refine agree_bind fun value hValue => ?_
    exact agree_ok ⟨.negate hValue, hStep.token, hStep.rest⟩
  · exact (hEvaluate _ _ _ _ hNext).bind fun step hStep => agree_closeParen hStep
  · exact agree_ok ⟨hOp, .inl rfl, hItems⟩

theorem agree_binaryStep {left right : Operand} (hLeft : left.Silent) (hRight : right.Silent) :
    Agree (binaryStep isDefined op left right items) (binaryStep isOther op left right items) := by
  rw [binaryStep.eq_def, binaryStep.eq_def]
  split
  · exact absurd rfl hOp.ne_defined
  · refine (hEvaluate _ _ _ _ hRight).bind fun step hStep => ?_
    exact agree_ok ⟨trivial, hStep.token, hStep.rest⟩
  · split
    · refine agree_bind fun value hValue => ?_
      exact agree_ok ⟨hLeft.apply hRight hValue, .inl rfl, hItems⟩
    · exact agree_error _
  · exact agree_error _

end

/- One item is read, and fewer are left to whatever comes then. -/
theorem goOnAgrees_cons (hItem : (Operand.text item).Silent)
    (hItems : ∀ item ∈ items, (Operand.text item).Silent)
    (hShorter : ∀ rest : List String, rest.length ≤ items.length →
        (∀ item ∈ rest, (Operand.text item).Silent) → EvaluateAgrees isDefined isOther rest ∧
            GoOnAgrees isDefined isOther rest) : GoOnAgrees isDefined isOther (item :: items) := by
  intro strengthHere applying stopped kind left token hLeft hToken
  rw [evaluateFrom.eq_def, evaluateFrom.eq_def]
  dsimp only
  refine agree_bind fun next hNext => ?_
  have hNext := Operand.silent_read hItem hNext
  obtain ⟨hEvaluate, -⟩ := hShorter items le_rfl hItems
  have hLeft : (if token = .text "||" ∧ left ≠ .int 0 then .int 1
      else left : Operand).Silent := by
    split_ifs
    · trivial
    · exact hLeft
  generalize (if token = .text "||" ∧ left ≠ .int 0 then .int 1
    else left : Operand) = left at hLeft ⊢
  split
  · -- a binary operator
    refine (hEvaluate _ _ _ _ hNext).bind fun right hRight => ?_
    obtain ⟨hEvaluateRight, hGoOnRight⟩ := hShorter right.rest right.bounded hRight.rest
    split
    · split_ifs
      · exact agree_ok ⟨hLeft, hRight.token, hRight.rest⟩
      · refine (hGoOnRight _ _ _ _ _ _ hLeft hRight.token).bind fun step hStep => ?_
        exact agree_ok ⟨hStep.value, hStep.token, hStep.rest⟩
    · refine agree_bind fun both hBoth => ?_
      obtain ⟨hFirst, hSecond⟩ := hLeft.balance hRight.value hBoth
      refine (agree_binaryStep hRight.rest hEvaluateRight hToken
        hFirst hSecond).bind fun applied hApplied => ?_
      obtain ⟨-, hGoOn⟩ := hShorter applied.rest (applied.bounded.trans right.bounded) hApplied.rest
      split_ifs
      · exact agree_ok ⟨hApplied.value, hRight.token, hApplied.rest⟩
      · refine (hGoOn _ _ _ _ _ _ hApplied.value hRight.token).bind fun step hStep => ?_
        exact agree_ok ⟨hStep.value, hStep.token, hStep.rest⟩
  · -- a prefix operator or an operand
    refine (agree_unaryStep hItems hEvaluate hToken hNext).bind fun step hStep => ?_
    obtain ⟨-, hGoOn⟩ := hShorter step.rest step.bounded hStep.rest
    have hAhead : (if step.token = .text "" then next.value
        else step.token).Silent := by
      split_ifs
      · exact hNext
      · exact hStep.token
    generalize (if step.token = .text "" then next.value
      else step.token) = after at hAhead ⊢
    split_ifs
    · refine (hGoOn _ _ _ _ _ _ hStep.value hAhead).bind fun more hMore => ?_
      exact agree_ok ⟨hMore.value, hMore.token, hMore.rest⟩
    · exact agree_ok ⟨hStep.value, hAhead, hStep.rest⟩

/- By the number of items, all evaluations agree. -/
theorem agree_evaluate (items : List String) (hItems : ∀ item ∈ items, (Operand.text item).Silent) :
    EvaluateAgrees isDefined isOther items ∧ GoOnAgrees isDefined isOther items := by
  induction hLength : items.length using Nat.strong_induction_on generalizing items with
  | _ n ih =>
    subst hLength
    have hGoOn : GoOnAgrees isDefined isOther items := by
      cases items with
      | nil =>
        intro strengthHere applying stopped kind left token hLeft hToken
        rw [evaluateFrom.eq_def, evaluateFrom.eq_def]
        exact agree_ok ⟨hLeft, hToken, nofun⟩
      | cons item items =>
        rw [forall_mem_cons] at hItems
        exact goOnAgrees_cons hItems.1 hItems.2 fun rest hShort hRest =>
            ih rest.length (Nat.lt_succ_of_le hShort) rest hRest rfl
    refine ⟨?_, hGoOn⟩
    intro token strengthHere stopped kind hToken
    rw [evaluate.eq_def, evaluate.eq_def]
    split
    · cases items with
      | nil => exact agree_ok ⟨hToken, hToken, nofun⟩
      | cons item items =>
        rw [forall_mem_cons] at hItems
        refine agree_bind fun first hFirst => ?_
        have hFirst := Operand.silent_read hItems.1 hFirst
        obtain ⟨-, hRest⟩ := ih items.length (Nat.lt_succ_self _) items hItems.2 rfl
        refine (hRest _ _ _ _ _ _ hFirst hFirst).bind fun step hStep => ?_
        exact agree_ok ⟨hStep.value, hStep.token, hStep.rest⟩
    · exact hGoOn _ _ _ _ _ _ hToken hToken

theorem evaluateAll_congr (hItems : ∀ item ∈ items, (Operand.text item).Silent) :
    evaluateAll isDefined items = evaluateAll isOther items := by
  have hEvaluate : EvaluateAgrees isDefined isOther items := (agree_evaluate items hItems).1
  rw [evaluateAll, evaluateAll, (hEvaluate (.text "") 0 false 0 (.inl rfl)).1]

end

end Expr

end CHeader
