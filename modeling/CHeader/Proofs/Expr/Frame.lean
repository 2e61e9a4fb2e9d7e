import CHeader.Expr.Evaluate
import CHeader.Proofs.Expr.Literal
import CHeader.Proofs.Fault

/-
  The steps of an evaluation as equations.

  A frame of the evaluation reads operands and operators up to an operator that is not stronger than
  its own strength. Its results are seen here as plain triples of a value, the token read ahead and
  the items left, so that frames over different items can be compared.

  A frame that has used up its items keeps a token that means nothing; it cannot do harm, because no
  item is left that it could be applied to.

  Main declarations:
    * `Expr.readFrame`
    * `Expr.afterOperand`
    * `Expr.Delivers`
-/

namespace CHeader

namespace Expr

-- Frames without bounds

abbrev Outcome := Operand × Operand × List String

namespace Progress

def outcome {size : Nat} (step : Progress size) : Outcome := (step.value, step.token, step.rest)

end Progress

namespace BinaryOp

/- Whether the left operand alone decides an operator. -/
def decidedBy : BinaryOp → Int → Bool
| logicalAnd, m => m = 0
| logicalOr, m => m ≠ 0
| _, _ => false

def settled : BinaryOp → Int → Int
| logicalOr, m => if m = 0 then m else 1
| _, m => m

end BinaryOp

def PrefixOp.apply : PrefixOp → Operand → Except Fault Operand
| minus, operand => operand.negate
| plus, operand => .ok operand
| negation, operand => .ok (.ofBool !operand.truth)
| complement, operand => operand.complement

variable (isDefined : String → Bool)

def goOn (strengthHere : Int) (applying stopped : Bool) (kind : Int)
    (left token : Operand) (items : List String) : Except Fault Outcome :=
  (evaluateFrom isDefined strengthHere applying stopped kind left token items).map Progress.outcome

def readFrame (strengthHere : Int) (stopped : Bool) :
    List String → Except Fault Outcome
| [] => .ok (.text "", .text "", [])
| item :: rest => do
    let first ← Constant.read item
    (evaluate isDefined first.value strengthHere stopped first.kind rest).map Progress.outcome

/-
  What a frame does after an operand when a token follows: it applies the token if that is stronger
  than the frame, and ends before it otherwise.
-/
def afterOperand (strengthHere : Int) (stopped : Bool) (kind : Int)
    (value token : Operand) (rest : List String) : Except Fault Outcome :=
  if strengthHere < strength token then
    goOn isDefined strengthHere true stopped kind value token rest
  else .ok (value, token, rest)

section

variable {isDefined : String → Bool} {strengthHere : Int} {applying stopped : Bool} {kind : Int}
variable {left token value : Operand}

variable {item : String} {size : Nat} {items follow : List String}
variable {scanned : Except Fault (Int × Bool)}
variable {bound : Int} {result : Except Fault Outcome}

@[simp] theorem goOn_nil : goOn isDefined strengthHere applying stopped kind left
    token [] = .ok (left, token, []) := by
  rw [goOn, evaluateFrom]
  rfl

/- Without items a frame ends, whatever its token is. -/
@[simp] theorem afterOperand_nil : afterOperand isDefined strengthHere stopped kind value
    token [] = .ok (value, token, []) := by
  unfold afterOperand
  split <;> simp

theorem evaluate_of_token (hToken : token ≠ .text "") (items : List String) :
    (evaluate isDefined token strengthHere stopped kind items).map Progress.outcome =
      goOn isDefined strengthHere false stopped kind token token items := by
  rw [evaluate.eq_def, if_neg hToken, goOn]

theorem readFrame_cons (hRead : Constant.read item = .ok first) (hToken : first.value ≠ .text "")
    (rest : List String) :
    readFrame isDefined strengthHere stopped (item :: rest) =
      goOn isDefined strengthHere false stopped first.kind first.value first.value rest := by
  rw [readFrame, hRead]
  exact evaluate_of_token hToken rest

theorem readFrame_error (hRead : Constant.read item = .error fault) (rest : List String) :
    readFrame isDefined strengthHere stopped (item :: rest) = .error fault := by
  rw [readFrame, hRead]
  rfl

/- An evaluation is a frame without strength. -/
theorem evaluateAll_eq_readFrame (hFilled : ∀ first, Constant.read item = .ok first →
    first.value ≠ .text "") (rest : List String) :
    (evaluateAll isDefined (item :: rest)).map Prod.fst =
      (readFrame isDefined 0 false (item :: rest)).map Prod.fst := by
  rw [evaluateAll, evaluate.eq_def]
  cases hRead : Constant.read item with
  | error fault =>
    rw [readFrame_error hRead]
    simp only [hRead]
    rfl
  | ok first =>
    rw [readFrame_cons hRead (hFilled first hRead), goOn]
    simp only [hRead, Fault.ok_bind]
    cases evaluateFrom isDefined 0 false false first.kind first.value first.value rest <;> rfl

/- The end of a step in either order of its branches. -/
theorem map_outcome_stronger (hBound : items.length ≤ size) : Except.map Progress.outcome
    (if strengthHere < strength token then do
      let more ← evaluateFrom isDefined strengthHere true stopped kind value token items
      pure (more.widen hBound)
    else pure (⟨value, token, items, hBound⟩ : Progress size)) =
      afterOperand isDefined strengthHere stopped kind value token items := by
  unfold afterOperand goOn
  split
  · cases evaluateFrom isDefined strengthHere true stopped kind value token items <;> rfl
  · rfl

theorem map_outcome_weaker (hBound : items.length ≤ size) : Except.map Progress.outcome
    (if strength token ≤ strengthHere then pure (⟨value, token, items, hBound⟩ : Progress size)
    else do
      let more ← evaluateFrom isDefined strengthHere true stopped kind value token items
      pure (more.widen hBound)) =
      afterOperand isDefined strengthHere stopped kind value token items := by
  rw [← map_outcome_stronger hBound]
  by_cases hWeaker : strength token ≤ strengthHere
  · rw [if_pos hWeaker, if_neg (by omega)]
  · rw [if_neg hWeaker, if_pos (by omega)]

/-
  Before its first operand a frame reads the operand that its token begins. The next item is the
  token read ahead if the operand leaves none.
-/
theorem goOn_operand (hAnd : token ≠ .text "&&") (hOr : token ≠ .text "||") (item : String)
    (rest : List String) :
    goOn isDefined strengthHere false stopped kind token token (item :: rest) = (do
      let next ← Constant.read item
      let step ← (unaryStep isDefined token next rest).map Progress.outcome
      afterOperand isDefined strengthHere stopped kind step.1
        (if step.2.1 = .text "" then next.value else step.2.1)
        step.2.2) := by
  rw [goOn, evaluateFrom.eq_def]
  simp only [hAnd, hOr, false_and, decide_false, Bool.or_false]
  cases Constant.read item with
  | error fault => rfl
  | ok next =>
    simp only [Fault.ok_bind]
    cases unaryStep isDefined token next rest with
    | error fault => rfl
    | ok step =>
      exact map_outcome_stronger _

/- A number is an operand by itself, and so is a text that is no operator. -/
def standsAlone : Operand → Bool
| .int _ => true
| .text s => s ∉ ["defined", "!", "~", "-", "+", "(", "&&", "||"]

theorem goOn_alone (hAlone : standsAlone token = true) (hRead : Constant.read item = .ok next)
    (rest : List String) :
    goOn isDefined strengthHere false stopped kind token token (item :: rest) =
      afterOperand isDefined strengthHere stopped kind token next.value rest := by
  cases token with
  | int n =>
    rw [goOn_operand (by simp) (by simp), hRead]
    simp only [unaryStep.eq_def]
    rfl
  | text s =>
    simp only [standsAlone, List.mem_cons, decide_eq_true_eq,
      not_or] at hAlone
    rw [goOn_operand (by simp [hAlone]) (by simp [hAlone])]
    simp only [unaryStep.eq_def]
    split <;> simp_all [Progress.outcome]

theorem closeParen_outcome (step : Progress size) : (closeParen step).map Progress.outcome =
    if step.token = .text ")" then
      .ok (step.value, (step.rest.head?.map Operand.text).getD (.text ""), step.rest.tail)
    else .error (.unexpectedToken step.token.spelling) := by
  obtain ⟨value, token, rest, hBound⟩ := step
  unfold closeParen
  split
  · cases rest <;> rfl
  · rfl

variable (op : PrefixOp)

/- The operand of a prefix operator is a frame of its own. -/
theorem unaryStep_prefixed (next : Constant) (items : List String) :
    (unaryStep isDefined (.text op.spelling) next items).map Progress.outcome = (do
      let operand ← (evaluate isDefined next.value 60 false next.kind items).map Progress.outcome
      let value ← op.apply operand.1
      .ok (value, operand.2.1, operand.2.2)) := by
  cases op with
  | minus =>
    simp only [unaryStep.eq_def]
    cases evaluate isDefined next.value 60 false next.kind items with
    | error fault => rfl
    | ok step =>
      simp only [Fault.ok_bind, Fault.ok_map, PrefixOp.apply, Progress.outcome]
      cases step.value.negate <;> rfl
  | plus | negation =>
    simp only [unaryStep.eq_def]
    cases evaluate isDefined next.value 60 false next.kind items <;> rfl
  | complement =>
    simp only [unaryStep.eq_def]
    cases evaluate isDefined next.value 60 false next.kind items with
    | error fault => rfl
    | ok step =>
      simp only [Fault.ok_bind, Fault.ok_map, PrefixOp.apply, Progress.outcome]
      cases step.value.complement <;> rfl

/- A token that an item may be read ahead as: the item itself, or its value. -/
def Ahead (item : String) (token : Operand) : Prop :=
  token = .text item ∨ ∃ kind, Constant.read item = .ok ⟨kind, token⟩

theorem Ahead.eq_text (hRead : Constant.read item = .ok ⟨0, .text item⟩)
    (hAhead : Ahead item token) : token = .text item := by
  rcases hAhead with hText | ⟨kind, hSame⟩
  · exact hText
  · rw [hRead] at hSame
    cases hSame
    rfl

/- What may follow an operand: nothing, or an item that is
  not stronger than a bound and than prefix operators. -/
def Closes (bound : Int) (follow : List String) : Prop :=
  ∀ item ∈ follow.head?, (∃ next, Constant.read item = .ok next) ∧
    ∀ token, Ahead item token → token ≠ .text "" ∧ strength token ≤ min bound 60

theorem Closes.mono (hCloses : Closes bound follow) (hLarger : bound ≤ larger) :
    Closes larger follow := by
  intro item hItem
  obtain ⟨hRead, hTokens⟩ := hCloses item hItem
  refine ⟨hRead, fun token hAhead => ?_⟩
  have hToken := hTokens token hAhead
  exact ⟨hToken.1, by omega⟩

theorem closes_of_text (hRead : Constant.read item = .ok ⟨0, .text item⟩) (hSome : item ≠ "")
    (hWeak : strength (.text item) ≤ min bound 60) : Closes bound (item :: follow) := by
  rintro _ ⟨⟩
  refine ⟨⟨_, hRead⟩, fun token hAhead => ?_⟩
  rw [hAhead.eq_text hRead]
  exact ⟨by simpa using hSome, hWeak⟩

/-
  What follows a value in a frame: nothing, in which case the token that is kept means nothing, or
  an item that is the next token.
-/
def EndsOperand (isDefined : String → Bool) (strengthHere : Int) (stopped : Bool) (kind : Int)
    (value : Operand) (result : Except Fault Outcome) :
    List String → Prop
| [] => ∃ stale, result = .ok (value, stale, [])
| item :: rest => ∃ token, Ahead item token ∧
    result = afterOperand isDefined strengthHere stopped kind value token rest

/- A frame ends before a token that is not stronger. -/
theorem EndsOperand.outcome
    (hEnds : EndsOperand isDefined strengthHere stopped kind value result follow)
    (hCloses : Closes bound follow) (hWeak : min bound 60 ≤ strengthHere) :
    ∃ token, result = .ok (value, token, follow.tail) ∧
        ∀ item ∈ follow.head?, Ahead item token := by
  cases follow with
  | nil =>
    rcases hEnds with ⟨stale, hResult⟩
    exact ⟨stale, hResult, by simp⟩
  | cons item rest =>
    obtain ⟨token, hAhead, hResult⟩ := hEnds
    have hToken := ((hCloses item rfl).2 token hAhead).2
    refine ⟨token, ?_, by simpa using hAhead⟩
    rw [hResult, afterOperand, if_neg (by omega)]
    rfl

/- A frame goes on after an operand with the token that stands there. -/
theorem endsOperand_afterOperand (hToken : ∀ item ∈ follow.head?, Ahead item token) :
    EndsOperand isDefined strengthHere stopped kind value
      (afterOperand isDefined strengthHere stopped kind value token follow.tail) follow := by
  cases follow with
  | nil => exact ⟨token, by simp⟩
  | cons item rest => exact ⟨token, hToken item rfl, rfl⟩

theorem endsOperand_alone (hAlone : standsAlone token = true)
    (hCloses : Closes bound follow) : EndsOperand isDefined strengthHere stopped kind token
      (goOn isDefined strengthHere false stopped kind token token follow) follow := by
  cases follow with
  | nil => exact ⟨_, goOn_nil⟩
  | cons item rest =>
    obtain ⟨⟨next, hRead⟩, _⟩ := hCloses item rfl
    exact ⟨next.value, .inr ⟨next.kind, hRead⟩, goOn_alone hAlone hRead rest⟩

/-
  A frame passes a fault on, and goes on after the number that it has got otherwise. The number
  comes with the mark whether computing is stopped from there on.
-/
def Delivers (isDefined : String → Bool) (strengthHere : Int) (kind : Int)
    (scanned : Except Fault (Int × Bool)) (result : Except Fault Outcome) (follow : List String) :
    Prop :=
  match scanned with
  | .error fault => result = .error fault
  | .ok (n, stopped) =>
      EndsOperand isDefined strengthHere stopped kind (.int n) result follow

theorem Delivers.map_fst (hDelivers : Delivers isDefined strengthHere kind scanned result []) :
    result.map Prod.fst = scanned.map (fun found => .int found.1) := by
  cases scanned with
  | error fault =>
    rw [hDelivers]
    rfl
  | ok found =>
    rcases hDelivers with ⟨stale, hResult⟩
    rw [hResult]
    rfl

/- A parenthesis is an operand with the value of its inside. It is always computed. -/
theorem goOn_paren (hItems : items ≠ [])
    (hCloses : Closes bound follow) (hInside : Delivers isDefined 0 insideKind scanned
        (readFrame isDefined 0 false items) (")" :: follow)) :
    Delivers isDefined strengthHere kind (scanned.map fun inside => (inside.1, stopped))
      (goOn isDefined strengthHere false stopped kind (.text "(") (.text "(") items) follow := by
  obtain ⟨item, rest, rfl⟩ := List.exists_cons_of_ne_nil hItems
  rw [goOn_operand (by simp) (by simp)]
  rw [readFrame] at hInside
  cases scanned with
  | error fault =>
    change _ = Except.error fault at hInside
    change _ = Except.error fault
    cases hRead : Constant.read item with
    | error other => simpa [hRead] using hInside
    | ok next =>
      simp only [hRead] at hInside
      simp only [unaryStep.eq_def]
      cases hStep : evaluate isDefined next.value 0 false next.kind rest with
      | error other => simpa [hStep] using hInside
      | ok step => simp [hStep] at hInside
  | ok inside =>
    obtain ⟨token, hAhead, hInside⟩ := hInside
    rw [hAhead.eq_text Constant.read_closeParen] at hInside
    change _ = Except.ok (Operand.int inside.1, Operand.text ")", follow) at hInside
    cases hRead : Constant.read item with
    | error fault => simp [hRead] at hInside
    | ok next =>
      simp only [hRead, Fault.ok_bind] at hInside
      simp only [Fault.ok_bind, unaryStep.eq_def]
      cases hStep : evaluate isDefined next.value 0 false next.kind rest with
      | error fault => simp [hStep] at hInside
      | ok step =>
        simp only [hStep, Fault.ok_map, Progress.outcome, Except.ok.injEq, Prod.mk.injEq] at hInside
        rcases hInside with ⟨hValue, hToken, rfl⟩
        simp only [Fault.ok_bind, closeParen_outcome, hToken, hValue]
        apply endsOperand_afterOperand
        intro first hFirst
        have hSome := ((hCloses first hFirst).2 _ (.inl rfl)).1
        rw [Option.mem_def] at hFirst
        exact .inl (by simp [hFirst, hSome])

theorem PrefixOp.spelling_ne_logical : (Operand.text op.spelling ≠ .text "&&") ∧
    Operand.text op.spelling ≠ .text "||" := by
  cases op <;> simp [PrefixOp.spelling]

@[simp] theorem PrefixOp.apply_int (n : Int) : op.apply (.int n) = .ok (.int (op.value n)) := by
  cases op with
  | minus | plus | complement => rfl
  | negation =>
    by_cases hZero : n = 0 <;>
      simp [PrefixOp.apply, PrefixOp.value, Operand.ofBool, Operand.truth]

/- A prefix operator with its operand is an operand. It is always computed. -/
theorem goOn_prefixed (hItems : items ≠ [])
    (hCloses : Closes bound follow) (hOperand : Delivers isDefined 60 operandKind scanned
        (readFrame isDefined 60 false items) follow) :
    Delivers isDefined strengthHere kind (scanned.map fun operand => (op.value operand.1, stopped))
      (goOn isDefined strengthHere false stopped kind (.text op.spelling) (.text op.spelling) items)
      follow := by
  obtain ⟨item, rest, rfl⟩ := List.exists_cons_of_ne_nil hItems
  rw [goOn_operand op.spelling_ne_logical.1 op.spelling_ne_logical.2]
  rw [readFrame] at hOperand
  cases scanned with
  | error fault =>
    change _ = Except.error fault at hOperand
    change _ = Except.error fault
    cases hRead : Constant.read item with
    | error other => simpa [hRead] using hOperand
    | ok next =>
      simp only [hRead, Fault.ok_bind] at hOperand
      simp [unaryStep_prefixed, hOperand]
  | ok operand =>
    rcases EndsOperand.outcome hOperand hCloses (min_le_right _ _) with ⟨token, hFrame, hToken⟩
    cases hRead : Constant.read item with
    | error fault => simp [hRead] at hFrame
    | ok next =>
      simp only [hRead, Fault.ok_bind] at hFrame
      simp only [Fault.ok_bind, unaryStep_prefixed, hFrame, PrefixOp.apply_int]
      apply endsOperand_afterOperand
      intro first hFirst
      rw [if_neg ((hCloses first hFirst).2 token (hToken first hFirst)).1]
      exact hToken first hFirst

end

-- Binary operators

namespace BinaryOp

theorem settled_of_not_decidedBy {op : BinaryOp} (hOpen : op.decidedBy m = false) :
    op.settled m = m := by
  cases op with
  | logicalOr =>
    have hZero : m = 0 := by simpa [decidedBy] using hOpen
    simp [settled, hZero]
  | _ => rfl

variable (op : BinaryOp)

@[simp] theorem ofText?_spelling : ofText? op.spelling = some op := by
  cases op <;> rfl

@[simp] theorem strength_spelling : Expr.strength (.text op.spelling) = op.strength := by
  cases op <;> rfl

/- An operator above the frame takes its right operand from its own strength on. -/
theorem rightStrength_spelling (hStronger : strengthHere < op.strength) :
    rightStrength (.text op.spelling) strengthHere = op.strength := by
  unfold rightStrength
  rw [strength_spelling, if_neg]
  omega

/- An operator between two operands is applied to them. -/
theorem binaryStep_spelling (isDefined : String → Bool) (left right : Operand)
    (items : List String) : binaryStep isDefined (.text op.spelling) left right items =
      (op.apply left right).map (fun value => ⟨value, .text "", items, Nat.le_refl _⟩) := by
  rw [binaryStep.eq_def]
  split
  · next hSame =>
      exact absurd (Operand.text.inj hSame) (by cases op <;> decide)
  · next hSame =>
      exact absurd (Operand.text.inj hSame) (by cases op <;> decide)
  · next s _ _ hSame =>
      cases hSame
      simp only [ofText?_spelling]
      cases op.apply left right <;> rfl
  · next n hSame => exact absurd hSame (by simp)

end BinaryOp

section

variable {isDefined : String → Bool} {strengthHere : Int} {stopped : Bool} {kind : Int}

/-
  A binary operator above the frame reads its right operand in a frame of the operator's strength.
  Once computing is stopped the left operand stays as it is.
-/
theorem goOn_binary (op : BinaryOp) (m : Int)
    (hStronger : strengthHere < op.strength) (item : String) (rest : List String) :
    goOn isDefined strengthHere true stopped kind (.int m) (.text op.spelling) (item :: rest) = (do
      let next ← Constant.read item
      let right ← readFrame isDefined op.strength (stopped || op.decidedBy m) (item :: rest)
      if stopped || op.decidedBy m then
        afterOperand isDefined strengthHere true kind (.int (op.settled m)) right.2.1 right.2.2
      else do
        let (l, r) ← balance (.text op.spelling) kind next.kind (.int m) right.1
        let value ← op.apply l r
        afterOperand isDefined strengthHere false kind value right.2.1 right.2.2) := by
  have hStopped : (stopped || decide (Operand.text op.spelling = .text "&&" ∧
      Operand.int m = .int 0) ||
          decide (Operand.text op.spelling = .text "||" ∧ Operand.int m ≠ .int 0)) =
        (stopped || op.decidedBy m) := by
    cases op <;> simp [BinaryOp.spelling, BinaryOp.decidedBy]
  have hSettled : (if Operand.text op.spelling = .text "||" ∧
      Operand.int m ≠ .int 0 then Operand.int 1
        else .int m) = .int (op.settled m) := by
    cases op with
    | logicalOr =>
      by_cases hZero : m = 0 <;>
        simp [BinaryOp.spelling, BinaryOp.settled, hZero]
    | _ => simp [BinaryOp.spelling, BinaryOp.settled]
  rw [goOn, evaluateFrom.eq_def]
  simp only [hStopped, hSettled, op.rightStrength_spelling hStronger, readFrame]
  cases Constant.read item with
  | error fault => rfl
  | ok next =>
    simp only [Fault.ok_bind]
    cases evaluate isDefined next.value op.strength (stopped || op.decidedBy m) next.kind rest with
    | error fault => rfl
    | ok right =>
      simp only [Fault.ok_bind, Fault.ok_map]
      by_cases hNow : (stopped || op.decidedBy m) = true
      · rw [if_pos hNow, if_pos hNow, hNow]
        exact map_outcome_weaker _
      · rw [Bool.not_eq_true, Bool.or_eq_false_iff] at hNow
        rw [hNow.1, hNow.2, BinaryOp.settled_of_not_decidedBy hNow.2]
        simp only [Progress.outcome]
        cases balance (.text op.spelling) kind next.kind (.int m) right.value with
        | error fault => rfl
        | ok operands =>
          simp only [Fault.ok_bind, op.binaryStep_spelling]
          cases op.apply operands.1 operands.2 with
          | error fault => rfl
          | ok value => exact map_outcome_weaker _

end

end Expr

end CHeader
