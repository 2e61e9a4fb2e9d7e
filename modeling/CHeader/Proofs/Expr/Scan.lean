import CHeader.Proofs.Expr.Frame

/-
  What the evaluation of a written expression computes.

  A frame marks with one flag that a logical operator has been decided. The flag stays set for the
  rest of the frame and is handed to the right operands of binary operators, and not to parentheses
  and the operands of prefix operators. The scan of a written expression follows the flag along the
  expression instead of the tokens; its value is the value of the evaluation.

  Main declarations:
    * `Expr.BinaryOp.apply_int`
    * `Expr.Written.scan`
    * `Expr.Written.readFrame_tokens`
-/

namespace CHeader

open List

namespace Expr

-- Operators on numbers

/- The bits of a number split by those of another. -/
theorem land_add_ldiff (m n : Nat) : (m &&& n) + m.ldiff n = m := by
  induction m using Nat.binaryRec generalizing n with
  | zero => simp [Nat.ldiff]
  | bit b m ih =>
    rw [← Nat.bit_bodd_div2 n, Nat.land_bit, Nat.ldiff_bit]
    have hRest := ih n.div2
    cases b <;> cases n.bodd <;> simp <;> omega

theorem bitAnd_eq_land (m n : Int) : bitAnd m n = Int.land m n := by
  rcases m with m | m <;> rcases n with n | n
  · rfl
  · have hSplit := land_add_ldiff m n
    exact congrArg Int.ofNat (by omega)
  · have hSplit := land_add_ldiff n m
    exact congrArg Int.ofNat (by omega)
  · rfl

theorem bitXor_eq_xor (m n : Int) : bitXor m n = Int.xor m n := by
  rcases m with m | m <;> rcases n with n | n <;> rfl

theorem neg_sub_one_eq_lnot (n : Int) : -n - 1 = Int.lnot n := by
  rcases n with n | n
  · simp only [Int.lnot, Int.ofNat_eq_natCast]
    omega
  · simp only [Int.lnot]
    omega

/- Bitwise or by the complements of its operands. -/
theorem bitOr_eq_lor (m n : Int) : bitOr m n = Int.lor m n := by
  rw [bitOr, bitAnd_eq_land, neg_sub_one_eq_lnot, neg_sub_one_eq_lnot, neg_sub_one_eq_lnot]
  rcases m with m | m <;> rcases n with n | n <;> rfl

namespace BinaryOp

theorem ofBool_decide (p : Prop) [Decidable p] :
    Operand.ofBool (decide p) = .int (indicator p) := by
  by_cases hHolds : p <;> simp [Operand.ofBool, indicator]

theorem conclude_int (n : Int) : conclude (.int n) = .ok (.int (indicator (n ≠ 0))) := by
  unfold conclude
  split
  · next hSame =>
      cases hSame
      rfl
  · next hOther hSame =>
      cases hSame
      have hNonzero : n ≠ 0 := by
        rintro rfl
        exact hOther rfl
      simp [indicator, hNonzero]
  · next hSame => exact absurd hSame (by simp)
  · next hSame => exact absurd hSame (by simp)

theorem apply_int (op : BinaryOp) (m n : Int) :
    op.apply (.int m) (.int n) = (op.value m n).map .int := by
  cases op with
  | mul | div | mod | add | sub => rfl
  | shiftRight =>
    have hFloor : m >>> n.toNat = m.fdiv (2 ^ n.toNat) := by
      rw [Int.shiftRight_eq_div_pow, Int.fdiv_eq_ediv_of_nonneg _ (by positivity)]
      simp
    simp only [apply, onInts, value, hFloor]
  | shiftLeft =>
    simp only [apply, onInts, value]
    simp
  | gt | ge | lt | le | eq | ne =>
    simp [apply, compare, value, ← ofBool_decide]
  | bitAnd =>
    simp only [apply, onInts, value, bitAnd_eq_land]
  | bitXor =>
    simp only [apply, onInts, value, bitXor_eq_xor]
  | bitOr =>
    simp only [apply, onInts, value, bitOr_eq_lor]
  | logicalAnd | logicalOr =>
    by_cases hZero : m = 0 <;>
      simp [apply, value, Operand.truth, hZero, conclude_int]

end BinaryOp

-- Scans

namespace Written

open Constant

/-
  The number that a written expression is worth in a frame and whether computing is stopped after
  it, given whether it is stopped before.
-/
def scan : Written → Bool → Except Fault (Int × Bool)
| literal n, stopped =>
    if n.repr.length ≤ Text.decimalDigitLimit then
      .ok (n, stopped)
    else .error .badValue
| paren inside, stopped =>
    (inside.scan false).map fun found => (found.1, stopped)
| prefixed op operand, stopped =>
    (operand.scan false).map fun found => (op.value found.1, stopped)
| binary op left right, stopped => do
    let (m, before) ← left.scan stopped
    let (n, _) ← right.scan (before || op.decidedBy m)
    if before || op.decidedBy m then
      .ok (op.settled m, true)
    else (op.value m n).map fun value => (value, false)

/- The strength of the frames that can read an expression
  lies below that of its outermost binary operator. -/
def strength : Written → Int
| binary op _ _ => op.strength
| _ => 70

def kind : Written → Int
| literal _ => 1
| paren _ => 0
| prefixed _ _ => 0
| binary _ left _ => left.kind

theorem kind_eq (written : Written) : written.kind = 0 ∨ written.kind = 1 := by
  induction written with
  | literal n => exact .inr rfl
  | paren | prefixed => exact .inl rfl
  | binary op left right ihLeft ihRight => exact ihLeft

theorem tokens_eq_cons (written : Written) : ∃ item rest, written.tokens = item :: rest ∧
    ∀ first, read item = .ok first → first.kind = written.kind ∧ first.value ≠ .text "" := by
  induction written with
  | literal n =>
    refine ⟨n.repr, [], rfl, ?_⟩
    intro first hRead
    rw [read_repr] at hRead
    split at hRead
    · cases hRead
      exact ⟨rfl, by simp [signed]⟩
    · cases hRead
  | paren inside ih =>
    refine ⟨"(", _, rfl, ?_⟩
    intro first hRead
    rw [read_openParen] at hRead
    cases hRead
    exact ⟨rfl, by simp⟩
  | prefixed op operand ih =>
    refine ⟨op.spelling, _, rfl, ?_⟩
    intro first hRead
    rw [read_prefixOp] at hRead
    cases hRead
    exact ⟨rfl, by cases op <;> simp [PrefixOp.spelling]⟩
  | binary op left right ihLeft ihRight =>
    rcases ihLeft with ⟨item, rest, hTokens, hFirst⟩
    refine ⟨item, rest ++ op.spelling :: right.tokens, ?_, hFirst⟩
    simp [tokens, hTokens]

theorem tokens_ne_nil (written : Written) : written.tokens ≠ [] := by
  rcases written.tokens_eq_cons with ⟨item, rest, hTokens, _⟩
  simp [hTokens]

end Written

/- Operators that the grammar puts higher are stronger. -/
theorem BinaryOp.strength_le_iff_level_le (op other : BinaryOp) :
    op.strength ≤ other.strength ↔ op.level ≤ other.level := by
  cases op <;> cases other <;> decide

theorem BinaryOp.strength_bounds (op : BinaryOp) : 0 < op.strength ∧ op.strength < 60 := by
  cases op <;> decide

namespace Written

variable {written : Written}

theorem strength_pos (written : Written) : 0 < written.strength := by
  cases written with
  | binary op left right => exact op.strength_bounds.1
  | _ => simp [strength]

/- Unary expressions hold most strongly. -/
theorem strength_of_unary (hUnary : 11 ≤ written.level) : written.strength = 70 := by
  cases written with
  | binary op left right =>
    have hBinary : op.level < 11 := by
      cases op <;> decide
    exact absurd hUnary (by simp only [level]; omega)
  | _ => rfl

/- An operator of a higher production is read by frames of operators of a lower one. -/
theorem strength_le_of_level_le {op : BinaryOp} (hLevel : op.level ≤ written.level) :
    op.strength ≤ written.strength := by
  cases written with
  | binary other left right =>
    exact (op.strength_le_iff_level_le other).2 hLevel
  | _ =>
    have hBound := op.strength_bounds.2
    simp only [strength]
    omega

theorem strength_lt_of_level_lt {op : BinaryOp} (hLevel : op.level < written.level) :
    op.strength < written.strength := by
  cases written with
  | binary other left right =>
    have hConverse := other.strength_le_iff_level_le op
    simp only [level] at hLevel
    simp only [strength]
    omega
  | _ =>
    have hBound := op.strength_bounds.2
    simp only [strength]
    omega

end Written

-- Frames over written expressions

theorem closes_closeParen (hBound : 0 ≤ bound) (rest : List String) : Closes bound (")" :: rest) :=
  closes_of_text Constant.read_closeParen (by decide) (le_min hBound (by decide))

theorem closes_operator (op : BinaryOp) (hWeak : op.strength ≤ bound) (rest : List String) :
    Closes bound (op.spelling :: rest) := by
  refine closes_of_text (Constant.read_binaryOp op) (by cases op <;> decide) ?_
  rw [BinaryOp.strength_spelling]
  exact le_min hWeak op.strength_bounds.2.le

/- Numbers without a sign mark are not converted. -/
theorem balance_plain (op left right : Operand) (hKind : kind = 0 ∨ kind = 1)
    (hItemKind : itemKind = 0 ∨ itemKind = 1) :
    balance op kind itemKind left right = .ok (left, right) := by
  unfold balance
  rcases hKind with rfl | rfl <;> rcases hItemKind with rfl | rfl <;>
    simp [toUnsigned]

section

variable {isDefined : String → Bool} {strengthHere : Int} {stopped : Bool} {kind : Int}

/- A binary operator delivers its value of the converted operands if its right operand does. -/
theorem goOn_binary_delivers (op : BinaryOp) (m : Int) {item : String} {rest follow : List String}
    {rightKind l : Int} {r : Int → Int} {scanned : Except Fault (Int × Bool)}
    (hStronger : strengthHere < op.strength) (hCloses : Closes op.strength follow)
    (hBalance : ∀ first, Constant.read item = .ok first → ∀ n,
      balance (.text op.spelling) kind first.kind (.int m) (.int n) = .ok (.int l, .int (r n)))
    (hRight : Delivers isDefined op.strength rightKind scanned (readFrame isDefined op.strength
        (stopped || op.decidedBy m) (item :: rest)) follow) :
    Delivers isDefined strengthHere kind (do
        let (n, _) ← scanned
        if stopped || op.decidedBy m then .ok (op.settled m, true)
        else (op.value l (r n)).map fun value => (value, false))
      (goOn isDefined strengthHere true stopped kind (.int m) (.text op.spelling) (item :: rest))
      follow := by
  rw [goOn_binary op m hStronger]
  cases hRead : Constant.read item with
  | error fault =>
    rw [readFrame_error hRead] at hRight
    cases scanned with
    | error other => exact hRight
    | ok found =>
      rcases EndsOperand.outcome hRight hCloses (min_le_left _ _) with ⟨token, hFrame, _⟩
      cases hFrame
  | ok next =>
    cases scanned with
    | error fault =>
      rw [hRight]
      rfl
    | ok found =>
      rcases EndsOperand.outcome hRight hCloses (min_le_left _ _) with ⟨token, hFrame, hToken⟩
      rw [hFrame]
      simp only [Fault.ok_bind]
      by_cases hNow : (stopped || op.decidedBy m) = true
      · rw [if_pos hNow, if_pos hNow]
        exact endsOperand_afterOperand hToken
      · rw [if_neg hNow, if_neg hNow, hBalance next hRead]
        simp only [Fault.ok_bind, op.apply_int]
        cases op.value l (r found.1) with
        | error fault => rfl
        | ok value =>
          exact endsOperand_afterOperand hToken

end

namespace Written

variable (isDefined : String → Bool)

/-
  A frame reads a proper expression and delivers its scan. The frame must be weaker than the
  expression, and what follows must not be stronger.
-/
theorem readFrame_tokens (written : Written) (hProper : written.Proper) (strengthHere : Int)
    (stopped : Bool) (follow : List String) (hStronger : strengthHere < written.strength)
    (hCloses : Closes written.strength follow) :
    Delivers isDefined strengthHere written.kind (written.scan stopped)
      (readFrame isDefined strengthHere stopped (written.tokens ++ follow)) follow := by
  -- The frame and the follow change with every operand.
  induction written generalizing strengthHere stopped follow with
  | literal n =>
    have hRead := Constant.read_repr n
    simp only [tokens, cons_append, scan]
    by_cases hLength : n.repr.length ≤ Text.decimalDigitLimit
    · rw [if_pos hLength] at hRead ⊢
      rw [readFrame_cons hRead (by simp [Constant.signed])]
      exact endsOperand_alone rfl hCloses
    · rw [if_neg hLength] at hRead ⊢
      exact readFrame_error hRead follow
  | paren inside ih =>
    have hInside := ih hProper 0 false (")" :: follow) inside.strength_pos
      (closes_closeParen inside.strength_pos.le _)
    simp only [tokens, cons_append, append_assoc]
    rw [readFrame_cons Constant.read_openParen (by simp)]
    exact goOn_paren (by simp) hCloses hInside
  | prefixed op operand ih =>
    have hUnary := strength_of_unary hProper.2
    have hOperand := ih hProper.1 60 false follow
      (by rw [hUnary]; decide) (by rw [hUnary]; exact hCloses)
    simp only [tokens, cons_append]
    rw [readFrame_cons (Constant.read_prefixOp op) (by cases op <;> simp [PrefixOp.spelling])]
    exact goOn_prefixed op (by simp [operand.tokens_ne_nil]) hCloses hOperand
  | binary op left right ihLeft ihRight =>
    rcases hProper with ⟨hLeftProper, hRightProper, hLeftLevel, hRightLevel⟩
    have hLeft := ihLeft hLeftProper strengthHere stopped (op.spelling :: (right.tokens ++ follow))
      (hStronger.trans_le (strength_le_of_level_le hLeftLevel))
      (closes_operator op (strength_le_of_level_le hLeftLevel) _)
    simp only [tokens, append_assoc, cons_append, scan]
    cases hScan : left.scan stopped with
    | error fault =>
      rw [hScan] at hLeft
      exact hLeft
    | ok found =>
      rw [hScan] at hLeft
      obtain ⟨token, hAhead, hLeft⟩ := hLeft
      rw [hLeft, hAhead.eq_text (Constant.read_binaryOp op), afterOperand,
        if_pos (by simpa [strength] using hStronger)]
      have hAbove := strength_lt_of_level_lt hRightLevel
      have hRight := ihRight hRightProper op.strength
        (found.2 || op.decidedBy found.1) follow hAbove
        (hCloses.mono hAbove.le)
      rcases right.tokens_eq_cons with ⟨item, rest, hTokens, hFirst⟩
      rw [hTokens] at hRight ⊢
      refine goOn_binary_delivers op found.1 (r := id) hStronger hCloses
        (fun first hRead n => ?_) hRight
      exact balance_plain _ _ _ left.kind_eq ((hFirst first hRead).1 ▸ right.kind_eq)

/- The evaluation of a proper expression has the value of its scan. -/
theorem evaluateAll_tokens (written : Written) (hProper : written.Proper) :
    (evaluateAll isDefined written.tokens).map Prod.fst =
      (written.scan false).map (fun found => .int found.1) := by
  have hFrame := written.readFrame_tokens isDefined hProper
    0 false [] written.strength_pos (by simp [Closes])
  rcases written.tokens_eq_cons with ⟨item, rest, hTokens, hFirst⟩
  rw [append_nil] at hFrame
  rw [← hFrame.map_fst, hTokens]
  exact evaluateAll_eq_readFrame (fun first hRead => (hFirst first hRead).2) rest

end Written

end Expr

end CHeader
