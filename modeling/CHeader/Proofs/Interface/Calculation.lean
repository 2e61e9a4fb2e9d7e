import CHeader.Interface.Meaning
import CHeader.Proofs.Expr.Reading
import CHeader.Proofs.Step

/-
  Two ways to compute a constant expression.

  The value of an expression in a declaration is computed along its tree. The same expression as a
  text, with every operand that has parts in parentheses, has the same value by operator strength,
  whatever white space it is written with.

  Main declarations:
    * `Declaration.Expr.Numeric`
    * `Declaration.Expr.tokens`
    * `Work.calculate_agrees_with_text`
-/

namespace CHeader

namespace Declaration.Expr

/- Whether an expression is made of decimal and hexadecimal
  constants by operators before and between operands. -/
def Numeric : Declaration.Expr → Prop
| .constant kind text =>
    kind = .int ∧ CHeader.Expr.isNumeral text = true
| .unary _ operand => operand.Numeric
| .binary _ left right => left.Numeric ∧ right.Numeric
| _ => False

def isCompound : Declaration.Expr → Bool
| .constant _ _ => false
| _ => true

def operandItems (expr : Declaration.Expr) (items : List String) : List String :=
  if expr.isCompound then CHeader.Expr.enclosed items else items

def tokens : Declaration.Expr → List String
| .constant _ text => [text]
| .unary op operand =>
    op :: operand.operandItems operand.tokens
| .binary op left right =>
    left.operandItems left.tokens ++ op :: right.operandItems right.tokens
| _ => []

end Declaration.Expr

namespace Work

open Declaration (ConstantKind)
open Step (exec exec_bind exec_bind_eq_ok exec_lift exec_tryCatch)

variable {isDefined : String → Bool} {expr left right : Declaration.Expr} {work next : Workspace}
variable {value : Value} {m n : Int}
variable {text : String} {op : Expr.BinaryOp}

/- Whether the items of an expression are read as a number, also where the expression is an operand. -/
structure Agrees (isDefined : String → Bool) (expr : Declaration.Expr) (n : Int) : Prop where
  phrase : Expr.Phrase expr.tokens
  reads : ∃ bound, 0 < bound ∧ Expr.Reads isDefined expr.tokens bound n
  bare : expr.isCompound = false → Expr.Reads isDefined expr.tokens 70 n

theorem Agrees.operand (hExpr : Agrees isDefined expr n) :
    Expr.Phrase (expr.operandItems expr.tokens) ∧
      Expr.Reads isDefined (expr.operandItems expr.tokens) 70 n := by
  obtain ⟨bound, hBound, hReads⟩ := hExpr.reads
  unfold Declaration.Expr.operandItems
  split_ifs with hCompound
  · exact ⟨hExpr.phrase.enclosed, hReads.enclosed hBound⟩
  · exact ⟨hExpr.phrase, hExpr.bare (by simpa using hCompound)⟩

theorem agrees_constant (hNumeral : Expr.isNumeral text = true)
    (hRead : Text.readLiteral? text = some n) : Agrees isDefined (.constant kind text) n := by
  have hReads : Expr.Reads isDefined [text] 70 n := Expr.reads_numeral hNumeral hRead
  exact ⟨Expr.phrase_numeral hNumeral, ⟨70, by decide, hReads⟩, fun _ => hReads⟩

theorem Agrees.unary (hExpr : Agrees isDefined expr n) (op : Expr.PrefixOp) :
    Agrees isDefined (.unary op.spelling expr) (op.value n) := by
  obtain ⟨hPhrase, hReads⟩ := hExpr.operand
  exact ⟨hPhrase.prefixed op, ⟨70, by decide, hReads.prefixed op⟩, nofun⟩

theorem Agrees.binary (hLeft : Agrees isDefined left m) (hRight : Agrees isDefined right n)
    (hOp : op.isLogical = false) (hValue : op.value m n = .ok result) :
    Agrees isDefined (.binary op.spelling left right) result := by
  obtain ⟨hLeftPhrase, hLeftReads⟩ := hLeft.operand
  obtain ⟨hRightPhrase, hRightReads⟩ := hRight.operand
  exact ⟨hLeftPhrase.binary hRightPhrase op, ⟨op.strength, op.strength_bounds.1,
      hLeftReads.binary hRightReads (by have := op.strength_bounds; omega)
        (by have := op.strength_bounds; omega) hOp hValue⟩, nofun⟩

-- Along the tree

theorem exec_constantValue
    (hCalc : exec (lift (constantValue (constantKindName .int) text)) work = (.ok value, next)) :
    next = work ∧ ∃ n, value = .int n ∧ Text.readLiteral? text = some n := by
  rw [exec_lift, constantValue, constantKindName, if_pos rfl] at hCalc
  cases hRead : Text.readLiteral? text with
  | none => simp [hRead] at hCalc
  | some n =>
    simp only [hRead, Prod.mk.injEq, Except.ok.injEq] at hCalc
    exact ⟨hCalc.2.symm, n, hCalc.1.symm, rfl⟩

/- An operator in front takes a constant and nothing else as its operand. -/
theorem exec_operand_ok (isDefined : String → Bool) (hNumeric : expr.Numeric)
    (hCalc : exec (orPointer (valueOfOperand expr)) work = (.ok value, next)) :
    next = work ∧ ∃ n, value = .int n ∧ Agrees isDefined expr n := by
  rw [orPointer, exec_tryCatch] at hCalc
  cases expr with
  | constant kind text =>
    obtain ⟨rfl, hNumeral⟩ := hNumeric
    rw [valueOfOperand] at hCalc
    rcases hRun : exec (lift (constantValue (constantKindName .int) text))
        work with ⟨fault | found, later⟩
    · rw [hRun] at hCalc
      have hFault : fault = .badValue := by
        rw [constantValue, constantKindName, if_pos rfl] at hRun
        split at hRun <;> cases hRun
        rfl
      subst hFault
      cases hCalc
    · rw [hRun] at hCalc
      cases hCalc
      obtain ⟨hNext, n, hValue, hRead⟩ := exec_constantValue hRun
      exact ⟨hNext, n, hValue, agrees_constant hNumeral hRead⟩
  | unary | binary => cases hCalc
  | _ => cases hNumeric

/- What an operator in front of a whole number makes of it. -/
theorem exec_applyFront_int {op : String}
    (hCalc : exec (applyFront op (.int m)) work = (.ok value, next)) :
    next = work ∧ ∃ front : Expr.PrefixOp, op = front.spelling ∧ value = .int (front.value m) := by
  unfold applyFront at hCalc
  split at hCalc
  · cases hCalc
    exact ⟨rfl, .minus, rfl, rfl⟩
  · cases hCalc
    exact ⟨rfl, .plus, rfl, rfl⟩
  · cases hCalc
    exact ⟨rfl, .complement, rfl, rfl⟩
  · cases hCalc
  · cases hCalc

theorem ofText?_eq_some (hText : Expr.BinaryOp.ofText? s = some op) : op.spelling = s := by
  unfold Expr.BinaryOp.ofText? at hText
  split at hText <;> cases hText <;> rfl

/- The operators between constants of declarations are none of the logical ones. -/
theorem operator?_eq_some (hMark : Value.operator? mark = some op) :
    op.spelling = mark ∧ op.isLogical = false := by
  rw [Value.operator?, Option.filter_eq_some_iff] at hMark
  refine ⟨ofText?_eq_some hMark.1, ?_⟩
  have hAllowed := hMark.2
  cases op <;> first | rfl | cases hAllowed

/- What a tree of constants and operators is worth is what its items are read as. -/
theorem agrees_of_calculate (isDefined : String → Bool) : (expr : Declaration.Expr) → expr.Numeric →
    ∀ {work next : Workspace} {value : Value},
      exec (calculate expr) work = (.ok value, next) → next = work ∧
          ∃ n, value = .int n ∧ Agrees isDefined expr n
| .constant kind text, ⟨hKind, hNumeral⟩, work, next, value, hCalc => by
  subst hKind
  rw [calculate] at hCalc
  obtain ⟨hNext, n, hValue, hRead⟩ := exec_constantValue hCalc
  exact ⟨hNext, n, hValue, agrees_constant hNumeral hRead⟩
| .unary op operand, hNumeric, work, next, value, hCalc => by
  rw [calculate] at hCalc
  split_ifs at hCalc
  · cases hCalc
  · have hNumeric : operand.Numeric := hNumeric
    obtain ⟨_, _, hFirst, hCalc⟩ := exec_bind_eq_ok hCalc
    obtain ⟨rfl, m, rfl, hOperand⟩ := exec_operand_ok isDefined hNumeric hFirst
    obtain ⟨hNext, front, rfl, hValue⟩ := exec_applyFront_int hCalc
    exact ⟨hNext, front.value m, hValue, hOperand.unary front⟩
| .binary mark left right, ⟨hLeft, hRight⟩, work, next, value, hCalc => by
  rw [calculate] at hCalc
  obtain ⟨_, _, hFirst, hCalc⟩ := exec_bind_eq_ok hCalc
  obtain ⟨_, _, hSecond, hCalc⟩ := exec_bind_eq_ok hCalc
  obtain ⟨rfl, m, rfl, hLeft⟩ := agrees_of_calculate isDefined left hLeft hFirst
  obtain ⟨rfl, n, rfl, hRight⟩ := agrees_of_calculate isDefined right hRight hSecond
  cases hOp : Value.operator? mark with
  | none => simp [hOp] at hCalc
  | some op =>
    obtain ⟨rfl, hLogical⟩ := operator?_eq_some hOp
    simp only [hOp, exec_lift] at hCalc
    have hBinary : Value.binary op (.int m) (.int n) = (op.value m n).map .int := by
      simp only [Value.binary, Value.operand?, op.apply_int]
      cases op.value m n <;> rfl
    rw [hBinary] at hCalc
    cases hValue : op.value m n with
    | error fault => simp [hValue] at hCalc
    | ok result =>
      simp only [hValue, Fault.ok_map, Prod.mk.injEq, Except.ok.injEq] at hCalc
      exact ⟨hCalc.2.symm, result, hCalc.1.symm, hLeft.binary hRight hLogical hValue⟩
| .name _, hFalse, _, _, _, _ => hFalse.elim
| .sizeofType _, hFalse, _, _, _, _ => hFalse.elim
| .conditional _ _ _, hFalse, _, _, _, _ => hFalse.elim
| .unvalued _, hFalse, _, _, _, _ => hFalse.elim

/-
  The two ways to compute a constant expression agree. If a tree of decimal and hexadecimal
  constants and operators has a value, it is a whole number, and the text of the tree has the same
  value: with parentheses around every operand that has parts, with or without them around all of
  it, and with any white space.
-/
theorem calculate_agrees_with_text
    {text : String}
    (hNumeric : expr.Numeric)
    (hCalc :
      exec (calculate expr) work = (.ok value, next))
    (hText :
      Expr.LaidOut expr.tokens text.toList ∨
        Expr.LaidOut (expr.operandItems expr.tokens)
          text.toList) :
    ∃ n, value = .int n ∧
      Expr.valueOfText text = .ok (.int n) := by
  obtain ⟨_, n, rfl, hExpr⟩ := agrees_of_calculate (fun _ => false) expr hNumeric hCalc
  have hItems : ∃ items bound, Expr.LaidOut items text.toList ∧ Expr.Phrase items ∧ 0 < bound ∧
        Expr.Reads (fun _ => false) items bound n := by
    rcases hText with hText | hText
    · obtain ⟨bound, hBound, hReads⟩ := hExpr.reads
      exact ⟨_, bound, hText, hExpr.phrase, hBound, hReads⟩
    · obtain ⟨hPhrase, hReads⟩ := hExpr.operand
      exact ⟨_, 70, hText, hPhrase, by decide, hReads⟩
  obtain ⟨items, bound, hLaid, hPhrase, hBound, _, _, hReads⟩ := hItems
  refine ⟨n, rfl, ?_⟩
  rw [Expr.valueOfText, Expr.lexemes, hLaid.lexemesFrom_eq hPhrase.isItem hPhrase.chain,
    hReads.evaluateAll_eq hBound]

/- The tree of `((0x1F - 3) << 2) >= (-5)`. -/
def shiftedBound : Declaration.Expr :=
  .binary ">=" (.binary "<<" (.binary "-" (.constant .int "0x1F") (.constant .int "3"))
      (.constant .int "2"))
    (.unary "-" (.constant .int "5"))

theorem calculate_agrees_on_shiftedBound :
    (exec (calculate shiftedBound) default).1 =
        .ok (.int 1) ∧
      ∃ n, Value.int 1 = .int n ∧
        Expr.valueOfText "((0x1F-3) << 2) >= ( - 5 )" =
          .ok (.int n) := by
  have hValue : (exec (calculate shiftedBound) default).1 = .ok (.int 1) := by
    simp [shiftedBound, calculate, exec_bind, constantValue,
      constantKindName, isFrontOperator, valueOfOperand, orPointer, exec_tryCatch]
    rfl
  have hNumeric : shiftedBound.Numeric := by
    simp only [shiftedBound, Declaration.Expr.Numeric]
    decide
  have hText : Expr.LaidOut shiftedBound.tokens "((0x1F-3) << 2) >= ( - 5 )".toList :=
    .of_isLaidOut (by decide)
  exact ⟨hValue, calculate_agrees_with_text hNumeric
    (Step.exec_eq_of_toOption (by rw [hValue]; rfl))
    (.inl hText)⟩

end Work

end CHeader
