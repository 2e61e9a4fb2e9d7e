import CHeader.Proofs.Expr.Scan

/-
  Precedence and associativity of the evaluation.

  Without logical operators no frame is ever stopped, so the scan of a written expression is the
  value of its tree and the parentheses do not matter. The one limit is on the length of the
  literals: a literal of more digits than are read at all makes the evaluation fail, even where the
  tree has a value.

  Main declarations:
    * `Expr.Written.scan_eq_value`
    * `Expr.Written.scan_error_of_not_readable`
    * `Expr.evaluateAll_prints`
-/

namespace CHeader

namespace Expr

-- Scans without logical operators

/- Only logical operators are decided by one operand. -/
theorem BinaryOp.decidedBy_of_not_isLogical {op : BinaryOp} (hOp : op.isLogical = false) (m : Int) :
    op.decidedBy m = false := by
  cases op with
  | logicalAnd | logicalOr => cases hOp
  | _ => rfl

namespace Written

/- The scan of an arithmetic expression is the value of its tree. -/
theorem scan_eq_value (written : Written) (hArithmetic : written.tree.Arithmetic)
    (hReadable : written.tree.Readable) :
    written.scan false = written.tree.value.map (fun n => (n, false)) := by
  induction written with
  | literal n =>
    have hLength : n.repr.length ≤ Text.decimalDigitLimit := hReadable
    rw [scan, if_pos hLength]
    rfl
  | paren inside ih =>
    rw [scan, ih hArithmetic hReadable, tree]
    cases inside.tree.value <;> rfl
  | prefixed op operand ih =>
    rw [scan, ih hArithmetic hReadable, tree, Tree.value]
    cases operand.tree.value <;> rfl
  | binary op left right ihLeft ihRight =>
    rcases hArithmetic with ⟨hOp, hLeft, hRight⟩
    rw [scan, ihLeft hLeft hReadable.1, tree, Tree.value]
    cases left.tree.value with
    | error fault => rfl
    | ok m =>
      simp only [Fault.ok_map, Fault.ok_bind, op.decidedBy_of_not_isLogical hOp,
        Bool.or_false, ihRight hRight hReadable.2]
      cases right.tree.value with
      | error fault => rfl
      | ok n => rfl

theorem scan_error_of_not_readable (written : Written) (hUnreadable : ¬written.tree.Readable)
    (stopped : Bool) : ∃ fault, written.scan stopped = .error fault := by
  induction written generalizing stopped with
  | literal n =>
    have hLength : ¬n.repr.length ≤ Text.decimalDigitLimit := hUnreadable
    exact ⟨.badValue, by rw [scan, if_neg hLength]⟩
  | paren _ ih | prefixed _ _ ih =>
    rcases ih hUnreadable false with ⟨fault, hScan⟩
    exact ⟨fault, by rw [scan, hScan]; rfl⟩
  | binary op left right ihLeft ihRight =>
    rw [scan]
    cases hLeft : left.scan stopped with
    | error fault => exact ⟨fault, rfl⟩
    | ok found =>
      have hRight : ¬right.tree.Readable := by
        intro hReadable
        apply hUnreadable
        refine ⟨?_, hReadable⟩
        by_contra hOther
        rcases ihLeft hOther stopped with ⟨fault, hScan⟩
        rw [hLeft] at hScan
        cases hScan
      rcases ihRight hRight (found.2 || op.decidedBy found.1) with ⟨fault, hScan⟩
      exact ⟨fault, by simp [hScan]⟩

end Written

-- Evaluation of printed trees

/-
  The evaluation of a printed arithmetic tree gives the value of the tree over unbounded numbers, or
  the fault that computing it raises, as long as no literal is too long. With a literal that is too
  long it always fails.
-/
theorem evaluateAll_prints
    (isDefined : String → Bool)
    (tree : Tree)
    (tokens : List String)
    (hPrints : Prints tree tokens)
    (hArithmetic : tree.Arithmetic) :
    (tree.Readable →
      (evaluateAll isDefined tokens).map Prod.fst =
        tree.value.map Operand.int) ∧
    (¬tree.Readable →
      ∃ fault,
        evaluateAll isDefined tokens = .error fault) := by
  rcases hPrints with ⟨written, hProper, rfl, rfl⟩
  have hScan := written.evaluateAll_tokens isDefined hProper
  constructor
  · intro hReadable
    rw [hScan, written.scan_eq_value hArithmetic hReadable]
    cases written.tree.value <;> rfl
  · intro hUnreadable
    rcases written.scan_error_of_not_readable hUnreadable false with ⟨fault, hError⟩
    rw [hError] at hScan
    exact ⟨fault, Fault.map_eq_error_iff.1 hScan⟩

/- A tree with needless parentheses and a prefix operator on the right of a product. -/
theorem evaluateAll_prints_product :
    Prints
        (.binary .mod
          (.binary .mul
            (.binary .add (.literal 2) (.literal 3))
            (.prefixed .minus (.literal 4)))
          (.literal 3))
        ["(", "2", "+", "(", "3", ")", ")", "*", "-", "4",
          "%", "3"] ∧
      (evaluateAll (fun _ => false)
        ["(", "2", "+", "(", "3", ")", ")", "*", "-", "4",
          "%", "3"]).map Prod.fst =
        .ok (.int 1) := by
  have hPrints : Prints (.binary .mod (.binary .mul (.binary .add (.literal 2) (.literal 3))
            (.prefixed .minus (.literal 4)))
          (.literal 3))
        ["(", "2", "+", "(", "3", ")", ")", "*", "-", "4", "%", "3"] :=
    ⟨.binary .mod (.binary .mul (.paren (.binary .add (.literal 2) (.paren (.literal 3))))
        (.prefixed .minus (.literal 4)))
      (.literal 3),
      by decide, rfl, rfl⟩
  refine ⟨hPrints, ?_⟩
  exact (evaluateAll_prints _ _ _ hPrints (by decide)).1 (by decide)

/- The least literal that is too long, multiplied by zero:
  the tree has a value and the evaluation fails. -/
theorem evaluateAll_long_literal :
    Prints
        (.binary .mul
          (.literal (10 ^ Text.decimalDigitLimit))
          (.literal 0))
        [(10 ^ Text.decimalDigitLimit).repr, "*", "0"] ∧
      (Tree.binary .mul
        (.literal (10 ^ Text.decimalDigitLimit))
        (.literal 0)).Arithmetic ∧
      (Tree.binary .mul
        (.literal (10 ^ Text.decimalDigitLimit))
        (.literal 0)).value = .ok 0 ∧
      evaluateAll (fun _ => false)
          [(10 ^ Text.decimalDigitLimit).repr, "*", "0"] =
        .error .badValue := by
  generalize hLong : 10 ^ Text.decimalDigitLimit = long
  have hLength : ¬long.repr.length ≤ Text.decimalDigitLimit := by
    rw [Nat.length_repr_le_iff (by decide), hLong]
    exact lt_irrefl long
  have hProper : (Written.binary .mul (.literal long) (.literal 0)).Proper :=
    ⟨trivial, trivial, by simp [Written.level, BinaryOp.level],
      by decide⟩
  refine ⟨⟨_, hProper, rfl, rfl⟩, ⟨rfl, trivial, trivial⟩, ?_, ?_⟩
  · simp [Tree.value, BinaryOp.value]
  · have hScan := Written.evaluateAll_tokens (fun _ => false) _ hProper
    rw [Written.scan, Written.scan, if_neg hLength] at hScan
    exact Fault.map_eq_error_iff.1 hScan

end Expr

end CHeader
