import CHeader.Proofs.Expr.Precedence

/-
  Logical operators against the rules of C.

  A chain `a && b || c && d` is a list of alternatives, each a list of factors. Its value in C is
  nonzero exactly if some alternative has only nonzero factors. The evaluation agrees with that
  except in two cases, which are shown to be the only ones for factors that it evaluates as C does.

  The flag that a zero factor sets is not cleared at the end of the first alternative, so a zero in
  front of the last factor of that alternative makes the whole chain zero. And parentheses and
  prefix operators are computed even where C does not evaluate them, so a fault in one of them
  always shows.

  Main declarations:
    * `Expr.Tree.cValue?`
    * `Expr.Written.alternatives`
    * `Expr.evaluateAll_agrees_iff`
-/

namespace CHeader

namespace Expr

open List BinaryOp

variable {tree : Tree} {c n : Int} {op : BinaryOp}

-- Values in C

/- A number in the range of the widest signed integers; an overflow has no value. -/
def ranged (n : Int) : Option Int :=
  if -(2 ^ 63) ≤ n ∧ n < 2 ^ 63 then some n else none

/-
  The value that C gives to an operator. Quotients are rounded toward zero, and shifts of or by a
  negative number have no value.
-/
def BinaryOp.cValue? : BinaryOp → Int → Int → Option Int
| mul, m, n => ranged (m * n)
| div, m, n =>
    if n = 0 then none else ranged (m.tdiv n)
| mod, m, n =>
    if n = 0 then none
    else (ranged (m.tdiv n)).map fun _ => m.tmod n
| add, m, n => ranged (m + n)
| sub, m, n => ranged (m - n)
| shiftRight, m, n =>
    if 0 ≤ m ∧ 0 ≤ n ∧ n < 64 then
      some (m.fdiv (2 ^ n.toNat))
    else none
| shiftLeft, m, n =>
    if 0 ≤ m ∧ 0 ≤ n ∧ n < 64 then
      ranged (m * 2 ^ n.toNat)
    else none
| gt, m, n => some (indicator (n < m))
| ge, m, n => some (indicator (n ≤ m))
| lt, m, n => some (indicator (m < n))
| le, m, n => some (indicator (m ≤ n))
| eq, m, n => some (indicator (m = n))
| ne, m, n => some (indicator (m ≠ n))
| bitAnd, m, n => some (Int.land m n)
| bitXor, m, n => some (Int.xor m n)
| bitOr, m, n => some (Int.lor m n)
| logicalAnd, m, n => some (indicator (m ≠ 0 ∧ n ≠ 0))
| logicalOr, m, n => some (indicator (m ≠ 0 ∨ n ≠ 0))

namespace Tree

variable {left right : Tree}

/-
  The value that C gives to a tree, if it gives one. The right operand of a logical operator that
  the left one decides is not evaluated.
-/
def cValue? : Tree → Option Int
| literal n => ranged n
| prefixed op operand =>
    operand.cValue?.bind fun n => ranged (op.value n)
| binary op left right =>
    left.cValue?.bind fun m =>
      if op.decidedBy m then some (indicator (m ≠ 0))
      else right.cValue?.bind fun n => op.cValue? m n

/- Whether every literal has a type, which C asks of those that are not evaluated as well. -/
def Representable : Tree → Prop
| literal n => n < 2 ^ 63
| prefixed _ operand => operand.Representable
| binary _ left right =>
    left.Representable ∧ right.Representable

instance decidableRepresentable : (tree : Tree) → Decidable tree.Representable
| literal n => inferInstanceAs (Decidable (n < 2 ^ 63))
| prefixed _ operand => decidableRepresentable operand
| binary _ left right =>
    have := decidableRepresentable left
    have := decidableRepresentable right
    inferInstanceAs (Decidable (_ ∧ _))

theorem Representable.readable (hTree : tree.Representable) : tree.Readable := by
  induction tree with
  | literal n =>
    have hBound : n < 2 ^ 63 := hTree
    have hShort : n.repr.length ≤ 19 := by
      rw [Nat.length_repr_le_iff (by decide)]
      omega
    exact hShort.trans (by decide)
  | prefixed op operand ih => exact ih hTree
  | binary op left right ihLeft ihRight =>
    exact ⟨ihLeft hTree.1, ihRight hTree.2⟩

theorem cValue?_logicalAnd (hValue : (binary .logicalAnd left right).cValue? = some c) :
    ∃ m, left.cValue? = some m ∧ (m = 0 ∧ c = 0 ∨ m ≠ 0 ∧ ∃ n, right.cValue? = some n ∧
        c = indicator (n ≠ 0)) := by
  rw [cValue?, Option.bind_eq_some_iff] at hValue
  rcases hValue with ⟨m, hLeft, hRest⟩
  refine ⟨m, hLeft, ?_⟩
  by_cases hZero : m = 0
  · subst hZero
    simpa [decidedBy, indicator, eq_comm] using hRest
  · right
    rw [if_neg (by simp [decidedBy, hZero]), Option.bind_eq_some_iff] at hRest
    rcases hRest with ⟨n, hRight, hSame⟩
    refine ⟨hZero, n, hRight, ?_⟩
    simpa [BinaryOp.cValue?, hZero, eq_comm] using hSame

theorem cValue?_logicalOr (hValue : (binary .logicalOr left right).cValue? = some c) :
    ∃ m, left.cValue? = some m ∧ (m ≠ 0 ∧ c = 1 ∨ m = 0 ∧ ∃ n, right.cValue? = some n ∧
        c = indicator (n ≠ 0)) := by
  rw [cValue?, Option.bind_eq_some_iff] at hValue
  rcases hValue with ⟨m, hLeft, hRest⟩
  refine ⟨m, hLeft, ?_⟩
  by_cases hZero : m = 0
  · subst hZero
    right
    rw [if_neg (by simp [decidedBy]), Option.bind_eq_some_iff] at hRest
    rcases hRest with ⟨n, hRight, hSame⟩
    refine ⟨rfl, n, hRight, ?_⟩
    simpa [BinaryOp.cValue?, eq_comm] using hSame
  · left
    simpa [decidedBy, indicator, hZero, eq_comm] using hRest

end Tree

theorem eq_of_ranged_eq_some (hRanged : ranged n = some c) : c = n := by
  rw [ranged] at hRanged
  split at hRanged
  · exact (Option.some.inj hRanged).symm
  · cases hRanged

/- On numbers that are not negative rounding down and rounding toward zero are the same. -/
theorem BinaryOp.value_of_cValue? (hSigns : op = .div ∨ op = .mod → 0 ≤ m ∧ 0 ≤ n)
    (hValue : op.cValue? m n = some c) : op.value m n = .ok c := by
  cases op with
  | mul | add | sub =>
    rw [eq_of_ranged_eq_some hValue]
    rfl
  | div =>
    rcases hSigns (.inl rfl) with ⟨hLeft, hRight⟩
    rw [cValue?] at hValue
    split at hValue
    · cases hValue
    · next hNonzero =>
        rw [value, if_neg hNonzero, eq_of_ranged_eq_some hValue,
          Int.fdiv_eq_ediv_of_nonneg _ hRight, Int.tdiv_eq_ediv_of_nonneg hLeft]
  | mod =>
    rcases hSigns (.inr rfl) with ⟨hLeft, hRight⟩
    rw [cValue?] at hValue
    split at hValue
    · cases hValue
    · next hNonzero =>
        rw [Option.map_eq_some_iff] at hValue
        rcases hValue with ⟨_, _, rfl⟩
        rw [value, if_neg hNonzero, Int.fmod_eq_emod_of_nonneg _ hRight,
          Int.tmod_eq_emod_of_nonneg hLeft]
  | shiftRight =>
    rw [cValue?] at hValue
    split at hValue
    · next hRange =>
        rw [value, if_neg (by omega)]
        exact congrArg Except.ok (Option.some.inj hValue)
    · cases hValue
  | shiftLeft =>
    rw [cValue?] at hValue
    split at hValue
    · next hRange =>
        rw [value, if_neg (by omega), eq_of_ranged_eq_some hValue]
    · cases hValue
  | _ => exact congrArg Except.ok (Option.some.inj hValue)

namespace Tree

/- Whether no quotient or remainder of a tree involves a negative number. -/
def QuotientsNonneg : Tree → Prop
| literal _ => True
| prefixed _ operand => operand.QuotientsNonneg
| binary op left right =>
    left.QuotientsNonneg ∧ right.QuotientsNonneg ∧
      (op = .div ∨ op = .mod → ∀ m n, left.cValue? = some m →
          right.cValue? = some n → 0 ≤ m ∧ 0 ≤ n)

/- Then the value in C is the value over unbounded numbers. -/
theorem value_of_cValue? (hArithmetic : tree.Arithmetic) (hQuotients : tree.QuotientsNonneg)
    (hValue : tree.cValue? = some c) : tree.value = .ok c := by
  induction tree generalizing c with
  | literal n =>
    rw [eq_of_ranged_eq_some hValue]
    rfl
  | prefixed op operand ih =>
    rw [cValue?, Option.bind_eq_some_iff] at hValue
    rcases hValue with ⟨n, hOperand, hRanged⟩
    rw [value, ih hArithmetic hQuotients hOperand, eq_of_ranged_eq_some hRanged]
    rfl
  | binary op left right ihLeft ihRight =>
    rcases hArithmetic with ⟨hOp, hLeftOps, hRightOps⟩
    rcases hQuotients with ⟨hLeftQ, hRightQ, hSigns⟩
    rw [cValue?, Option.bind_eq_some_iff] at hValue
    rcases hValue with ⟨m, hLeft, hRest⟩
    rw [op.decidedBy_of_not_isLogical hOp, if_neg (by decide), Option.bind_eq_some_iff] at hRest
    rcases hRest with ⟨n, hRight, hOpValue⟩
    rw [value, ihLeft hLeftOps hLeftQ hLeft, ihRight hRightOps hRightQ hRight]
    exact value_of_cValue? (fun hDiv => hSigns hDiv m n hLeft hRight) hOpValue

end Tree

theorem indicator_ne_zero_iff (p : Prop) [Decidable p] : indicator p ≠ 0 ↔ p := by
  by_cases hHolds : p <;> simp [indicator]

-- Chains

namespace Written

variable {c : Int} {stopped : Bool} {found : Int × Bool}

/- The operands of the outermost disjunctions. -/
def alternatives : Written → List Written
| binary .logicalOr left right =>
    left.alternatives ++ [right]
| written => [written]

/- The operands of the outermost conjunctions. -/
def factors : Written → List Written
| binary .logicalAnd left right => left.factors ++ [right]
| written => [written]

/- The first alternative. -/
def leadingGroup : Written → Written
| binary .logicalOr left _ => left.leadingGroup
| written => written

variable (written : Written)

/- The factors of the first alternative but its last. -/
def leadingFactors : List Written := written.leadingGroup.factors.dropLast

/- The parts in parentheses and behind prefix operators that lie in no other such part. -/
def enclosed : Written → List Written
| literal _ => []
| paren inside => [inside]
| prefixed _ operand => [operand]
| binary _ left right => left.enclosed ++ right.enclosed

/- A conjunction is zero if one of its factors is. -/
theorem exists_factor_eq_zero (hZero : written.tree.cValue? = some 0) :
    ∃ factor ∈ written.factors, factor.tree.cValue? = some 0 := by
  fun_induction factors written with
  | case1 left right ih =>
    rcases Tree.cValue?_logicalAnd hZero with ⟨m, hLeft, ⟨rfl, _⟩ | ⟨_, n, hRight, hSame⟩⟩
    · rcases ih hLeft with ⟨factor, hFactor, hValue⟩
      exact ⟨factor, by simp [hFactor], hValue⟩
    · have hRightZero : n = 0 := by
        by_contra hNonzero
        exact (indicator_ne_zero_iff _).2 hNonzero hSame.symm
      subst hRightZero
      exact ⟨right, by simp, hRight⟩
  | case2 written hOther =>
    exact ⟨written, by simp, hZero⟩

section

variable (written : Written) (hValue : written.tree.cValue? = some c)
include hValue

/- A conjunction with a value is nonzero exactly if all of its factors are. -/
theorem ne_zero_iff_factors :
    c ≠ 0 ↔ ∀ factor ∈ written.factors, ∃ n, factor.tree.cValue? = some n ∧ n ≠ 0 := by
  fun_induction factors written generalizing c with
  | case1 left right ih =>
    rcases Tree.cValue?_logicalAnd hValue with ⟨m, hLeft, ⟨rfl, rfl⟩ | ⟨hNonzero, n, hRight, rfl⟩⟩
    · have hNone := ih hLeft
      simp only [mem_append]
      constructor
      · intro hFalse
        exact absurd rfl hFalse
      · intro hAll
        exact hNone.2 (fun factor hFactor => hAll factor (.inl hFactor))
    · have hAll := (ih hLeft).1 hNonzero
      rw [indicator_ne_zero_iff]
      simp only [mem_append, mem_singleton]
      constructor
      · rintro hRightNonzero factor (hFactor | rfl)
        · exact hAll factor hFactor
        · exact ⟨n, hRight, hRightNonzero⟩
      · intro hFactors
        rcases hFactors right (.inr rfl) with ⟨k, hSame, hRightNonzero⟩
        rw [hRight, Option.some.injEq] at hSame
        rw [hSame]
        exact hRightNonzero
  | case2 written hOther =>
    simp [hValue]

theorem factor_ne_zero
    (hNonzero : c ≠ 0) : ∀ factor ∈ written.factors, factor.tree.cValue? ≠ some 0 := by
  intro factor hFactor hZero
  rcases (written.ne_zero_iff_factors hValue).1 hNonzero
      factor hFactor with ⟨n, hSame, hFactorNonzero⟩
  rw [hZero, Option.some.injEq] at hSame
  exact hFactorNonzero hSame.symm

theorem ne_zero_iff_alternatives : c ≠ 0 ↔ ∃ group ∈ written.alternatives, ∀ factor ∈ group.factors,
    ∃ n, factor.tree.cValue? = some n ∧ n ≠ 0 := by
  fun_induction alternatives written generalizing c with
  | case1 left right ih =>
    simp only [mem_append, mem_singleton]
    rcases Tree.cValue?_logicalOr hValue with ⟨m, hLeft, ⟨hNonzero, rfl⟩ | ⟨rfl, n, hRight, rfl⟩⟩
    · rcases (ih hLeft).1 hNonzero with
        ⟨group, hGroup, hFactors⟩
      constructor
      · intro _
        exact ⟨group, .inl hGroup, hFactors⟩
      · intro _
        decide
    · rw [indicator_ne_zero_iff, right.ne_zero_iff_factors hRight]
      constructor
      · intro hFactors
        exact ⟨right, .inr rfl, hFactors⟩
      · rintro ⟨group, hGroup | rfl, hFactors⟩
        · exact absurd rfl ((ih hLeft).2 ⟨group, hGroup, hFactors⟩)
        · exact hFactors
  | case2 written hOther =>
    simpa using written.ne_zero_iff_factors hValue

end

-- Scans of chains

theorem scan_binary_eq_ok (hScan : (binary op left right).scan stopped = .ok found) :
    ∃ first second, left.scan stopped = .ok first ∧
      right.scan (first.2 || op.decidedBy first.1) = .ok second ∧
      ((first.2 || op.decidedBy first.1) = true ∧ found.2 = true ∨
        (first.2 || op.decidedBy first.1) = false ∧ found.2 = false) := by
  rw [scan, Fault.bind_eq_ok_iff] at hScan
  rcases hScan with ⟨first, hLeft, hRest⟩
  rw [Fault.bind_eq_ok_iff] at hRest
  rcases hRest with ⟨second, hRight, hLast⟩
  refine ⟨first, second, hLeft, hRight, ?_⟩
  simp only at hLast
  by_cases hNow : (first.2 || op.decidedBy first.1) = true
  · rw [if_pos hNow] at hLast
    cases hLast
    exact .inl ⟨hNow, rfl⟩
  · rw [if_neg hNow, Fault.map_eq_ok_iff] at hLast
    rcases hLast with ⟨value, _, rfl⟩
    exact .inr ⟨by simpa using hNow, rfl⟩

/- A factor does not change whether computing is stopped. -/
theorem scan_factor_snd (hProper : written.Proper) (hLevel : 3 ≤ written.level)
    (hScan : written.scan stopped = .ok found) : found.2 = stopped := by
  induction written generalizing found with
  | literal n =>
    rw [scan] at hScan
    split at hScan
    · cases hScan
      rfl
    · cases hScan
  | paren | prefixed =>
    rw [scan, Fault.map_eq_ok_iff] at hScan
    rcases hScan with ⟨_, _, rfl⟩
    rfl
  | binary op left right ihLeft ihRight =>
    have hOp : op.isLogical = false := by
      have hOpLevel : 3 ≤ op.level := hLevel
      cases op with
      | logicalAnd => exact absurd hOpLevel (by decide)
      | logicalOr => exact absurd hOpLevel (by decide)
      | _ => rfl
    rcases scan_binary_eq_ok hScan with ⟨first, second, hLeft, _, hFlag⟩
    have hFirst := ihLeft hProper.1 (le_trans hLevel hProper.2.2.1) hLeft
    rw [op.decidedBy_of_not_isLogical hOp, Bool.or_false, hFirst] at hFlag
    rcases hFlag with ⟨hNow, hFound⟩ | ⟨hNow, hFound⟩
    · rw [hNow, hFound]
    · rw [hNow, hFound]

/- A scan computes all enclosed parts. -/
theorem enclosed_of_scan (hScan : written.scan stopped = .ok found) :
    ∀ part ∈ written.enclosed, ∃ value, part.scan false = .ok value := by
  induction written generalizing stopped found with
  | literal n => simp [enclosed]
  | paren | prefixed =>
    rw [scan, Fault.map_eq_ok_iff] at hScan
    rcases hScan with ⟨value, hInside, _⟩
    exact forall_mem_singleton.2 ⟨value, hInside⟩
  | binary op left right ihLeft ihRight =>
    rcases scan_binary_eq_ok hScan with ⟨first, second, hLeft, hRight, _⟩
    exact forall_mem_append.2 ⟨ihLeft hLeft, ihRight hRight⟩

/- Stopped, a scan computes nothing else. -/
theorem scan_true_of_enclosed (hReadable : written.tree.Readable)
    (hEnclosed : ∀ part ∈ written.enclosed, ∃ value, part.scan false = .ok value) :
    ∃ n, written.scan true = .ok (n, true) := by
  induction written with
  | literal n =>
    have hLength : n.repr.length ≤ Text.decimalDigitLimit := hReadable
    exact ⟨n, by rw [scan, if_pos hLength]⟩
  | paren inside ih =>
    rcases hEnclosed inside (by simp [enclosed]) with ⟨value, hInside⟩
    exact ⟨value.1, by rw [scan, hInside]; rfl⟩
  | prefixed op operand ih =>
    rcases hEnclosed operand (by simp [enclosed]) with ⟨value, hOperand⟩
    exact ⟨op.value value.1, by rw [scan, hOperand]; rfl⟩
  | binary op left right ihLeft ihRight =>
    rcases ihLeft hReadable.1 (fun part hPart =>
        hEnclosed part (mem_append_left _ hPart)) with
      ⟨m, hLeft⟩
    rcases ihRight hReadable.2 (fun part hPart =>
        hEnclosed part (mem_append_right _ hPart)) with
      ⟨n, hRight⟩
    exact ⟨op.settled m, by simp [scan, hLeft, hRight]⟩

/- What is no disjunction comes from a higher production. -/
theorem two_le_level (hOther : ∀ left right, written ≠ binary .logicalOr left right) :
    2 ≤ written.level := by
  cases written with
  | binary op left right =>
    cases op with
    | logicalOr => exact absurd rfl (hOther left right)
    | _ => simp [level, BinaryOp.level]
  | _ => simp [level]

/- Of these, what is no conjunction comes from a still higher one. -/
theorem three_le_level (hLevel : 2 ≤ written.level)
    (hOther : ∀ left right, written ≠ binary .logicalAnd left right) : 3 ≤ written.level := by
  cases written with
  | binary op left right =>
    have hOpLevel : 2 ≤ op.level := hLevel
    cases op with
    | logicalAnd => exact absurd rfl (hOther left right)
    | logicalOr => exact absurd hOpLevel (by decide)
    | _ => simp [level, BinaryOp.level]
  | _ => simp [level]

def ScansAsInC : Prop :=
  ∀ n, written.tree.cValue? = some n →
    ∃ found, written.scan false = .ok found ∧ (found.1 = 0 ↔ n = 0)

/-
  The scan of a conjunction whose factors are computed as in C is computed as in C. It is stopped
  after a zero factor that is not the last.
-/
theorem scan_group (group : Written) (hProper : group.Proper) (hLevel : 2 ≤ group.level)
    (hReadable : group.tree.Readable) (hFactors : ∀ factor ∈ group.factors, factor.ScansAsInC)
    (hEnclosed : ∀ part ∈ group.enclosed, ∃ value, part.scan false = .ok value)
    (hValue : group.tree.cValue? = some c) :
    ∃ found, group.scan false = .ok found ∧ (found.1 = 0 ↔ c = 0) ∧
      (found.2 = true ↔ ∃ factor ∈ group.factors.dropLast, factor.tree.cValue? = some 0) := by
  fun_induction factors group generalizing c with
  | case1 left right ih =>
    rcases hProper with ⟨hLeftProper, hRightProper, hLeftLevel, _⟩
    rcases Tree.cValue?_logicalAnd hValue with ⟨m, hLeft, hCases⟩
    rcases ih hLeftProper hLeftLevel hReadable.1 (fun factor hFactor =>
        hFactors factor (mem_append_left _ hFactor))
        (fun part hPart => hEnclosed part (mem_append_left _ hPart))
        hLeft with
      ⟨first, hFirst, hZero, hStopped⟩
    rcases hCases with ⟨rfl, rfl⟩ | ⟨hNonzero, n, hRight, rfl⟩
    · -- A zero on the left stops the rest.
      have hFirstZero := hZero.2 rfl
      rcases right.scan_true_of_enclosed hReadable.2 (fun part hPart =>
          hEnclosed part (mem_append_right _ hPart)) with
        ⟨n, hSkipped⟩
      refine ⟨(0, true), ?_, by simp, ?_⟩
      · simp [scan, hFirst, hFirstZero, hSkipped, decidedBy, settled]
      · simpa using left.exists_factor_eq_zero hLeft
    · -- Without a zero on the left nothing is stopped.
      have hNone := left.factor_ne_zero hLeft hNonzero
      have hOpen : first.2 = false := by
        rw [← Bool.not_eq_true, hStopped]
        rintro ⟨factor, hFactor, hFactorZero⟩
        exact hNone factor (mem_of_mem_dropLast hFactor) hFactorZero
      have hFirstNonzero : first.1 ≠ 0 := by
        rw [ne_eq, hZero]
        exact hNonzero
      rcases hFactors right (by simp) n hRight with ⟨second, hSecond, hSecondZero⟩
      refine ⟨(indicator (second.1 ≠ 0), false), ?_, ?_, ?_⟩
      · simp [scan, hFirst, hOpen, hFirstNonzero, hSecond, decidedBy, value]
      · have hLeftSide := indicator_ne_zero_iff (second.1 ≠ 0)
        have hRightSide := indicator_ne_zero_iff (n ≠ 0)
        tauto
      · simpa using hNone
  | case2 written hOther =>
    have hFactorLevel := written.three_le_level hLevel hOther
    rcases hFactors written (by simp) c hValue with ⟨found, hScan, hZero⟩
    refine ⟨found, hScan, hZero, ?_⟩
    rw [written.scan_factor_snd hProper hFactorLevel hScan]
    simp

/-
  The scan of a chain whose factors are computed as in C is zero if the value in C is, and also
  after a zero factor of the first alternative that is not the last of it.
-/
theorem scan_chain (chain : Written) (hProper : chain.Proper) (hReadable : chain.tree.Readable)
    (hFactors : ∀ group ∈ chain.alternatives, ∀ factor ∈ group.factors, factor.ScansAsInC)
    (hEnclosed : ∀ part ∈ chain.enclosed, ∃ value, part.scan false = .ok value)
    (hValue : chain.tree.cValue? = some c) :
    ∃ found, chain.scan false = .ok found ∧ (found.1 ≠ 0 ↔ c ≠ 0 ∧ ∀ factor ∈ chain.leadingFactors,
        factor.tree.cValue? ≠ some 0) ∧
      (found.1 = 0 → (found.2 = true ↔ ∃ factor ∈ chain.leadingFactors,
          factor.tree.cValue? = some 0)) := by
  fun_induction alternatives chain generalizing c with
  | case1 left right ih =>
    rcases hProper with ⟨hLeftProper, hRightProper, _, hRightLevel⟩
    rcases Tree.cValue?_logicalOr hValue with ⟨m, hLeft, hCases⟩
    rcases ih hLeftProper hReadable.1 (fun group hGroup =>
        hFactors group (mem_append_left _ hGroup))
        (fun part hPart => hEnclosed part (mem_append_left _ hPart))
        hLeft with
      ⟨first, hFirst, hNonzero, hStopped⟩
    have hRightEnclosed : ∀ part ∈ right.enclosed, ∃ value, part.scan false = .ok value :=
      fun part hPart => hEnclosed part (mem_append_right _ hPart)
    rcases right.scan_true_of_enclosed hReadable.2 hRightEnclosed with ⟨skipped, hSkipped⟩
    change ∃ found, _ ∧ (_ ↔ c ≠ 0 ∧ ∀ factor ∈ left.leadingFactors, _) ∧
      (_ → (_ ↔ ∃ factor ∈ left.leadingFactors, _))
    by_cases hFirstZero : first.1 = 0
    · by_cases hOpen : first.2 = true
      · -- Stopped by a zero factor of the first alternative.
        have hLeading := (hStopped hFirstZero).1 hOpen
        refine ⟨(0, true), ?_, ?_, ?_⟩
        · simp [scan, hFirst, hOpen, hFirstZero, hSkipped, settled]
        · simpa using fun _ => hLeading
        · simpa using hLeading
      · -- Nothing decided yet, so the last one counts.
        have hNone := mt (hStopped hFirstZero).2 hOpen
        push Not at hNone
        have hLeftZero : m = 0 := by
          by_contra hLeftNonzero
          exact hNonzero.2 ⟨hLeftNonzero, hNone⟩ hFirstZero
        rcases hCases with ⟨hLeftNonzero, _⟩ | ⟨_, n, hRight, rfl⟩
        · exact absurd hLeftZero hLeftNonzero
        rcases right.scan_group hRightProper hRightLevel hReadable.2
            (hFactors right (mem_append_right _ (by simp)))
            hRightEnclosed hRight with
          ⟨second, hSecond, hSecondZero, _⟩
        refine ⟨(indicator (second.1 ≠ 0), false), ?_, ?_, ?_⟩
        · simp [scan, hFirst, hOpen, hFirstZero, hSecond, decidedBy, value]
        · rw [indicator_ne_zero_iff, indicator_ne_zero_iff, ne_eq, hSecondZero]
          exact ⟨fun hRightNonzero => ⟨hRightNonzero, hNone⟩, And.left⟩
        · intro _
          simpa using hNone
    · -- Decided by a nonzero alternative.
      refine ⟨(1, true), ?_, ?_, ?_⟩
      · simp [scan, hFirst, hFirstZero, hSkipped, decidedBy, settled]
      · rcases hNonzero.1 hFirstZero with
          ⟨hLeftNonzero, hNone⟩
        rcases hCases with ⟨_, rfl⟩ | ⟨hLeftZero, _⟩
        · exact ⟨fun hOne => ⟨hOne, hNone⟩, And.left⟩
        · exact absurd hLeftZero hLeftNonzero
      · intro hFalse
        exact absurd hFalse (by decide)
  | case2 chain hOther =>
    have hLevel := chain.two_le_level hOther
    rcases chain.scan_group hProper hLevel hReadable
        (hFactors chain (by simp)) hEnclosed hValue with
      ⟨found, hScan, hZero, hStopped⟩
    rw [leadingFactors, leadingGroup.eq_2 chain hOther]
    refine ⟨found, hScan, ?_, fun _ => hStopped⟩
    rw [ne_eq, hZero]
    constructor
    · intro hNonzero
      refine ⟨hNonzero, ?_⟩
      intro factor hFactor
      exact chain.factor_ne_zero hValue hNonzero factor (mem_of_mem_dropLast hFactor)
    · exact And.left

-- Parts of proper expressions

theorem proper_of_mem_alternatives (hProper : written.Proper) :
    ∀ group ∈ written.alternatives, group.Proper := by
  fun_induction alternatives written with
  | case1 left right ih =>
    exact forall_mem_append.2 ⟨ih hProper.1, forall_mem_singleton.2 hProper.2.1⟩
  | case2 written hOther => exact forall_mem_singleton.2 hProper

theorem proper_of_mem_factors (hProper : written.Proper) :
    ∀ factor ∈ written.factors, factor.Proper := by
  fun_induction factors written with
  | case1 left right ih =>
    exact forall_mem_append.2 ⟨ih hProper.1, forall_mem_singleton.2 hProper.2.1⟩
  | case2 written hOther => exact forall_mem_singleton.2 hProper

theorem proper_of_mem_enclosed (hProper : written.Proper) :
    ∀ part ∈ written.enclosed, part.Proper := by
  induction written with
  | literal n => simp [enclosed]
  | paren inside ih => exact forall_mem_singleton.2 hProper
  | prefixed op operand ih => exact forall_mem_singleton.2 hProper.1
  | binary op left right ihLeft ihRight =>
    exact forall_mem_append.2 ⟨ihLeft hProper.1, ihRight hProper.2.1⟩

-- Agreement of the evaluation with C

variable (isDefined : String → Bool)

/- Whether the evaluation returns a number, zero exactly if
  the value in C is, whenever C gives a value. -/
def AgreesWithC (written : Written) : Prop :=
  ∀ n, written.tree.cValue? = some n → ∃ v, (evaluateAll isDefined written.tokens).map Prod.fst =
      .ok (.int v) ∧
      (v = 0 ↔ n = 0)

theorem AgreesWithC.scansAsInC {written : Written} (hProper : written.Proper)
    (hAgrees : written.AgreesWithC isDefined) : written.ScansAsInC := by
  intro n hValue
  rcases hAgrees n hValue with ⟨v, hResult, hZero⟩
  rw [written.evaluateAll_tokens isDefined hProper, Fault.map_eq_ok_iff] at hResult
  rcases hResult with ⟨found, hScan, hSame⟩
  cases hSame
  exact ⟨found, hScan, hZero⟩

theorem agreesWithC_of_arithmetic (written : Written) (hProper : written.Proper)
    (hArithmetic : written.tree.Arithmetic)
    (hRepresentable : written.tree.Representable) (hQuotients : written.tree.QuotientsNonneg) :
    written.AgreesWithC isDefined := by
  intro n hValue
  refine ⟨n, ?_, Iff.rfl⟩
  rw [written.evaluateAll_tokens isDefined hProper,
    written.scan_eq_value hArithmetic hRepresentable.readable,
    Tree.value_of_cValue? hArithmetic hQuotients hValue]
  rfl

theorem evaluates_iff_scans (written : Written) (hProper : written.Proper) :
    (∃ v, (evaluateAll isDefined written.tokens).map Prod.fst =
        .ok v) ↔ ∃ found, written.scan false = .ok found := by
  rw [written.evaluateAll_tokens isDefined hProper]
  constructor
  · rintro ⟨v, hResult⟩
    rw [Fault.map_eq_ok_iff] at hResult
    rcases hResult with ⟨found, hScan, _⟩
    exact ⟨found, hScan⟩
  · rintro ⟨found, hScan⟩
    exact ⟨_, by rw [hScan]; rfl⟩

end Written

/-
  A chain whose factors agree with C has a nonzero value in C exactly if all factors of some
  alternative are nonzero. Its evaluation agrees with C exactly if all its enclosed parts can be
  evaluated, and the value is zero or no factor of the first alternative but the last is. A result
  is zero in all other cases.
-/
theorem evaluateAll_agrees_iff
    (isDefined : String → Bool)
    (chain : Written)
    (c : Int)
    (hProper : chain.Proper)
    (hRepresentable : chain.tree.Representable)
    (hValue : chain.tree.cValue? = some c)
    (hFactors :
      ∀ group ∈ chain.alternatives,
        ∀ factor ∈ group.factors,
          factor.AgreesWithC isDefined) :
    (c ≠ 0 ↔
      ∃ group ∈ chain.alternatives,
        ∀ factor ∈ group.factors,
          ∃ n, factor.tree.cValue? = some n ∧ n ≠ 0) ∧
    ((∃ v,
      (evaluateAll isDefined chain.tokens).map Prod.fst =
        .ok (.int v) ∧
      (v = 0 ↔ c = 0)) ↔
      (∀ part ∈ chain.enclosed, ∃ v,
        (evaluateAll isDefined part.tokens).map Prod.fst =
          .ok v) ∧
      (c = 0 ∨
        ∀ factor ∈ chain.leadingFactors,
          factor.tree.cValue? ≠ some 0)) ∧
    (∀ v,
      (evaluateAll isDefined chain.tokens).map Prod.fst =
        .ok (.int v) →
      (v ≠ 0 ↔
        c ≠ 0 ∧
          ∀ factor ∈ chain.leadingFactors,
            factor.tree.cValue? ≠ some 0)) := by
  have hEvaluates := chain.evaluateAll_tokens isDefined hProper
  have hScans : ∀ group ∈ chain.alternatives, ∀ factor ∈ group.factors, factor.ScansAsInC := by
    intro group hGroup factor hFactor
    apply (hFactors group hGroup factor hFactor).scansAsInC
    exact group.proper_of_mem_factors (chain.proper_of_mem_alternatives hProper group hGroup)
      factor hFactor
  have hParts : (∀ part ∈ chain.enclosed, ∃ v,
        (evaluateAll isDefined part.tokens).map Prod.fst = .ok v) ↔
        ∀ part ∈ chain.enclosed, ∃ value, part.scan false = .ok value :=
    forall₂_congr fun part hPart =>
      part.evaluates_iff_scans isDefined (chain.proper_of_mem_enclosed hProper part hPart)
  -- Any result shows that the enclosed parts are computed.
  have hResult : ∀ v, (evaluateAll isDefined chain.tokens).map Prod.fst = .ok (.int v) →
        (∀ part ∈ chain.enclosed, ∃ value, part.scan false = .ok value) ∧
        (v ≠ 0 ↔ c ≠ 0 ∧ ∀ factor ∈ chain.leadingFactors, factor.tree.cValue? ≠ some 0) := by
    intro v hValueOf
    rw [hEvaluates, Fault.map_eq_ok_iff] at hValueOf
    rcases hValueOf with ⟨found, hScan, hSame⟩
    cases hSame
    have hEnclosed := chain.enclosed_of_scan hScan
    refine ⟨hEnclosed, ?_⟩
    rcases chain.scan_chain hProper hRepresentable.readable hScans hEnclosed hValue with
      ⟨other, hOther, hNonzero, _⟩
    rw [hScan] at hOther
    cases hOther
    exact hNonzero
  refine ⟨chain.ne_zero_iff_alternatives hValue, ?_, fun v hValueOf => (hResult v hValueOf).2⟩
  rw [hParts]
  constructor
  · rintro ⟨v, hValueOf, hZero⟩
    rcases hResult v hValueOf with ⟨hEnclosed, hNonzero⟩
    refine ⟨hEnclosed, ?_⟩
    tauto
  · rintro ⟨hEnclosed, hCondition⟩
    rcases chain.scan_chain hProper hRepresentable.readable hScans hEnclosed hValue with
      ⟨found, hScan, hNonzero, _⟩
    refine ⟨found.1, by rw [hEvaluates, hScan]; rfl, ?_⟩
    tauto

/- The least chain that goes wrong: its value in C is one and its evaluation does not agree. -/
theorem evaluateAll_zero_factor :
    (Written.binary .logicalOr
      (.binary .logicalAnd (.literal 0) (.literal 1))
      (.literal 1)).tree.cValue? = some 1 ∧
    ¬∃ v,
      (evaluateAll (fun _ => false)
        ["0", "&&", "1", "||", "1"]).map Prod.fst =
          .ok (.int v) ∧
      (v = 0 ↔ (1 : Int) = 0) := by
  have hFactor : ∀ n < 2, (Written.literal n).AgreesWithC (fun _ => false) := by
    intro n hn
    apply Written.agreesWithC_of_arithmetic
    · exact trivial
    · exact trivial
    · exact Nat.lt_trans hn (by decide)
    · exact trivial
  have hExact := evaluateAll_agrees_iff (fun _ => false)
    (.binary .logicalOr (.binary .logicalAnd (.literal 0) (.literal 1)) (.literal 1))
    1 (by decide) (by decide) (by decide) (by
      simp [Written.alternatives, Written.factors, hFactor])
  refine ⟨by decide, ?_⟩
  intro hAgrees
  rcases (hExact.2.1.1 hAgrees).2 with hZero | hLeading
  · exact absurd hZero (by decide)
  · exact hLeading (.literal 0) (by decide) (by decide)

end Expr

end CHeader
