import CHeader.Expr.Constant
import CHeader.Proofs.Expr.Tree

/-
  Reading of the lexemes of written expressions.

  Digits are read as the number they spell in their base; a decimal text that is too long is refused.
  Operators and parentheses are read as the texts they are.

  Main declarations:
    * `Expr.IsDigit`
    * `Text.readDigits_eq_foldl`
    * `Text.readInteger?_repr`
-/

namespace CHeader

open List Text

-- Digits

namespace Expr

variable {c : Char}

def digitOf (c : Char) : Nat := if c.isDigit then c.toNat - 48 else c.toLower.toNat - 87

def digitsValue (base : Nat) (digits : List Char) : Nat :=
  digits.foldl (fun n c => base * n + digitOf c) 0

structure IsDigit (c : Char) : Prop where
  noMark : c ≠ '_'
  value : digitValue? c = some (digitOf c)
  less : digitOf c < if c.isDigit then 10 else 16
  noBlank : isNumberBlank c = false
  isAlphanum : c.isAlphanum = true
  isWord : isWord c = true

theorem isDigit_of_isHexDigit (hDigit : isHexDigit c = true) : IsDigit c := by
  have hAll : ∀ code < 128, isHexDigit (Char.ofNat code) = true → (fun c => c ≠ '_' ∧
      digitValue? c = some (digitOf c) ∧ (digitOf c < if c.isDigit then 10 else 16) ∧
        isNumberBlank c = false ∧ c.isAlphanum = true ∧ isWord c = true)
      (Char.ofNat code) := by
    decide +kernel
  have hAscii : c.toNat < 128 := by
    simp only [isHexDigit, Char.isDigit, Bool.or_eq_true, Bool.and_eq_true, decide_eq_true_eq,
      Char.le_def, UInt32.le_iff_toNat_le] at hDigit
    have hCode : c.toNat = c.val.toNat := rfl
    have hUpper : 'F'.val.toNat = 70 := rfl
    have hLower : 'f'.val.toNat = 102 := rfl
    have hNine : '9'.val.toNat = 57 := rfl
    omega
  have hFacts := hAll c.toNat hAscii
  rw [Char.ofNat_toNat] at hFacts
  obtain ⟨hMark, hValue, hLess, hBlank, hAlphanum, hWord⟩ := hFacts hDigit
  exact ⟨hMark, hValue, hLess, hBlank, hAlphanum, hWord⟩

theorem isHexDigit_of_isDigit (c : Char) (hDigit : c.isDigit = true) : isHexDigit c = true := by
  simp [isHexDigit, hDigit]

theorem isDigit_of_decimal (hDigit : c.isDigit = true) : IsDigit c ∧ digitOf c < 10 := by
  have hFacts := isDigit_of_isHexDigit (isHexDigit_of_isDigit c hDigit)
  exact ⟨hFacts, by simpa [hDigit] using hFacts.less⟩

end Expr

namespace Text

open CHeader.Expr (digitOf digitsValue IsDigit isDigit_of_decimal)

variable {c : Char} {n : Int} {digits : List Char}
variable {base : Nat} {drop : Char → Bool} {cs : List Char}

theorem readDigits_eq_foldl (value count : Nat) (afterDigit : Bool)
    (hDigits : ∀ c ∈ digits, IsDigit c ∧ digitOf c < base)
    (hSome : digits ≠ [] ∨ afterDigit = true) : readDigits base value count afterDigit digits =
      some (digits.foldl (fun n c => base * n + digitOf c) value, count + digits.length) := by
  induction digits generalizing value count afterDigit with
  | nil => simp [readDigits, hSome.resolve_left (by simp)]
  | cons c rest ih =>
    rw [forall_mem_cons] at hDigits
    rw [readDigits]
    · simp only [hDigits.1.1.value]
      rw [if_pos hDigits.1.2, ih _ _ _ hDigits.2 (.inr rfl), foldl_cons, Nat.mul_comm value,
        length_cons, Nat.add_right_comm, Nat.add_assoc]
    · exact hDigits.1.1.noMark

theorem readMagnitude?_decimal (hSome : digits ≠ []) (hDigits : ∀ c ∈ digits, c.isDigit = true) :
    readMagnitude? 10 digits =
      if digits.length ≤ decimalDigitLimit then some (digitsValue 10 digits) else none := by
  rw [readMagnitude?, readDigits_eq_foldl 0 0 false
    (fun c hMem => isDigit_of_decimal (hDigits c hMem)) (.inl hSome)]
  by_cases hShort : digits.length ≤ decimalDigitLimit
  · simp [digitsValue, hShort]
  · simp [hShort]

/- The decimal text of a positive number has no leading zero. -/
theorem head?_toDigits_ne_zero {n : Nat} (hPositive : n ≠ 0) :
    (Nat.toDigits 10 n).head? ≠ some '0' := by
  induction n using Nat.strongRecOn with
  | ind n ih =>
    by_cases hSmall : n < 10
    · rw [Nat.toDigits_of_lt_base hSmall]
      simpa using hPositive
    · rw [Nat.toDigits_of_base_le (by decide) (by omega),
        head?_append_of_ne_nil _ Nat.toDigits_ne_nil]
      exact ih (n / 10) (by omega) (by omega)

theorem dropWhile_eq_self (hKeep : ∀ c ∈ cs, drop c = false) : cs.dropWhile drop = cs := by
  cases cs with
  | nil => rfl
  | cons c rest => simp [hKeep c mem_cons_self]

theorem dropEnds_eq_self (hKeep : ∀ c ∈ cs, drop c = false) : dropEnds drop cs = cs := by
  rw [dropEnds, dropWhile_eq_self hKeep, dropEnd, dropWhile_eq_self (by simpa using hKeep),
    reverse_reverse]

theorem dropEnds_digits (hDigits : ∀ c ∈ digits, c.isDigit = true) :
    dropEnds isNumberBlank digits = digits :=
  dropEnds_eq_self fun c hMem => (isDigit_of_decimal (hDigits c hMem)).1.noBlank

theorem isDigit_of_mem_toDigits {n : Nat} (hMem : c ∈ Nat.toDigits 10 n) : c.isDigit = true :=
  Nat.isDigit_of_mem_toDigits (by decide) (by decide) hMem

theorem takeSign_digits (hDigits : ∀ c ∈ digits, c.isDigit = true) :
    takeSign digits = (false, digits) := by
  unfold takeSign
  split
  · exact absurd (hDigits '-' mem_cons_self) (by decide)
  · exact absurd (hDigits '+' mem_cons_self) (by decide)
  · rfl

theorem dropEnds_minus (digits : List Char) (hSome : digits ≠ [])
    (hDigits : ∀ c ∈ digits, c.isDigit = true) :
    dropEnds isNumberBlank ('-' :: digits) = '-' :: digits := by
  rw [dropEnds, dropWhile_cons_of_neg (by decide), dropEnd, reverse_cons]
  cases hReverse : digits.reverse with
  | nil => exact absurd (reverse_eq_nil_iff.mp hReverse) hSome
  | cons last rest =>
    have hLast : last ∈ digits := by
      rw [← mem_reverse, hReverse]
      exact mem_cons_self
    rw [cons_append, dropWhile_cons_of_neg (by
      simp [(isDigit_of_decimal (hDigits last hLast)).1.noBlank]), ← cons_append, ← hReverse]
    simp

theorem digitsValue_toDigits (n : Nat) : digitsValue 10 (Nat.toDigits 10 n) = n := by
  refine Eq.trans (foldl_ext _ _ _ fun value c hMem => ?_) Nat.ofDigitChars_ten_toDigits
  simp [digitOf, isDigit_of_mem_toDigits hMem]

/- The decimal text of a number is read as that number, up to the limit on its length. -/
theorem readMagnitude?_toDigits (n : Nat) : readMagnitude? 10 (Nat.toDigits 10 n) =
    if (Nat.toDigits 10 n).length ≤ decimalDigitLimit then some n
    else none := by
  rw [readMagnitude?_decimal Nat.toDigits_ne_nil (fun _ => isDigit_of_mem_toDigits),
    digitsValue_toDigits]

theorem length_repr (n : Nat) : n.repr.length = (Nat.toDigits 10 n).length := by
  rw [Nat.repr_eq_ofList_toDigits, String.length_ofList]

theorem readInteger?_repr (n : Nat) : readInteger? n.repr =
    if n.repr.length ≤ decimalDigitLimit then some (n : Int)
    else none := by
  rw [readInteger?, Nat.toList_repr, dropEnds_digits (fun _ => isDigit_of_mem_toDigits),
    takeSign_digits (fun _ => isDigit_of_mem_toDigits)]
  simp only [readMagnitude?_toDigits, length_repr]
  split <;> simp [withSign]

/- Digits stand for a number with no more digits. -/
theorem readDigits_lt {value count read total : Nat} {afterDigit : Bool}
    (hRead : readDigits base value count afterDigit cs = some (read, total)) :
    count ≤ total ∧ read < (value + 1) * base ^ (total - count) := by
  fun_induction readDigits base value count afterDigit cs with
  | case1 =>
    cases hRead
    simp
  | case2 | case3 => cases hRead
  | case4 _ _ _ _ ih => exact ih hRead
  | case5 => cases hRead
  | case6 value count _ c rest _ digit _ hLess ih =>
    rcases ih hRead with ⟨hMore, hBound⟩
    refine ⟨by omega, Nat.lt_of_lt_of_le hBound ?_⟩
    have hPower : base ^ (total - count) = base * base ^ (total - (count + 1)) := by
      rw [← Nat.pow_succ']
      congr 1
      omega
    rw [hPower, ← Nat.mul_assoc]
    refine Nat.mul_le_mul_right _ ?_
    rw [Nat.add_mul]
    omega
  | case7 | case8 => cases hRead

/- A number that is read has few digits. -/
theorem natAbs_lt_of_readInteger? {s : String} (hRead : readInteger? s = some n) :
    n.natAbs < 10 ^ decimalDigitLimit := by
  rw [readInteger?, Option.map_eq_some_iff] at hRead
  rcases hRead with ⟨value, hValue, rfl⟩
  have hBound : value < 10 ^ decimalDigitLimit := by
    rw [readMagnitude?] at hValue
    cases hDigits : readDigits 10 0 0 false (takeSign (dropEnds isNumberBlank s.toList)).2 with
    | none => simp [hDigits] at hValue
    | some found =>
      simp only [hDigits] at hValue
      split_ifs at hValue with hLong
      cases hValue
      have hLess := (readDigits_lt hDigits).2
      simp only [Nat.zero_add, Nat.one_mul] at hLess
      refine Nat.lt_of_lt_of_le hLess (Nat.pow_le_pow_right (by decide) ?_)
      simpa using hLong
  unfold withSign
  split_ifs <;> simpa using hBound

/- The text of a number is read as that number, whatever its sign, up to the limit on its length. -/
theorem readInteger?_toString (hShort : n.natAbs.repr.length ≤ decimalDigitLimit) :
    readInteger? (toString n) = some n := by
  cases n with
  | ofNat n =>
    change readInteger? n.repr = some (n : Int)
    rw [readInteger?_repr]
    exact if_pos hShort
  | negSucc n =>
    have hList : (toString (Int.negSucc n)).toList = '-' :: Nat.toDigits 10 (n + 1) := by
      change ("-" ++ (n + 1).repr).toList = _
      rw [String.toList_append, Nat.toList_repr]
      rfl
    have hShort : (Nat.toDigits 10 (n + 1)).length ≤
        decimalDigitLimit := by
      rw [← length_repr]
      exact hShort
    rw [readInteger?, hList, dropEnds_minus _
      Nat.toDigits_ne_nil (fun _ => isDigit_of_mem_toDigits)]
    simp only [takeSign]
    rw [readMagnitude?_toDigits, if_pos hShort]
    rfl

theorem readInteger?_of_writeInteger? (hWrite : writeInteger? n = some text) :
    readInteger? text = some n := by
  rw [writeInteger?] at hWrite
  split_ifs at hWrite with hLong
  cases hWrite
  exact readInteger?_toString (Nat.le_of_not_lt hLong)

/- The number before one that is read from digits has a text that is read again. -/
theorem readInteger?_toString_sub_one (hDigits : ∀ c ∈ digits, c.isDigit = true)
    (hRead : readInteger? (String.ofList digits) = some n) :
    readInteger? (toString (n - 1)) = some (n - 1) := by
  have hBound := natAbs_lt_of_readInteger? hRead
  have hSign : 0 ≤ n := by
    rw [readInteger?, String.toList_ofList, dropEnds_digits hDigits, takeSign_digits hDigits,
      Option.map_eq_some_iff] at hRead
    rcases hRead with ⟨value, _, rfl⟩
    exact Int.natCast_nonneg value
  have hOne : 1 < 10 ^ decimalDigitLimit := Nat.one_lt_pow (by decide) (by decide)
  refine readInteger?_toString ?_
  rw [Nat.length_repr_le_iff (by decide)]
  omega

end Text

-- Lexemes

namespace Expr

variable {c mark : Char} {s : String} {cs rest : List Char} {isDigitHere : Char → Bool}

theorem dropFinalNewline_word (hWord : ∀ c ∈ cs, isWord c = true) :
    dropFinalNewline (cs.dropWhile isDigitHere) = cs.dropWhile isDigitHere := by
  rw [dropFinalNewline, if_neg]
  intro hLast
  exact absurd (hWord _ ((dropWhile_sublist _).mem (mem_of_mem_getLast? hLast))) (by decide)

theorem decimal?_word (hWord : ∀ c ∈ cs, isWord c = true) : decimal? cs =
    if cs.takeWhile Char.isDigit ≠ [] ∧ isSuffix (cs.dropWhile Char.isDigit) = true then
      some (cs.takeWhile Char.isDigit, cs.dropWhile Char.isDigit)
    else none := by
  have hBreak := @dropFinalNewline_word _ Char.isDigit hWord
  cases cs with
  | nil => rfl
  | cons c rest =>
    have hSign : c ≠ '+' ∧ c ≠ '-' := by
      constructor <;> rintro rfl <;> exact absurd (hWord _ mem_cons_self) (by decide)
    simp [decimal?, hSign, hBreak]

theorem hexadecimal?_word (hWord : ∀ c ∈ rest, isWord c = true) :
    hexadecimal? ('0' :: mark :: rest) = if (mark = 'x' ∨ mark = 'X') ∧
        rest.takeWhile isHexDigit ≠ [] ∧ isSuffix (rest.dropWhile isHexDigit) = true then
      some (rest.takeWhile isHexDigit)
    else none := by
  simp [hexadecimal?, dropFinalNewline_word hWord, and_assoc]

/- A mark of base sixteen is no part of a decimal number. -/
theorem decimal?_marked (hMark : mark = 'x' ∨ mark = 'X')
    (hWord : ∀ c ∈ '0' :: mark :: rest, isWord c = true) :
    decimal? ('0' :: mark :: rest) = none := by
  rw [decimal?_word hWord]
  rcases hMark with rfl | rfl <;> simp [isSuffix, isSuffixLetter]

namespace Constant

/- What has no quote and is no number stays a text. -/
theorem read_of_noQuote (hQuote : '\'' ∉ s.toList) (hDecimal : decimal? s.toList = none)
    (hHexadecimal : hexadecimal? s.toList = none) : read s = .ok ⟨0, .text s⟩ := by
  have hWord : ∀ cs : List Char, '\'' ∉ cs → quotedWord? cs = none := by
    intro cs hNone
    fun_induction quotedWord? cs <;> simp_all
  have hEscape : ∀ cs : List Char, '\'' ∉ cs → quotedEscape? cs = none := by
    intro cs hNone
    fun_induction quotedEscape? cs <;> simp_all
  have hCode : quotedCode? s.toList = none := by
    unfold quotedCode?
    split <;> simp_all
  simp [read, hDecimal, hHexadecimal, readQuoted, hWord _ hQuote, hEscape _ hQuote, hCode]

theorem read_neither (hWord : ∀ c ∈ s.toList, isWord c = true) :
    decimal? s.toList = none → hexadecimal? s.toList = none → read s = .ok ⟨0, .text s⟩ :=
  read_of_noQuote fun hMem => absurd (hWord _ hMem) (by decide)

/- A decimal literal is read as its number unless it is too long. -/
theorem read_repr (n : Nat) : read n.repr =
    if n.repr.length ≤ decimalDigitLimit then .ok (signed n)
    else .error .badValue := by
  have hDigits : ∀ c ∈ Nat.toDigits 10 n, c.isDigit = true := fun _ => isDigit_of_mem_toDigits
  -- only zero begins with a zero, so no base is named
  have hMarked : readMarked? (Nat.toDigits 10 n) =
      readMagnitude? 10 (Nat.toDigits 10 n) := by
    unfold readMarked?
    split
    · next mark rest hList =>
      rcases Nat.eq_zero_or_pos n with rfl | hPositive
      · cases hList
      · exact absurd (by rw [hList]; rfl) (head?_toDigits_ne_zero hPositive.ne')
    · rfl
  rw [read, Nat.toList_repr, decimal?_word fun c hMem =>
      (isDigit_of_decimal (hDigits c hMem)).1.isWord, takeWhile_eq_self_iff.2 hDigits,
    dropWhile_eq_nil_iff.2 hDigits, if_pos ⟨Nat.toDigits_ne_nil, rfl⟩]
  simp only [any_nil, Bool.false_eq_true, if_false, readLiteral?, String.toList_ofList,
    dropEnds_digits hDigits, takeSign_digits hDigits, hMarked,
    readMagnitude?_toDigits, length_repr]
  split_ifs <;> rfl

theorem read_binaryOp (op : BinaryOp) : read op.spelling = .ok ⟨0, .text op.spelling⟩ := by
  cases op <;> rfl

theorem read_prefixOp (op : PrefixOp) : read op.spelling = .ok ⟨0, .text op.spelling⟩ := by
  cases op <;> rfl

theorem read_openParen : read "(" = .ok ⟨0, .text "("⟩ := rfl

theorem read_closeParen : read ")" = .ok ⟨0, .text ")"⟩ := rfl

end Constant

end Expr

end CHeader
