import CHeader.Proofs.Expr.Layout
import CHeader.Proofs.Expr.Scan

/-
  Items that are read as a number.

  Decimal and hexadecimal constants are read as the numbers that their texts name. Items that a
  frame reads as a number can be put in parentheses, stand behind a prefix operator and be joined by
  a binary one.

  Main declarations:
    * `Expr.isNumeral`
    * `Expr.Constant.read_numeral`
    * `Expr.Reads`
-/

namespace CHeader

open List

variable {c : Char} {cs : List Char}

-- Texts that are no numbers

namespace Text

/- Digits are not read on over a character that is none in their base. -/
theorem readDigits_eq_none {base value count : Nat} {afterDigit : Bool}
    (hMem : c ∈ cs) (hMark : c ≠ '_') (hLarge : ∀ digit ∈ digitValue? c, base ≤ digit) :
    readDigits base value count afterDigit cs = none := by
  fun_induction readDigits base value count afterDigit cs with
  | case1 => cases hMem
  | case2 | case3 => rfl
  | case4 value count rest hMore ih =>
    exact ih ((mem_cons.1 hMem).resolve_left hMark)
  | case5 => rfl
  | case6 value count _ d rest hOther digit hDigit hLess ih =>
    refine ih ((mem_cons.1 hMem).resolve_left ?_)
    rintro rfl
    have := hLarge digit hDigit
    omega
  | case7 | case8 => rfl

/- The letters that name a base. -/
def baseMarks : List Char := ['x', 'X', 'o', 'O', 'b', 'B']

/- A text that names no base is a decimal one. -/
theorem readMarked?_eq_none (hNone : readMagnitude? 10 cs = none)
    (hMarks : ∀ c ∈ cs, c ∉ baseMarks) : readMarked? cs = none := by
  unfold readMarked?
  split
  · next mark rest =>
    have hMark := hMarks mark (by simp)
    simp only [baseMarks, mem_cons, not_or] at hMark
    simp [hMark, hNone]
  · exact hNone

theorem toNat_lt_of_isAlphanum (hLetter : c.isAlphanum = true) : c.toNat < 128 := by
  simp only [Char.isAlphanum, Char.isAlpha, Char.isUpper,
    Char.isLower, Char.isDigit, Bool.or_eq_true, Bool.and_eq_true, decide_eq_true_eq,
    UInt32.le_iff_toNat_le] at hLetter
  have hCode : c.toNat = c.val.toNat := rfl
  have hUpper : 'Z'.val.toNat = 90 := rfl
  have hLower : 'z'.val.toNat = 122 := rfl
  have hDigit : '9'.val.toNat = 57 := rfl
  omega

/- Letters and digits are parts of words and neither blanks nor signs. -/
theorem isWord_of_isAlphanum (hLetter : c.isAlphanum = true) :
    isWord c = true ∧ isNumberBlank c = false ∧ c ≠ '-' ∧ c ≠ '+' := by
  have hAscii := toNat_lt_of_isAlphanum hLetter
  refine ⟨by simp [isWord, isLetterOrNumber, hAscii, hLetter], ?_, ?_, ?_⟩
  · have hCodes : ∀ code < 128, (Char.ofNat code).isAlphanum = true →
        isNumberBlank (Char.ofNat code) = false := by
      decide +kernel
    have hCode := hCodes c.toNat hAscii
    rw [Char.ofNat_toNat] at hCode
    exact hCode hLetter
  · rintro rfl
    cases hLetter
  · rintro rfl
    cases hLetter

end Text

namespace Expr

open Text Constant

variable {s t : String}

-- Numerals

/- Digits of a class with letters for size and sign. -/
def digitsThenSuffix (isDigitHere : Char → Bool) (cs : List Char) : Bool :=
  !(cs.takeWhile isDigitHere).isEmpty && (cs.dropWhile isDigitHere).all isSuffixLetter

/- Whether a text is a decimal or hexadecimal constant. -/
def isNumeral (s : String) : Bool :=
  match s.toList with
  | '0' :: mark :: rest =>
      if mark = 'x' || mark = 'X' then
        digitsThenSuffix isHexDigit rest
      else digitsThenSuffix Char.isDigit ('0' :: mark :: rest)
  | cs => digitsThenSuffix Char.isDigit cs

theorem digitsThenSuffix_cases (hShape : digitsThenSuffix isDigitHere cs = true) :
    ∃ digits suffix, cs = digits ++ suffix ∧ digits ≠ [] ∧ (∀ c ∈ digits, isDigitHere c = true) ∧
      ∀ c ∈ suffix, isSuffixLetter c = true := by
  rw [digitsThenSuffix, Bool.and_eq_true] at hShape
  refine ⟨cs.takeWhile isDigitHere, cs.dropWhile isDigitHere, takeWhile_append_dropWhile.symm,
    by simpa using hShape.1, fun c => mem_takeWhile_imp, ?_⟩
  simpa using hShape.2

section

variable (hNumeral : isNumeral s = true)
include hNumeral

theorem isNumeral_cases : ∃ digits suffix, digits ≠ [] ∧ (∀ c ∈ suffix, isSuffixLetter c = true) ∧
    (s.toList = digits ++ suffix ∧ (∀ c ∈ digits, c.isDigit = true) ∨
      ∃ mark, (mark = 'x' ∨ mark = 'X') ∧ s.toList = '0' :: mark :: (digits ++ suffix) ∧
        ∀ c ∈ digits, isHexDigit c = true) := by
  unfold isNumeral at hNumeral
  split at hNumeral
  · next mark rest hList =>
    split_ifs at hNumeral with hMark
    · obtain ⟨digits, suffix, rfl, hSome, hDigits, hSuffix⟩ := digitsThenSuffix_cases hNumeral
      exact ⟨digits, suffix, hSome, hSuffix, .inr ⟨mark, by simpa using hMark, hList, hDigits⟩⟩
    · obtain ⟨digits, suffix, hSame, hSome, hDigits, hSuffix⟩ := digitsThenSuffix_cases hNumeral
      exact ⟨digits, suffix, hSome, hSuffix, .inl ⟨hList.trans hSame, hDigits⟩⟩
  · obtain ⟨digits, suffix, hSame, hSome, hDigits, hSuffix⟩ := digitsThenSuffix_cases hNumeral
    exact ⟨digits, suffix, hSome, hSuffix, .inl ⟨hSame, hDigits⟩⟩

/- A letter for size or sign is no digit. -/
omit hNumeral in
theorem isSuffixLetter_cases (hSuffix : isSuffixLetter c = true) :
    c.isAlphanum = true ∧ c ≠ '_' ∧ ∀ digit ∈ digitValue? c, 16 ≤ digit := by
  simp only [isSuffixLetter, Bool.or_eq_true, decide_eq_true_eq] at hSuffix
  rcases hSuffix with ((rfl | rfl) | rfl) | rfl <;> decide

theorem isAlphanum_of_isNumeral : ∀ c ∈ s.toList, c.isAlphanum = true := by
  obtain ⟨digits, suffix, _, hSuffix, hShape⟩ := isNumeral_cases hNumeral
  have hLetters : ∀ c ∈ suffix, c.isAlphanum = true :=
    fun c hMem => (isSuffixLetter_cases (hSuffix c hMem)).1
  rcases hShape with ⟨hList, hDigits⟩ | ⟨mark, hMark, hList, hDigits⟩
  · rw [hList, forall_mem_append]
    refine ⟨fun c hMem => ?_, hLetters⟩
    simp [Char.isAlphanum, hDigits c hMem]
  · rw [hList, forall_mem_cons, forall_mem_cons, forall_mem_append]
    refine ⟨by decide, ?_, fun c hMem => ?_, hLetters⟩
    · rcases hMark with rfl | rfl <;> decide
    · exact (isDigit_of_isHexDigit (hDigits c hMem)).isAlphanum

theorem isWordItem_of_isNumeral : isWordItem s = true := by
  have hLetters := isAlphanum_of_isNumeral hNumeral
  obtain ⟨digits, suffix, hSome, _, hShape⟩ := isNumeral_cases hNumeral
  obtain ⟨c, more, rfl⟩ := exists_cons_of_ne_nil hSome
  have hHead : ∃ d rest, s.toList = d :: rest ∧ d.isDigit = true := by
    rcases hShape with ⟨hList, hDigits⟩ | ⟨mark, _, hList, _⟩
    · exact ⟨c, _, hList, hDigits c mem_cons_self⟩
    · exact ⟨'0', _, hList, by decide⟩
  obtain ⟨d, rest, hList, hDigit⟩ := hHead
  refine isWordItem_iff.2 ⟨by simp [hList], fun c hMem => ?_, ?_⟩
  · simp [isLexemeChar, (isWord_of_isAlphanum (hLetters c hMem)).1]
  · rw [hList, show "defined".toList = 'd' :: "efined".toList from rfl, cons_prefix_cons]
    rintro ⟨rfl, _⟩
    exact absurd hDigit (by decide)

/- The number of a numeral is that of its digits. -/
theorem readLiteral?_numeral : readLiteral? s = (readMarked? s.toList).map Int.ofNat := by
  have hFacts := fun c hMem => isWord_of_isAlphanum (isAlphanum_of_isNumeral hNumeral c hMem)
  have hSign : takeSign s.toList = (false, s.toList) := by
    unfold takeSign
    split
    · next hList =>
      exact absurd rfl (hFacts '-' (by simp [hList])).2.2.1
    · next hList =>
      exact absurd rfl (hFacts '+' (by simp [hList])).2.2.2
    · rfl
  rw [readLiteral?, dropEnds_eq_self fun c hMem => (hFacts c hMem).2.1, hSign]
  rfl

/- Decimal and hexadecimal constants are read as the numbers that their texts name. -/
theorem Constant.read_numeral {n : Int}
    (hRead : readLiteral? s = some n) : read s = .ok (signed n) := by
  have hMarked := hRead
  rw [readLiteral?_numeral hNumeral, Option.map_eq_some_iff] at hMarked
  obtain ⟨m, hMarked, rfl⟩ := hMarked
  have hWord := fun c hMem =>
    (isWord_of_isAlphanum (isAlphanum_of_isNumeral hNumeral c hMem)).1
  obtain ⟨digits, suffix, hSome, hSuffix, hShape⟩ := isNumeral_cases hNumeral
  -- a suffix would leave no number
  have hUnread : ∀ base cs, base ≤ 16 → suffix ≠ [] →
      (∀ c ∈ suffix, c ∈ cs) → readMagnitude? base cs = none := by
    intro base cs hBase hSuffixed hMem
    obtain ⟨c, more, rfl⟩ := exists_cons_of_ne_nil hSuffixed
    obtain ⟨_, hMark, hLarge⟩ := isSuffixLetter_cases (hSuffix c mem_cons_self)
    rw [readMagnitude?, readDigits_eq_none (hMem c mem_cons_self) hMark
      fun digit hDigit => hBase.trans (hLarge digit hDigit)]
  rcases hShape with ⟨hList, hDigits⟩ | ⟨mark, hMark, hList, hDigits⟩
  · have hBare : suffix = [] := by
      by_contra hSuffixed
      have hNone := hUnread 10 s.toList (by decide) hSuffixed (by simp +contextual [hList])
      rw [readMarked?_eq_none hNone ?_] at hMarked
      · cases hMarked
      · intro c hMem hMark
        rw [hList, mem_append] at hMem
        have hOther : baseMarks.all (fun d => !d.isDigit && !isSuffixLetter d) = true := by
          decide
        have hNeither := all_eq_true.1 hOther c hMark
        rcases hMem with hMem | hMem
        · simp [hDigits c hMem] at hNeither
        · simp [hSuffix c hMem] at hNeither
    rw [hBare, append_nil] at hList
    rw [hList] at hWord
    rw [read, hList, decimal?_word hWord, takeWhile_eq_self_iff.2 hDigits,
      dropWhile_eq_nil_iff.2 hDigits, if_pos ⟨hSome, rfl⟩, ← hList]
    simp [hRead]
  · have hHead : ∀ c ∈ (digits ++ suffix).head?, c ≠ '_' := by
      obtain ⟨c, more, rfl⟩ := exists_cons_of_ne_nil hSome
      rintro _ ⟨⟩
      exact (isDigit_of_isHexDigit (hDigits c mem_cons_self)).noMark
    have hValue : readMarked? s.toList = readMagnitude? 16 (digits ++ suffix) := by
      rw [hList, readMarked?, if_pos hMark]
      unfold dropUnderscore
      split
      · next hUnder => exact absurd rfl (hHead _ (by rw [hUnder]; rfl))
      · rfl
    rw [hValue] at hMarked
    have hBare : suffix = [] := by
      by_contra hSuffixed
      rw [hUnread 16 _ (by decide) hSuffixed (by simp +contextual)] at hMarked
      cases hMarked
    rw [hBare, append_nil] at hList hMarked
    rw [hList] at hWord
    rw [read, hList, decimal?_marked hMark hWord,
      hexadecimal?_word (forall_mem_cons.1 (forall_mem_cons.1 hWord).2).2,
      takeWhile_eq_self_iff.2 hDigits, dropWhile_eq_nil_iff.2 hDigits, if_pos ⟨hMark, hSome, rfl⟩]
    simp [readInBase?, hMarked]

end

-- Phrases

def enclosed (items : List String) : List String := "(" :: (items ++ [")"])

def beginsOperand (c : Char) : Bool := c.isAlphanum || ['(', '-', '+', '!', '~'].contains c

structure Phrase (items : List String) : Prop where
  isItem : ∀ item ∈ items, isItem item = true
  chain : items.IsChain (apart · ·)
  begins : ∃ first ∈ items.head?, ∃ c ∈ first.toList.head?, beginsOperand c = true
  ends : ∃ last ∈ items.getLast?, apart last ")" = true ∧
      ∀ op : BinaryOp, apart last op.spelling = true

/- An operator ends before an operand. -/
theorem endsBefore_of_beginsOperand (hMem : t ∈ operators) (hBegins : beginsOperand c = true) :
    endsBefore t c = true := by
  -- no operand begins with a character that an operator goes on with
  have hOther : ∀ d ∈ ['=', '|', '&', '#', '<', '>'], c ≠ d := by
    rintro d hMark rfl
    fin_cases hMark <;> cases hBegins
  simp only [forall_mem_cons] at hOther
  have hWord : ∀ t ∈ operators, isWordItem t = false := by
    decide +kernel
  rw [endsBefore, hWord t hMem]
  fin_cases hMem <;> simp [operatorLength?, operators, Text.startsWith, hOther]

theorem BinaryOp.spelling_mem_operators (op : BinaryOp) : op.spelling ∈ operators := by
  cases op <;> decide

theorem PrefixOp.spelling_mem_operators (op : PrefixOp) : op.spelling ∈ operators := by
  cases op <;> decide

theorem phrase_numeral (hNumeral : isNumeral s = true) : Phrase [s] := by
  have hWord := isWordItem_of_isNumeral hNumeral
  have hEnds : ∀ u : String, apart s u = u.toList.head?.all
      (fun d => !isLexemeChar d && d ≠ '(') := by
    intro u
    unfold apart
    congr 1
    funext d
    rw [endsBefore, if_pos hWord]
  refine ⟨?_, isChain_singleton s, ⟨s, rfl, ?_⟩, s, rfl, (hEnds ")").trans (by decide),
    fun op => (hEnds _).trans (by cases op <;> decide)⟩
  · intro item hMem
    rw [mem_singleton.1 hMem, isItem_iff]
    exact .inl hWord
  · obtain ⟨c, rest, hList⟩ := exists_cons_of_ne_nil (isWordItem_iff.1 hWord).1
    refine ⟨c, by rw [hList]; rfl, ?_⟩
    simp [beginsOperand, isAlphanum_of_isNumeral hNumeral c (by simp [hList])]

namespace Phrase

variable {items left right : List String}

theorem apart_operator (hItems : Phrase items) (hMem : t ∈ operators) :
    ∀ first ∈ items.head?, apart t first = true := by
  obtain ⟨first, hFirst, c, hc, hBegins⟩ := hItems.begins
  intro u hu
  rw [Option.mem_def] at hFirst hc hu
  rw [hFirst, Option.some.injEq] at hu
  subst hu
  refine apart_iff.2 fun d hd => ?_
  rw [Option.mem_def, hc, Option.some.injEq] at hd
  exact hd ▸ endsBefore_of_beginsOperand hMem hBegins

theorem prefixed (hItems : Phrase items) (op : PrefixOp) : Phrase (op.spelling :: items) := by
  have hMem := op.spelling_mem_operators
  obtain ⟨last, hLast, hEnds⟩ := hItems.ends
  refine ⟨?_, ?_, ⟨_, rfl, ?_⟩, last, ?_, hEnds⟩
  · exact forall_mem_cons.2 ⟨isItem_iff.2 (.inr hMem), hItems.isItem⟩
  · exact isChain_cons.2 ⟨hItems.apart_operator hMem, hItems.chain⟩
  · cases op <;> exact ⟨_, rfl, by decide⟩
  · rw [getLast?_cons, hLast]
    rfl

theorem binary (hLeft : Phrase left) (hRight : Phrase right) (op : BinaryOp) :
    Phrase (left ++ op.spelling :: right) := by
  have hMem := op.spelling_mem_operators
  obtain ⟨first, hFirst, hBegins⟩ := hLeft.begins
  obtain ⟨last, hLast, hEnds⟩ := hRight.ends
  obtain ⟨mid, hMid, hMiddle⟩ := hLeft.ends
  refine ⟨?_, ?_, ⟨first, ?_, hBegins⟩, last, ?_, hEnds⟩
  · exact forall_mem_append.2 ⟨hLeft.isItem, forall_mem_cons.2
        ⟨isItem_iff.2 (.inr hMem), hRight.isItem⟩⟩
  · refine isChain_append.2 ⟨hLeft.chain, isChain_cons.2
        ⟨hRight.apart_operator hMem, hRight.chain⟩, ?_⟩
    rintro x hx y ⟨⟩
    rw [Option.mem_def] at hMid hx
    rw [hMid, Option.some.injEq] at hx
    exact hx ▸ hMiddle.2 op
  · exact mem_head?_append_of_mem_head? hFirst
  · rw [getLast?_append, getLast?_cons, hLast]
    rfl

theorem enclosed (hItems : Phrase items) : Phrase (Expr.enclosed items) := by
  obtain ⟨last, hLast, hEnds⟩ := hItems.ends
  refine ⟨?_, ?_, ⟨"(", rfl, '(', rfl, by decide⟩,
    ")", ?_, by decide, fun op => by cases op <;> decide⟩
  · refine forall_mem_cons.2 ⟨by decide, ?_⟩
    exact forall_mem_append.2 ⟨hItems.isItem, by decide⟩
  · refine isChain_cons.2 ⟨?_, isChain_append.2 ⟨hItems.chain, isChain_singleton _, ?_⟩⟩
    · intro y hy
      obtain ⟨first, hFirst, _⟩ := hItems.begins
      refine hItems.apart_operator (by decide) y ?_
      rw [head?_append, hFirst] at hy
      rwa [hFirst]
    · rintro x hx y ⟨⟩
      rw [Option.mem_def] at hLast hx
      rw [hLast, Option.some.injEq] at hx
      exact hx ▸ hEnds.1
  · simp [Expr.enclosed, getLast?_cons]

end Phrase

-- Frames over items

/-
  Whether a frame that is weaker than a bound reads items as a number and goes on after them. The
  kind is that of their first token.
-/
structure ReadsAs (isDefined : String → Bool) (items : List String) (bound kind n : Int) :
    Prop where
  starts : ∃ item rest, items = item :: rest ∧ ∀ first, read item = .ok first →
      first.kind = kind ∧ first.value ≠ .text ""
  delivers : ∀ strengthHere follow, strengthHere < bound → Closes bound follow →
      Delivers isDefined strengthHere kind (.ok (n, false))
          (readFrame isDefined strengthHere false (items ++ follow)) follow

/- Whether items are read as a number that is not converted. -/
def Reads (isDefined : String → Bool) (items : List String) (bound n : Int) : Prop :=
  ∃ kind, (kind = 0 ∨ kind = 1) ∧ ReadsAs isDefined items bound kind n

section

variable {isDefined : String → Bool} {items left right : List String} {bound kind m n : Int}
variable {lower upper value : Int} {op : BinaryOp}

theorem readsAs_constant (hConstant : read s = .ok ⟨kind, .int n⟩) :
    ReadsAs isDefined [s] 70 kind n := by
  refine ⟨⟨s, [], rfl, fun first hFirst => ?_⟩, fun strengthHere follow _ hCloses => ?_⟩
  · rw [hConstant] at hFirst
    cases hFirst
    exact ⟨rfl, by simp⟩
  · rw [singleton_append, readFrame_cons hConstant (by simp)]
    exact endsOperand_alone rfl hCloses

theorem reads_constant (hConstant : read s = .ok (.signed n)) : Reads isDefined [s] 70 n :=
  ⟨1, .inr rfl, readsAs_constant hConstant⟩

theorem reads_numeral (hNumeral : isNumeral s = true) (hRead : readLiteral? s = some n) :
    Reads isDefined [s] 70 n :=
  reads_constant (read_numeral hNumeral hRead)

/- Items in parentheses have the value of those inside. -/
theorem ReadsAs.enclosed (hItems : ReadsAs isDefined items bound kind n) (hBound : 0 < bound) :
    ReadsAs isDefined (Expr.enclosed items) 70 0 n := by
  obtain ⟨⟨item, rest, rfl, _⟩, hDelivers⟩ := hItems
  refine ⟨⟨"(", _, rfl, fun first hFirst => ?_⟩, fun strengthHere follow _ hCloses => ?_⟩
  · rw [read_openParen] at hFirst
    cases hFirst
    exact ⟨rfl, by simp⟩
  · have hInside := hDelivers 0 (")" :: follow) hBound (closes_closeParen hBound.le _)
    simp only [Expr.enclosed, cons_append, append_assoc] at hInside ⊢
    rw [readFrame_cons read_openParen (by simp)]
    exact goOn_paren (by simp) hCloses hInside

theorem Reads.enclosed (hItems : Reads isDefined items bound n) (hBound : 0 < bound) :
    Reads isDefined (Expr.enclosed items) 70 n := by
  obtain ⟨kind, _, hItems⟩ := hItems
  exact ⟨0, .inl rfl, hItems.enclosed hBound⟩

theorem Reads.prefixed (hItems : Reads isDefined items 70 n) (op : PrefixOp) :
    Reads isDefined (op.spelling :: items) 70 (op.value n) := by
  obtain ⟨kind, _, ⟨item, rest, rfl, _⟩, hDelivers⟩ := hItems
  have hToken : Operand.text op.spelling ≠ .text "" := by
    cases op <;> simp [PrefixOp.spelling]
  refine ⟨0, .inl rfl, ⟨op.spelling, _, rfl, fun first hFirst => ?_⟩,
    fun strengthHere follow _ hCloses => ?_⟩
  · rw [read_prefixOp] at hFirst
    cases hFirst
    exact ⟨rfl, hToken⟩
  · have hOperand := hDelivers 60 follow (by decide) hCloses
    rw [cons_append, readFrame_cons (read_prefixOp op) hToken]
    exact goOn_prefixed op (by simp) hCloses hOperand

/- Operands with a binary operator between them that is not a logical one. -/
theorem ReadsAs.binary {rightKind l : Int} {r : Int → Int}
    (hLeft : ReadsAs isDefined left lower kind m)
    (hRight : ReadsAs isDefined right upper rightKind n)
    (hLower : op.strength ≤ lower) (hUpper : op.strength < upper) (hOp : op.isLogical = false)
    (hBalance : ∀ n, balance (.text op.spelling) kind rightKind (.int m) (.int n) =
      .ok (.int l, .int (r n))) (hValue : op.value l (r n) = .ok value) :
    ReadsAs isDefined (left ++ op.spelling :: right) op.strength kind value := by
  obtain ⟨⟨first, more, rfl, hFirst⟩, hLeftDelivers⟩ := hLeft
  obtain ⟨⟨item, rest, rfl, hItem⟩, hRightDelivers⟩ := hRight
  have hOpen : op.decidedBy m = false := by
    cases op <;> first | rfl | cases hOp
  refine ⟨⟨first, _, rfl, hFirst⟩, fun strengthHere follow hStronger hCloses => ?_⟩
  obtain ⟨token, hAhead, hAfter⟩ := hLeftDelivers strengthHere
    (op.spelling :: ((item :: rest) ++ follow)) (by omega) (closes_operator op hLower _)
  have hOperand : Delivers isDefined op.strength rightKind (.ok (n, false))
      (readFrame isDefined op.strength (false || op.decidedBy m) (item :: (rest ++ follow)))
      follow := by
    rw [hOpen]
    exact hRightDelivers op.strength follow (by omega) (hCloses.mono (by omega))
  have hApplied := goOn_binary_delivers op m hStronger hCloses
    (fun first hRead => (hItem first hRead).1 ▸ hBalance) hOperand
  simp only [Fault.ok_bind, hOpen, hValue] at hApplied
  simp only [append_assoc, cons_append] at hAfter ⊢
  rw [hAfter, hAhead.eq_text (read_binaryOp op), afterOperand,
    if_pos (by simpa using hStronger)]
  exact hApplied

theorem Reads.binary (hLeft : Reads isDefined left lower m) (hRight : Reads isDefined right upper n)
    (hLower : op.strength ≤ lower) (hUpper : op.strength < upper)
    (hOp : op.isLogical = false) (hValue : op.value m n = .ok value) :
    Reads isDefined (left ++ op.spelling :: right) op.strength value := by
  obtain ⟨kind, hKind, hLeft⟩ := hLeft
  obtain ⟨rightKind, hRightKind, hRight⟩ := hRight
  exact ⟨kind, hKind, hLeft.binary (r := id) hRight hLower hUpper hOp
    (fun _ => balance_plain _ _ _ hKind hRightKind) hValue⟩

theorem ReadsAs.evaluateAll_eq (hItems : ReadsAs isDefined items bound kind n) (hBound : 0 < bound) :
    (evaluateAll isDefined items).map Prod.fst = .ok (.int n) := by
  obtain ⟨⟨item, rest, rfl, hFirst⟩, hDelivers⟩ := hItems
  have hFrame := hDelivers 0 [] hBound (by simp [Closes])
  rw [append_nil] at hFrame
  rw [evaluateAll_eq_readFrame fun first hRead => (hFirst first hRead).2]
  exact hFrame.map_fst

end

end Expr

end CHeader
