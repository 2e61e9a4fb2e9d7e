import CHeader.Proofs.Expr.Precedence
import CHeader.Proofs.Expr.Reading
import CHeader.Proofs.Source.ExpandedCondition

/-
  Conditions with names and the word `defined`.

  In a condition a free name stands for zero, and a question with the word `defined` for one or
  zero. However the tokens of a condition are spaced, it holds if the value of the expression that
  it stands for is not zero. The word `defined` is read off also where it only begins a name, so
  names must not begin with it.

  Main declarations:
    * `Source.Chunk`
    * `Source.Standing.laidOut_openDefined`
    * `Source.exec_conditionHolds_typed`
-/

namespace CHeader

open List hiding concat

open Text

variable {t : String}

-- Questions and the tokens of expressions

namespace Expr

variable {isDefined : String → Bool} {s : String}

/- A name is an operand of the word `defined`. -/
theorem reads_defined (hName : isIdentifier? s = some true) (hDefined : s ≠ "defined") :
    Reads isDefined ["defined", s] 70 (if isDefined s then 1 else 0) := by
  have hRead := Source.read_identifier hName
  have hDefinedRead : Constant.read "defined" = .ok ⟨0, .text "defined"⟩ := by
    decide
  have hAlone : standsAlone (.text s) = true ∧ Operand.text s ≠ .text "" := by
    constructor
    · refine decide_eq_true fun hMem => ?_
      simp only [mem_cons, not_mem_nil, or_false] at hMem
      rcases hMem with rfl | rfl | rfl | rfl | rfl | rfl | rfl | rfl <;>
        first | exact hDefined rfl | exact absurd hName (by decide)
    · rintro ⟨⟩
      exact absurd hName (by decide)
  refine ⟨0, .inl rfl, ⟨"defined", [s], rfl, fun first hFirst => ?_⟩,
    fun strengthHere follow _ hCloses => ?_⟩
  · rw [hDefinedRead] at hFirst
    cases hFirst
    exact ⟨rfl, by simp⟩
  · -- the operand is a frame that ends after the name
    obtain ⟨token, hFrame, hToken⟩ := EndsOperand.outcome
      (@endsOperand_alone isDefined 70 false 0 _ _ _ hAlone.1 hCloses) hCloses (by decide)
    rw [← evaluate_of_token hAlone.2] at hFrame
    rw [cons_append, singleton_append, readFrame_cons hDefinedRead (by simp),
      goOn_operand (by simp) (by simp), hRead]
    simp only [unaryStep.eq_def]
    obtain ⟨step, hStep, hOutcome⟩ := Fault.map_eq_ok_iff.1 hFrame
    simp only [Progress.outcome, Prod.mk.injEq] at hOutcome
    simp only [hStep, Fault.ok_bind, Fault.pure_eq_ok,
      Fault.ok_map, Progress.outcome, hOutcome]
    refine endsOperand_afterOperand fun item hItem => ?_
    rw [if_neg ((hCloses item hItem).2 token (hToken item hItem)).1]
    exact hToken item hItem

theorem isDigit_of_mem_repr (n : Nat) : ∀ c ∈ n.repr.toList, c.isDigit = true := by
  rw [Nat.toList_repr]
  exact fun c => Nat.isDigit_of_mem_toDigits (by decide) le_rfl

theorem phrase_repr (n : Nat) : Phrase [n.repr] := by
  refine phrase_numeral ?_
  have hDigits := isDigit_of_mem_repr n
  have hAll : digitsThenSuffix Char.isDigit n.repr.toList = true := by
    rw [digitsThenSuffix, takeWhile_eq_self_iff.2 hDigits, dropWhile_eq_nil_iff.2 hDigits]
    simp
  unfold isNumeral
  split
  · next mark rest hList =>
    have hMark := hDigits mark (by simp [hList])
    rw [if_neg, ← hList]
    · exact hAll
    · simp only [Bool.or_eq_true, decide_eq_true_eq]
      rintro (rfl | rfl) <;> exact absurd hMark (by decide)
  · exact hAll

theorem Written.phrase_tokens (written : Written) : Phrase written.tokens := by
  induction written with
  | literal n => exact phrase_repr n
  | paren inside ih => exact ih.enclosed
  | prefixed op operand ih => exact ih.prefixed op
  | binary op left right ihLeft ihRight =>
    exact ihLeft.binary ihRight op

theorem Written.mem_tokens (written : Written) (hMem : t ∈ written.tokens) :
    t ∈ operators ∨ ∃ n : Nat, t = n.repr := by
  induction written with
  | literal n => exact .inr ⟨n, mem_singleton.1 hMem⟩
  | paren inside ih =>
    simp only [tokens, mem_cons, mem_append, not_mem_nil, or_false] at hMem
    rcases hMem with rfl | hMem | rfl
    · exact .inl (by decide)
    · exact ih hMem
    · exact .inl (by decide)
  | prefixed op operand ih =>
    rcases mem_cons.1 hMem with rfl | hMem
    · exact .inl op.spelling_mem_operators
    · exact ih hMem
  | binary op left right ihLeft ihRight =>
    simp only [tokens, mem_append, mem_cons] at hMem
    rcases hMem with hMem | rfl | hMem
    · exact ihLeft hMem
    · exact .inl op.spelling_mem_operators
    · exact ihRight hMem

end Expr

namespace Source

open CHeader.Expr (isItem isWordItem endsBefore apart isLexemeChar lexemesFrom operators LaidOut)

-- Chunks of a condition

def isPlainName (s : String) : Bool :=
  isIdentifier? s = some true && !startsWith s.toList "defined".toList

/- A literal or an operator, a name, or a question whether a
  name is defined, with or without parentheses. -/
inductive Chunk where
  | token (t : String)
  | name (s : String)
  | asked (s : String) (isEnclosed : Bool)

namespace Chunk

variable (isDefined : String → Bool)

def stands : Chunk → String
| token t => t
| name _ => "0"
| asked s _ => if isDefined s then "1" else "0"

def tokens : Chunk → List String
| token t => [t]
| name s => [s]
| asked s true => ["defined", "(", s, ")"]
| asked s false => ["defined", s]

/- The tokens without the parentheses of a question, where something else may be put for a name. -/
def parts (put : String → String) : Chunk → List String
| token t => [t]
| name s => [put s]
| asked s _ => ["defined", s]

def Named : Chunk → Prop
| token _ => True
| name s => isPlainName s = true ∧ isDefined s = false
| asked s _ => isPlainName s = true

/- A character with which a chunk may begin: that of the token
  it stands for, or one of a word where this is a literal. -/
def Begins (chunk : Chunk) (d : Char) : Prop :=
  d ∈ (chunk.stands isDefined).toList.head? ∨
    isWordItem (chunk.stands isDefined) = true ∧ isWord d = true

/- Tokens that begin like a chunk. -/
def Opens (chunk : Chunk) (list : List String) : Prop :=
  ∃ t more c cs, list = t :: more ∧ t.toList = c :: cs ∧ chunk.Begins isDefined c

end Chunk

structure Standing (isDefined : String → Bool) (chunks : List Chunk) : Prop where
  isItem : ∀ chunk ∈ chunks, isItem (chunk.stands isDefined) = true
  chain : (chunks.map (Chunk.stands isDefined)).IsChain (apart · ·)
  numeric : ∀ t, Chunk.token t ∈ chunks → isIdentifier? t = some false ∧ 'd' ∉ t.toList
  named : ∀ chunk ∈ chunks, chunk.Named isDefined

section

variable {isDefined : String → Bool} {put : String → String} {s : String} {d : Char}
variable {chunk : Chunk} {chunks : List Chunk} {text rest : List Char}
variable {gap : List Char} {session : Session}

theorem isWord_of_isPlainName (hName : isPlainName s = true) :
    s.toList ≠ [] ∧ (∀ c ∈ s.toList, isWord c = true) ∧ isWordItem s = true := by
  simp only [isPlainName, Bool.and_eq_true, decide_eq_true_eq, Bool.not_eq_true'] at hName
  obtain ⟨hSome, hWord⟩ := Macro.isWordText_iff.1 (isWordText_of_isIdentifier hName.1)
  refine ⟨hSome, hWord, Expr.isWordItem_iff.2 ⟨hSome, fun c hMem => ?_, ?_⟩⟩
  · simp [isLexemeChar, hWord c hMem]
  · rw [← startsWith_eq_true_iff, hName.2]
    exact Bool.false_ne_true

theorem isIdentifier_of_isPlainName (hName : isPlainName s = true) :
    isIdentifier? s = some true := by
  simp only [isPlainName, Bool.and_eq_true, decide_eq_true_eq] at hName
  exact hName.1

theorem ne_defined_of_isPlainName (hName : isPlainName s = true) : s ≠ "defined" := by
  rintro rfl
  exact absurd hName (by decide)

theorem isWordItem_answer (answer : Bool) : isWordItem (if answer then "1" else "0") = true := by
  cases answer <;> decide

theorem endsBefore_of_isWordItem (hWord : isWordItem s = true) (hOther : isWordItem t = true) :
    endsBefore t d = endsBefore s d := by
  rw [endsBefore, endsBefore, if_pos hWord, if_pos hOther]

theorem endsBefore_of_isWord (hOperator : s ∈ operators)
    (hWord : isWord d = true) : endsBefore s d = true := by
  have hMarks : ∀ t ∈ operators, ∀ c, isWord c = true → c ∉ t.toList := by
    have hAll : operators.all (fun t => t.toList.all fun c =>
        !isWord c) = true := by
      decide
    intro t hMem c hWord hHere
    have hMark := all_eq_true.1 (all_eq_true.1 hAll t hMem) c hHere
    simp [hWord] at hMark
  -- no operator holds the character, so any other will do
  have hStart : ∀ t ∈ operators, startsWith (s.toList ++ [d]) t.toList =
      startsWith (s.toList ++ ['0']) t.toList := by
    intro t hMem
    have hShort : ∀ c, isWord c = true →
        (t.toList <+: s.toList ++ [c] ↔ t.toList <+: s.toList) := by
      intro c hc
      refine ⟨fun hPrefix => ?_, fun hPrefix => hPrefix.trans (prefix_append _ _)⟩
      rcases prefix_concat_iff.1 hPrefix with hSame | hPrefix
      · exact absurd (by simp [hSame]) (hMarks t hMem c hc)
      · exact hPrefix
    rw [Bool.eq_iff_iff, startsWith_eq_true_iff, startsWith_eq_true_iff, hShort d hWord,
      hShort '0' (by decide)]
  have hZero : operators.all (fun t => !isWordItem t &&
      decide (Expr.operatorLength? (t.toList ++ ['0']) = some t.length)) = true := by
    decide
  have hHere := all_eq_true.1 hZero s hOperator
  rw [Bool.and_eq_true, Bool.not_eq_true'] at hHere
  rw [endsBefore, hHere.1, Expr.operatorLength?, find?_congr hStart]
  exact hHere.2

-- Beginnings of chunks

theorem Chunk.opens_parts (put : String → String)
    (hPut : ∀ s, isPlainName s = true → Macro.isWordText (put s) = true)
    (hItem : isItem (chunk.stands isDefined) = true) (hNamed : chunk.Named isDefined) :
    chunk.Opens isDefined (chunk.parts put) := by
  cases chunk with
  | token t =>
    obtain ⟨c, cs, hList⟩ := exists_cons_of_ne_nil (Expr.toList_ne_nil_of_isItem hItem)
    exact ⟨t, [], c, cs, rfl, hList, .inl (by rw [hList]; rfl)⟩
  | name s =>
    obtain ⟨hSome, hWord⟩ := Macro.isWordText_iff.1 (hPut s hNamed.1)
    obtain ⟨c, cs, hList⟩ := exists_cons_of_ne_nil hSome
    exact ⟨put s, [], c, cs, rfl, hList, .inr ⟨isWordItem_answer false, hWord c (by simp [hList])⟩⟩
  | asked s isEnclosed =>
    exact ⟨"defined", [s], 'd', "efined".toList, rfl, rfl, .inr ⟨isWordItem_answer _, by decide⟩⟩

theorem Chunk.opens_tokens (hItem : isItem (chunk.stands isDefined) = true)
    (hNamed : chunk.Named isDefined) : chunk.Opens isDefined chunk.tokens := by
  obtain ⟨t, more, c, cs, hParts, hChar⟩ := Chunk.opens_parts id (fun s hName =>
      Macro.isWordText_iff.2 ⟨(isWord_of_isPlainName hName).1,
          (isWord_of_isPlainName hName).2.1⟩) hItem hNamed
  have hFirst : ∃ later, chunk.tokens = t :: later := by
    cases chunk with
    | token | name => exact ⟨[], by rw [← (cons.inj hParts).1]; rfl⟩
    | asked s isEnclosed =>
      rw [← (cons.inj hParts).1]
      cases isEnclosed <;> exact ⟨_, rfl⟩
  obtain ⟨later, hTokens⟩ := hFirst
  exact ⟨t, later, c, cs, hTokens, hChar⟩

namespace Standing

variable {list : Chunk → List String}

section

variable (hChunks : Standing isDefined (chunk :: chunks))
include hChunks

theorem of_cons : Standing isDefined chunks :=
  ⟨fun other hMem => hChunks.isItem other (mem_cons_of_mem _ hMem), hChunks.chain.of_cons,
    fun t hMem => hChunks.numeric t (mem_cons_of_mem _ hMem),
    fun other hMem => hChunks.named other (mem_cons_of_mem _ hMem)⟩

theorem begins_cases (hBegins : chunk.Begins isDefined d) : isSpace d = false ∧ d ≠ '\x00' := by
  rcases hBegins with hHead | ⟨-, hWord⟩
  · obtain ⟨hSpace, hMark⟩ := Expr.mem_item (hChunks.isItem chunk mem_cons_self)
      (mem_of_mem_head? hHead)
    exact ⟨hSpace, fun hNull => hMark (by simp [hNull])⟩
  · refine ⟨?_, by rintro rfl; exact absurd hWord (by decide)⟩
    by_contra hSpace
    rw [not_isWord_of_isSpace (by simpa using hSpace)] at hWord
    cases hWord

omit hChunks in
theorem endsBefore_of_begins (hChunks : Standing isDefined (chunk :: other :: chunks))
    (hBegins : other.Begins isDefined d) : endsBefore (chunk.stands isDefined) d = true := by
  have hApart := Expr.apart_iff.1 (isChain_cons_cons.1 hChunks.chain).1
  rcases hBegins with hFirst | ⟨hWord, hLetter⟩
  · exact hApart d hFirst
  · -- two literals do not follow one another
    obtain ⟨hSome, hLetters, -⟩ := Expr.isWordItem_iff.1 hWord
    obtain ⟨c, cs, hList⟩ := exists_cons_of_ne_nil hSome
    have hEnds := hApart c (by simp [hList])
    refine endsBefore_of_isWord ((Expr.isItem_iff.1
      (hChunks.isItem chunk mem_cons_self)).resolve_left fun hHere => ?_) hLetter
    rw [endsBefore, if_pos hHere, hLetters c (by simp [hList])] at hEnds
    cases hEnds

/- A chunk ends before the text of the next ones, with or without its white space. -/
theorem endsBefore_head (hList : ∀ other ∈ chunks, other.Opens isDefined (list other))
    (hText : LaidOut (chunks.flatMap list) text)
    (hHead : d ∈ text.head? ∨ d ∈ (text.dropWhile isSpace).head?) :
    endsBefore (chunk.stands isDefined) d = true := by
  by_cases hSpace : isSpace d = true
  · exact Expr.endsBefore_of_isSpace (hChunks.isItem chunk mem_cons_self) hSpace
  have hSeen : d ∈ (text.dropWhile isSpace).head? := by
    refine hHead.elim (fun hHead => ?_) id
    obtain ⟨more, rfl⟩ := head?_eq_some_iff.1 hHead
    simp [hSpace]
  cases chunks with
  | nil =>
    cases hText with
    | nil hGap =>
      rw [dropWhile_eq_nil_iff.2 hGap] at hSeen
      cases hSeen
  | cons other chunks =>
    obtain ⟨t, more, c, cs, hFirst, hChars, hBegins⟩ := hList other mem_cons_self
    rw [flatMap_cons, hFirst, cons_append] at hText
    cases hText with
    | cons hGap hRest =>
      rw [dropWhile_append_of_pos hGap, hChars, cons_append, dropWhile_cons_of_neg
          (by simp [(hChunks.of_cons.begins_cases hBegins).1])]
        at hSeen
      cases hSeen
      exact hChunks.endsBefore_of_begins hBegins

theorem lexemesFrom_token (hList : ∀ other ∈ chunks, other.Opens isDefined (list other))
    (hRest : LaidOut (chunks.flatMap list) rest) (hGap : ∀ c ∈ gap, isSpace c = true)
    (hItem : Expr.isItem t = true)
    (hSame : ∀ d, endsBefore t d = endsBefore (chunk.stands isDefined) d) :
    lexemesFrom 0 (gap ++ (t.toList ++ rest)) = t :: lexemesFrom 0 rest := by
  rw [Expr.lexemesFrom_gap hGap, Expr.lexemesFrom_append (Expr.toList_ne_nil_of_isItem hItem)
    (Expr.lexemeLength?_item hItem fun d hd => ?_)]
  rw [hSame]
  exact hChunks.endsBefore_head hList hRest (.inl hd)

end

/- The tokens without parentheses are read again, whatever white space stands between them. -/
theorem lexemesFrom_parts (hChunks : Standing isDefined chunks) (hPut :
    ∀ s, isPlainName s = true → Macro.isWordText (put s) = true ∧ isWordItem (put s) = true)
    (hText : LaidOut (chunks.flatMap (Chunk.parts put)) text) :
    lexemesFrom 0 text = chunks.flatMap (Chunk.parts put) := by
  induction chunks generalizing text with
  | nil =>
    cases hText with
    | nil hGap =>
      have hSame := Expr.lexemesFrom_gap hGap []
      rwa [append_nil] at hSame
  | cons chunk chunks ih =>
    have hNamed := hChunks.named chunk mem_cons_self
    have hList : ∀ other ∈ chunks, other.Opens isDefined (other.parts put) :=
      fun other hMem => Chunk.opens_parts put (fun s hName => (hPut s hName).1)
        (hChunks.of_cons.isItem other hMem)
        (hChunks.of_cons.named other hMem)
    cases chunk with
    | token t =>
      cases hText with
      | cons hGap hRest =>
        have hItem : Expr.isItem t = true := hChunks.isItem (.token t) mem_cons_self
        rw [hChunks.lexemesFrom_token hList hRest hGap hItem fun _ => rfl, ih hChunks.of_cons hRest]
        rfl
    | name s =>
      cases hText with
      | cons hGap hRest =>
        have hWord := (hPut s hNamed.1).2
        rw [hChunks.lexemesFrom_token hList hRest hGap (Expr.isItem_iff.2 (.inl hWord)) fun d =>
            endsBefore_of_isWordItem (isWordItem_answer false) hWord,
          ih hChunks.of_cons hRest]
        rfl
    | asked s isEnclosed =>
      cases hText with
      | @cons gap _ _ _ hGap hMore =>
      cases hMore with
      | @cons between _ _ rest hBetween hRest =>
      have hWord := (isWord_of_isPlainName hNamed).2.2
      have hStart : Expr.lexemeLength? ("defined".toList ++ (between ++ (s.toList ++ rest))) =
          some "defined".length := by
        rw [Expr.lexemeLength?, if_pos (startsWith_eq_true_iff.2 (prefix_append _ _))]
        rfl
      rw [Expr.lexemesFrom_gap hGap, Expr.lexemesFrom_append (by decide) hStart,
        hChunks.lexemesFrom_token hList hRest hBetween (Expr.isItem_iff.2 (.inl hWord)) fun d =>
            endsBefore_of_isWordItem (isWordItem_answer _) hWord,
        ih hChunks.of_cons hRest]
      rfl

end Standing

-- Parentheses after the word

theorem definedCall?_eq_none (hOpen : '(' ∉ ((text.dropWhile isWord).dropWhile
    isSpace).head?) : definedCall? text = none := by
  unfold definedCall?
  split_ifs with hStart
  · obtain ⟨rest, rfl⟩ := startsWith_eq_true_iff.1 hStart
    have hDrop : ("defined".toList ++ rest).drop 7 = rest := rfl
    simp only [hDrop]
    split
    · next inside hInside =>
      have hWord : "defined".toList.all isWord = true := by
        decide
      have hStop : rest.dropWhile isWord = rest := by
        cases rest with
        | nil => rfl
        | cons c rest =>
          refine dropWhile_cons_of_neg ?_
          by_cases hSpace : isSpace c = true
          · simp [not_isWord_of_isSpace hSpace]
          · rw [dropWhile_cons_of_neg hSpace] at hInside
            cases hInside
            decide
      rw [dropWhile_append_of_pos (all_eq_true.1 hWord), hStop, hInside] at hOpen
      exact absurd rfl hOpen
    · rfl
  · rfl

theorem openDefinedFrom_skip (n : Nat) (cs : List Char) :
    openDefinedFrom n cs = openDefinedFrom 0 (cs.drop n) := by
  induction cs generalizing n with
  | nil => simp [openDefinedFrom]
  | cons c rest ih =>
    cases n with
    | zero => rfl
    | succ n =>
      rw [openDefinedFrom, ih]
      rfl

theorem openDefinedFrom_front (rest : List Char) (hFront : 'd' ∉ front) :
    openDefinedFrom 0 (front ++ rest) = front ++ openDefinedFrom 0 rest := by
  induction front with
  | nil => rfl
  | cons c front ih =>
    rw [mem_cons, not_or] at hFront
    have hNone : definedCall? (c :: (front ++ rest)) = none := by
      simp [definedCall?, startsWith, Ne.symm hFront.1]
    rw [cons_append, openDefinedFrom, hNone]
    simp only [ih hFront.2, cons_append]

/- A word stays as it is unless a parenthesis follows. -/
theorem openDefinedFrom_word (hWord : ∀ c ∈ word, isWord c = true)
    (hOpen : '(' ∉ ((rest.dropWhile isWord).dropWhile isSpace).head?) :
    openDefinedFrom 0 (word ++ rest) = word ++ openDefinedFrom 0 rest := by
  induction word with
  | nil => rfl
  | cons c word ih =>
    have hNone : definedCall? (c :: (word ++ rest)) = none := by
      refine definedCall?_eq_none ?_
      rwa [← cons_append, dropWhile_append_of_pos hWord]
    rw [forall_mem_cons] at hWord
    rw [cons_append, openDefinedFrom, hNone]
    simp only [ih hWord.2, cons_append]

/- Parentheses after the word are taken away. -/
theorem openDefinedFrom_enclosed (hGap : ∀ c ∈ gap, isSpace c = true)
    (hInside : ∀ c ∈ inside, c ≠ ')' ∧ c ≠ '\n') :
    openDefinedFrom 0 ("defined".toList ++ (gap ++ '(' :: (inside ++ ')' :: rest))) =
      "defined".toList ++ (' ' :: inside ++ openDefinedFrom 0 rest) := by
  have hSpaces : (gap ++ '(' :: (inside ++ ')' :: rest)).takeWhile isSpace = gap := by
    rw [takeWhile_append_of_pos hGap, takeWhile_cons_of_neg (by decide), append_nil]
  have hName : (inside ++ ')' :: rest).takeWhile (fun c => c ≠ ')' && c ≠ '\n') = inside := by
    rw [takeWhile_append_of_pos (by simpa using hInside),
      takeWhile_cons_of_neg (by decide), append_nil]
  have hCall : definedCall? ("defined".toList ++ (gap ++ '(' :: (inside ++ ')' :: rest))) =
      some (inside, 7 + gap.length + inside.length + 2) := by
    have hStart := startsWith_eq_true_iff.2 (prefix_append "defined".toList
        (gap ++ '(' :: (inside ++ ')' :: rest)))
    have hDrop : ("defined".toList ++ (gap ++ '(' :: (inside ++ ')' :: rest))).drop 7 =
        gap ++ '(' :: (inside ++ ')' :: rest) := rfl
    rw [definedCall?, if_pos hStart]
    simp only [hDrop, hSpaces]
    rw [dropWhile_append_of_pos hGap, dropWhile_cons_of_neg (by decide)]
    simp only [hName, drop_left]
  have hWhole : "defined".toList ++ (gap ++ '(' :: (inside ++ ')' :: rest)) =
      'd' :: ("efined".toList ++ gap ++ ['('] ++ inside ++ [')'] ++ rest) := by
    simp
  rw [hWhole] at hCall ⊢
  rw [openDefinedFrom, hCall]
  simp only
  rw [openDefinedFrom_skip, drop_left' (by simp; omega)]
  simp

theorem not_open_of_endsBefore (hWord : isWordItem s = true) (hEnds :
    ∀ d, d ∈ text.head? ∨ d ∈ (text.dropWhile isSpace).head? → endsBefore s d = true) :
    '(' ∉ ((text.dropWhile isWord).dropWhile isSpace).head? := by
  have hStop : text.dropWhile isWord = text := by
    cases text with
    | nil => rfl
    | cons c text =>
      have hEnd := hEnds c (.inl rfl)
      rw [endsBefore, if_pos hWord] at hEnd
      refine dropWhile_cons_of_neg fun hLetter => ?_
      simp [isLexemeChar, hLetter] at hEnd
  rw [hStop]
  intro hOpen
  have hEnd := hEnds _ (.inr hOpen)
  rw [endsBefore, if_pos hWord] at hEnd
  simp at hEnd

theorem not_mem_of_isSpace (hGap : ∀ c ∈ gap, isSpace c = true) : 'd' ∉ gap :=
  fun hMem => absurd (hGap _ hMem) (by decide)

/- What stands at most at the end of a text stands so in its last part, and not before that. -/
theorem not_mem_of_append {front back : List Char} (hText : c ∉ (front ++ back).dropLast) :
    c ∉ back.dropLast ∧ (back ≠ [] → c ∉ front) := by
  by_cases hBack : back = []
  · simp [hBack]
  · rw [dropLast_append_of_ne_nil hBack, mem_append, not_or] at hText
    exact ⟨hText.2, fun _ => hText.1⟩

/- The text of a condition, perhaps with a line break at its end, once the parentheses are taken
  away. -/
theorem Standing.laidOut_openDefined (hChunks : Standing isDefined chunks)
    (hText : LaidOut (chunks.flatMap Chunk.tokens) text) (hLine : '\n' ∉ text.dropLast) :
    LaidOut (chunks.flatMap (Chunk.parts id)) (openDefinedFrom 0 text) := by
  induction chunks generalizing text with
  | nil =>
    cases hText with
    | nil hGap =>
      have hSame := openDefinedFrom_front [] (not_mem_of_isSpace hGap)
      rw [append_nil, openDefinedFrom, append_nil] at hSame
      rw [hSame]
      exact .nil hGap
  | cons chunk chunks ih =>
    have hNamed := hChunks.named chunk mem_cons_self
    have hClosed : ∀ rest, LaidOut (chunks.flatMap Chunk.tokens) rest →
        isWordItem (chunk.stands isDefined) = true → '(' ∉ ((rest.dropWhile isWord).dropWhile
            isSpace).head? := by
      intro rest hRest hWord
      exact not_open_of_endsBefore hWord fun d hd =>
        hChunks.endsBefore_head (fun other hMem => Chunk.opens_tokens
            (hChunks.of_cons.isItem other hMem) (hChunks.of_cons.named other hMem)) hRest hd
    cases chunk with
    | token t =>
      cases hText with
      | @cons gap _ _ rest hGap hRest =>
        rw [openDefinedFrom_front _ (not_mem_of_isSpace hGap), openDefinedFrom_front _
            (hChunks.numeric t mem_cons_self).2]
        rw [← append_assoc] at hLine
        exact .cons hGap (ih hChunks.of_cons hRest (not_mem_of_append hLine).1)
    | name s =>
      cases hText with
      | @cons gap _ _ rest hGap hRest =>
        rw [openDefinedFrom_front _ (not_mem_of_isSpace hGap),
          openDefinedFrom_word (isWord_of_isPlainName hNamed.1).2.1
            (hClosed rest hRest (isWordItem_answer false))]
        rw [← append_assoc] at hLine
        exact .cons hGap (ih hChunks.of_cons hRest (not_mem_of_append hLine).1)
    | asked s isEnclosed =>
      obtain ⟨hSome, hWord, -⟩ := isWord_of_isPlainName hNamed
      cases isEnclosed with
      | false =>
        cases hText with
        | @cons gap _ _ _ hGap hMore =>
        cases hMore with
        | @cons between _ _ rest hBetween hRest =>
        have hOpen := hClosed rest hRest (isWordItem_answer _)
        have hLetters : "defined".toList.all isWord = true := by
          decide
        have hFirst : '(' ∉ (((between ++ (s.toList ++ rest)).dropWhile
            isWord).dropWhile isSpace).head? := by
          cases between with
          | nil =>
            rwa [nil_append, dropWhile_append_of_pos hWord]
          | cons c between =>
            obtain ⟨e, es, hList⟩ := exists_cons_of_ne_nil hSome
            have hLetter := hWord e (by simp [hList])
            have hSolid : ¬ isSpace e = true := by
              intro hSpace
              rw [not_isWord_of_isSpace hSpace] at hLetter
              cases hLetter
            rw [cons_append, dropWhile_cons_of_neg (by simp [not_isWord_of_isSpace
                (hBetween c mem_cons_self)]),
              ← cons_append, dropWhile_append_of_pos hBetween, hList,
              cons_append, dropWhile_cons_of_neg hSolid]
            rintro ⟨⟩
            exact absurd hLetter (by decide)
        rw [openDefinedFrom_front _ (not_mem_of_isSpace hGap),
          openDefinedFrom_word (all_eq_true.1 hLetters) hFirst,
          openDefinedFrom_front _ (not_mem_of_isSpace hBetween), openDefinedFrom_word hWord hOpen]
        simp only [← append_assoc] at hLine
        exact .cons hGap (.cons hBetween (ih hChunks.of_cons hRest (not_mem_of_append hLine).1))
      | true =>
        cases hText with
        | @cons gap _ _ _ hGap hMore =>
        cases hMore with
        | @cons before _ _ _ hBefore hMore =>
        cases hMore with
        | @cons left _ _ _ hLeft hMore =>
        cases hMore with
        | @cons right _ _ rest hRight hRest =>
        have hLast : '\n' ∉ rest.dropLast ∧ '\n' ∉ left ++ s.toList ++ right := by
          simp only [← append_assoc] at hLine
          refine ⟨(not_mem_of_append hLine).1, fun hMem => ?_⟩
          rw [append_assoc _ _ rest] at hLine
          refine (not_mem_of_append hLine).2 (by simp) ?_
          simp only [mem_append] at hMem ⊢
          tauto
        have hInside : ∀ c ∈ left ++ s.toList ++ right, c ≠ ')' ∧ c ≠ '\n' := by
          intro c hMem
          refine ⟨?_, fun hBreak => hLast.2 (hBreak ▸ hMem)⟩
          rintro rfl
          simp only [mem_append] at hMem
          rcases hMem with (hMem | hMem) | hMem
          · exact absurd (hLeft _ hMem) (by decide)
          · exact absurd (hWord _ hMem) (by decide)
          · exact absurd (hRight _ hMem) (by decide)
        have hWhole : before ++ ("(".toList ++ (left ++ (s.toList ++
            (right ++ (")".toList ++ rest))))) =
              before ++ '(' :: (left ++ s.toList ++ right ++ ')' :: rest) := by
          simp
        have hSpaced : ∀ c ∈ ' ' :: left, isSpace c = true :=
          forall_mem_cons.2 ⟨by decide, hLeft⟩
        have hParts : LaidOut ("defined" :: s :: chunks.flatMap (Chunk.parts id))
            (gap ++ ("defined".toList ++ (' ' :: left ++ (s.toList ++
                (right ++ openDefinedFrom 0 rest))))) :=
          .cons hGap (.cons hSpaced ((LaidOut.nil hRight).append
            (ih hChunks.of_cons hRest hLast.1)))
        rw [openDefinedFrom_front _ (not_mem_of_isSpace hGap),
          hWhole, openDefinedFrom_enclosed hBefore hInside]
        simpa [Chunk.parts] using hParts

/- Blanks in front of a condition do not count. -/
theorem Standing.laidOut_dropWhile (hChunks : Standing isDefined chunks)
    (hText : LaidOut (chunks.flatMap Chunk.tokens) text) :
    LaidOut (chunks.flatMap Chunk.tokens) (text.dropWhile isBlank) := by
  have hBlank : ∀ c, isSpace c = true → isBlank c = true :=
    fun c hSpace => by simp [isBlank, hSpace]
  cases chunks with
  | nil =>
    cases hText with
    | nil hGap =>
      rw [dropWhile_eq_nil_iff.2 fun c hMem => hBlank c (hGap c hMem)]
      exact .nil (by simp)
  | cons chunk chunks =>
    obtain ⟨t, more, c, cs, hFirst, hChars, hBegins⟩ :=
      Chunk.opens_tokens (hChunks.isItem chunk mem_cons_self)
        (hChunks.named chunk mem_cons_self)
    obtain ⟨hSpace, hNull⟩ := hChunks.begins_cases hBegins
    rw [flatMap_cons, hFirst, cons_append] at hText ⊢
    cases hText with
    | @cons gap _ _ rest hGap hRest =>
      have hStop : (t.toList ++ rest).dropWhile isBlank = [] ++ (t.toList ++ rest) := by
        simp [hChars, isBlank, hSpace, hNull]
      rw [dropWhile_append_of_pos fun c hMem => hBlank c (hGap c hMem), hStop]
      exact .cons (by simp) hRest

-- The value of a condition

theorem Standing.exec_substituteNames (ahead : String → Run String)
    (hChunks : Standing session.table.contains chunks) :
    exec (substituteNames limit ahead false (chunks.flatMap (Chunk.parts id))) session =
      (.ok (chunks.flatMap (Chunk.parts fun _ => "0")), session) := by
  induction chunks with
  | nil => rfl
  | cons chunk chunks ih =>
    have hNamed := hChunks.named chunk mem_cons_self
    have hRest := ih hChunks.of_cons
    cases chunk with
    | token t =>
      have hOther := (hChunks.numeric t mem_cons_self).1
      have hWord : t ≠ "defined" := by
        rintro rfl
        exact absurd hOther (by decide)
      simp [Chunk.parts, substituteNames, hWord,
        substituteName_of_not_isIdentifier ahead hOther, hRest]
    | name s =>
      simp [Chunk.parts, substituteNames, substituteName, ne_defined_of_isPlainName hNamed.1,
        isIdentifier_of_isPlainName hNamed.1, hNamed.2, exec_bind, hRest]
    | asked s isEnclosed =>
      simp [Chunk.parts, substituteNames, hRest]

/- Only an operator stands for an operator. -/
theorem Chunk.eq_token (hStands : chunk.stands isDefined = t)
    (hOperator : t ∈ operators) : chunk = .token t := by
  subst hStands
  cases chunk with
  | token u => rfl
  | name s =>
    rw [stands] at hOperator
    exact absurd hOperator (by decide)
  | asked s isEnclosed =>
    rw [stands] at hOperator
    split_ifs at hOperator
    · exact absurd hOperator (by decide)
    · exact absurd hOperator (by decide)

/- The tokens that are evaluated have the value of the expression that the chunks stand for. -/
theorem reads_parts (written : Expr.Written) (hProper : written.Proper)
    (hArithmetic : written.tree.Arithmetic) (hReadable : written.tree.Readable)
    (hValue : written.tree.value = .ok n)
    (hTokens : chunks.map (Chunk.stands isDefined) = written.tokens)
    (hNamed : ∀ chunk ∈ chunks, chunk.Named isDefined) :
    Expr.Reads isDefined (chunks.flatMap (Chunk.parts fun _ => "0")) written.strength n := by
  induction written generalizing chunks n with
  | literal m =>
    obtain ⟨chunk, rfl, hStands⟩ := map_eq_singleton_iff.1 hTokens
    cases hValue
    have hRead : Expr.Constant.read (chunk.stands isDefined) = .ok (Expr.Constant.signed m) := by
      rw [hStands, Expr.Constant.read_repr]
      exact if_pos hReadable
    cases chunk with
    | token t => exact Expr.reads_constant hRead
    | name s => exact Expr.reads_constant hRead
    | asked s isEnclosed =>
      have hPlain := hNamed _ mem_cons_self
      have hSame : (m : Int) = if isDefined s then 1 else 0 := by
        rw [Chunk.stands] at hRead
        split_ifs at hRead ⊢
        · cases hRead
          rfl
        · cases hRead
          rfl
      rw [hSame]
      exact Expr.reads_defined (isIdentifier_of_isPlainName hPlain)
        (ne_defined_of_isPlainName hPlain)
  | paren inside ih =>
    obtain ⟨first, more, rfl, hFirst, hMore⟩ := map_eq_cons_iff.1 hTokens
    obtain ⟨middle, others, rfl, hMiddle, hOthers⟩ := map_eq_append_iff.1 hMore
    obtain ⟨last, rfl, hLast⟩ := map_eq_singleton_iff.1 hOthers
    rw [Chunk.eq_token hFirst (by decide), Chunk.eq_token hLast (by decide)]
    have hInside := ih hProper hArithmetic hReadable hValue hMiddle
      fun chunk hMem => hNamed chunk (by simp [hMem])
    simpa [Expr.enclosed, Chunk.parts, Expr.Written.strength] using
      hInside.enclosed inside.strength_pos
  | prefixed op operand ih =>
    obtain ⟨first, more, rfl, hFirst, hMore⟩ := map_eq_cons_iff.1 hTokens
    obtain ⟨m, hOperand, hResult⟩ := Fault.bind_eq_ok_iff.1 hValue
    cases hResult
    have hReads := ih hProper.1 hArithmetic hReadable hOperand hMore
      fun chunk hMem => hNamed chunk (by simp [hMem])
    rw [Expr.Written.strength_of_unary hProper.2] at hReads
    rw [Chunk.eq_token hFirst op.spelling_mem_operators]
    exact hReads.prefixed op
  | binary op left right ihLeft ihRight =>
    obtain ⟨before, others, rfl, hBefore, hOthers⟩ := map_eq_append_iff.1 hTokens
    obtain ⟨middle, after, rfl, hMiddle, hAfter⟩ := map_eq_cons_iff.1 hOthers
    obtain ⟨l, hLeft, hRest⟩ := Fault.bind_eq_ok_iff.1 hValue
    obtain ⟨r, hRight, hResult⟩ := Fault.bind_eq_ok_iff.1 hRest
    have hReadsLeft := ihLeft hProper.1 hArithmetic.2.1 hReadable.1
      hLeft hBefore fun chunk hMem => hNamed chunk (by simp [hMem])
    have hReadsRight := ihRight hProper.2.1 hArithmetic.2.2 hReadable.2 hRight hAfter
      fun chunk hMem => hNamed chunk (by simp [hMem])
    rw [Chunk.eq_token hMiddle op.spelling_mem_operators, flatMap_append, flatMap_cons]
    exact hReadsLeft.binary hReadsRight (Expr.Written.strength_le_of_level_le hProper.2.2.1)
      (Expr.Written.strength_lt_of_level_lt hProper.2.2.2)
      hArithmetic.1 hResult

theorem Standing.of_tokens (written : Expr.Written)
    (hTokens : chunks.map (Chunk.stands isDefined) = written.tokens)
    (hNamed : ∀ chunk ∈ chunks, chunk.Named isDefined) : Standing isDefined chunks := by
  have hPhrase := written.phrase_tokens
  rw [← hTokens] at hPhrase
  refine ⟨fun chunk hMem => hPhrase.isItem _
    (mem_map_of_mem hMem), hPhrase.chain, fun t hMem => ?_, hNamed⟩
  have hToken : t ∈ written.tokens := by
    rw [← hTokens]
    exact mem_map.2 ⟨_, hMem, rfl⟩
  rcases written.mem_tokens hToken with hOperator | ⟨n, rfl⟩
  · have hAll : operators.all (fun t => isIdentifier? t = some false &&
        !t.toList.contains 'd') = true := by
      decide
    simpa using all_eq_true.1 hAll t hOperator
  · have hDigits := Expr.isDigit_of_mem_repr n
    refine ⟨?_, fun hMem => absurd (hDigits _ hMem) (by decide)⟩
    obtain ⟨c, cs, hList⟩ : ∃ c cs, n.repr.toList = c :: cs := exists_cons_of_ne_nil (by simp)
    rw [hList] at hDigits
    have hDigit := hDigits c mem_cons_self
    have hMark : c ≠ '_' := by
      rintro rfl
      exact absurd hDigit (by decide)
    rw [isIdentifier?, hList]
    simp [hMark, not_isLetter_of_isDigit hDigit]

theorem Standing.exec_conditionHolds (ahead : String → Run String)
    (hChunks : Standing session.table.contains chunks) {text : String}
    (hText : LaidOut (chunks.flatMap Chunk.tokens) text.toList)
    (hLine : '\n' ∉ text.toList.dropLast) :
    exec (conditionHolds limit ahead ("#if " ++ text)) session =
      ((Expr.evaluateAll session.table.contains
        (chunks.flatMap (Chunk.parts fun _ => "0"))).map
        fun value => decide (value.1 ≠ .int 0), session) := by
  have hOperand : Directive.operandOf ("#if " ++ text) =
      String.ofList (text.toList.dropWhile isBlank) := by
    rw [Directive.operandOf, Directive.ofLine?_if]
    rfl
  have hLexemes : Expr.lexemes (openDefined (Directive.operandOf ("#if " ++ text))) =
      chunks.flatMap (Chunk.parts id) := by
    rw [hOperand, openDefined, Expr.lexemes, String.toList_ofList, String.toList_ofList]
    refine hChunks.lexemesFrom_parts (fun s hName => ?_)
      (hChunks.laidOut_openDefined (hChunks.laidOut_dropWhile hText) (not_mem_of_append
        (by rwa [takeWhile_append_dropWhile])).1)
    obtain ⟨hSome, hWord, hItem⟩ := isWord_of_isPlainName hName
    exact ⟨Macro.isWordText_iff.2 ⟨hSome, hWord⟩, hItem⟩
  have hGlued : LaidOut ((chunks.flatMap (Chunk.parts fun _ => "0")).flatMap fun item => [item])
      (concat ((chunks.flatMap (Chunk.parts fun _ => "0")).map id)).toList :=
    laidOut_concat fun item _ => .singleton item
  have hAgain : Expr.lexemes (concat (chunks.flatMap (Chunk.parts fun _ => "0"))) =
      chunks.flatMap (Chunk.parts fun _ => "0") :=
    hChunks.lexemesFrom_parts (fun _ _ => by decide) (by simpa using hGlued)
  rw [conditionHolds, hLexemes, exec_bind, hChunks.exec_substituteNames ahead]
  dsimp only
  rw [exec_bind_getTable]
  rw [exec_bind, exec_lift, hAgain]
  cases Expr.evaluateAll session.table.contains (chunks.flatMap (Chunk.parts fun _ => "0")) <;> rfl

end

end Source

end CHeader
