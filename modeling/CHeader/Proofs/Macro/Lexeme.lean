import Mathlib
import CHeader.Macro.Strand

/-
  Lexemes and pieces of a line.

  A lexeme is a word, a run of white space, three dots, or a single character. After a word the line
  goes on with a character of another class, so two words never stand side by side. The pieces of a
  line are its lexemes, where a string counts as one. Where no function-like macro is named, every
  piece is a strand of its own.

  Main declarations:
    * `Macro.lexemesFrom_cons`
    * `Macro.pieces`
    * `Macro.wordsApart_pieces`
-/

namespace CHeader

open List

-- Texts put together

namespace Text

theorem foldl_append (parts : List String) (start : String) :
    parts.foldl (· ++ ·) start = start ++ concat parts := by
  rw [concat]
  induction parts generalizing start with
  | nil => simp
  | cons part parts ih =>
    rw [foldl_cons, foldl_cons, ih, ih ("" ++ part)]
    simp [String.append_assoc]

@[simp] theorem concat_nil : concat [] = "" := rfl

@[simp] theorem concat_cons (part : String) (parts : List String) :
    concat (part :: parts) = part ++ concat parts := by
  rw [concat, foldl_cons, foldl_append]
  simp

@[simp] theorem concat_append (first second : List String) :
    concat (first ++ second) = concat first ++ concat second := by
  induction first with
  | nil => simp
  | cons part first ih => simp [ih, String.append_assoc]

end Text

namespace Macro

open Text

variable {rest : List String} {s : String}

def isWordText (s : String) : Bool := !s.toList.isEmpty && s.toList.all isWord

-- Cutting off the first lexeme

/- The characters that belong to the current lexeme complete it. -/
theorem lexemesFrom_skip (skip : Nat) (word cs : List Char) (hWord : word ≠ []) :
    lexemesFrom skip word cs = String.ofList (word.reverse ++ cs.take skip) ::
        lexemesFrom 0 [] (cs.drop skip) := by
  induction cs generalizing skip word with
  | nil => simp [lexemesFrom, hWord]
  | cons c rest ih =>
    cases skip with
    | zero => simp [lexemesFrom, hWord]
    | succ skip =>
      rw [lexemesFrom, ih skip (c :: word) (by simp)]
      simp

def firstLexeme (c : Char) (rest : List Char) : List Char :=
  c :: rest.take (lexemeLength c rest - 1)

def afterLexeme (c : Char) (rest : List Char) : List Char := rest.drop (lexemeLength c rest - 1)

theorem lexemesFrom_cons (c : Char) (rest : List Char) :
    lexemesFrom 0 [] (c :: rest) = String.ofList (firstLexeme c rest) ::
        lexemesFrom 0 [] (afterLexeme c rest) := by
  rw [lexemesFrom, lexemesFrom_skip _ _ _ (by simp)]
  rfl

theorem length_afterLexeme (c : Char) (rest : List Char) :
    (afterLexeme c rest).length ≤ rest.length := by
  simp [afterLexeme]

theorem take_length_takeWhile (p : Char → Bool) (cs : List Char) :
    cs.take (cs.takeWhile p).length = cs.takeWhile p ∧
      cs.drop (cs.takeWhile p).length = cs.dropWhile p := by
  have hSplit := takeWhile_append_dropWhile (p := p) (l := cs)
  constructor
  · calc cs.take (cs.takeWhile p).length =
        (cs.takeWhile p ++ cs.dropWhile p).take (cs.takeWhile p).length := by rw [hSplit]
      _ = cs.takeWhile p := take_left' rfl
  · calc cs.drop (cs.takeWhile p).length =
        (cs.takeWhile p ++ cs.dropWhile p).drop (cs.takeWhile p).length := by rw [hSplit]
      _ = cs.dropWhile p := drop_left' rfl

/- A word takes in all word characters that follow. -/
theorem firstLexeme_of_isWord (hWord : isWord c = true) (rest : List Char) :
    firstLexeme c rest = c :: rest.takeWhile isWord ∧
      afterLexeme c rest = rest.dropWhile isWord := by
  have hLength : lexemeLength c rest - 1 = (rest.takeWhile isWord).length := by
    simp [lexemeLength, hWord]
  rw [firstLexeme, afterLexeme, hLength, (take_length_takeWhile _ _).1,
    (take_length_takeWhile _ _).2]
  exact ⟨rfl, rfl⟩

-- All lexemes

/- Whether no two words of a list stand side by side. -/
def WordsApart (list : List String) : Prop :=
  list.IsChain fun first second => isWordText first = true → isWordText second = false

theorem wordsApart_cons : WordsApart (first :: rest) ↔ (∀ second ∈ rest.head?,
    isWordText first = true → isWordText second = false) ∧ WordsApart rest := isChain_cons

/- A text is gone through lexeme by lexeme. -/
theorem lexeme_induction {P : List Char → Prop} (hNil : P [])
    (hCons : ∀ c rest, P (afterLexeme c rest) → P (c :: rest)) (cs : List Char) : P cs := by
  induction hLength : cs.length using Nat.strong_induction_on generalizing cs with
  | _ n ih =>
    cases cs with
    | nil => exact hNil
    | cons c rest =>
      have hAfter := length_afterLexeme c rest
      rw [length_cons] at hLength
      exact hCons c rest (ih _ (by omega) _ rfl)

theorem wordsApart_lexemes (s : String) : WordsApart (lexemes s) := by
  rw [lexemes]
  induction s.toList using lexeme_induction with
  | hNil => exact isChain_nil
  | hCons c rest ih =>
    rw [lexemesFrom_cons, wordsApart_cons]
    refine ⟨?_, ih⟩
    intro second hSecond hWord
    have hStart : isWord c = true := by
      rw [isWordText, String.toList_ofList, firstLexeme, all_cons, Bool.and_eq_true,
        Bool.and_eq_true] at hWord
      exact hWord.2.1
    rw [(firstLexeme_of_isWord hStart rest).2] at hSecond
    cases hEnd : rest.dropWhile isWord with
    | nil => simp [hEnd, lexemesFrom] at hSecond
    | cons d more =>
      have hBreak := head?_dropWhile_not isWord rest
      rw [hEnd] at hBreak
      change isWord d = false at hBreak
      rw [hEnd, lexemesFrom_cons, head?_cons, Option.mem_some_iff] at hSecond
      simp [← hSecond, isWordText, firstLexeme, hBreak]

theorem lexemes_of_isWordText (hWord : isWordText s = true) : lexemes s = [s] := by
  have hText : String.ofList s.toList = s := String.ofList_toList
  rw [lexemes]
  cases hChars : s.toList with
  | nil => simp [isWordText, hChars] at hWord
  | cons c rest =>
    rw [isWordText, hChars, all_cons, Bool.and_eq_true, Bool.and_eq_true, all_eq_true] at hWord
    have hFirst := firstLexeme_of_isWord hWord.2.1 rest
    have hRun : rest.takeWhile isWord = rest := takeWhile_eq_self_iff.2 hWord.2.2
    have hEnd : rest.dropWhile isWord = [] := dropWhile_eq_nil_iff.2 hWord.2.2
    rw [lexemesFrom_cons, hFirst.1, hFirst.2, hRun, hEnd, ← hChars, hText]
    rfl

-- Pieces

/-
  The pieces of some lexemes. The first argument holds the lexemes of an open string, last one
  first. A string that does not close loses its last character.
-/
def piecesFrom : Option (List String) → Char → List String → List String
| none, _, [] => []
| some taken, _, [] => [withoutLast taken.reverse]
| none, before, lexeme :: rest =>
    if lexeme = "\"" then
      piecesFrom (some [lexeme]) (lastChar before lexeme) rest
    else
      lexeme :: piecesFrom none (lastChar before lexeme) rest
| some taken, before, lexeme :: rest =>
    if lexeme = "\"" ∧ before ≠ '\\' then
      concat (lexeme :: taken).reverse :: piecesFrom none '"' rest
    else
      piecesFrom (some (lexeme :: taken)) (lastChar before lexeme) rest

def pieces (s : String) : List String := piecesFrom none ' ' (lexemes s)

variable (before : Char)

theorem piecesFrom_of_noQuote (items : List String) (hQuote : "\"" ∉ items) :
    piecesFrom none before items = items := by
  induction items generalizing before with
  | nil => rfl
  | cons item rest ih =>
    rw [mem_cons, not_or] at hQuote
    rw [piecesFrom, if_neg (Ne.symm hQuote.1), ih _ hQuote.2]

theorem pieces_of_isWordText (hWord : isWordText s = true) : pieces s = [s] := by
  rw [pieces, lexemes_of_isWordText hWord]
  apply piecesFrom_of_noQuote
  rw [mem_singleton]
  rintro rfl
  exact absurd hWord (by decide)

theorem isWordText_concat_quote (rest : List String) :
    isWordText (concat ("\"" :: rest)) = false := by
  have hQuote : isWord '"' = false := by decide
  simp [isWordText, hQuote]

theorem isWordText_withoutLast (rest : List String) :
    isWordText (withoutLast ("\"" :: rest)) = false := by
  have hQuote : isWord '"' = false := by decide
  have hConcat : (Text.concat ("\"" :: rest)).toList = '"' :: (Text.concat rest).toList := by
    simp
  rw [withoutLast, hConcat]
  cases (Text.concat rest).toList with
  | nil => rfl
  | cons c cs => simp [isWordText, hQuote]

/- An open string goes on to its closing quote. -/
theorem piecesFrom_some (taken : List String) (before : Char) (items : List String) :
    piecesFrom (some taken) before items =
      match takeString before items with
      | none => [withoutLast (taken.reverse ++ items)]
      | some (string, left) =>
        Text.concat (taken.reverse ++ string) :: piecesFrom none '"' left := by
  induction items generalizing taken before with
  | nil => simp [piecesFrom, takeString]
  | cons lexeme rest ih =>
    rw [piecesFrom, takeString]
    split
    · simp
    · rw [ih]
      cases takeString (lastChar before lexeme) rest <;> simp

theorem lastChar_quote : lastChar before "\"" = '"' := rfl

theorem piecesFrom_lexeme (hQuote : lexeme ≠ "\"") (rest : List String) :
    piecesFrom none before (lexeme :: rest) =
      lexeme :: piecesFrom none (lastChar before lexeme) rest := by
  rw [piecesFrom, if_neg hQuote]

theorem piecesFrom_unclosed (hUnclosed : takeString '"' rest = none) :
    piecesFrom none before ("\"" :: rest) = [withoutLast ("\"" :: rest)] := by
  rw [piecesFrom, lastChar_quote, piecesFrom_some, hUnclosed]
  rfl

theorem piecesFrom_closed (hClosed : takeString '"' rest = some (taken, left)) :
    piecesFrom none before ("\"" :: rest) = Text.concat ("\"" :: taken) ::
        piecesFrom none '"' left := by
  rw [piecesFrom, lastChar_quote, piecesFrom_some, hClosed]
  rfl

/- Lexemes are gone through piece by piece. -/
theorem piecesFrom_induction {P : Char → List String → Prop} (hNil : ∀ before, P before [])
    (hLexeme : ∀ before lexeme rest, lexeme ≠ "\"" →
        P (lastChar before lexeme) rest → P before (lexeme :: rest))
    (hUnclosed : ∀ before rest, takeString '"' rest = none → P before ("\"" :: rest))
    (hClosed : ∀ before rest taken left, takeString '"' rest = some (taken, left) →
        P '"' left → P before ("\"" :: rest)) (before : Char)
    (items : List String) : P before items := by
  induction hLength : items.length using Nat.strong_induction_on generalizing before items with
  | _ n ih =>
    cases items with
    | nil => exact hNil before
    | cons lexeme rest =>
      rw [length_cons] at hLength
      by_cases hQuote : lexeme = "\""
      · subst hQuote
        cases hString : takeString '"' rest with
        | none => exact hUnclosed before rest hString
        | some string =>
          have hShorter := takeString_length hString
          exact hClosed before rest _ _ hString (ih _ (by omega) '"' _ rfl)
      · exact hLexeme before lexeme rest hQuote (ih _ (by omega) _ rest rfl)

theorem head?_piecesFrom (items : List String) :
    ∀ piece ∈ (piecesFrom none before items).head?,
      piece ∈ items.head? ∨ isWordText piece = false := by
  induction before, items using piecesFrom_induction with
  | hNil => simp [piecesFrom]
  | hLexeme before lexeme rest hQuote =>
    rw [piecesFrom_lexeme before hQuote]
    exact fun piece hPiece => .inl hPiece
  | hUnclosed before rest hString =>
    rw [piecesFrom_unclosed before hString]
    intro piece hPiece
    cases hPiece
    exact .inr (isWordText_withoutLast rest)
  | hClosed before rest taken left hString =>
    rw [piecesFrom_closed before hString]
    intro piece hPiece
    cases hPiece
    exact .inr (isWordText_concat_quote taken)

theorem wordsApart_piecesFrom (items : List String) (hApart : WordsApart items) :
    WordsApart (piecesFrom none before items) := by
  induction before, items using piecesFrom_induction with
  | hNil => exact isChain_nil
  | hLexeme before lexeme rest hQuote ih =>
    rw [wordsApart_cons] at hApart
    rw [piecesFrom_lexeme before hQuote, wordsApart_cons]
    refine ⟨?_, ih hApart.2⟩
    intro next hNext hWord
    rcases head?_piecesFrom _ rest next hNext with
      hFirst | hOther
    · exact hApart.1 next hFirst hWord
    · exact hOther
  | hUnclosed before rest hString =>
    rw [piecesFrom_unclosed before hString]
    exact isChain_singleton _
  | hClosed before rest taken left hString ih =>
    have hLeft : left <:+ "\"" :: rest :=
      ⟨"\"" :: taken, congrArg _ (append_of_takeString hString).1⟩
    rw [piecesFrom_closed before hString, wordsApart_cons]
    refine ⟨?_, ih (hApart.suffix hLeft)⟩
    intro next _ hWord
    rw [isWordText_concat_quote] at hWord
    cases hWord

theorem wordsApart_pieces (s : String) : WordsApart (pieces s) :=
  wordsApart_piecesFrom ' ' _ (wordsApart_lexemes s)

-- Strings and calls at the front

section

variable {taken left inside after : List String} {size : Nat}
variable {isFunction : String → Bool} {called : Bool}

section

variable (hString : takeString '"' rest = some (taken, left))
include hString

theorem takeParens_string (opened : Nat) (before : Char) : takeParens opened before ("\"" :: rest) =
    (takeParens opened '"' left).map fun step => ("\"" :: taken ++ step.1, step.2) := by
  rw [takeParens]
  simp only [String.reduceEq, if_false, if_true, lastChar_quote]
  split <;> simp_all

theorem takeCall_string (before : Char) :
    takeCall before ("\"" :: rest) = (takeCall '"' left).map fun (inside, size, after) =>
      (Text.concat ("\"" :: taken) :: inside, (Text.concat ("\"" :: taken)).length + size, after) := by
  rw [takeCall]
  simp only [String.reduceEq, if_false, if_true, lastChar_quote]
  split <;> simp_all

omit hString in
theorem takeCall_parens (hParens : takeParens 1 '(' rest = some (taken, left)) (before : Char) :
    takeCall before ("(" :: rest) = (takeCall ')' left).map fun (inside, size, after) =>
      (Text.concat ("(" :: taken) :: inside, (Text.concat ("(" :: taken)).length + size, after) := by
  have hHere : lastChar before "(" = '(' := rfl
  rw [takeCall]
  simp only [String.reduceEq, if_false, if_true]
  split <;> simp_all

theorem splitFields_string
    (field : List String) (before : Char) : splitFields field before ("\"" :: rest) =
      splitFields (taken.reverse ++ "\"" :: field) '"' left := by
  rw [splitFields]
  simp only [String.reduceEq, if_false, if_true, lastChar_quote]
  split <;> simp_all

omit hString in
theorem splitFields_parens (hParens : takeParens 1 '(' rest = some (taken, left))
    (field : List String) (before : Char) : splitFields field before ("(" :: rest) =
      splitFields (taken.reverse ++ "(" :: field) ')' left := by
  have hHere : lastChar before "(" = '(' := rfl
  rw [splitFields]
  simp only [String.reduceEq, if_false, if_true]
  split <;> simp_all

theorem strandsFrom_string (before : Char) : strandsFrom isFunction called before ("\"" :: rest) =
    (.text (concat ("\"" :: taken)) :: (strandsFrom isFunction called '"' left).1,
      (strandsFrom isFunction called '"' left).2) := by
  rw [strandsFrom]
  simp only [String.reduceEq, false_and, if_false, if_true, lastChar_quote]
  split <;> simp_all

end

theorem strandsFrom_call (hCall : takeCall '(' rest = some (inside, size, after)) (before : Char) :
    strandsFrom isFunction true before ("(" :: rest) =
      (.call inside (some (size + 1)) :: (strandsFrom isFunction false ')' after).1,
        (strandsFrom isFunction false ')' after).2) := by
  have hHere : lastChar before "(" = '(' := rfl
  rw [strandsFrom]
  simp only [and_self, if_true]
  split <;> simp_all

end

-- Strands

/- Where no function-like macro is named every piece is a strand. -/
theorem strandsFrom_of_unnamed (items : List String)
    (hUnnamed : ∀ piece ∈ piecesFrom none before items, isFunction piece = false) :
    strandsFrom isFunction false before items =
      ((piecesFrom none before items).map Strand.text, false) := by
  induction before, items using piecesFrom_induction with
  | hNil => rw [strandsFrom]; rfl
  | hLexeme before lexeme rest hQuote ih =>
    rw [piecesFrom_lexeme before hQuote, forall_mem_cons] at hUnnamed
    rw [piecesFrom_lexeme before hQuote, strandsFrom]
    simp only [Bool.false_eq_true, and_false, hQuote, hUnnamed.1, Bool.or_false, ih hUnnamed.2]
    rfl
  | hUnclosed before rest hString =>
    rw [piecesFrom_unclosed before hString, strandsFrom]
    simp only [Bool.false_eq_true, and_false, if_false, if_true, lastChar_quote]
    split <;> simp_all
  | hClosed before rest taken left hString ih =>
    rw [piecesFrom_closed before hString, forall_mem_cons] at hUnnamed
    rw [piecesFrom_closed before hString, strandsFrom_string hString, ih hUnnamed.2]
    rfl

theorem strands_of_unnamed (hUnnamed : ∀ piece ∈ pieces s, table.isFunction piece = false) :
    strands table s = ((pieces s).map Strand.text, false) :=
  strandsFrom_of_unnamed ' ' _ hUnnamed

end Macro

end CHeader
