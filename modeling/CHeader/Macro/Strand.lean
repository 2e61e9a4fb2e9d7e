import CHeader.Macro.Table

/-
  Strands: the pieces of a line that macro expansion works on.

  A line is first cut into lexemes, which together spell the line: words, parentheses, three dots,
  single other characters, and runs of white space. Strands group them: a string from quote to quote
  is one strand, and the argument list after the name of a function-like macro is one strand of its
  own kind.

  Key definitions include:
    * `Macro.lexemes`
    * `Macro.Strand`
    * `Macro.strands`
-/

namespace CHeader

namespace Macro

-- Lexemes

def lexemeLength (c : Char) (rest : List Char) : Nat :=
  if Text.isWord c then
    (rest.takeWhile Text.isWord).length + 1
  else if Text.isSpace c then
    (rest.takeWhile Text.isSpace).length + 1
  else if Text.startsWith (c :: rest) ['.', '.', '.'] then 3
  else 1

/- The lexemes of a text, with the number of characters that
  belong to the current one and those it already has. -/
def lexemesFrom : Nat → List Char → List Char → List String
| _, word, [] =>
    if word.isEmpty then []
    else [String.ofList word.reverse]
| skip + 1, word, c :: rest =>
    lexemesFrom skip (c :: word) rest
| 0, word, c :: rest =>
    let more := lexemesFrom (lexemeLength c rest - 1) [c] rest
    if word.isEmpty then more
    else String.ofList word.reverse :: more

def lexemes (s : String) : List String := lexemesFrom 0 [] s.toList

-- Brackets and quotes

def lastChar (before : Char) (lexeme : String) : Char := (lexeme.toList.getLast?).getD before

/-
  The lexemes up to and with the quote that closes a string, and those after it. A quote after a
  backslash does not close. Without a closing quote nothing is left.
-/
def takeString (before : Char) : List String → Option (List String × List String)
| [] => none
| lexeme :: rest =>
    if lexeme = "\"" ∧ before ≠ '\\' then
      some ([lexeme], rest)
    else
      (takeString (lastChar before lexeme) rest).map (fun (taken, left) => (lexeme :: taken, left))

/- A string comes off the front, with one lexeme at least. -/
theorem append_of_takeString (h : takeString before items = some (taken, left)) :
    taken ++ left = items ∧ taken ≠ [] := by
  induction items generalizing before taken left with
  | nil => simp [takeString] at h
  | cons lexeme rest ih =>
      unfold takeString at h
      split at h
      · obtain ⟨rfl, rfl⟩ := Prod.mk.inj (Option.some.inj h)
        simp
      · obtain ⟨⟨t, l⟩, hRest, hEq⟩ := Option.map_eq_some_iff.mp h
        obtain ⟨rfl, rfl⟩ := Prod.mk.inj hEq
        simp [(ih hRest).1]

theorem length_of_append (h : taken ++ left = items ∧ taken ≠ []) : left.length < items.length := by
  have := List.length_pos_iff.mpr h.2
  simp only [← h.1, List.length_append]
  omega

theorem takeString_length (h : takeString before items = some (taken, left)) :
    left.length < items.length :=
  length_of_append (append_of_takeString h)

/-
  The lexemes up to and with the parenthesis that closes the given number of open ones, and those
  after it. Strings are passed over.
-/
def takeParens (opened : Nat) (before : Char) (items : List String) :
    Option (List String × List String) :=
  match items with
  | [] => none
  | lexeme :: rest =>
      let here := lastChar before lexeme
      let cons (step : List String × List String) := (lexeme :: step.1, step.2)
      if lexeme = "(" then
        (takeParens (opened + 1) here rest).map cons
      else if lexeme = ")" then
        if opened ≤ 1 then some ([lexeme], rest)
        else (takeParens (opened - 1) here rest).map cons
      else if lexeme = "\"" then
        match h : takeString here rest with
        | none => none
        | some (taken, left) =>
            have := takeString_length h
            (takeParens opened '"' left).map (fun step =>
                (lexeme :: taken ++ step.1, step.2))
      else (takeParens opened here rest).map cons
termination_by items.length
decreasing_by
  all_goals simp only [List.length_cons]
  all_goals omega

/- Parentheses come off the front, with one lexeme at least. -/
theorem append_of_takeParens (h : takeParens opened before items = some (taken, left)) :
    taken ++ left = items ∧ taken ≠ [] := by
  fun_induction takeParens opened before items generalizing taken left with
  | case1 | case5 => simp at h
  | case3 =>
      obtain ⟨rfl, rfl⟩ := Prod.mk.inj (Option.some.inj h)
      simp
  | case6 =>
      rename_i hString _ ih
      obtain ⟨⟨t, l⟩, hRest, hEq⟩ := Option.map_eq_some_iff.mp h
      obtain ⟨rfl, rfl⟩ := Prod.mk.inj hEq
      simp [(ih hRest).1, (append_of_takeString hString).1]
  | case2 | case4 | case7 =>
      rename_i ih
      obtain ⟨⟨t, l⟩, hRest, hEq⟩ := Option.map_eq_some_iff.mp h
      obtain ⟨rfl, rfl⟩ := Prod.mk.inj hEq
      simp [(ih hRest).1]

theorem takeParens_length (h : takeParens opened before items = some (taken, left)) :
    left.length < items.length :=
  length_of_append (append_of_takeParens h)

-- Argument lists

/-
  The pieces of an argument list after its opening parenthesis, the number of characters they take
  with the closing one, and the lexemes after it. Nested parentheses and strings are single pieces.
  There is no answer if the list does not close.
-/
def takeCall (before : Char) (items : List String) : Option (List String × Nat × List String) :=
  match items with
  | [] => none
  | lexeme :: rest =>
      let here := lastChar before lexeme
      if lexeme = ")" then some ([], 1, rest)
      else if lexeme = "(" then
        match h : takeParens 1 here rest with
        | none => none
        | some (taken, left) =>
            have := takeParens_length h
            let piece := Text.concat (lexeme :: taken)
            (takeCall ')' left).map (fun (pieces, size, after) =>
                (piece :: pieces, piece.length + size, after))
      else if lexeme = "\"" then
        match h : takeString here rest with
        | none => none
        | some (taken, left) =>
            have := takeString_length h
            let piece := Text.concat (lexeme :: taken)
            (takeCall '"' left).map (fun (pieces, size, after) =>
                (piece :: pieces, piece.length + size, after))
      else
        (takeCall here rest).map (fun (pieces, size, after) =>
            (lexeme :: pieces, lexeme.length + size, after))
termination_by items.length
decreasing_by
  all_goals simp only [List.length_cons]
  all_goals omega

theorem takeCall_length (h : takeCall before items = some (pieces, size, after)) :
    after.length < items.length := by
  fun_induction takeCall before items generalizing pieces size after with
  | case1 | case3 | case5 => simp at h
  | case2 =>
      simp only [Option.some.injEq, Prod.mk.injEq] at h
      obtain ⟨_, _, rfl⟩ := h
      simp
  | case4 | case6 | case7 =>
      rename_i ih
      obtain ⟨⟨p, s, a⟩, hRest, hEq⟩ := Option.map_eq_some_iff.mp h
      simp only [Prod.mk.injEq] at hEq
      obtain ⟨_, _, rfl⟩ := hEq
      have := ih hRest
      simp only [List.length_cons]
      omega

-- Strands

/-
  A strand: a text, or the pieces of an argument list with the number of characters that the list
  takes. Lists that come out of a body have no number.
-/
inductive Strand where
  | text (s : String)
  | call (pieces : List String) (size : Option Nat)
  deriving DecidableEq, Repr, Inhabited

namespace Strand

def spelling : Strand → String
| text s => s
| call pieces _ => "(" ++ Text.concat pieces ++ ")"

/- Whether a parenthesis occurs: in a text anywhere, in an argument list as a piece of its own. -/
def mentions (paren : Char) : Strand → Bool
| text s => s.toList.contains paren
| call pieces _ => pieces.contains (String.singleton paren)

def countOf (paren : Char) : Strand → Int
| text s => Text.countChar paren s
| call pieces _ => pieces.count (String.singleton paren)

end Strand

/- All but the last character of some lexemes together. -/
def withoutLast (items : List String) : String := String.ofList (Text.concat items).toList.dropLast

/-
  Group lexemes to strands. The flags tell whether the name of a function-like macro was seen since
  the last argument list, and the answer says with its second part whether an argument list stayed
  open.
-/
def strandsFrom (isFunction : String → Bool) (called : Bool) (before : Char) (items : List String) :
    List Strand × Bool :=
  match items with
  | [] => ([], false)
  | lexeme :: rest =>
      let here := lastChar before lexeme
      if lexeme = "(" ∧ called then
        match h : takeCall here rest with
        | none => ([.text (Text.concat (lexeme :: rest))], true)
        | some (pieces, size, after) =>
            have := takeCall_length h
            let (more, opened) := strandsFrom isFunction false ')' after
            (.call pieces (some (size + 1)) :: more, opened)
      else if lexeme = "\"" then
        match h : takeString here rest with
        | none => ([.text (withoutLast (lexeme :: rest))], false)
        | some (taken, left) =>
            have := takeString_length h
            let (more, opened) := strandsFrom isFunction called '"' left
            (.text (Text.concat (lexeme :: taken)) :: more, opened)
      else
        let called := called || isFunction lexeme
        let (more, opened) := strandsFrom isFunction called here rest
        (.text lexeme :: more, opened)
termination_by items.length
decreasing_by
  all_goals simp only [List.length_cons]
  all_goals omega

/- The strands of a line, and whether an argument list is still open at its end. -/
def strands (table : Table) (s : String) : List Strand × Bool :=
  strandsFrom table.isFunction false ' ' (lexemes s)

def words (s : String) : List String :=
  (lexemes s).filter (fun lexeme => lexeme.toList.all Text.isWord)

def namesIn (table : Table) (s : String) : List String :=
  ((words s).filter table.contains).eraseDups

-- Arguments of a call

/-
  Skip lexemes of an argument list that are inside a string or parentheses, keep the texts between
  commas at the top level. The first argument holds what is already read of the current field, last
  lexeme first.
-/
def splitFields (field : List String) (before : Char) (items : List String) : List (List String) :=
  match items with
  | [] => [field.reverse]
  | lexeme :: rest =>
      let here := lastChar before lexeme
      if lexeme = "," then
        field.reverse :: splitFields [] here rest
      else if lexeme = "(" then
        match h : takeParens 1 here rest with
        | none => [(field.reverse ++ lexeme :: rest)]
        | some (taken, left) =>
            have := takeParens_length h
            splitFields (taken.reverse ++ lexeme :: field) ')' left
      else if lexeme = "\"" then
        match h : takeString here rest with
        | none => [(field.reverse ++ lexeme :: rest)]
        | some (taken, left) =>
            have := takeString_length h
            splitFields (taken.reverse ++ lexeme :: field) '"' left
      else splitFields (lexeme :: field) here rest
termination_by items.length
decreasing_by
  all_goals simp only [List.length_cons]
  all_goals omega

/-
  The arguments of a call, separated by commas outside strings and parentheses, each trimmed and
  with single blanks, and the length of the text with single blanks.
-/
def splitArguments (s : String) : List String × Nat :=
  let text := String.ofList (Text.collapseSpaces s.toList)
  ((splitFields [] ' ' (lexemes text)).map (fun field => Text.trim (Text.concat field)),
    text.length)

end Macro

end CHeader
