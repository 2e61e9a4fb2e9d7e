import CHeader.Proofs.Macro.Trailing

/-
  What the tokens of a line spell.

  Lexeme by lexeme it can be told whether a line is inside of a string and how many parentheses of a
  call are open. Only a string that is opened outside of a call and never closed costs a character,
  so the tokens of every other line spell it.

  Main declarations:
    * `Macro.Scope.after`
    * `Macro.Scope.isOpen`
    * `Macro.spell_tokens`
-/

namespace CHeader

namespace Macro

open Text

variable {isFunction : String → Bool} {called : Bool} {depth : Nat} {before : Char}
variable {items taken left : List String}

-- Where a line is read

/- Whether the name of a function-like macro was seen since the last call, how many parentheses of a
  call are open, and whether a string is. -/
structure Scope where
  called : Bool
  depth : Nat := 0
  inString : Bool := false

namespace Scope

def next (isFunction : String → Bool) (scope : Scope) (before : Char) (lexeme : String) : Scope :=
  if scope.inString then
    { scope with inString := lexeme ≠ "\"" || before = '\\' }
  else if lexeme = "\"" then { scope with inString := true }
  else if 0 < scope.depth then
    { scope with depth := if lexeme = "(" then scope.depth + 1
        else if lexeme = ")" then scope.depth - 1 else scope.depth }
  else if lexeme = "(" ∧ scope.called then { called := false, depth := 1 }
  else { scope with called := scope.called || isFunction lexeme }

def after (isFunction : String → Bool) (scope : Scope) : Char → List String → Scope
| _, [] => scope
| before, lexeme :: rest =>
    (scope.next isFunction before lexeme).after isFunction (lastChar before lexeme) rest

/- Whether a string is open outside of a call. -/
def isOpen (scope : Scope) : Bool := scope.inString && scope.depth = 0

end Scope

-- Strings and calls

theorem Scope.next_inString (hOther : ¬ (lexeme = "\"" ∧ before ≠ '\\')) :
    (mk called depth true).next isFunction before lexeme = ⟨called, depth, true⟩ := by
  simpa [next, imp_iff_not_or] using hOther

/- A string without an end is open to the last. -/
theorem Scope.after_unclosed (hString : takeString before items = none) :
    (mk called depth true).after isFunction before items = ⟨called, depth, true⟩ := by
  induction items generalizing before with
  | nil => rfl
  | cons lexeme rest ih =>
    rw [takeString] at hString
    split at hString
    · cases hString
    · next hQuote =>
      rw [after, next_inString hQuote]
      exact ih (Option.map_eq_none_iff.1 hString)

/- A string ends where it is taken off. -/
theorem Scope.after_string (hString : takeString before items = some (taken, left)) :
    (mk called depth true).after isFunction before items =
      (mk called depth false).after isFunction '"' left := by
  induction items generalizing before taken with
  | nil => cases hString
  | cons lexeme rest ih =>
    rw [takeString] at hString
    split at hString
    · next hQuote =>
      cases hString
      simp [after, next, hQuote, lastChar_quote]
    · next hQuote =>
      obtain ⟨⟨string, _⟩, hRest, hSame⟩ := Option.map_eq_some_iff.1 hString
      cases hSame
      rw [after, next_inString hQuote]
      exact ih hRest

theorem Scope.after_parens (hOpen : 0 < opened)
    (hParens : takeParens opened before items = some (taken, left)) :
    (mk called (depth + opened) false).after isFunction before items =
      (mk called depth false).after isFunction ')' left := by
  have hNext : ∀ opened before lexeme, 0 < opened → lexeme ≠ "\"" →
      (mk called (depth + opened) false).next isFunction before lexeme =
        mk called (if lexeme = "(" then depth + opened + 1
          else if lexeme = ")" then depth + opened - 1 else depth + opened) false := by
    intro opened before lexeme hOpen hQuote
    simp [next, hQuote, Nat.add_pos_right depth hOpen]
  fun_induction takeParens opened before items generalizing taken left with
  | case1 | case5 => cases hParens
  | case3 opened =>
    rename_i hLast _
    cases hParens
    obtain rfl : opened = 1 := Nat.le_antisymm hLast hOpen
    rfl
  | case6 =>
    rename_i hString _ ih
    obtain ⟨step, hRest, hSame⟩ := Option.map_eq_some_iff.1 hParens
    cases hSame
    exact (after_string hString).trans (ih hOpen hRest)
  | case2 =>
    rename_i ih
    obtain ⟨step, hRest, hSame⟩ := Option.map_eq_some_iff.1 hParens
    cases hSame
    rw [after, hNext _ _ _ hOpen (by decide)]
    exact ih (Nat.succ_pos _) hRest
  | case4 =>
    rename_i hMany _ _ _ ih
    obtain ⟨step, hRest, hSame⟩ := Option.map_eq_some_iff.1 hParens
    cases hSame
    rw [after, hNext _ _ _ hOpen (by decide), if_pos rfl, Nat.add_sub_assoc hOpen]
    exact ih (by omega) hRest
  | case7 =>
    rename_i hOther hClose hQuote ih
    obtain ⟨step, hRest, hSame⟩ := Option.map_eq_some_iff.1 hParens
    cases hSame
    rw [after, hNext _ _ _ hOpen hQuote, if_neg hOther, if_neg hClose]
    exact ih hOpen hRest

theorem Scope.after_call (hCall : takeCall before items = some (inside, size, left)) :
    (mk false 1 false).after isFunction before items =
      (mk false 0 false).after isFunction ')' left := by
  fun_induction takeCall before items generalizing inside size with
  | case1 | case3 | case5 => cases hCall
  | case2 =>
    cases hCall
    rfl
  | case4 =>
    rename_i hParens _ _ ih
    obtain ⟨step, hRest, hSame⟩ := Option.map_eq_some_iff.1 hCall
    cases hSame
    exact (@after_parens _ _ _ _ _ _ _ 1 Nat.one_pos hParens).trans (ih hRest)
  | case6 =>
    rename_i hString _ _ ih
    obtain ⟨step, hRest, hSame⟩ := Option.map_eq_some_iff.1 hCall
    cases hSame
    exact (after_string hString).trans (ih hRest)
  | case7 =>
    rename_i hClose hOpen hQuote ih
    obtain ⟨step, hRest, hSame⟩ := Option.map_eq_some_iff.1 hCall
    cases hSame
    rw [← ih hRest]
    simp [after, next, hQuote, hOpen, hClose]
    rfl

-- Tokens

/- Strands spell their lexemes if no string is open at the end. -/
theorem spelled_strandsFrom
    (hEnd : ((Scope.mk called 0 false).after isFunction before items).isOpen = false) :
    spelled (strandsFrom isFunction called before items).1 = concat items := by
  fun_induction strandsFrom isFunction called before items with
  | case1 => rfl
  | case2 => simp [spelled, Strand.spelling]
  | case3 =>
    rename_i hCalled _ _ _ hCall _ _ _ hMore ih
    obtain ⟨rfl, rfl⟩ := hCalled
    have hRest := ih ((congrArg Scope.isOpen (Scope.after_call hCall)).symm.trans hEnd)
    rw [hMore] at hRest
    rw [concat_cons, (@takeCall_append _ _ [] _ _ _ hCall).2, ← hRest]
    simp [spelled, Strand.spelling, String.append_assoc]
  | case4 =>
    rename_i hString
    cases (congrArg Scope.isOpen (Scope.after_unclosed hString)).symm.trans hEnd
  | case5 =>
    rename_i hMore _ _ hString _ ih
    have hRest := ih ((congrArg Scope.isOpen (Scope.after_string hString)).symm.trans hEnd)
    rw [hMore] at hRest
    rw [← (append_of_takeString hString).1, ← List.cons_append, concat_append, ← hRest]
    simp [spelled, Strand.spelling]
  | case6 =>
    rename_i hCalled hQuote _ _ _ hMore ih
    have hRest := ih (by simpa [Scope.after, Scope.next, hQuote, hCalled] using hEnd)
    rw [hMore] at hRest
    rw [concat_cons, ← hRest]
    simp [spelled, Strand.spelling]

/- The tokens of a text spell it if no string is left open that was opened outside of a call. -/
theorem spell_tokens
    (table : Table)
    (painted : List String)
    (s : String)
    (hEnd :
      ((Scope.mk false 0 false).after table.isFunction ' ' (lexemes s)).isOpen = false) :
    spell (tokens table painted s).1 = s := by
  have hSpelled := spelled_strandsFrom hEnd
  rw [concat_lexemes] at hSpelled
  simpa [spell, tokens, spelled, strands, Token.ofStrand, Function.comp_def] using hSpelled

/- A string outside of a call, a call with parentheses and a quoted one inside, and an open call. -/
theorem spell_tokens_calls :
    let table : Table := { names := [("F", .function)] }
    let s := "\"(\" F((a) \")\") + F(b \"c"
    spell (tokens table [] s).1 = s ∧ (tokens table [] s).2 = true :=
  ⟨spell_tokens _ _ _ (by decide +kernel), by decide +kernel⟩

end Macro

end CHeader
