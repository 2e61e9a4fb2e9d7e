import CHeader.Proofs.Macro.Expansion
import CHeader.Proofs.Source.Run

/-
  Passes over the tokens of a line.

  A pass looks at every live token once: a name that is not painted is replaced by the live tokens
  of its text, and every other token is closed. After a number of passes the live tokens are those
  at one level of the expansion, and the names they are painted with are the words on the way down
  to them. Grouping the tokens again between two passes changes nothing, because what stands before
  a parenthesis is never a name.

  Main declarations:
    * `Macro.front`
    * `Macro.exec_scanTokens`
    * `Macro.regroup_front`
-/

namespace CHeader

namespace Macro

open List Token

open Source (exec exec_bind exec_getTable exec_lift)

variable {α : Type} {s : String}

-- The tokens after some passes

@[simp] theorem toFinset_addName (name : String) (names : List String) :
    (addName name names).toFinset = insert name names.toFinset := by
  unfold addName
  split
  · next hContains =>
      have hMem : name ∈ names := by simpa using hContains
      simp [hMem]
  · simp

def Token.ofPiece (painted : List String) (piece : String) : Token :=
  .ofStrand painted (.text piece)

/-
  The tokens of a text after a number of passes, when the text itself is painted with some names.
-/
def front (table : Table) : Nat → List String → String → List Token
| 0, painted, s => (pieces s).map (ofPiece painted)
| passes + 1, painted, s =>
    (pieces s).flatMap fun piece =>
      match openBody? table painted.toFinset piece with
      | some body =>
          front table passes (addName piece painted) body
      | none => [(ofPiece painted piece).close]

/- The text that a pass puts in the place of a token. -/
def Token.openBody? (table : Table) (token : Token) : Option String :=
  match token.live, token.strand with
  | true, .text s =>
      Macro.openBody? table token.painted.toFinset s
  | _, _ => none

def passToken (table : Table) (token : Token) : List Token :=
  match token.openBody? table with
  | some body =>
      front table 0 (addName token.text token.painted) body
  | none => [token.close]

section

variable {table : Table}

theorem openBody?_ofPiece (painted : List String) (piece : String) :
    (ofPiece painted piece).openBody? table = openBody? table painted.toFinset piece := rfl

theorem openBody?_close (token : Token) : token.close.openBody? table = none := rfl

variable (passes : Nat)

theorem flatMap_passToken_front (painted : List String) (s : String) :
    (front table passes painted s).flatMap (passToken table) =
      front table (passes + 1) painted s := by
  induction passes generalizing painted s with
  | zero =>
    rw [front, flatMap_map]
    rfl
  | succ passes ih =>
    rw [front, flatMap_assoc, front]
    congr 1
    funext piece
    cases openBody? table painted.toFinset piece with
    | some body => exact ih _ _
    | none => rfl

/- A pass replaces something as long as the expansion has replacements at that level. -/
theorem any_openBody?_front (painted : List String) (s : String) :
    ((front table passes painted s).any fun token => (token.openBody? table).isSome) = true ↔
      passes < expansionDepth table painted.toFinset s := by
  induction passes generalizing painted s with
  | zero =>
    rw [lt_expansionDepth_iff]
    simp [front, openBody?_ofPiece, Option.isSome_iff_exists]
  | succ passes ih =>
    rw [lt_expansionDepth_iff]
    simp only [front, any_flatMap, any_eq_true]
    apply exists_congr
    intro piece
    apply and_congr_right
    cases hBody : openBody? table painted.toFinset piece with
    | some body =>
      have hNext := ih (addName piece painted) body
      simp only [any_eq_true] at hNext
      simp [hNext]
    | none => simp [openBody?_close]

theorem spell_flatMap (list : List α) (f : α → List Token) : spell (list.flatMap f) =
    Text.concat (list.map fun a => spell (f a)) := by
  unfold spell
  induction list with
  | nil => rfl
  | cons a list ih => simp [ih]

theorem spell_front (painted : List String) (s : String)
    (hDepth : expansionDepth table painted.toFinset s ≤ passes) :
    spell (front table passes painted s) = expansion table painted.toFinset s := by
  induction passes generalizing painted s with
  | zero =>
    have hNone : ∀ piece ∈ pieces s, openBody? table painted.toFinset piece = none := by
      intro piece hPiece
      by_contra hSome
      rcases Option.ne_none_iff_exists'.1 hSome with ⟨body, hBody⟩
      have hLevel := (lt_expansionDepth_iff table painted.toFinset s 0).2
          ⟨piece, hPiece, body, hBody, Nat.succ_pos _⟩
      omega
    rw [expansion_eq, front, spell, map_map]
    congr 1
    apply map_congr_left
    intro piece hPiece
    rw [hNone piece hPiece]
    rfl
  | succ passes ih =>
    rw [expansion_eq, front, spell_flatMap]
    congr 1
    apply map_congr_left
    intro piece hPiece
    cases hBody : openBody? table painted.toFinset piece with
    | some body =>
      have hBelow : expansionDepth table (addName piece painted).toFinset body ≤
          passes := by
        rw [toFinset_addName]
        by_contra hAbove
        have hLevel := (lt_expansionDepth_iff table painted.toFinset s (passes + 1)).2
            ⟨piece, hPiece, body, hBody, by omega⟩
        omega
      rw [ih _ _ hBelow, toFinset_addName]
    | none =>
      simp [spell, ofPiece, ofStrand, close, Strand.spelling]

-- One pass

/- Tokens that a pass only replaces by texts: they have no
  kin, and a name among them is a word for a plain text. -/
structure Tame (table : Table) (token : Token) : Prop where
  kin_eq : token.kin = 0
  strand_eq : token.strand = .text token.text
  named : ∀ meaning, table.find? token.text = some meaning → isWordText token.text = true ∧
      ∃ body, meaning = .text body ∧ NamesTexts table body

theorem tame_front (painted : List String) (s : String) (hPlain : AllPlain table s) :
    ∀ token ∈ front table passes painted s, Tame table token := by
  induction passes generalizing painted s with
  | zero =>
    intro token hToken
    rw [front, mem_map] at hToken
    rcases hToken with ⟨piece, hMem, rfl⟩
    exact ⟨rfl, rfl, fun _ => hPlain.named hMem⟩
  | succ passes ih =>
    intro token hToken
    rw [front, mem_flatMap] at hToken
    rcases hToken with ⟨piece, hMem, hToken⟩
    cases hBody : openBody? table painted.toFinset piece with
    | some body =>
      rw [hBody] at hToken
      have hFind := (openBody?_eq_some_iff.1 hBody).2.2
      exact ih _ body (hPlain.body hMem hFind) token hToken
    | none =>
      rw [hBody, mem_singleton] at hToken
      subst hToken
      exact ⟨rfl, rfl, fun _ => hPlain.named hMem⟩

/- The tokens of a text in which names stand for texts. -/
theorem tokens_of_namesTexts (painted : List String) (hNames : NamesTexts table s) :
    tokens table painted s = (front table 0 painted s, false) := by
  have hPieces : ∀ piece ∈ pieces s, table.isFunction piece = false := by
    intro piece hPiece
    rw [Table.isFunction, decide_eq_false_iff_not]
    intro hFind
    have hText := (hNames piece hPiece (by simp [Table.contains, hFind])).2
    simp [Table.text?, hFind] at hText
  rw [tokens, strands_of_unnamed hPieces]
  simp only [map_map]
  rfl

end

def Pass.after (table : Table) (state : Pass) (token : Token) : Pass :=
  { state with
    seen := state.seen + 1
    done := (passToken table token).reverse ++ state.done
    replaced := state.replaced || (token.openBody? table).isSome }

section

variable (expander : Expander) (ahead : String → Source.Run String) (session : Source.Session)

/- A pass replaces a tame token as it should and goes on. -/
theorem exec_scanTokens_cons (state : Pass) (token : Token)
    (rest : List Token) (hAwaiting : state.awaiting = none) (hTame : Tame session.table token) :
    exec (scanTokens expander ahead false state (token :: rest)) session =
      exec (scanTokens expander ahead false (state.after session.table token) rest) session := by
  rcases state with ⟨line, seen, done, replaced, awaiting⟩
  cases hAwaiting
  rcases token with ⟨strand, text, live, painted, kin⟩
  rcases hTame with ⟨hKin, hStrand, hNamed⟩
  simp only at hKin hStrand hNamed
  subst hKin hStrand
  rw [scanTokens_cons, exec_bind, exec_getTable]
  cases live with
  | false =>
    simp [Pass.after, passToken, Token.openBody?, Pass.push, Token.close]
  | true =>
    simp only
    cases hFind : session.table.find? text with
    | none =>
      have hNone : openBody? session.table painted.toFinset text = none := by
        rw [Option.eq_none_iff_forall_ne_some]
        intro body hBody
        rw [openBody?_eq_some_iff, hFind] at hBody
        cases hBody.2.2
      simp [Pass.after, passToken, Token.openBody?, hNone, Pass.push]
    | some meaning =>
      rcases hNamed meaning hFind with ⟨hWord, body, rfl, hNames⟩
      by_cases hPainted : painted.contains text = true
      · have hNone : openBody? session.table painted.toFinset text = none := by
          rw [openBody?, if_neg]
          simpa using fun _ => hPainted
        simp only [hPainted]
        simp [Pass.after, passToken, Token.openBody?, hNone, Pass.push]
      · have hBody : openBody? session.table painted.toFinset text = some body := by
          rw [openBody?_eq_some_iff]
          exact ⟨hWord, by simpa using hPainted, hFind⟩
        simp only [hPainted]
        rw [tokens_of_namesTexts _ hNames]
        simp [Pass.after, passToken, Token.openBody?, hBody, Pass.paint, paintKinAll, paintKin]

/- A pass over tame tokens replaces all of them, and notes whether it replaced any. -/
theorem exec_scanTokens (state : Pass) (list : List Token) (hAwaiting : state.awaiting = none)
    (hTame : ∀ token ∈ list, Tame session.table token) :
    ∃ final, exec (scanTokens expander ahead false state list)
        session = (.ok (.scanned final), session) ∧
      final.done = (list.flatMap (passToken session.table)).reverse ++ state.done ∧
      final.replaced = (state.replaced || list.any fun token =>
          (token.openBody? session.table).isSome) := by
  induction list generalizing state with
  | nil =>
    rw [scanTokens_nil]
    exact ⟨state, rfl, by simp, by simp⟩
  | cons token rest ih =>
    rw [exec_scanTokens_cons expander ahead session state
      token rest hAwaiting (hTame token (by simp))]
    rcases ih (state.after session.table token) hAwaiting (fun token hToken =>
        hTame token (mem_cons_of_mem _ hToken)) with
      ⟨final, hRun, hDone, hReplaced⟩
    refine ⟨final, hRun, ?_, ?_⟩
    · simp [hDone, Pass.after]
    · simp [hReplaced, Pass.after, Bool.or_assoc]

end

-- Grouping between passes

/- Whether a token is none that a parenthesis may follow as an argument list. -/
def Bare (table : Table) (before : Option Token) : Prop :=
  ∀ last ∈ before, table.contains last.text = false

/- Whether no parenthesis in a list of tokens follows a
  name at once, given the token before the list. -/
def Guarded (table : Table) : Option Token → List Token → Prop
| _, [] => True
| before, token :: rest =>
    (token.strand.mentions '(' = true → Bare table before) ∧ Guarded table (some token) rest

/- The last token so far after some more. -/
def lastToken : Option Token → List Token → Option Token
| before, [] => before
| _, token :: rest => lastToken (some token) rest

section

variable {table : Table}

theorem guarded_append (before : Option Token) (first second : List Token) :
    Guarded table before (first ++ second) ↔ Guarded table before first ∧
        Guarded table (lastToken before first) second := by
  induction first generalizing before with
  | nil => simp [Guarded, lastToken]
  | cons token first ih =>
    simp only [cons_append, Guarded, lastToken, ih, and_assoc]

/- Guarded tokens are grouped as they are. -/
theorem foldlM_step_of_guarded (list done : List Token) (hGuarded : Guarded table done.head? list) :
    list.foldlM (Grouping.step table) { done := done } = .ok { done := list.reverse ++ done } := by
  induction list generalizing done with
  | nil => rfl
  | cons token rest ih =>
    rcases hGuarded with ⟨hToken, hRest⟩
    have hStep : Grouping.step table { done := done } token = .ok { done := token :: done } := by
      unfold Grouping.step
      simp only [ne_eq, not_true_eq_false, if_false]
      by_cases hParen : token.strand.mentions '(' = true
      · rw [if_pos hParen]
        cases done with
        | nil => rfl
        | cons last done =>
          have hBare := hToken hParen last rfl
          simp [hBare]
      · rw [if_neg hParen]
    rw [foldlM_cons, hStep]
    change rest.foldlM (Grouping.step table) { done := token :: done } = _
    rw [ih (token :: done) hRest]
    simp

theorem regroup_of_guarded (list : List Token) (hGuarded : Guarded table none list) :
    regroup table list = .ok (list, false) := by
  rw [regroup, foldlM_step_of_guarded list [] hGuarded]
  simp

/-
  The tokens that stand for some items are guarded if those of each single item are. A name is a
  word, so that the text of the next item is none, and it is no parenthesis either.
-/
theorem guarded_flatMap (text : α → String) (f : α → List Token) (list : List α)
    (before : Option Token) (hWords : WordsApart (list.map text))
    (hCalls : (list.map text).IsChain fun first second =>
        table.contains first = true → '(' ∉ second.toList)
    (hBefore : ∀ item ∈ list.head?, Bare table before ∨
        (isWordText (text item) = false ∧ '(' ∉ (text item).toList))
    (hOther : ∀ item ∈ list, table.contains (text item) = false →
        ∃ token, f item = [token] ∧ token.text = text item ∧
          (token.strand.mentions '(' = true → '(' ∈ (text item).toList))
    (hName : ∀ item ∈ list, table.contains (text item) = true → isWordText (text item) = true ∧
        ∀ before, Bare table before → Guarded table before (f item)) :
    Guarded table before (list.flatMap f) := by
  induction list generalizing before with
  | nil => trivial
  | cons item rest ih =>
    rw [map_cons, wordsApart_cons] at hWords
    rw [map_cons, isChain_cons] at hCalls
    rw [flatMap_cons, guarded_append]
    rw [forall_mem_cons] at hOther hName
    have hRest : (∀ next ∈ rest.head?, Bare table (lastToken before (f item)) ∨
        (isWordText (text next) = false ∧ '(' ∉ (text next).toList)) →
        Guarded table (lastToken before (f item)) (rest.flatMap f) := fun hNext =>
      ih (lastToken before (f item)) hWords.2 hCalls.2 hNext hOther.2 hName.2
    have hHead := hBefore item rfl
    cases hContains : table.contains (text item) with
    | false =>
      rcases hOther.1 hContains with ⟨token, hToken, hText, hParen⟩
      rw [hToken] at hRest ⊢
      refine ⟨⟨?_, trivial⟩, hRest ?_⟩
      · intro hMentions
        rcases hHead with hBare | ⟨_, hNone⟩
        · exact hBare
        · exact absurd (hParen hMentions) hNone
      · intro next _
        left
        intro last hLast
        cases hLast
        rw [hText]
        exact hContains
    | true =>
      rcases hName.1 hContains with ⟨hWord, hGuarded⟩
      refine ⟨?_, hRest ?_⟩
      · apply hGuarded
        rcases hHead with hBare | ⟨hOtherClass, _⟩
        · exact hBare
        · rw [hWord] at hOtherClass
          cases hOtherClass
      · intro next hNext
        have hText : text next ∈ (rest.map text).head? := by simpa using ⟨next, hNext, rfl⟩
        exact .inr ⟨hWords.1 _ hText hWord, hCalls.1 _ hText hContains⟩

/- After any number of passes no parenthesis follows a name at once. -/
theorem guarded_front (passes : Nat) (painted : List String)
    (s : String) (hPlain : AllPlain table s) (before : Option Token) (hBare : Bare table before) :
    Guarded table before (front table passes painted s) := by
  have hParen : ∀ piece, (Strand.text piece).mentions '(' = true → '(' ∈ piece.toList := by
    simp [Strand.mentions]
  induction passes generalizing painted s before with
  | zero =>
    rw [front, map_eq_flatMap]
    apply guarded_flatMap id _ _ _ (by simpa using wordsApart_pieces s) (by simpa using hPlain.plain.noCall)
      (fun _ _ => .inl hBare)
    · intro piece hPiece _
      exact ⟨_, rfl, rfl, hParen piece⟩
    · intro piece hPiece hContains
      refine ⟨(hPlain.plain.named piece hPiece hContains).1, ?_⟩
      intro before hBare
      exact ⟨fun _ => hBare, trivial⟩
  | succ passes ih =>
    apply guarded_flatMap id _ _ _ (by simpa using wordsApart_pieces s) (by simpa using hPlain.plain.noCall)
      (fun _ _ => .inl hBare)
    · intro piece hPiece hContains
      have hNone : openBody? table painted.toFinset piece = none := by
        rw [Option.eq_none_iff_forall_ne_some]
        intro body hBody
        have hFind := (openBody?_eq_some_iff.1 hBody).2.2
        simp [Table.contains, hFind] at hContains
      rw [hNone]
      exact ⟨_, rfl, rfl, hParen piece⟩
    · intro piece hPiece hContains
      refine ⟨(hPlain.plain.named piece hPiece hContains).1, ?_⟩
      intro before hBare
      cases hBody : openBody? table painted.toFinset piece with
      | some body =>
        have hFind := (openBody?_eq_some_iff.1 hBody).2.2
        exact ih _ body (hPlain.body hPiece hFind) before hBare
      | none => exact ⟨fun _ => hBare, trivial⟩

theorem regroup_front (passes : Nat) (painted : List String) (hPlain : AllPlain table s) :
    regroup table (front table passes painted s) = .ok (front table passes painted s, false) := by
  apply regroup_of_guarded
  apply guarded_front passes painted s hPlain none
  simp [Bare]

end

-- All passes

section

variable (ahead : String → Source.Run String) (session : Source.Session)

/-
  From the tokens after some passes on, further passes are made as long as there is something to
  replace, and one more that finds nothing. They fail if the bound does not allow for that many.
-/
theorem exec_expandTokens_stages {stages : Nat → List Token} {total : Nat}
    (hTame : ∀ passes, ∀ token ∈ stages passes, Tame session.table token)
    (hNext : ∀ passes, (stages passes).flatMap (passToken session.table) = stages (passes + 1))
    (hGroup : ∀ passes, regroup session.table (stages passes) = .ok (stages passes, false))
    (hMore : ∀ passes, ((stages passes).any fun token =>
      (token.openBody? session.table).isSome) = true ↔ passes < total)
    (bound passes : Nat) (line : String) (hPasses : passes ≤ total) :
    exec (expandTokens ahead bound line (stages passes) false) session =
      if total < passes + bound then (.ok (stages (total + 1)), session)
      else (.error .tooDeep, session) := by
  induction bound generalizing passes line with
  | zero =>
    rw [if_neg (by omega)]
    rfl
  | succ bound ih =>
    rcases exec_scanTokens (expandTokens ahead bound) ahead session { line := line }
        (stages passes) rfl (hTame passes) with
      ⟨final, hScan, hDone, hReplaced⟩
    rw [hNext, append_nil] at hDone
    rw [expandTokens, expandOnce, exec_bind, hScan]
    simp only [hDone, hReplaced, reverse_reverse, Bool.false_or]
    by_cases hLevel : passes < total
    · rw [if_pos ((hMore passes).2 hLevel), exec_bind, exec_getTable]
      simp only [exec_bind, exec_lift, hGroup]
      rw [ih (passes + 1) _ hLevel, Nat.add_assoc, Nat.add_comm 1 bound]
    · have hEnd : passes = total := by
        omega
      rw [if_neg (mt (hMore passes).1 hLevel), if_pos (by omega), ← hEnd]
      rfl

/- All passes over a text in which names stand for texts. -/
theorem exec_expandTokens_front (hPlain : AllPlain session.table s) (bound passes : Nat)
    (line : String) (hPasses : passes ≤ expansionDepth session.table ∅ s) :
    exec (expandTokens ahead bound line (front session.table passes [] s) false) session =
      if expansionDepth session.table ∅ s < passes + bound then
        (.ok (front session.table (expansionDepth session.table ∅ s + 1) [] s), session)
      else (.error .tooDeep, session) :=
  exec_expandTokens_stages ahead session (fun passes => tame_front passes [] s hPlain)
    (fun passes => flatMap_passToken_front passes [] s) (fun passes => regroup_front passes [] hPlain)
    (fun passes => any_openBody?_front passes [] s) bound passes line hPasses

end

end Macro

end CHeader
