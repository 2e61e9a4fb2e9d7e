import CHeader.Proofs.Macro.Cutting

/-
  Lines in which no text leads back to its name.

  The replacements that such a line leads to can be counted beforehand. A pass over its tokens that
  replaces a name leaves fewer of them to make. Grouping may take the paint off the tokens in a
  parenthesis and cuts them anew, but keeps their words, and so the number of replacements that are
  left.

  Main declarations:
    * `Macro.replacements`
    * `Macro.Grounded`
    * `Macro.Fits`
-/

namespace CHeader

namespace Macro

open List hiding concat

open Text

variable {s t body : String} {table : Table}

-- Replacements

def replacements (table : Table) (painted : Finset String) (s : String) : Nat :=
  ((pieces s).map fun piece =>
    match hBody : openBody? table painted piece with
    | some body =>
        replacements table (insert piece painted) body + 1
    | none => 0).sum
termination_by (table.nameSet \ painted).card
decreasing_by exact card_unpainted_lt hBody

/- The number of replacements that one piece leads to. -/
def weight (table : Table) (painted : Finset String) (piece : String) : Nat :=
  match openBody? table painted piece with
  | some body =>
      replacements table (insert piece painted) body + 1
  | none => 0

/- The number of replacements that texts lead to while nothing is painted. -/
def load (table : Table) (texts : List String) : Nat := (texts.map (weight table ∅)).sum

/-
  Lines in which names only stand for texts and no text leads back to its own name. Parentheses may
  stand anywhere, and there are no strings.
-/
structure Grounded (table : Table) (s : String) : Prop where
  texts : ∀ t, Reaches table s t → NamesTexts table t
  noQuote : ∀ t, Reaches table s t → '"' ∉ t.toList
  forward : ∀ t, Reaches table s t → ∀ name ∈ pieces t, ∀ body,
      table.find? name = some (.text body) → ∀ u, Reaches table body u → name ∉ pieces u

section

variable {table : Table}

theorem Reaches.trans (hFirst : Reaches table s t) (hSecond : Reaches table t u) :
    Reaches table s u := by
  induction hSecond with
  | self => exact hFirst
  | body _ hName hBody ih => exact .body ih hName hBody

theorem Grounded.of_reaches (hGrounded : Grounded table s) (hReaches : Reaches table s t) :
    Grounded table t where
  texts u hu := hGrounded.texts u (hReaches.trans hu)
  noQuote u hu := hGrounded.noQuote u (hReaches.trans hu)
  forward u hu := hGrounded.forward u (hReaches.trans hu)

theorem replacements_eq (painted : Finset String) (s : String) : replacements table painted s =
    ((pieces s).map (weight table painted)).sum := by
  rw [replacements]
  congr 1
  apply map_congr_left
  intro piece _
  unfold weight
  split <;> split <;> simp_all

/- Painted names that are not met make no difference. -/
theorem Grounded.replacements_congr (hGrounded : Grounded table s) (painted others : Finset String)
    (hPainted : ∀ t, Reaches table s t → ∀ name ∈ pieces t, name ∉ painted ∧ name ∉ others) :
    replacements table painted s = replacements table others s := by
  -- the names left to replace get fewer with every body
  induction hCard : (table.nameSet \ painted).card
      using Nat.strongRecOn generalizing painted others s with
  | ind card ih =>
    rw [replacements_eq, replacements_eq]
    congr 1
    apply map_congr_left
    intro piece hPiece
    have hHere := hPainted s .self piece hPiece
    have hSame : openBody? table others piece = openBody? table painted piece := by
      simp [openBody?, hHere]
    unfold weight
    rw [hSame]
    cases hBody : openBody? table painted piece with
    | none => rfl
    | some body =>
      have hFind := (openBody?_eq_some_iff.1 hBody).2.2
      have hReaches : Reaches table s body := .body .self hPiece hFind
      refine congrArg (· + 1) (ih _ (hCard ▸ card_unpainted_lt hBody)
        (hGrounded.of_reaches hReaches) _ _ ?_ rfl)
      intro t ht name hName
      have hOther : name ≠ piece := by
        rintro rfl
        exact hGrounded.forward s .self name hPiece body hFind t ht hName
      have hLater := hPainted t (hReaches.trans ht) name hName
      simp [hOther, hLater]

/- A name leads to one replacement more than its text. -/
theorem Grounded.weight_eq (hGrounded : Grounded table s) (hPiece : piece ∈ pieces s)
    (hBody : openBody? table painted piece = some body) :
    weight table ∅ piece = load table (pieces body) + 1 := by
  obtain ⟨hWord, _, hFind⟩ := openBody?_eq_some_iff.1 hBody
  have hOpen : openBody? table ∅ piece = some body :=
    openBody?_eq_some_iff.2 ⟨hWord, Finset.notMem_empty _, hFind⟩
  have hGround : Grounded table body := hGrounded.of_reaches (.body .self hPiece hFind)
  unfold weight
  rw [hOpen]
  dsimp only
  rw [hGround.replacements_congr (insert piece ∅) ∅ ?_, replacements_eq]
  · rfl
  · intro t ht name hName
    refine ⟨?_, Finset.notMem_empty _⟩
    rw [insert_empty_eq, Finset.mem_singleton]
    rintro rfl
    exact hGrounded.forward s .self name hPiece body hFind t ht hName

theorem load_cons (t : String) (texts : List String) :
    load table (t :: texts) = weight table ∅ t + load table texts := rfl

theorem load_filter (texts : List String) :
    load table (texts.filter isWordText) = load table texts := by
  induction texts with
  | nil => rfl
  | cons t rest ih =>
    cases hWord : isWordText t with
    | true =>
      rw [filter_cons_of_pos hWord, load_cons, ih, load_cons]
    | false =>
      have hNone : weight table ∅ t = 0 := by
        simp [weight, openBody?, hWord]
      rw [filter_cons_of_neg (by simp [hWord]), ih, load_cons, hNone, Nat.zero_add]

theorem load_append (first second : List String) : load table (first ++ second) =
    load table first + load table second := by
  rw [load, map_append, sum_append, load, load]

end

-- Texts on the way

def Table.Worded (table : Table) : Prop :=
  ∀ name, table.contains name = true → isWordText name = true

theorem Table.worded_of_all (hAll : ∀ entry ∈ table.names, isWordText entry.1 = true) :
    table.Worded := by
  intro name hName
  obtain ⟨meaning, hFind⟩ := Option.isSome_iff_exists.1 hName
  exact hAll (name, meaning) (mem_of_lookup hFind)

/- Whether texts stand one after another as lexemes do, have no quote, and all names among them are
  met in what a line reaches. -/
structure Fits (table : Table) (s : String) (texts : List String) : Prop extends Cut texts where
  noQuote : "\"" ∉ texts
  met : ∀ t ∈ texts, table.contains t = true → ∃ u, Reaches table s u ∧ t ∈ pieces u

theorem mem_concat : c ∈ (concat texts).toList ↔ ∃ t ∈ texts, c ∈ t.toList := by
  induction texts with
  | nil => simp
  | cons t rest ih => simp [ih]

theorem quote_notMem_lexemes (hQuote : '"' ∉ s.toList) : "\"" ∉ lexemes s := by
  intro hMem
  rw [← concat_lexemes s] at hQuote
  exact hQuote (mem_concat.2 ⟨_, hMem, mem_singleton_self _⟩)

theorem pieces_of_noQuote (hQuote : '"' ∉ s.toList) : pieces s = lexemes s :=
  piecesFrom_of_noQuote _ _ (quote_notMem_lexemes hQuote)

section

variable {table : Table} {s : String} {texts : List String}
variable {before inner after : List String}

theorem fits_append : Fits table s (first ++ second) ↔
    Fits table s first ∧ Fits table s second ∧ ∀ x ∈ first.getLast?, ∀ y ∈ second.head?,
        isWordText x = true → isWordText y = false := by
  constructor
  · rintro ⟨hCut, hQuote, hMet⟩
    obtain ⟨hFirst, hSecond, hBetween⟩ := cut_append.1 hCut
    rw [mem_append, not_or] at hQuote
    obtain ⟨hBefore, hAfter⟩ := forall_mem_append.1 hMet
    exact ⟨⟨hFirst, hQuote.1, hBefore⟩, ⟨hSecond, hQuote.2, hAfter⟩, hBetween⟩
  · rintro ⟨hFirst, hSecond, hBetween⟩
    refine ⟨cut_append.2 ⟨hFirst.toCut, hSecond.toCut, hBetween⟩,
      ?_, forall_mem_append.2 ⟨hFirst.met, hSecond.met⟩⟩
    rw [mem_append, not_or]
    exact ⟨hFirst.noQuote, hSecond.noQuote⟩

theorem Fits.named (hFits : Fits table s texts) (hGrounded : Grounded table s) (hMem : t ∈ texts)
    (hContains : table.contains t = true) :
    isWordText t = true ∧ (table.text? t).isSome = true := by
  obtain ⟨u, hReaches, hPiece⟩ := hFits.met t hMem hContains
  exact hGrounded.texts u hReaches t hPiece hContains

theorem Grounded.fits_pieces (hGrounded : Grounded table s) (hReaches : Reaches table s t) :
    Fits table s (pieces t) := by
  have hQuote := hGrounded.noQuote t hReaches
  refine ⟨?_, ?_, fun piece hPiece _ => ⟨t, hReaches, hPiece⟩⟩
  · rw [pieces_of_noQuote hQuote]
    exact cut_lexemes t
  · rw [pieces_of_noQuote hQuote]
    exact quote_notMem_lexemes hQuote

theorem Fits.quote_notMem (hFits : Fits table s texts) : '"' ∉ (concat texts).toList := by
  intro hMem
  obtain ⟨t, ht, hChar⟩ := mem_concat.1 hMem
  rw [(hFits.lexeme t ht).alone '"' (by decide) hChar] at ht
  exact hFits.noQuote ht

theorem Fits.recut (hWords : table.Worded) (hFits : Fits table s
    (before ++ ("(" :: inner ++ [")"]) ++ after)) :
    Fits table s (before ++ lexemes (concat ("(" :: inner ++ [")"])) ++ after) ∧
      load table (lexemes (concat ("(" :: inner ++ [")"]))) =
        load table ("(" :: inner ++ [")"]) := by
  have hNew := hFits.toCut.recut
  obtain ⟨hOld, hAfter, _⟩ := fits_append.1 hFits
  obtain ⟨hBefore, hInner, _⟩ := fits_append.1 hOld
  generalize "(" :: inner ++ [")"] = held at *
  have hSame : (lexemes (concat held)).filter isWordText = held.filter isWordText :=
    (cut_lexemes _).filter_eq hInner.toCut (concat_lexemes _)
  have hQuote : "\"" ∉ lexemes (concat held) := quote_notMem_lexemes hInner.quote_notMem
  refine ⟨⟨hNew, ?_, ?_⟩, ?_⟩
  · simp only [mem_append, not_or]
    exact ⟨⟨hBefore.noQuote, hQuote⟩, hAfter.noQuote⟩
  · simp only [forall_mem_append]
    refine ⟨⟨hBefore.met, ?_⟩, hAfter.met⟩
    intro t ht hContains
    have hMem := mem_filter.2 ⟨ht, hWords t hContains⟩
    rw [hSame] at hMem
    exact hInner.met t (mem_filter.1 hMem).1 hContains
  · rw [← load_filter, hSame, load_filter]

/- A name and the parenthesis after it are read again. -/
theorem Fits.tokens_call (hGrounded : Grounded table s) (hWords : table.Worded)
    (hFits : Fits table s (before ++ ("(" :: inner ++ [")"]) ++ after)) (hName : name ∈ before)
    (hContains : table.contains name = true) (painted : List String) :
    tokens table painted (name ++ concat ("(" :: inner ++ [")"])) =
      ((name :: lexemes (concat ("(" :: inner ++ [")"]))).map (Token.ofPiece painted), false) := by
  have hNew := (hFits.recut hWords).1
  have hInner := (fits_append.1 (fits_append.1 hFits).1).2.1
  have hHead : (concat ("(" :: inner ++ [")"])).toList.head? = some '(' := by
    rw [cons_append, head?_concat (by decide)]
    rfl
  generalize "(" :: inner ++ [")"] = held at *
  have hWord := hWords name hContains
  have hPieces : pieces (name ++ concat held) = name :: lexemes (concat held) := by
    rw [pieces_of_noQuote, lexemes_append_word hWord]
    · intro c hc
      rw [hHead] at hc
      cases hc
      decide
    · rw [String.toList_append, mem_append, not_or]
      refine ⟨fun hMem => ?_, hInner.quote_notMem⟩
      rw [not_isWordText_of_mark (by decide) hMem] at hWord
      cases hWord
  have hNames : NamesTexts table (name ++ concat held) := by
    rw [NamesTexts, hPieces, forall_mem_cons]
    refine ⟨hFits.named hGrounded (by simp [hName]), ?_⟩
    intro piece hPiece
    exact hNew.named hGrounded (by simp [hPiece])
  rw [tokens_of_namesTexts _ hNames, front, hPieces]

end

-- Grouping of tokens

def Token.IsText (token : Token) : Prop := token.kin = 0 ∧ token.strand = .text token.text

structure Ready (table : Table) (s : String) (list : List Token) : Prop where
  fits : Fits table s (list.map Token.text)
  isText : ∀ token ∈ list, token.IsText

namespace Grouping

/- The texts that a grouping has taken in. The name before an
  open parenthesis is held besides being done. -/
def texts (state : Grouping) : List String := (state.done.reverse ++ state.held.tail).map Token.text

/- Whether either nothing is held, or a parenthesis after a name. -/
def Shaped (table : Table) (state : Grouping) : Prop :=
  state.depth = 0 ∧ state.held = [] ∨ 0 < state.depth ∧
      ∃ last mark inner, state.held = last :: mark :: inner ∧ mark.text = "(" ∧ last ∈ state.done ∧
          table.contains last.text = true

structure Keeps (table : Table) (s : String) (total : Nat) (state : Grouping)
    (rest : List Token) : Prop where
  opened : state.opened = false
  isText : ∀ token ∈ state.done ++ rest, token.IsText
  fits : Fits table s (state.texts ++ rest.map Token.text)
  load_eq : load table (state.texts ++ rest.map Token.text) = total
  shaped : state.Shaped table

section

variable {table : Table} {s : String} {total : Nat} {state : Grouping} {token : Token}
variable {rest : List Token}

theorem Keeps.take {next : Grouping} (hKeeps : Keeps table s total state (token :: rest))
    (hOpened : next.opened = state.opened) (hDone : next.done ⊆ token :: state.done)
    (hTexts : next.texts = state.texts ++ [token.text]) (hShaped : next.Shaped table) :
    Keeps table s total next rest := by
  have hSame : next.texts ++ rest.map Token.text =
      state.texts ++ (token :: rest).map Token.text := by
    rw [hTexts, append_assoc]
    rfl
  refine ⟨hOpened.trans hKeeps.opened, ?_, hSame ▸ hKeeps.fits, hSame ▸ hKeeps.load_eq, hShaped⟩
  intro other hOther
  refine hKeeps.isText other ?_
  rcases mem_append.1 hOther with hMem | hMem
  · rcases mem_cons.1 (hDone hMem) with rfl | hMem <;> simp_all
  · simp [hMem]

section

variable (hGrounded : Grounded table s) (hWords : table.Worded)
include hGrounded hWords

theorem Keeps.close
    (hKeeps : Keeps table s total state (token :: rest)) (hClosing : token.text = ")")
    {last mark : Token} {inner : List Token} (hHeld : state.held = last :: mark :: inner)
    (hMark : mark.text = "(") (hLast : last ∈ state.done)
    (hContains : table.contains last.text = true) {found : List Token × Bool}
    (hFound : tokens table token.painted (spell state.held ++ ")") = found) : Keeps table s total
      { done := (found.1.drop 1).reverse ++ state.done, opened := found.2 } rest := by
  have hTexts : state.texts ++ (token :: rest).map Token.text = state.done.reverse.map Token.text ++
      ("(" :: inner.map Token.text ++ [")"]) ++
      rest.map Token.text := by
    simp [texts, hHeld, hMark, hClosing]
  have hFits := hKeeps.fits
  have hLoad := hKeeps.load_eq
  rw [hTexts] at hFits hLoad
  obtain ⟨hNew, hSame⟩ := hFits.recut hWords
  have hSpell : spell state.held ++ ")" = last.text ++
      concat ("(" :: inner.map Token.text ++ [")"]) := by
    simp [spell, hHeld, hMark, String.append_assoc]
  have hName : last.text ∈ state.done.reverse.map Token.text :=
    mem_map_of_mem (mem_reverse.2 hLast)
  rw [hSpell, hFits.tokens_call hGrounded hWords hName hContains] at hFound
  subst hFound
  generalize lexemes (concat ("(" :: inner.map Token.text ++ [")"])) = list at *
  have hAfter : texts { done := (((last.text :: list).map
      (Token.ofPiece token.painted)).drop 1).reverse ++ state.done } =
        state.done.reverse.map Token.text ++ list := by
    simp [texts, Function.comp_def, Token.ofPiece, Token.ofStrand, Strand.spelling]
  refine ⟨rfl, ?_, hAfter ▸ hNew, ?_, .inl ⟨rfl, rfl⟩⟩
  · intro other hOther
    simp only [map_cons, drop_one, tail_cons, mem_append, mem_reverse, mem_map] at hOther
    rcases hOther with (⟨piece, _, rfl⟩ | hMem) | hMem
    · exact ⟨rfl, rfl⟩
    · exact hKeeps.isText other (by simp [hMem])
    · exact hKeeps.isText other (by simp [hMem])
  · rw [hAfter, ← hLoad]
    simp only [load_append, hSame]

theorem Keeps.step (hKeeps : Keeps table s total state (token :: rest)) :
    ∃ next, Grouping.step table state token = .ok next ∧ Keeps table s total next rest := by
  have hStrand := (hKeeps.isText token (by simp)).2
  have hLexeme : IsLexeme token.text := hKeeps.fits.lexeme _ (by simp)
  have hMentions : ∀ c, token.strand.mentions c = true ↔ c ∈ token.text.toList := by
    rw [hStrand]
    simp [Strand.mentions]
  have hOpen : token.strand.mentions '(' = true →
      token.text = "(" ∧ depthChange token.strand = 1 := by
    intro hMem
    have hText := hLexeme.alone '(' (by decide) ((hMentions _).1 hMem)
    rw [hStrand, hText]
    decide
  have hClose : token.strand.mentions ')' = true →
      token.text = ")" ∧ depthChange token.strand = -1 := by
    intro hMem
    have hText := hLexeme.alone ')' (by decide) ((hMentions _).1 hMem)
    rw [hStrand, hText]
    decide
  unfold Grouping.step
  rcases hKeeps.shaped with ⟨hDepth, hHeld⟩ |
    ⟨hDepth, last, mark, inner, hHeld, hMark, hLast, hContains⟩
  · rw [if_neg (by simp [hDepth])]
    have hPush : Keeps table s total { state with done := token :: state.done }
        rest :=
      hKeeps.take rfl (List.Subset.refl _) (by simp [texts, hHeld]) (.inl ⟨hDepth, hHeld⟩)
    split_ifs with hParen
    · obtain ⟨hText, hChange⟩ := hOpen hParen
      split
      · rename_i last more hDone
        split_ifs with hContains
        · refine ⟨_, rfl, hKeeps.take rfl (by simp) ?_ (.inr ?_)⟩
          · simp [texts, hHeld]
          · refine ⟨by simp [hChange], last, token, [], ?_, hText, ?_, hContains⟩
            · simp [hHeld]
            · simp [hDone]
        · exact ⟨_, rfl, hPush⟩
      · rename_i hDone
        rw [hDone] at hPush
        exact ⟨_, rfl, hPush⟩
    · exact ⟨_, rfl, hPush⟩
  · have hHold : ∀ depth > 0, Keeps table s total { state with
        held := state.held ++ [token], depth := depth } rest := by
      intro depth hPositive
      refine hKeeps.take rfl (by simp) (by simp [texts, hHeld])
        (.inr ⟨hPositive, last, mark, inner ++ [token], ?_, hMark, hLast, hContains⟩)
      simp [hHeld]
    rw [if_pos (by omega)]
    split_ifs with hShut hEnd hParen
    · obtain ⟨hText, _⟩ := hClose hShut
      split
      · rename_i hCall
        rw [hStrand] at hCall
        cases hCall
      · rename_i text hText'
        rw [hStrand, hText] at hText'
        cases hText'
        exact ⟨_, rfl, hKeeps.close hGrounded hWords hText hHeld hMark hLast hContains rfl⟩
    · exact ⟨_, rfl, hHold _ (by omega)⟩
    · exact ⟨_, rfl, hHold _ (by have := (hOpen hParen).2; omega)⟩
    · exact ⟨_, rfl, hHold _ hDepth⟩

theorem Keeps.run (hKeeps : Keeps table s total state rest) :
    ∃ last, rest.foldlM (Grouping.step table) state = .ok last ∧ Keeps table s total last [] := by
  induction rest generalizing state with
  | nil => exact ⟨state, rfl, hKeeps⟩
  | cons token rest ih =>
    obtain ⟨next, hStep, hNext⟩ := hKeeps.step hGrounded hWords
    rw [foldlM_cons, hStep]
    exact ih hNext

end

end

end Grouping

/- Grouping tokens again keeps them ready and adds nothing to replace. -/
theorem Ready.regroup (hReady : Ready table s list) (hGrounded : Grounded table s)
    (hWords : table.Worded) :
    ∃ grouped, regroup table list = .ok (grouped, false) ∧ Ready table s grouped ∧
        load table (grouped.map Token.text) ≤ load table (list.map Token.text) := by
  have hStart : Grouping.Keeps table s (load table (list.map Token.text)) {}
      list :=
    ⟨rfl, hReady.isText, hReady.fits, rfl, .inl ⟨rfl, rfl⟩⟩
  obtain ⟨last, hRun, hLast⟩ := hStart.run hGrounded hWords
  have hTexts : last.texts ++ [].map Token.text = last.done.reverse.map Token.text ++
      last.held.tail.map Token.text := by
    simp [Grouping.texts]
  have hFits := hLast.fits
  have hLoad := hLast.load_eq
  rw [hTexts] at hFits hLoad
  refine ⟨last.done.reverse, ?_, ⟨(fits_append.1 hFits).1, ?_⟩, ?_⟩
  · rw [Macro.regroup, hRun, ← hLast.opened]
    rfl
  · intro token hToken
    exact hLast.isText token (by simpa using hToken)
  · rw [load_append] at hLoad
    omega

-- Passes

section

variable {table : Table} {s : String} {list : List Token}
variable {token : Token}

theorem ready_append : Ready table s (first ++ second) ↔
    Ready table s first ∧ Ready table s second ∧ ∀ x ∈ (first.map Token.text).getLast?,
        ∀ y ∈ (second.map Token.text).head?, isWordText x = true → isWordText y = false := by
  constructor
  · rintro ⟨hFits, hText⟩
    rw [map_append, fits_append] at hFits
    obtain ⟨hFirst, hSecond⟩ := forall_mem_append.1 hText
    exact ⟨⟨hFits.1, hFirst⟩, ⟨hFits.2.1, hSecond⟩, hFits.2.2⟩
  · rintro ⟨hFirst, hSecond, hBetween⟩
    refine ⟨?_, forall_mem_append.2 ⟨hFirst.isText, hSecond.isText⟩⟩
    rw [map_append]
    exact fits_append.2 ⟨hFirst.fits, hSecond.fits, hBetween⟩

/- The text that a name on the way stands for is reached. -/
theorem Fits.reaches (hFits : Fits table s texts) (hMem : t ∈ texts)
    (hFind : table.find? t = some (.text body)) :
    ∃ u, Reaches table s u ∧ t ∈ pieces u ∧ Reaches table s body := by
  obtain ⟨u, hReaches, hPiece⟩ := hFits.met t hMem (by simp [Table.contains, hFind])
  exact ⟨u, hReaches, hPiece, .body hReaches hPiece hFind⟩

theorem Ready.tame (hReady : Ready table s list) (hGrounded : Grounded table s)
    (hToken : token ∈ list) : Tame table token := by
  have hMem := mem_map_of_mem (f := Token.text) hToken
  obtain ⟨hKin, hStrand⟩ := hReady.isText token hToken
  refine ⟨hKin, hStrand, fun meaning hFind => ?_⟩
  obtain ⟨hWord, hText⟩ := hReady.fits.named hGrounded hMem (by simp [Table.contains, hFind])
  obtain ⟨body, hBody⟩ := Option.isSome_iff_exists.1 hText
  rw [Table.text?_eq_some_iff] at hBody
  obtain ⟨_, _, _, hReaches⟩ := hReady.fits.reaches hMem hBody
  refine ⟨hWord, body, ?_, hGrounded.texts body hReaches⟩
  exact Option.some.inj (hFind.symm.trans hBody)

theorem map_text_front (painted : List String) (t : String) :
    (front table 0 painted t).map Token.text = pieces t := by
  simp [front, Function.comp_def, Token.ofPiece, Token.ofStrand, Strand.spelling]

theorem Grounded.ready_front (hGrounded : Grounded table s) (hReaches : Reaches table s t)
    (painted : List String) : Ready table s (front table 0 painted t) := by
  refine ⟨?_, ?_⟩
  · rw [map_text_front]
    exact hGrounded.fits_pieces hReaches
  · intro token hToken
    obtain ⟨piece, _, rfl⟩ := mem_map.1 hToken
    exact ⟨rfl, rfl⟩

/- A pass leaves a token or puts the tokens of its text in
  its place, with one replacement less to make. -/
theorem Ready.passToken (hReady : Ready table s [token]) (hGrounded : Grounded table s) :
    Ready table s (passToken table token) ∧ (isWordText token.text = true ∨
        (passToken table token).map Token.text = [token.text]) ∧
      load table ((passToken table token).map Token.text) +
          (if (token.openBody? table).isSome then 1 else 0) = weight table ∅ token.text := by
  obtain ⟨hKin, hStrand⟩ := hReady.isText token (mem_singleton_self _)
  unfold Macro.passToken
  cases hBody : token.openBody? table with
  | none =>
    refine ⟨⟨hReady.fits, ?_⟩, .inr rfl, ?_⟩
    · rintro _ hToken
      rw [mem_singleton.1 hToken]
      exact ⟨hKin, hStrand⟩
    · simp [load, Token.close]
  | some body =>
    have hOpen : openBody? table token.painted.toFinset token.text = some body := by
      unfold Token.openBody? at hBody
      rw [hStrand] at hBody
      split at hBody
      · rename_i hText
        cases hText
        exact hBody
      · cases hBody
    obtain ⟨hWord, _, hFind⟩ := openBody?_eq_some_iff.1 hOpen
    obtain ⟨u, hReaches, hPiece, hLater⟩ := hReady.fits.reaches (mem_singleton_self _) hFind
    refine ⟨hGrounded.ready_front hLater _, .inl hWord, ?_⟩
    rw [map_text_front, (hGrounded.of_reaches hReaches).weight_eq hPiece hOpen]
    rfl

theorem Ready.pass (hReady : Ready table s list) (hGrounded : Grounded table s) :
    Ready table s (list.flatMap (Macro.passToken table)) ∧
      load table ((list.flatMap (Macro.passToken table)).map Token.text) + (list.countP fun token =>
          (token.openBody? table).isSome) = load table (list.map Token.text) := by
  -- no word comes to the start of the tokens that were none
  suffices (Ready table s (list.flatMap (Macro.passToken table)) ∧
      ∀ y ∈ ((list.flatMap (Macro.passToken table)).map Token.text).head?,
        isWordText y = true → ∃ x ∈ (list.map Token.text).head?, isWordText x = true) ∧
      _ from ⟨this.1.1, this.2⟩
  induction list with
  | nil => exact ⟨⟨hReady, nofun⟩, rfl⟩
  | cons token rest ih =>
    obtain ⟨hHere, hRest, hNext⟩ := ready_append.1 (singleton_append ▸ hReady)
    obtain ⟨hFirst, hStart, hWeight⟩ := hHere.passToken hGrounded
    obtain ⟨⟨hLater, hHead⟩, hLoad⟩ := ih hRest
    have hOther : isWordText token.text = true → ∀ y ∈ ((rest.flatMap (Macro.passToken table)).map
        Token.text).head?,
            isWordText y = false := by
      intro hWord y hy
      by_contra hYes
      obtain ⟨x, hx, hNo⟩ := hHead y hy (by simpa using hYes)
      rw [hNext token.text rfl x hx hWord] at hNo
      cases hNo
    rw [flatMap_cons, ready_append, map_append]
    refine ⟨⟨⟨hFirst, hLater, ?_⟩, ?_⟩, ?_⟩
    · intro x hx y hy hWord
      rcases hStart with hStart | hStart
      · exact hOther hStart y hy
      · rw [hStart] at hx
        cases hx
        exact hOther hWord y hy
    · intro y hy hWord
      refine ⟨token.text, rfl, ?_⟩
      rcases hStart with hStart | hStart
      · exact hStart
      · rw [hStart] at hy
        cases hy
        exact hWord
    · rw [load_append, countP_cons, map_cons, load_cons, ← hWeight, ← hLoad]
      omega

end

end Macro

end CHeader
