import CHeader.Proofs.Expr.Layout
import CHeader.Proofs.Expr.Silent
import CHeader.Proofs.Macro.Spread
import CHeader.Proofs.Source.Groups

/-
  Conditions and their expansions.

  The identifiers of a condition are expanded one by one, the results are put together without white
  space and read again. That comes to the same as expanding the condition as a line and asking it
  where there are no macros, as long as the expansion of every name is made of numbers and operators
  and no two items of the whole would be read as one.

  A name that is followed by its arguments is read as a single item and is not expanded; a name that
  expands to another name stays a text. Both count as true.

  Main declarations:
    * `Source.Expandable`
    * `Source.conditionHolds_expanded`
-/

namespace CHeader

open Macro Text

open List hiding concat concat_cons

variable {gap : List Char}

-- Macro lexemes of a text with items

namespace Expr

variable {rest : List Char} {item : String}

theorem breaks_item (hItem : isItem item = true)
    (hEnds : ∀ d ∈ rest.head?, endsBefore item d = true) :
    ∀ c ∈ item.toList.getLast?, ∀ d ∈ rest.head?, breaks c d = true := by
  intro c hc d hd
  have hMem := mem_of_mem_getLast? hc
  obtain ⟨hSpace, hMark⟩ := mem_item hItem hMem
  have hDot : c ≠ '.' := by
    rintro rfl
    exact hMark mem_cons_self
  by_cases hWord : isWord c = true
  · exact breaks_of_isWord hWord (not_isWord_of_endsBefore hItem hMem hWord (hEnds d hd))
  · simp [breaks, hWord, hSpace, hDot]

theorem breaks_gap (hGap : ∀ c ∈ gap, isSpace c = true)
    (hItem : isItem item = true) (rest : List Char) :
    ∀ c ∈ gap.getLast?, ∀ d ∈ (item.toList ++ rest).head?, breaks c d = true := by
  intro c hc d hd
  have hHere := hGap c (mem_of_mem_getLast? hc)
  obtain ⟨e, more, hList⟩ := exists_cons_of_ne_nil (toList_ne_nil_of_isItem hItem)
  rw [hList] at hd
  cases hd
  obtain ⟨hSpace, hMark⟩ := mem_item (c := d) hItem (by simp [hList])
  have hDot : d ≠ '.' := by
    rintro rfl
    exact hMark mem_cons_self
  simp [breaks, not_isWord_of_isSpace hHere, hSpace, hDot]

/- The lexemes of a line that begins with an item. -/
theorem lexemesFrom_item (hGap : ∀ c ∈ gap, isSpace c = true)
    (hItem : isItem item = true) (hEnds : ∀ d ∈ rest.head?, endsBefore item d = true) :
    Macro.lexemesFrom 0 [] (gap ++ (item.toList ++ rest)) = Macro.lexemesFrom 0 [] gap ++
        (Macro.lexemes item ++ Macro.lexemesFrom 0 [] rest) := by
  rw [Macro.lexemesFrom_append (breaks_gap hGap hItem rest),
    Macro.lexemesFrom_append (breaks_item hItem hEnds)]
  rfl

end Expr

namespace Source

open CHeader.Expr Directive

variable {item text : String} {cs : List Char} {part : String → String} {session bare : Session}

/- A name that stands for numbers and operators in a condition. -/
structure CountsAs (limit : Nat) (ahead : String → Run String) (session : Session)
    (name text : String) : Prop where
  isIdentifier : isIdentifier? name = some true
  settles : Settles ahead session limit [Token.ofPiece [] name] text
  spaced : Spaced (Expr.lexemes text) text.toList
  noDefined : ¬ "defined".toList <:+: text.toList
  isNumeric : ∀ part ∈ Expr.lexemes text, isIdentifier? part = some false

/- The items that come from an item of a condition. -/
def spreadItem (table : Table) (value : String → String) (item : String) : List String :=
  if table.contains item then Expr.lexemes (value item)
  else [item]

/-
  A condition without the word `defined` that is made of words and operators, in which every name
  stands for numbers and operators. No two items of its expansion would be read as one without white
  space between them.
-/
structure Expandable (limit : Nat) (ahead : String → Run String) (session : Session)
    (value : String → String) (text : String) : Prop where
  worded : session.table.Worded
  spaced : Spaced (Expr.lexemes text) text.toList
  noDefined : ¬ "defined".toList <:+: text.toList
  named : ∀ item ∈ Expr.lexemes text, session.table.contains item = true →
      CountsAs limit ahead session item (value item)
  unnamed : ∀ item ∈ Expr.lexemes text, session.table.contains item = false →
      ∀ piece ∈ Macro.lexemes item, session.table.contains piece = false
  apart : ((Expr.lexemes text).flatMap (spreadItem session.table value)).IsChain (Expr.apart · ·)

section

variable {value : String → String}
variable {name : String} {items : List String} {cs : List Char}
variable {table : Table} {piece : String}

theorem isWordText_of_isIdentifier (hName : isIdentifier? name = some true) :
    isWordText name = true := by
  unfold isIdentifier? at hName
  unfold isWordText
  split at hName
  · cases hName
  · next first rest hList =>
    simp_all

/- The names among the lexemes of a line, where each item is a name or has none. -/
structure ItemsNamed (table : Table) (items : List String) : Prop where
  worded : table.Worded
  named : ∀ item ∈ items, table.contains item = true → isWordText item = true
  unnamed : ∀ item ∈ items, table.contains item = false →
      ∀ piece ∈ Macro.lexemes item, table.contains piece = false

theorem ItemsNamed.of_cons (hItems : ItemsNamed table (item :: items)) : ItemsNamed table items :=
  ⟨hItems.worded, fun other hMem => hItems.named other (mem_cons_of_mem _ hMem),
    fun other hMem => hItems.unnamed other (mem_cons_of_mem _ hMem)⟩

theorem contains_of_mem_gap (hWorded : table.Worded) (hGap : ∀ c ∈ gap, isSpace c = true) :
    ∀ piece ∈ Macro.lexemesFrom 0 [] gap, table.contains piece = false := by
  intro piece hMem
  have hSpelled := concat_lexemes (String.ofList gap)
  rw [Macro.lexemes, String.toList_ofList] at hSpelled
  by_contra hName
  obtain ⟨hSome, hWord⟩ := isWordText_iff.1 (hWorded piece (by simpa using hName))
  obtain ⟨c, rest, hList⟩ := exists_cons_of_ne_nil hSome
  have hHere : c ∈ piece.toList := by simp [hList]
  have hInside : c ∈ (concat (lexemesFrom 0 [] gap)).toList :=
    mem_concat.2 ⟨piece, hMem, hHere⟩
  rw [hSpelled, String.toList_ofList] at hInside
  have hOther := not_isWord_of_isSpace (hGap c hInside)
  rw [hWord c hHere] at hOther
  cases hOther

theorem spread_append (first second : List String) : spread table value (first ++ second) =
    spread table value first ++ spread table value second := by
  simp [spread]

theorem spread_of_unnamed (hUnnamed : ∀ piece ∈ list, table.contains piece = false) :
    spread table value list = concat list := by
  unfold spread
  congr 1
  conv_rhs => rw [← map_id list]
  refine map_congr_left fun piece hMem => ?_
  simp [hUnnamed piece hMem]

theorem spread_gap (hWorded : table.Worded) (hGap : ∀ c ∈ gap, isSpace c = true) :
    spread table value (Macro.lexemesFrom 0 [] gap) = String.ofList gap := by
  rw [spread_of_unnamed (contains_of_mem_gap hWorded hGap)]
  have hSpelled := concat_lexemes (String.ofList gap)
  rwa [Macro.lexemes, String.toList_ofList] at hSpelled

theorem laidOut_spread_item
    (hItems : ItemsNamed table (item :: items)) (hValue : table.contains item = true →
        LaidOut (Expr.lexemes (value item)) (value item).toList) :
    LaidOut (spreadItem table value item) (spread table value (Macro.lexemes item)).toList := by
  unfold spreadItem
  split_ifs with hName
  · rw [lexemes_of_isWordText (hItems.named item mem_cons_self hName)]
    simpa [spread, hName] using hValue hName
  · rw [spread_of_unnamed (hItems.unnamed item mem_cons_self (by simpa using hName)),
      concat_lexemes]
    exact .singleton item

/- A text of items is spread item by item. -/
theorem laidOut_spread (hItems : ItemsNamed table items)
    (hValues : ∀ item ∈ items, table.contains item = true →
        LaidOut (Expr.lexemes (value item)) (value item).toList) (hText : Spaced items cs) :
    LaidOut (items.flatMap (spreadItem table value)) (spread table value
        (lexemesFrom 0 [] cs)).toList := by
  induction hText with
  | nil hGap =>
    rw [spread_gap hItems.worded hGap, String.toList_ofList]
    exact .nil hGap
  | @cons gap item items rest hGap hItem hEnds hRest ih =>
    rw [forall_mem_cons] at hValues
    rw [lexemesFrom_item hGap hItem hEnds, spread_append, spread_append,
      spread_gap hItems.worded hGap, String.toList_append, String.toList_append, String.toList_ofList]
    exact (LaidOut.nil hGap).append ((laidOut_spread_item hItems hValues.1).append
        (ih hItems.of_cons hValues.2))

theorem mem_of_contains (hItems : ItemsNamed table items) (hText : Spaced items cs)
    (hMem : piece ∈ lexemesFrom 0 [] cs) (hName : table.contains piece = true) : piece ∈ items := by
  have hGaps : ∀ gap : List Char, (∀ c ∈ gap, isSpace c = true) →
      piece ∉ lexemesFrom 0 [] gap := by
    intro gap hGap hPiece
    rw [contains_of_mem_gap hItems.worded hGap piece hPiece] at hName
    cases hName
  induction hText with
  | nil hGap => exact absurd hMem (hGaps _ hGap)
  | @cons gap item items rest hGap hItem hEnds hRest ih =>
    rw [lexemesFrom_item hGap hItem hEnds, mem_append, mem_append] at hMem
    rcases hMem with hHere | hHere | hHere
    · exact absurd hHere (hGaps gap hGap)
    · cases hNamed : table.contains item with
      | false =>
        rw [hItems.unnamed item mem_cons_self hNamed piece hHere] at hName
        cases hName
      | true =>
        rw [lexemes_of_isWordText (hItems.named item mem_cons_self hNamed)] at hHere
        rw [mem_singleton.1 hHere]
        exact mem_cons_self
    · exact mem_cons_of_mem _ (ih hItems.of_cons hHere)

theorem endsBefore_open (hItem : isItem item = true) (hWord : isWordText item = true) :
    endsBefore item '(' = false := by
  have hOperators : ∀ op ∈ operators, isWordText op = false := by
    decide
  rcases isItem_iff.1 hItem with hHere | hOperator
  · simp [endsBefore, hHere]
  · rw [hOperators item hOperator] at hWord
    cases hWord

/- The first lexeme of a text holds a parenthesis only if the text begins with it. -/
theorem head?_of_open (hPiece : piece ∈ (lexemesFrom 0 [] cs).head?)
    (hOpen : '(' ∈ piece.toList) : '(' ∈ cs.head? := by
  cases cs with
  | nil => simp [Macro.lexemesFrom] at hPiece
  | cons c rest =>
    rw [lexemesFrom_cons] at hPiece
    cases hPiece
    have hAlone := (isLexeme_firstLexeme c rest).alone '(' (by decide) hOpen
    have hList := congrArg String.toList hAlone
    rw [String.toList_ofList] at hList
    rw [(cons.inj hList).1]
    rfl

/- No name stands right before a parenthesis. -/
theorem isChain_of_spaced (hItems : ItemsNamed table items) (hText : Spaced items cs) :
    (lexemesFrom 0 [] cs).IsChain fun piece next =>
      table.contains piece = true → '(' ∉ next.toList := by
  have hUnnamed : ∀ list : List String, (∀ piece ∈ list, table.contains piece = false) →
      list.IsChain fun piece next => table.contains piece = true → '(' ∉ next.toList := by
    intro list hList
    induction list with
    | nil => exact isChain_nil
    | cons piece list ih =>
      rw [forall_mem_cons] at hList
      rw [isChain_cons, hList.1]
      exact ⟨fun _ _ => nofun, ih hList.2⟩
  induction hText with
  | nil hGap =>
    exact hUnnamed _ (contains_of_mem_gap hItems.worded hGap)
  | @cons gap item items rest hGap hItem hEnds hRest ih =>
    have hOutside := contains_of_mem_gap hItems.worded hGap
    rw [lexemesFrom_item hGap hItem hEnds, isChain_append, isChain_append]
    refine ⟨hUnnamed _ hOutside, ⟨?_, ih hItems.of_cons, ?_⟩, ?_⟩
    · cases hNamed : table.contains item with
      | false =>
        exact hUnnamed _ (hItems.unnamed item mem_cons_self hNamed)
      | true =>
        rw [lexemes_of_isWordText (hItems.named item mem_cons_self hNamed)]
        exact isChain_singleton _
    · intro piece hPiece next hNext hName hOpen
      have hMem := mem_of_mem_getLast? hPiece
      have hHead := hEnds _ (head?_of_open hNext hOpen)
      cases hNamed : table.contains item with
      | false =>
        rw [hItems.unnamed item mem_cons_self hNamed piece hMem] at hName
        cases hName
      | true =>
        rw [endsBefore_open hItem (hItems.named item mem_cons_self hNamed)] at hHead
        cases hHead
    · intro piece hPiece next _ hName
      rw [hOutside piece (mem_of_mem_getLast? hPiece)] at hName
      cases hName

end

-- Asking a condition

/- Nothing is opened where the word `defined` does not occur. -/
theorem openDefinedFrom_of_noDefined (hNone : ¬ "defined".toList <:+: cs) :
    openDefinedFrom 0 cs = cs := by
  induction cs with
  | nil => rfl
  | cons c rest ih =>
    have hStart : startsWith (c :: rest) "defined".toList = false := by
      rw [← Bool.not_eq_true, startsWith_eq_true_iff]
      exact fun hPrefix => hNone hPrefix.isInfix
    have hCall : definedCall? (c :: rest) = none := by
      rw [definedCall?, hStart]
      rfl
    rw [openDefinedFrom, hCall]
    simp only [cons.injEq, true_and]
    exact ih fun hInfix => hNone (hInfix.trans (suffix_cons c rest).isInfix)

section

variable {ahead : String → Run String} {session : Session} {text : String} {items : List String}

theorem condition_of_noDefined (hDefined : ¬ "defined".toList <:+: text.toList) :
    openDefined (operandOf ("#if " ++ text)) =
      String.ofList (text.toList.dropWhile isBlank) := by
  have hNone : ¬ "defined".toList <:+: text.toList.dropWhile isBlank :=
    fun hInfix => hDefined (hInfix.trans (dropWhile_suffix _).isInfix)
  rw [operandOf, ofLine?_if]
  change openDefined (String.ofList (text.toList.dropWhile isBlank)) = _
  rw [openDefined, String.toList_ofList, openDefinedFrom_of_noDefined hNone]

theorem lexemes_condition (hText : Spaced items text.toList)
    (hDefined : ¬ "defined".toList <:+: text.toList) :
    Expr.lexemes (openDefined (operandOf ("#if " ++ text))) = items := by
  rw [condition_of_noDefined hDefined, Expr.lexemes, String.toList_ofList]
  exact hText.dropWhile_isBlank.lexemesFrom_eq

/- The parts of a condition, each by itself. -/
theorem exec_substituteNames_map
    (hItems : ∀ item ∈ items, item ≠ "defined" ∧ exec (substituteName limit ahead item) session =
        (.ok (part item), session)) :
    exec (substituteNames limit ahead false items) session = (.ok (items.map part), session) := by
  induction items with
  | nil => rfl
  | cons item items ih =>
    rw [forall_mem_cons] at hItems
    rw [substituteNames, if_neg (by decide), if_neg hItems.1.1, exec_bind, hItems.1.2]
    dsimp only
    rw [exec_bind, ih hItems.2]
    rfl

/- A condition is worth the value of its parts. -/
theorem exec_conditionHolds_map (hText : Expr.lexemes (openDefined
    (operandOf ("#if " ++ text))) = items)
    (hItems : ∀ item ∈ items, item ≠ "defined" ∧ exec (substituteName limit ahead item) session =
        (.ok (part item), session)) :
    exec (conditionHolds limit ahead ("#if " ++ text)) session =
      ((Expr.evaluateAll session.table.contains
        (Expr.lexemes (concat (items.map part)))).map
        fun value => decide (value.1 ≠ .int 0), session) := by
  rw [conditionHolds, hText, exec_bind, exec_substituteNames_map hItems]
  dsimp only
  rw [exec_bind_getTable]
  cases Expr.evaluateAll session.table.contains
      (Expr.lexemes (concat (items.map part))) <;> rfl

theorem ne_defined_of_mem (hText : Spaced items text.toList)
    (hDefined : ¬ "defined".toList <:+: text.toList) (hMem : item ∈ items) : item ≠ "defined" := by
  rintro rfl
  exact hDefined (hText.item_infix hMem)

end

-- What identifiers count as

/- An item where there are no macros: an identifier counts as zero. -/
def numberItem (item : String) : String :=
  if isIdentifier? item = some true then "0" else item

section

variable {item other : String}

section

variable (hItem : isItem item = true)
include hItem

theorem isWordItem_of_isIdentifier
    (hName : isIdentifier? item = some true) : isWordItem item = true := by
  have hOperators : ∀ op ∈ operators, isIdentifier? op ≠ some true := by
    decide
  exact (isItem_iff.1 hItem).resolve_right fun hOperator => hOperators item hOperator hName

theorem isItem_numberItem : isItem (numberItem item) = true := by
  unfold numberItem
  split_ifs
  · decide
  · exact hItem

theorem endsBefore_numberItem (d : Char) : endsBefore (numberItem item) d = endsBefore item d := by
  unfold numberItem
  split_ifs with hName
  · have hZero : isWordItem "0" = true := by decide
    rw [endsBefore, endsBefore, if_pos hZero, if_pos (isWordItem_of_isIdentifier hItem hName)]
  · rfl

theorem apart_numberItem (hApart : apart item other = true) :
    apart (numberItem item) (numberItem other) = true := by
  rw [apart_iff] at hApart ⊢
  intro d hd
  rw [endsBefore_numberItem hItem]
  by_cases hName : isIdentifier? other = some true
  · rw [numberItem, if_pos hName] at hd
    cases hd
    obtain ⟨hSome, hWord⟩ := isWordText_iff.1 (isWordText_of_isIdentifier hName)
    obtain ⟨c, rest, hList⟩ := exists_cons_of_ne_nil hSome
    have hEnds := hApart c (by rw [hList]; rfl)
    have hLetter := hWord c (by simp [hList])
    unfold endsBefore at hEnds ⊢
    split_ifs at hEnds ⊢ with hItemWord
    · simp [isLexemeChar, hLetter] at hEnds
    · have hAll : ∀ op ∈ operators,
          decide (operatorLength? (op.toList ++ ['0']) = some op.length) = true := by
        decide
      exact hAll item ((isItem_iff.1 hItem).resolve_left hItemWord)
  · rw [numberItem, if_neg hName] at hd
    exact hApart d hd

end

/- What is no identifier has no share in the word `defined`. -/
theorem silent_of_not_isIdentifier (hItem : isIdentifier? item = some false) :
    (Operand.text item).Silent := by
  by_contra hSilent
  simp only [Operand.Silent, not_or, not_exists, not_and, not_not] at hSilent
  unfold isIdentifier? at hItem
  split at hItem
  · cases hItem
  · next first rest hList =>
    have hLetters : "defined".toList.all (fun c =>
        isLetter c && isWord c) = true := by
      decide
    rw [all_eq_true] at hLetters
    rw [hList] at hSilent
    have hAll : (first :: rest).all isWord = true := by
      rw [all_eq_true]
      intro c hMem
      have hHere := hLetters c (hSilent.2 c hMem)
      rw [Bool.and_eq_true] at hHere
      exact hHere.2
    have hFirst := hLetters first (hSilent.2 first mem_cons_self)
    rw [Bool.and_eq_true] at hFirst
    rw [hAll, hFirst.1] at hItem
    cases hItem

theorem silent_numberItem (hItem : isItem item = true) :
    (Operand.text (numberItem item)).Silent := by
  unfold numberItem
  split_ifs with hName
  · exact silent_of_not_isIdentifier (by decide)
  · refine silent_of_not_isIdentifier ?_
    have hSome := toList_ne_nil_of_isItem hItem
    unfold isIdentifier? at hName ⊢
    split
    · contradiction
    · simp_all

end

section

variable {items : List String}

theorem laidOut_concat (hItems :
    ∀ item ∈ items, LaidOut (inside item) (part item).toList) :
    LaidOut (items.flatMap inside) (concat (items.map part)).toList := by
  induction items with
  | nil => exact .nil nofun
  | cons item items ih =>
    rw [forall_mem_cons] at hItems
    rw [map_cons, concat_cons, String.toList_append]
    exact hItems.1.append (ih hItems.2)

section

variable (hItems : ∀ item ∈ items, isItem item = true) (hApart : items.IsChain (apart · ·))
include hItems hApart

/- Items without white space are read again. -/
theorem lexemes_concat_numberItem (hText : LaidOut (items.map numberItem) text.toList) :
    Expr.lexemes text = items.map numberItem := by
  refine hText.lexemesFrom_eq ?_ ?_
  · intro item hMem
    obtain ⟨other, hOther, rfl⟩ := mem_map.1 hMem
    exact isItem_numberItem (hItems other hOther)
  · rw [isChain_map]
    exact hApart.imp_of_mem_imp fun item other hItem _ => apart_numberItem (hItems item hItem)

theorem lexemes_concat_map_numberItem :
    Expr.lexemes (concat (items.map numberItem)) = items.map numberItem := by
  refine lexemes_concat_numberItem hItems hApart ?_
  have hLaid : LaidOut (items.flatMap fun item => [numberItem item])
      (concat (items.map numberItem)).toList :=
    laidOut_concat fun item _ => .singleton _
  rwa [← map_eq_flatMap] at hLaid

end

theorem substituteName_of_not_isIdentifier (ahead : String → Run String)
    (hItem : isIdentifier? item = some false) : substituteName limit ahead item = pure item := by
  rw [substituteName, hItem]

/- An item where it is no name. -/
theorem exec_substituteName_unnamed (ahead : String → Run String) (hItem : isItem item = true)
    (hNone : session.table.contains item = false) :
    exec (substituteName limit ahead item) session = (.ok (numberItem item), session) := by
  rw [substituteName]
  cases hName : isIdentifier? item with
  | none =>
    have hSome := toList_ne_nil_of_isItem hItem
    unfold isIdentifier? at hName
    split at hName
    · contradiction
    · cases hName
  | some isName =>
    cases isName with
    | false => simp [numberItem, hName]
    | true => simp [numberItem, hName, exec_bind, hNone]

end

-- The expansion of a condition

namespace Expandable

variable {ahead : String → Run String} {session : Session} {value : String → String} {text : String}

variable (hText : Expandable (limit + 1) ahead session value text)
include hText

theorem itemsNamed : ItemsNamed session.table (Expr.lexemes text) :=
  ⟨hText.worded, fun item hMem hName => isWordText_of_isIdentifier
      (hText.named item hMem hName).isIdentifier,
    hText.unnamed⟩

theorem exec_expandLine : exec (Macro.expandLine (limit + 1) ahead text) session =
    (.ok (spread session.table value (Macro.lexemes text)), session) := by
  have hQuote : '"' ∉ text.toList := by
    intro hMem
    rcases hText.spaced.mem_cases hMem with
      hSpace | ⟨item, hItem, hMem⟩
    · exact absurd hSpace (by decide)
    · exact (Expr.mem_item (hText.spaced.isItem hItem) hMem).2 (by decide)
  have hPieces := pieces_of_noQuote hQuote
  have hItems := hText.itemsNamed
  rw [← hPieces]
  refine exec_expandLine_spread hText.worded ?_ ?_
  · intro piece hMem hName
    rw [hPieces] at hMem
    exact (hText.named piece (mem_of_contains hItems hText.spaced hMem hName) hName).settles
  · rw [hPieces]
    exact isChain_of_spaced hItems hText.spaced

theorem spaced_spread : Spaced ((Expr.lexemes text).flatMap (spreadItem session.table value))
    (spread session.table value (Macro.lexemes text)).toList := by
  refine (laidOut_spread hText.itemsNamed ?_ hText.spaced).spaced ?_ hText.apart
  · exact fun item hMem hName => (hText.named item hMem hName).spaced.laidOut
  · intro part hMem
    obtain ⟨item, hItem, hPart⟩ := mem_flatMap.1 hMem
    unfold spreadItem at hPart
    split_ifs at hPart with hName
    · exact (hText.named item hItem hName).spaced.isItem hPart
    · rw [mem_singleton.1 hPart]
      exact hText.spaced.isItem hItem

theorem noDefined_spread :
    ¬ "defined".toList <:+: (spread session.table value (Macro.lexemes text)).toList := by
  intro hInfix
  have hLetters : "defined".toList.all isWord = true := by
    decide
  obtain ⟨part, hMem, hInside⟩ := hText.spaced_spread.exists_infix
    (by decide) (all_eq_true.1 hLetters) hInfix
  obtain ⟨item, hItem, hPart⟩ := mem_flatMap.1 hMem
  unfold spreadItem at hPart
  split_ifs at hPart with hName
  · have hNamed := hText.named item hItem hName
    exact hNamed.noDefined (hInside.trans (hNamed.spaced.item_infix hPart))
  · rw [mem_singleton.1 hPart] at hInside
    exact hText.noDefined (hInside.trans (hText.spaced.item_infix hItem))

theorem exec_substituteName (hMem : item ∈ Expr.lexemes text) :
    exec (substituteName (limit + 1) ahead item) session =
      (.ok (if session.table.contains item then value item else numberItem item), session) := by
  split_ifs with hName
  · have hNamed := hText.named item hMem hName
    have hExpanded := hNamed.settles.exec_expandWith_name
      (isWordText_of_isIdentifier hNamed.isIdentifier)
    rw [substituteName, hNamed.isIdentifier]
    simp [exec_bind, hName, Macro.expandLine, hExpanded]
  · exact exec_substituteName_unnamed ahead (hText.spaced.isItem hMem) (by simpa using hName)

theorem lexemes_parts :
    Expr.lexemes (concat ((Expr.lexemes text).map fun item => if session.table.contains item
        then value item else numberItem item)) =
      ((Expr.lexemes text).flatMap (spreadItem session.table value)).map numberItem := by
  refine lexemes_concat_numberItem (fun item => hText.spaced_spread.isItem) hText.apart ?_
  rw [map_flatMap]
  refine laidOut_concat fun item hMem => ?_
  unfold spreadItem
  split_ifs with hName
  · have hNamed := hText.named item hMem hName
    have hSame : (Expr.lexemes (value item)).map numberItem = Expr.lexemes (value item) := by
      conv_rhs => rw [← map_id (Expr.lexemes (value item))]
      refine map_congr_left fun part hPart => ?_
      simp [numberItem, hNamed.isNumeric part hPart]
    rw [hSame]
    exact hNamed.spaced.laidOut
  · exact .singleton _

/- A condition is asked like its expansion where there are no macros. -/
theorem exec_conditionHolds (hBare : ∀ name, bare.table.contains name = false) :
    exec (conditionHolds (limit + 1) ahead ("#if " ++ text)) session =
      ((exec (conditionHolds (limit + 1) ahead ("#if " ++
        spread session.table value (Macro.lexemes text))) bare).1, session) := by
  have hSpread := hText.spaced_spread
  have hSilent : ∀ item ∈ ((Expr.lexemes text).flatMap
      (spreadItem session.table value)).map numberItem,
        (Expr.Operand.text item).Silent := by
    intro item hMem
    obtain ⟨other, hOther, rfl⟩ := mem_map.1 hMem
    exact silent_numberItem (hSpread.isItem hOther)
  have hValue : Expr.evaluateAll session.table.contains _ =
      Expr.evaluateAll bare.table.contains _ :=
    Expr.evaluateAll_congr hSilent
  rw [exec_conditionHolds_map (lexemes_condition hText.spaced hText.noDefined) fun item hMem =>
      ⟨ne_defined_of_mem hText.spaced hText.noDefined hMem, hText.exec_substituteName hMem⟩,
    exec_conditionHolds_map (lexemes_condition hSpread hText.noDefined_spread) fun item hMem =>
        ⟨ne_defined_of_mem hSpread hText.noDefined_spread hMem,
          exec_substituteName_unnamed ahead (hSpread.isItem hMem) (hBare item)⟩,
    hText.lexemes_parts,
    lexemes_concat_map_numberItem (fun item => hSpread.isItem) hText.apart, hValue]

end Expandable

-- Conditions that are not expanded

theorem evaluateAll_singleton (isDefined : String → Bool) (item : String) :
    evaluateAll isDefined [item] = (Expr.Constant.read item).map
        fun found => (found.value, found.value) := by
  rw [evaluateAll, evaluate.eq_def]
  simp only
  cases Expr.Constant.read item with
  | error fault => rfl
  | ok found =>
    simp only [Fault.ok_bind]
    rw [evaluateFrom.eq_def]
    rfl

/- A text with a parenthesis is no number. -/
theorem not_isSuffix_of_open (hOpen : '(' ∈ cs) : isSuffix (dropFinalNewline cs) = false := by
  have hStays : '(' ∈ dropFinalNewline cs := by
    unfold dropFinalNewline
    split_ifs with hLast
    · rw [← dropLast_append_getLast? _ hLast] at hOpen
      simpa using hOpen
    · exact hOpen
  have hAll : (dropFinalNewline cs).all isSuffixLetter = false :=
    all_eq_false.2 ⟨'(', hStays, by decide⟩
  simp [isSuffix, hAll]

theorem mem_dropWhile_of_open (hClass : p '(' = false) (hOpen : '(' ∈ cs) :
    '(' ∈ cs.dropWhile p := by
  rw [← takeWhile_append_dropWhile (p := p) (l := cs), mem_append] at hOpen
  refine hOpen.resolve_left fun hMem => ?_
  rw [mem_takeWhile_imp hMem] at hClass
  cases hClass

theorem decimal?_of_open (hOpen : '(' ∈ cs) : decimal? cs = none := by
  have hPart : ∀ part : List Char, '(' ∈ part → isSuffix (dropFinalNewline
      (part.dropWhile Char.isDigit)) = false :=
    fun part hMem => not_isSuffix_of_open (mem_dropWhile_of_open (by decide) hMem)
  unfold decimal?
  split
  next signs part hSplit =>
    have hMem : '(' ∈ part := by
      split at hSplit <;> cases hSplit <;> simp_all
    simp [hPart part hMem]

theorem hexadecimal?_of_open (hOpen : '(' ∈ cs) : hexadecimal? cs = none := by
  unfold hexadecimal?
  split
  · next mark rest =>
    by_cases hMark : mark = '('
    · simp [hMark]
    · have hMem : '(' ∈ rest := by
        simp only [mem_cons] at hOpen
        rcases hOpen with hHere | hHere | hHere
        · cases hHere
        · exact absurd hHere.symm hMark
        · exact hHere
      have hSuffix := not_isSuffix_of_open
        (mem_dropWhile_of_open (p := isHexDigit) (by decide) hMem)
      simp [hSuffix]
  · rfl

-- Calls

section

variable {name inside : String}

theorem lastClose?_append (cs : List Char) : lastClose? (cs ++ [')']) = some (cs.length + 1) := by
  induction cs with
  | nil => rfl
  | cons c cs ih => simp [lastClose?, ih]

/- A name with its arguments, up to the end of a line. -/
theorem callLength?_call {word inside : List Char} (hSome : word ≠ [])
    (hWord : ∀ c ∈ word, isWord c = true) (hLine : '\n' ∉ inside) :
    callLength? (word ++ '(' :: (inside ++ [')'])) =
      some (word ++ '(' :: (inside ++ [')'])).length := by
  have hOther : isWord '(' = false := by decide
  have hWhole : (inside ++ [')']).takeWhile (· ≠ '\n') = inside ++ [')'] := by
    rw [takeWhile_eq_self_iff]
    intro c hMem
    rcases mem_append.1 hMem with hHere | hHere
    · have hNe : c ≠ '\n' := fun h => hLine (h ▸ hHere)
      simpa using hNe
    · rw [mem_singleton.1 hHere]
      decide
  rw [callLength?, takeWhile_append_of_pos hWord, dropWhile_append_of_pos hWord,
    takeWhile_cons_of_neg (by simp [hOther]), dropWhile_cons_of_neg (by simp [hOther]),
    append_nil]
  obtain ⟨c, rest, rfl⟩ := exists_cons_of_ne_nil hSome
  simp only
  rw [hWhole, lastClose?_append]
  simp
  omega

/- A name with its arguments is not expanded and counts as true. -/
theorem exec_conditionHolds_call (ahead : String → Run String) (session : Session)
    (hText : text.toList = name.toList ++ '(' :: (inside.toList ++ [')']))
    (hName : isWordText name = true) (hLine : '\n' ∉ inside.toList)
    (hQuote : '\'' ∉ inside.toList) (hDefined : ¬ "defined".toList <:+: text.toList) :
    exec (conditionHolds limit ahead ("#if " ++ text)) session = (.ok true, session) := by
  obtain ⟨hSome, hWord⟩ := isWordText_iff.1 hName
  have hLexemes : Expr.lexemes text = [text] := by
    have hStart : startsWith text.toList "defined".toList = false := by
      rw [← Bool.not_eq_true, startsWith_eq_true_iff]
      exact fun hPrefix => hDefined hPrefix.isInfix
    have hLength : Expr.lexemeLength? (text.toList ++ []) = some text.length := by
      rw [append_nil, Expr.lexemeLength?, hStart, hText, callLength?_call hSome hWord hLine,
        ← hText]
      rfl
    have hOne := Expr.lexemesFrom_append (by simp [hText]) hLength
    rwa [append_nil] at hOne
  have hHead : text.toList.dropWhile isBlank = text.toList := by
    obtain ⟨c, rest, hChars⟩ := exists_cons_of_ne_nil hSome
    have hBlank : ¬ isBlank c = true := fun hBlank => by
      have hOther := forall_isBlank (P := fun c => isWord c = false) (by decide +kernel)
        hBlank
      rw [hWord c (by simp [hChars])] at hOther
      cases hOther
    simp [hText, hChars, hBlank]
  have hOpen : '(' ∈ text.toList := by
    simp [hText]
  have hNoQuote : '\'' ∉ text.toList := by
    simp only [hText, mem_append, mem_cons, not_or]
    exact ⟨fun hMem => absurd (hWord _ hMem) (by decide), by decide, hQuote, by decide, by decide⟩
  have hRead := Expr.Constant.read_of_noQuote hNoQuote (decimal?_of_open hOpen)
    (hexadecimal?_of_open hOpen)
  have hOther : isIdentifier? text = some false := by
    have hNot : text.toList.all isWord = false := all_eq_false.2 ⟨'(', hOpen, by decide⟩
    unfold isIdentifier?
    split
    · simp_all
    · next first more hList => rw [← hList, hNot, Bool.and_false]
  have hCondition : Expr.lexemes (openDefined (operandOf ("#if " ++ text))) = [text] := by
    rw [condition_of_noDefined hDefined, hHead, String.ofList_toList, hLexemes]
  have hItems : ∀ item ∈ [text], item ≠ "defined" ∧ exec (substituteName limit ahead item) session =
      (.ok (id item), session) := by
    intro item hMem
    rw [mem_singleton.1 hMem, substituteName_of_not_isIdentifier ahead hOther]
    refine ⟨?_, rfl⟩
    rintro rfl
    exact hDefined infix_rfl
  rw [exec_conditionHolds_map hCondition hItems]
  simp [hLexemes, evaluateAll_singleton, hRead]

end

-- Names that stand for names

section

variable {name : String}

theorem isWordItem_of_noDefined (hName : isIdentifier? name = some true)
    (hDefined : ¬ "defined".toList <:+: name.toList) : isWordItem name = true := by
  obtain ⟨hSome, hWord⟩ := isWordText_iff.1 (isWordText_of_isIdentifier hName)
  refine isWordItem_iff.2 ⟨hSome, ?_, fun hPrefix => hDefined hPrefix.isInfix⟩
  intro c hMem
  simp [isLexemeChar, hWord c hMem]

theorem spaced_identifier (hName : isIdentifier? name = some true)
    (hDefined : ¬ "defined".toList <:+: name.toList) : Spaced [name] name.toList := by
  have hItem := isItem_iff.2 (.inl (isWordItem_of_noDefined hName hDefined))
  have hOne : Spaced [name] ([] ++ (name.toList ++ [])) := .cons nofun hItem nofun (.nil nofun)
  simpa using hOne

theorem not_isLetter_of_isDigit (hDigit : c.isDigit = true) : isLetter c = false := by
  have hRange := Char.isDigit_iff_toNat.1 hDigit
  have hAll : ∀ code ∈ List.range 58, 48 ≤ code → isLetter (Char.ofNat code) = false := by
    decide +kernel
  have hNine : '9'.toNat = 57 := rfl
  rw [← Char.ofNat_toNat c]
  exact hAll _ (mem_range.2 (by omega)) hRange.1

theorem read_identifier (hName : isIdentifier? name = some true) :
    Expr.Constant.read name = .ok ⟨0, .text name⟩ := by
  obtain ⟨hSome, hWord⟩ := isWordText_iff.1 (isWordText_of_isIdentifier hName)
  obtain ⟨c, rest, hList⟩ := exists_cons_of_ne_nil hSome
  have hFirst : isLetter c = true ∨ c = '_' := by
    unfold isIdentifier? at hName
    rw [hList] at hName
    simp only [Option.some.injEq, Bool.and_eq_true, Bool.or_eq_true, decide_eq_true_eq] at hName
    exact hName.1
  have hDigit : c.isDigit = false := by
    by_contra hDigit
    rw [Bool.not_eq_false] at hDigit
    rcases hFirst with hLetter | rfl
    · rw [not_isLetter_of_isDigit hDigit] at hLetter
      cases hLetter
    · exact absurd hDigit (by decide)
  refine Expr.Constant.read_neither hWord ?_ ?_
  · rw [decimal?_word hWord, hList]
    simp [hDigit]
  · rw [hList]
    unfold hexadecimal?
    split
    · simp_all
    · rfl

/- A name that stands for an identifier counts as true, and the identifier as zero. -/
theorem exec_conditionHolds_renamed (hContains : session.table.contains name = true)
    (hName : isIdentifier? name = some true) (hNameDefined : ¬ "defined".toList <:+: name.toList)
    (hSettles : Macro.Settles ahead session limit [Macro.Token.ofPiece [] name] text)
    (hText : isIdentifier? text = some true) (hTextDefined : ¬ "defined".toList <:+: text.toList)
    (hBare : ∀ name, bare.table.contains name = false) :
    exec (conditionHolds limit ahead ("#if " ++ name)) session = (.ok true, session) ∧
      exec (conditionHolds limit ahead ("#if " ++ text)) bare = (.ok false, bare) := by
  have hSpaced := spaced_identifier hName hNameDefined
  have hSpacedText := spaced_identifier hText hTextDefined
  constructor
  · have hItems : ∀ item ∈ [name], item ≠ "defined" ∧
        exec (substituteName limit ahead item) session =
          (.ok (Function.const String text item), session) := by
      intro item hMem
      refine ⟨ne_defined_of_mem hSpaced hNameDefined hMem, ?_⟩
      rw [mem_singleton.1 hMem, substituteName, hName]
      simp [exec_bind, hContains, Macro.expandLine, hSettles.exec_expandWith_name
          (isWordText_of_isIdentifier hName)]
    have hLexemes : Expr.lexemes text = [text] := hSpacedText.lexemesFrom_eq
    rw [exec_conditionHolds_map (lexemes_condition hSpaced hNameDefined) hItems]
    simp [hLexemes, evaluateAll_singleton, read_identifier hText]
  · have hZero : Expr.Constant.read "0" = .ok ⟨1, .int 0⟩ := by
      decide
    have hLexemes : Expr.lexemes "0" = ["0"] := by decide
    rw [exec_conditionHolds_map (lexemes_condition hSpacedText hTextDefined) fun item hMem =>
      ⟨ne_defined_of_mem hSpacedText hTextDefined hMem,
        exec_substituteName_unnamed ahead (hSpacedText.isItem hMem) (hBare item)⟩]
    simp [numberItem, hText, hLexemes, evaluateAll_singleton, hZero]

end

/-
  A condition is asked like its expansion where there are no macros, if the names in it stand for
  numbers and operators. A name with its arguments counts as true whatever it stands for; so does a
  name that stands for an identifier, which counts as zero in the expansion.
-/
theorem conditionHolds_expanded
    (limit : Nat)
    (ahead : String → Run String)
    (session bare : Session)
    (hBare : ∀ name, bare.table.contains name = false) :
    (∀ value text, Expandable (limit + 1) ahead session value text →
      ∃ line,
        exec (Macro.expandLine (limit + 1) ahead text) session =
            (.ok line, session) ∧
          exec (conditionHolds (limit + 1) ahead ("#if " ++ text)) session =
            ((exec (conditionHolds (limit + 1) ahead ("#if " ++ line))
              bare).1, session)) ∧
    (∀ name inside : String,
      Macro.isWordText name = true →
      '\n' ∉ inside.toList → '\'' ∉ inside.toList →
      ¬ "defined".toList <:+:
        (name ++ "(" ++ inside ++ ")").toList →
      exec (conditionHolds (limit + 1) ahead
          ("#if " ++ (name ++ "(" ++ inside ++ ")"))) session =
        (.ok true, session)) ∧
    (∀ name text,
      session.table.contains name = true →
      Text.isIdentifier? name = some true →
      ¬ "defined".toList <:+: name.toList →
      Macro.Settles ahead session (limit + 1)
        [Macro.Token.ofPiece [] name] text →
      Text.isIdentifier? text = some true →
      ¬ "defined".toList <:+: text.toList →
      exec (Macro.expandLine (limit + 1) ahead name) session =
          (.ok text, session) ∧
        exec (conditionHolds (limit + 1) ahead ("#if " ++ name)) session =
          (.ok true, session) ∧
        exec (conditionHolds (limit + 1) ahead ("#if " ++ text)) bare =
          (.ok false, bare)) := by
  refine ⟨fun value text hText => ?_, ?_, ?_⟩
  · exact ⟨_, hText.exec_expandLine, hText.exec_conditionHolds hBare⟩
  · exact fun name inside => exec_conditionHolds_call ahead session (by simp)
  · intro name text hContains hName hNameDefined hSettles hText hTextDefined
    exact ⟨hSettles.exec_expandWith_name (isWordText_of_isIdentifier hName),
      exec_conditionHolds_renamed hContains hName hNameDefined hSettles hText hTextDefined hBare⟩

-- A condition with a call in the text of a name

def countingSession : Session :=
  { table :=
      { names := [("F", .function), (bodiesName, .record),
          (paramsName, .record), ("A", .text "F(B)"), ("B", .text "2"), ("C", .text "D")]
        params := [("F", .names ["x"])]
        bodies := [("F", .pieces [.text "(", .text "${x}", .text " + ", .text "1", .text ")"])] } }

/- What the names stand for. -/
def countingValue (name : String) : String :=
  if name = "A" then "(2 + 1)" else "2"

theorem expandable_counting : Expandable 4 pure countingSession countingValue
    "A - 2 == B - 1 && !E" := by
  refine ⟨Macro.Table.worded_of_all (by decide), .of_isSpaced (by decide), by decide, ?_, ?_, ?_⟩
  · intro item hMem hName
    have hNames : ∀ item ∈ ["A", "-", "2", "==", "B", "-", "1", "&&", "!", "E"],
        countingSession.table.contains item = true → item = "A" ∨ item = "B" := by
      decide
    rcases hNames item hMem hName with rfl | rfl
    · exact ⟨by decide, .of_rest? (by decide +kernel),
        .of_isSpaced (by decide), by decide, by decide⟩
    · exact ⟨by decide, .of_rest? (by decide +kernel),
        .of_isSpaced (by decide), by decide, by decide⟩
  · decide
  · decide

/- The condition with the call holds like its expansion, a call by itself counts as true whatever it
  is worth, and so does the name of a name. -/
theorem conditionHolds_expanded_counting :
    Expandable 4 pure countingSession countingValue
        "A - 2 == B - 1 && !E" ∧
      (∃ line,
        exec (Macro.expandLine 4 pure "A - 2 == B - 1 && !E")
            countingSession = (.ok line, countingSession) ∧
          exec (conditionHolds 4 pure "#if A - 2 == B - 1 && !E")
              countingSession =
            ((exec (conditionHolds 4 pure ("#if " ++ line))
              {}).1, countingSession)) ∧
      exec (conditionHolds 4 pure "#if F(0)") countingSession =
        (.ok true, countingSession) ∧
      exec (Macro.expandLine 4 pure "C") countingSession =
        (.ok "D", countingSession) ∧
      exec (conditionHolds 4 pure "#if C") countingSession =
        (.ok true, countingSession) ∧
      exec (conditionHolds 4 pure "#if D") {} =
        (.ok false, {}) := by
  obtain ⟨hExpanded, hCall, hRenamed⟩ :=
    conditionHolds_expanded 3 pure countingSession {} fun _ => rfl
  exact ⟨expandable_counting, hExpanded countingValue _ expandable_counting,
    hCall "F" "0" (by decide) (by decide) (by decide) (by decide),
    hRenamed "C" "D" (by decide) (by decide) (by decide)
      (.of_rest? (by decide +kernel)) (by decide) (by decide)⟩

end Source

end CHeader
