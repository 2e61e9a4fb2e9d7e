import CHeader.Proofs.Macro.Enclosed
import CHeader.Proofs.Macro.Waiting

/-
  Lines with calls of function-like macros.

  Where no body names a macro, a line is expanded by putting in the place of each call the body with
  its parameters replaced by the arguments, which are expanded in the same way before. The calls may
  be nested up to the limit on nested passes. What an argument expands to is read again together
  with the body, so it must not name a macro.

  Main declarations:
    * `Macro.Balanced`
    * `Macro.Line`
    * `Macro.exec_expandLine_calls`
-/

namespace CHeader

namespace Macro

open Text Token

open Source (Run Session exec exec_bind exec_bind_getTable exec_lift exec_pure)

variable {name s out : String} {params values inner : List String} {body : List Char}
variable {args : List (List String)} {n : Nat}

-- Balanced texts

/- Lexemes without strings in which every parenthesis that
  opens closes. Commas may be kept out of the top level. -/
inductive Balanced : Bool → List String → Prop where
  | nil {commas : Bool} : Balanced commas []
  | text {commas : Bool} {lexeme : String} {rest : List String}
      (hPlain : lexeme ≠ "(" ∧ lexeme ≠ ")" ∧ lexeme ≠ "\"")
      (hComma : commas = true ∨ lexeme ≠ ",")
      (hRest : Balanced commas rest) :
      Balanced commas (lexeme :: rest)
  | paren {commas : Bool} {inner rest : List String} (hInner : Balanced true inner)
      (hRest : Balanced commas rest) :
      Balanced commas ("(" :: (inner ++ ")" :: rest))

namespace Balanced

variable {commas : Bool} {list : List String}

theorem of_plain (hPlain : ∀ lexeme ∈ list, (lexeme ≠ "(" ∧ lexeme ≠ ")" ∧ lexeme ≠ "\"") ∧
    (commas = true ∨ lexeme ≠ ",")) : Balanced commas list := by
  induction list with
  | nil => exact .nil
  | cons lexeme list ih =>
    rw [List.forall_mem_cons] at hPlain
    exact .text hPlain.1.1 hPlain.1.2 (ih hPlain.2)

theorem enclosed (hList : Balanced commas list) : Enclosed commas list := by
  induction hList with
  | nil => exact .nil
  | text hPlain hComma _ ih => exact .text hPlain hComma ih
  | paren _ _ ihInner ih => exact .paren ihInner ih

end Balanced

-- Lines with calls

/- The text for a strand of a body: that of the argument if it is a parameter. -/
def filled (params values : List String) (strand : String) : String :=
  (lookup (params.zip values).reverse strand).getD strand

/- A text without strings in which no macro is named. -/
structure Unnamed (table : Table) (s : String) : Prop where
  noQuote : '"' ∉ s.toList
  lexemes : ∀ lexeme ∈ lexemes s, table.contains lexeme = false

/- A text in which strings close and no macro is named outside of them. -/
structure Still (table : Table) (s : String) : Prop where
  spells : concat (pieces s) = s
  pieces : ∀ piece ∈ pieces s, table.contains piece = false

/-
  A macro with parameters whose number is fixed and with a
  body without operators and strings that names no macro.
-/
structure FirstOrder (table : Table) (name : String) (params : List String) (body : List Char) :
    Prop where
  word : isWordText name = true
  ordinary : name ≠ quoteName ∧ name ≠ joinName
  isFunction : table.find? name = some .function
  hasParams : table.params! name = .ok (.names params)
  hasBody : table.body! name = .ok (.pieces ((bodyStrands body).map (placed params)))
  fixed : params ≠ [] ∧ "..." ∉ params
  chars : '"' ∉ body ∧ '$' ∉ body
  unnamed : ∀ strand ∈ bodyStrands body, strand ∉ params → table.contains strand = false

/- The arguments inside the parentheses of a call, of which white space is first made single blanks. -/
structure CallArguments (arg : String → String → Prop) (inner : List String)
    (args : List (List String)) (values : List String) : Prop where
  closed : Balanced true inner
  separate : ∀ list ∈ args, Balanced false list
  split : lexemes (String.ofList (collapseSpaces (concat inner).toList)) = commaList args
  expand : List.Forall₂ arg (args.map fun list => trim (concat list)) values

/-
  The lexemes of a line of texts and calls, and the line with each call replaced. What the arguments
  of calls become is given.
-/
inductive Line (table : Table) (arg : String → String → Prop) : List String → String → Prop where
  | nil : Line table arg [] ""
  | text {lexeme out : String} {rest : List String} (hText : table.contains lexeme = false)
      (hQuote : lexeme ≠ "\"")
      (hRest : Line table arg rest out) :
      Line table arg (lexeme :: rest) (lexeme ++ out)
  | string {rest taken left : List String} {out : String}
      (hString : takeString '"' rest = some (taken, left))
      (hText : table.contains (concat ("\"" :: taken)) = false)
      (hRest : Line table arg left out) :
      Line table arg ("\"" :: rest) (concat ("\"" :: taken) ++ out)
  | call {name out : String} {params : List String} {body : List Char} {gap : Option String}
      {inner rest values : List String}
      {args : List (List String)}
      (hMacro : FirstOrder table name params body)
      (hGap : ∀ blank ∈ gap, ∀ c ∈ blank.toList, c = ' ' ∨ c = '\t')
      (hArgs : CallArguments arg inner args values)
      (hCount : args.length = params.length)
      (hValues : ∀ value ∈ values, Unnamed table value)
      (hRest : Line table arg rest out) :
      Line table arg (name :: (gap.toList ++ "(" :: (inner ++ ")" :: rest)))
        (concat ((bodyStrands body).map (filled params values)) ++ out)

/- A line with calls that are nested less often than a number says, and what it expands to. -/
def Expands (table : Table) : Nat → String → String → Prop
| 0, _, _ => False
| depth + 1, s, out =>
    Line table (Expands table depth) (lexemes s) out

-- Bodies filled with arguments

section

variable {α : Type}

theorem exists_lookup (hKey : key ∈ map.map Prod.fst) : ∃ value, lookup map key = some value := by
  induction map with
  | nil => cases hKey
  | cons entry map ih =>
    rw [lookup]
    split_ifs with hEntry
    · exact ⟨_, rfl⟩
    · rw [List.map_cons, List.mem_cons] at hKey
      exact ih (hKey.resolve_left (Ne.symm hEntry))

theorem lookup_map (f : String → α → α) (map : List (String × α)) (key : String) :
    lookup (map.map fun entry => (entry.1, f entry.1 entry.2)) key =
      (lookup map key).map (f key) := by
  induction map with
  | nil => rfl
  | cons entry map ih =>
    rw [List.map_cons, lookup, lookup, ih]
    split_ifs with hEntry
    · rw [← hEntry]; rfl
    · rfl

end

section

variable {table : Table} {session : Session} {params written values texts : List String}
variable {arguments : List (String × String)} {list : List Token} {ahead : String → Run String}
variable {expander : Expander} {arg : String → String → Prop}

/- The arguments that are expanded: those that a body uses. -/
def expandedOnly (used : String → Bool) : List String → List String → List String :=
  List.zipWith fun param value => if used param then value else ""

/- Whether the arguments of a call hold the one for a parameter, and as it was written. -/
def Supplied (arguments : List (String × String)) (params values : List String) (name : String) :
    Prop :=
  ∃ value text, argument (some arguments) name = .ok value ∧
      argument (some arguments) ("__" ++ name) = .ok text ∧
      filled params values name = value ∧ value ∈ values

/- The arguments of a call as they are written, and then expanded. -/
def bound (params written expanded : List String) : List (String × String) :=
  (params.map ("__" ++ ·)).zip written ++ params.zip expanded

theorem bindArguments_eq_bound (hRest : "..." ∉ params) (hWritten : written.length = params.length)
    (expanded : List String) : bindArguments params written expanded = bound params written expanded := by
  rw [bound, ← List.zip_append (by simp [hWritten])]
  simp [bindArguments, hRest]

theorem supplied_bound (hWritten : written.length = params.length)
    (hValues : values.length = params.length) (hName : name ∈ params) (hUsed : used name = true) :
    Supplied (bound params written (expandedOnly used params values)) params values name := by
  have hZip : ∀ params values : List String, params.zip (expandedOnly used params values) =
      (params.zip values).map fun entry => (entry.1, if used entry.1 then entry.2 else "") := by
    intro params
    induction params with
    | nil => exact fun _ => rfl
    | cons param params ih =>
      rintro (_ | ⟨value, values⟩)
      · rfl
      · simpa [expandedOnly] using ih values
  have hKeys : ((params.zip values).reverse.map Prod.fst) = params.reverse := by
    rw [List.map_reverse, List.map_fst_zip (by omega)]
  obtain ⟨value, hValue⟩ : ∃ value, lookup (params.zip values).reverse name = some value :=
    exists_lookup (by simpa [hKeys] using hName)
  have hFirst : "__" ++ name ∈ (((params.map ("__" ++ ·)).zip written).map Prod.fst) := by
    rw [List.map_fst_zip (by simp [hWritten])]
    exact List.mem_map_of_mem hName
  obtain ⟨text, hText⟩ : ∃ text, lookup (bound params written
      (expandedOnly used params values)).reverse ("__" ++ name) = some text := by
    refine exists_lookup ?_
    rw [bound, List.map_reverse, List.mem_reverse, List.map_append]
    exact List.mem_append_left _ hFirst
  refine ⟨value, text, ?_, ?_, ?_, ?_⟩
  · rw [bound, hZip, argument, List.reverse_append, lookup_append,
      ← List.map_reverse, lookup_map (fun key value =>
        if used key then value else ""), hValue]
    simp [hUsed]
  · rw [argument, hText]
  · rw [filled, hValue]
    rfl
  · exact (List.of_mem_zip (List.mem_reverse.1 (mem_of_lookup hValue))).2

theorem filled_cases (values : List String) (s : String) :
    (s ∈ params ∧ filled params values s ∈ values) ∨ filled params values s = s := by
  rw [filled]
  cases hFind : lookup (params.zip values).reverse s with
  | none => exact .inr rfl
  | some value => exact .inl (List.of_mem_zip (List.mem_reverse.1 (mem_of_lookup hFind)))

/- The tokens of a piece of a body stand before those of the rest. -/
theorem fillPieces_text {arguments : Arguments} {painted used : List String} {here : List Token}
    {rest : List Piece} (hUsed : (if isPlace s then usedByPlace table arguments s
        else .ok []) = .ok used)
    (hHere : fillPiece table arguments (addNames used painted) (.text s) = .ok here)
    (hRest : fillPieces table arguments (addNames used painted) rest = .ok list) :
    fillPieces table arguments painted (.text s :: rest) = .ok (here ++ list) := by
  rw [fillPieces]
  split_ifs at hUsed ⊢ with hPlace
  · simp [hUsed, hHere, hRest]
  · cases hUsed
    simp [hHere, hRest]

theorem Still.isFunction (hText : Still table s) :
    ∀ piece ∈ Macro.pieces s, table.isFunction piece = false :=
  fun piece hMem => isFunction_of_unnamed (hText.pieces piece hMem)

theorem Unnamed.still (hText : Unnamed table s) : Still table s := by
  have hPieces := pieces_of_noQuote hText.noQuote
  exact ⟨by rw [hPieces, concat_lexemes], by simpa [hPieces] using hText.lexemes⟩

theorem spell_ofPiece (painted pieces : List String) :
    spell (pieces.map (ofPiece painted)) = concat pieces := by
  simp [spell, ofPiece, ofStrand, Strand.spelling, Function.comp_def]

/- A text without names is made of tokens at rest. -/
theorem tokens_of_still (hText : Still session.table s) (painted : List String) :
    tokens session.table painted s = ((pieces s).map (ofPiece painted), false) ∧
      (∀ token ∈ (pieces s).map (ofPiece painted), Inert session.table token) ∧
      spell ((pieces s).map (ofPiece painted)) = s := by
  refine ⟨?_, List.forall_mem_map.2 fun piece hMem => inert_ofPiece painted (hText.pieces piece hMem),
    by rw [spell_ofPiece, hText.spells]⟩
  rw [tokens, strands_of_unnamed hText.isFunction]
  simp [ofPiece]

/- A text without names is expanded to its pieces, of which the last may be cut short. -/
theorem exec_expandWith_unnamed
    (hNone : ∀ piece ∈ pieces s, session.table.contains piece = false) (depth : Nat) :
    exec (expandWith (expandTokens ahead (depth + 1)) s) session =
      (.ok (concat (pieces s)), session) := by
  have hSettles : Settles ahead session (depth + 1) _ _ := settles_inert
    (List.forall_mem_map.2 fun piece hMem => inert_ofPiece [] (hNone piece hMem))
  rw [spell_ofPiece] at hSettles
  exact hSettles.exec_expandWith fun piece hMem => isFunction_of_unnamed (hNone piece hMem)

theorem Still.exec_expandWith (hText : Still session.table s) (depth : Nat) :
    exec (expandWith (expandTokens ahead (depth + 1)) s) session = (.ok s, session) := by
  rw [exec_expandWith_unnamed hText.pieces, hText.spells]

def filledTexts (params values : List String) (s : String) : List String :=
  if s ∈ params then pieces (filled params values s) else [s]

theorem concat_filledTexts
    (hValues : ∀ s ∈ texts, s ∈ params → Still table (filled params values s)) :
    concat (texts.flatMap (filledTexts params values)) =
      concat (texts.map (filled params values)) := by
  induction texts with
  | nil => rfl
  | cons s texts ih =>
    rw [List.forall_mem_cons] at hValues
    rw [List.flatMap_cons, concat_append, ih hValues.2, List.map_cons, concat_cons, filledTexts]
    split_ifs with hParam
    · rw [(hValues.1 hParam).spells]
    · simp [(filled_cases values s).resolve_left fun hIn => hParam hIn.1]

/-
  The tokens of a body whose parameters are replaced. The names that are used by an argument paint
  its tokens and those of all later strands.
-/
def laid (table : Table) (params values : List String) (used : String → List String) :
    List String → List String → List Token
| _, [] => []
| painted, s :: texts =>
    if s ∈ params then
      let painted := addNames (used s) painted
      (tokens table painted (filled params values s)).1 ++ laid table params values used painted texts
    else ofPiece painted s :: laid table params values used painted texts

theorem fillPieces_placed (hTexts : ∀ s ∈ texts, s ≠ "" ∧ '$' ∉ s.toList)
    (hParams : ∀ s ∈ texts, s ∈ params →
      argument (some arguments) s = .ok (filled params values s) ∧
      usedByPlace table (some arguments) (place s) = .ok (used s)) (painted : List String) :
    fillPieces table (some arguments) painted (texts.map (placed params)) =
      .ok (laid table params values used painted texts) := by
  induction texts generalizing painted with
  | nil => rfl
  | cons s texts ih =>
    rw [List.forall_mem_cons] at hTexts hParams
    have hLater := ih hTexts.2 hParams.2
    rw [List.map_cons, placed, laid]
    by_cases hParam : s ∈ params
    · obtain ⟨hValue, hUsed⟩ := hParams.1 hParam
      have hLong : 3 < (place s).length := by
        have hSome : 0 < s.length := by
          rw [← String.length_toList, List.length_pos_iff]
          simpa using hTexts.1.1
        have hEnds : "$\x7b".length = 2 ∧ "\x7d".length = 1 := by
          decide
        rw [place, String.length_append, String.length_append]
        omega
      rw [if_pos (by simpa using hParam), if_pos hParam]
      refine fillPieces_text (by rw [if_pos (isPlace_place s), hUsed]) ?_ (hLater _)
      rw [fillPiece, if_pos ⟨isPlace_place s, hLong⟩, placeName_place, hValue]
      rfl
    · have hNone := isPlace_eq_false hTexts.1.2
      have hHere : fillPiece table (some arguments) (addNames [] painted) (.text s) =
          .ok [ofPiece painted s] := by
        simp [fillPiece, hNone]
        rfl
      rw [if_neg (by simpa using hParam), if_neg hParam]
      exact fillPieces_text (by rw [hNone]; rfl) hHere (hLater painted)

/- If the arguments name nothing, the tokens are at rest. -/
theorem laid_inert (hOthers : ∀ s ∈ texts, s ∉ params → session.table.contains s = false)
    (hParams : ∀ s ∈ texts, s ∈ params → Still session.table (filled params values s))
    (used : String → List String) (painted : List String) :
    (∀ token ∈ laid session.table params values used painted texts, Inert session.table token) ∧
      (laid session.table params values used painted texts).map text =
        texts.flatMap (filledTexts params values) := by
  induction texts generalizing painted with
  | nil => exact ⟨by simp [laid], rfl⟩
  | cons s texts ih =>
    rw [List.forall_mem_cons] at hOthers hParams
    have hLater := ih hOthers.2 hParams.2
    rw [laid, List.flatMap_cons, filledTexts]
    by_cases hParam : s ∈ params
    · obtain ⟨hTokens, hInert, -⟩ := tokens_of_still (hParams.1 hParam) (addNames (used s) painted)
      obtain ⟨hRest, hSpell⟩ := hLater (addNames (used s) painted)
      simp only [if_pos hParam, hTokens, List.map_append, hSpell]
      exact ⟨List.forall_mem_append.2 ⟨hInert, hRest⟩,
        by simp [ofPiece, ofStrand, Strand.spelling, Function.comp_def]⟩
    · obtain ⟨hRest, hSpell⟩ := hLater painted
      simp only [if_neg hParam, List.map_cons, hSpell]
      exact ⟨List.forall_mem_cons.2 ⟨inert_ofPiece painted (hOthers.1 hParam), hRest⟩, rfl⟩

/- The tokens of a body that is filled with arguments that name nothing. -/
theorem exists_fillPieces_inert (hTexts : ∀ s ∈ texts, s ≠ "" ∧ '$' ∉ s.toList)
    (hOthers : ∀ s ∈ texts, s ∉ params → session.table.contains s = false)
    (hParams : ∀ s ∈ texts, s ∈ params → Supplied arguments params values s)
    (hValues : ∀ value ∈ values, Still session.table value) (painted : List String) :
    ∃ list, fillPieces session.table (some arguments) painted
        (texts.map (placed params)) = .ok list ∧ (∀ token ∈ list, Inert session.table token) ∧
        list.map text = texts.flatMap (filledTexts params values) ∧
        spell list = concat (texts.map (filled params values)) := by
  have hStill : ∀ s ∈ texts, s ∈ params → Still session.table (filled params values s) := by
    intro s hMem hParam
    obtain ⟨value, -, -, -, hFilled, hIn⟩ := hParams s hMem hParam
    exact hFilled ▸ hValues value hIn
  obtain ⟨hInert, hLaid⟩ := laid_inert hOthers hStill (fun s => ((usedByPlace session.table
    (some arguments) (place s)).toOption).getD []) painted
  refine ⟨_, fillPieces_placed hTexts (fun s hMem hParam => ?_) painted, hInert, hLaid,
    (congrArg concat hLaid).trans (concat_filledTexts hStill)⟩
  obtain ⟨value, text, hValue, hText, hFilled, -⟩ := hParams s hMem hParam
  refine ⟨hFilled ▸ hValue, ?_⟩
  simp only [usedByPlace, placeName_place, hasArgument, Fault.ok_bind, hValue, hText]
  split_ifs <;> rfl

/- The arguments of a call are expanded one after another, those that the body does not use are not. -/
theorem exec_expandArguments {body : Body} (hValues : List.Forall₂ (fun text value =>
    exec (expandWith expander text) session = (.ok value, session)) written values)
    (params : List String) :
    exec (expandArguments expander body written params) session = (.ok (expandedOnly
        (fun param => body.texts.contains (place param)) params values), session) := by
  unfold expandArguments
  induction hValues generalizing params with
  | nil => cases params <;> rfl
  | @cons text value written values hValue _ ih =>
    cases params with
    | nil => rfl
    | cons param params =>
      rw [List.zip_cons_cons, List.mapM_cons, exec_bind]
      dsimp only
      split_ifs with hUsed
      · rw [hValue]
        dsimp only
        rw [exec_bind, ih params]
        simp [expandedOnly, -List.contains_eq_mem, hUsed]
      · rw [exec_pure]
        dsimp only
        rw [exec_bind, ih params]
        simp [expandedOnly, -List.contains_eq_mem, hUsed]

theorem mem_texts_placed (hMem : s ∈ texts) (hParam : s ∈ params) :
    place s ∈ (Body.pieces (texts.map (placed params))).texts := by
  simp only [Body.texts, List.mem_flatMap, List.mem_map]
  exact ⟨_, ⟨s, hMem, rfl⟩, by simp [placed, hParam]⟩

/- The tokens for a call of a macro of the first order. -/
theorem FirstOrder.exec_expandCall (hMacro : FirstOrder session.table name params body)
    (hArgs : CallArguments arg inner args values) (hCount : args.length = params.length)
    (hValues : ∀ value ∈ values, Unnamed session.table value)
    (hArg : ∀ s out, arg s out → exec (expandWith expander s) session = (.ok out, session))
    (token : Token) (hToken : token.text = "(" ++ concat inner ++ ")") :
    ∃ list, exec (expandCall expander name token) session = (.ok (list, [name]), session) ∧
        (∀ token ∈ list, Inert session.table token) ∧
        spell list = concat ((bodyStrands body).map (filled params values)) := by
  have hWritten : (splitArguments (Text.inner 1 token.text)).1 =
      args.map fun list => trim (concat list) := by
    have hSome : args ≠ [] := by
      rintro rfl
      exact hMacro.fixed.1 (List.length_eq_zero_iff.1 hCount.symm)
    have hInner : Text.inner 1 token.text = concat inner := by
      simp [hToken, Text.inner]
    rw [hInner, splitArguments, hArgs.split, Enclosed.splitFields_commaList hSome
      fun list hMem => (hArgs.separate list hMem).enclosed]
  have hTexts : (args.map fun list => trim (concat list)).length = params.length := by
    rw [List.length_map, hCount]
  obtain ⟨list, hFill, hInert, -, hSpell⟩ := exists_fillPieces_inert
    (fun s hMem => ⟨(bodyStrands_spell hMacro.chars.1).2 s hMem, fun hSign => hMacro.chars.2
        (mem_of_mem_bodyStrands hMacro.chars.1 hMem hSign)⟩)
    hMacro.unnamed
    (fun s hMem hParam => supplied_bound hTexts (hArgs.expand.length_eq.symm.trans hTexts) hParam
      (List.contains_iff_mem.2 (mem_texts_placed hMem hParam)))
    (fun value hMem => (hValues value hMem).still) (addName name token.painted)
  rw [← bindArguments_eq_bound hMacro.fixed.2 hTexts] at hFill
  exact ⟨list, Macro.exec_expandCall hMacro.ordinary.1
    hMacro.ordinary.2 hMacro.hasBody hMacro.hasParams hMacro.fixed.2 hWritten (exec_expandArguments
      (hArgs.expand.imp hArg) params) hFill, hInert, hSpell⟩

-- Passes over lines with calls

/- Whether a pass leaves tokens at rest that spell a text. -/
def Leaves (expander : Expander) (ahead : String → Run String) (session : Session)
    (list : List Token) (out : String) : Prop :=
  ∀ state : Pass, state.awaiting = none → ∃ (last : Pass) (added : List Token),
      exec (scanTokens expander ahead false state list) session = (.ok (.scanned last), session) ∧
        last.awaiting = none ∧
        last.done = added ++ state.done ∧
        (∀ token ∈ added, Inert session.table token) ∧
        spell added.reverse = out

theorem Leaves.behind (hKin : ∀ token ∈ first, token.kin = 0)
    (hScan : exec (scanTokens expander ahead false { line := "" } first)
        session = (.ok (.scanned last), session))
    (hAwaiting : last.awaiting = none) (hInert : ∀ token ∈ last.done, Inert session.table token)
    (hSpell : spell last.done.reverse = start) (hList : Leaves expander ahead session list out) :
    Leaves expander ahead session (first ++ list) (start ++ out) := by
  intro state hState
  obtain ⟨final, added, hFinal, hNone, hDone, hRest, hText⟩ := hList (last.behind state) hAwaiting
  refine ⟨final, added ++ last.done, ?_, hNone, ?_, List.forall_mem_append.2 ⟨hRest, hInert⟩, ?_⟩
  · rw [exec_scanTokens_segment hKin hScan hState, hFinal]
  · rw [hDone, Pass.behind, List.append_assoc]
  · rw [List.reverse_append, spell_append, hSpell, hText]

/- The tokens of a line, and what a pass makes of them. -/
theorem Line.exec_scanTokens (hLine : Line session.table arg items out)
    (hArg : ∀ s out, arg s out → exec (expandWith expander s) session = (.ok out, session))
    (before : Char) :
    ∃ list, strandsFrom session.table.isFunction false before items = (list, false) ∧
        Leaves expander ahead session (list.map (ofStrand [])) out := by
  have hOne : ∀ {s out : String} {list : List Token}, session.table.contains s = false →
      Leaves expander ahead session list out → Leaves expander ahead session
          (ofStrand [] (.text s) :: list) (s ++ out) := by
    intro s out list hText hList
    have hInert : Inert session.table (ofPiece [] s) := inert_ofPiece [] hText
    refine Leaves.behind (by simpa using hInert.kin_eq) (exec_scanTokens_still rfl
        (List.forall_mem_singleton.2 hInert.quiet)) rfl
      (by simpa using hInert.rested) ?_ hList
    simp [spell, text_rested, ofPiece, ofStrand, Strand.spelling]
  induction hLine generalizing before with
  | nil =>
    refine ⟨[], by rw [strandsFrom], fun state hState => ⟨state, [], ?_, hState, rfl, by simp, rfl⟩⟩
    rw [List.map_nil, scanTokens_nil]
    rfl
  | @text lexeme out rest hText hQuote _ ih =>
    obtain ⟨list, hStrands, hScans⟩ := ih (lastChar before lexeme)
    refine ⟨.text lexeme :: list, ?_, hOne hText hScans⟩
    rw [strandsFrom]
    simp [hQuote, isFunction_of_unnamed hText, hStrands]
  | @string rest taken left out hString hText _ ih =>
    obtain ⟨list, hStrands, hScans⟩ := ih '"'
    refine ⟨.text (concat ("\"" :: taken)) :: list, ?_, hOne hText hScans⟩
    rw [strandsFrom_string hString, hStrands]
  | @call name out params body gap inner rest values args hMacro hGap hArgs hCount hValues _ ih =>
    obtain ⟨list, hStrands, hScans⟩ := ih ')'
    have hName : name ≠ "(" ∧ name ≠ "\"" := by
      refine ⟨?_, ?_⟩ <;> rintro rfl <;>
        exact absurd hMacro.word (by decide)
    have hBlanks : ∀ token ∈ gap.toList.map (ofPiece []), Blank token := by
      simp only [List.forall_mem_map, Option.mem_toList]
      exact fun blank hMem => ⟨rfl, blank, rfl, hGap blank hMem⟩
    have hFunction : session.table.isFunction name = true := by
      simp [Table.isFunction, hMacro.isFunction]
    obtain ⟨pieces, size, hTake, hSpell⟩ := hArgs.closed.enclosed.takeCall_eq '(' rest
    obtain ⟨tokens, hExpand, hInert, hText⟩ := hMacro.exec_expandCall hArgs hCount hValues hArg
        (ofStrand [] (.call pieces (some (size + 1))))
        (by rw [← hSpell]; rfl)
    have hScan : exec (scanTokens expander ahead false { line := "" }
        (ofPiece [] name :: _)) session = _ :=
      exec_scanTokens_call hMacro.word hMacro.isFunction rfl rfl rfl rfl hBlanks
        ⟨rfl, rfl, rfl⟩ hExpand []
    rw [scanTokens_nil] at hScan
    have hOpen : ∀ here, strandsFrom session.table.isFunction true here
        ("(" :: (inner ++ ")" :: rest)) =
          (.call pieces (some (size + 1)) :: list, false) := by
      intro here
      rw [strandsFrom_call hTake, hStrands]
    refine ⟨.text name :: (gap.toList.map .text ++ .call pieces (some (size + 1)) :: list), ?_, ?_⟩
    · rw [strandsFrom]
      simp only [hName, hFunction]
      cases gap with
      | none => simp [hOpen]
      | some blank =>
        have hBlank : blank ≠ "(" ∧ blank ≠ "\"" := by
          refine ⟨?_, ?_⟩ <;> rintro rfl
          · exact absurd (hGap _ rfl '(' (by simp)) (by decide)
          · exact absurd (hGap _ rfl '"' (by simp)) (by decide)
        simp only [Option.toList_some, List.singleton_append]
        rw [strandsFrom]
        simp [hBlank, hOpen]
    · have hKin : ∀ token ∈ ofPiece [] name :: (gap.toList.map (ofPiece []) ++
          [ofStrand [] (.call pieces (some (size + 1)))]),
            token.kin = 0 := by
        cases gap <;> simp [ofPiece, ofStrand]
      have hAll := Leaves.behind hKin hScan rfl
        (by simpa using hInert) (by simpa using hText) hScans
      have hSame : ofPiece [] = ofStrand [] ∘ .text := rfl
      simpa [hSame] using hAll

/- A line with calls is expanded if there are passes enough. -/
theorem Expands.exec_expandWith (hLine : Expands session.table n s out) (hDepth : n < depth) :
    exec (expandWith (expandTokens ahead depth) s) session = (.ok out, session) := by
  induction n generalizing depth s out with
  | zero => exact absurd hLine id
  | succ n ih =>
    obtain ⟨depth, rfl⟩ := Nat.exists_eq_succ_of_ne_zero (Nat.ne_of_gt (Nat.zero_lt_of_lt hDepth))
    obtain ⟨list, hStrands, hScans⟩ := Line.exec_scanTokens hLine
      (fun s out hArg => ih hArg (Nat.lt_of_succ_lt_succ hDepth)) ' '
    obtain ⟨last, added, hScan, -, hDone, hInert, hSpell⟩ := hScans { line := s } rfl
    rw [List.append_nil] at hDone
    have hBack : ∀ token ∈ added.reverse, Inert session.table token := by
      simpa using hInert
    have hTokens : tokens session.table [] s = (list.map (ofStrand []), false) := by
      rw [tokens, strands, hStrands]
    rw [expandWith, exec_bind_getTable]
    simp only [hTokens]
    rw [expandTokens, exec_bind, expandOnce, exec_bind, hScan]
    dsimp only
    cases last.replaced with
    | false => simp [hDone, hSpell]
    | true =>
      obtain ⟨passes, rfl⟩ := Nat.exists_eq_succ_of_ne_zero (Nat.ne_of_gt (Nat.zero_lt_of_lt
          (Nat.lt_of_succ_lt_succ hDepth)))
      have hRest : Settles ahead session (passes + 1) _ _ := settles_inert hBack
      obtain ⟨tokens, hAgain, hSame⟩ := hRest.exec_expandTokens (spell added.reverse)
      rw [if_pos rfl, exec_bind_getTable]
      rw [hDone, regroup_inert hBack, exec_bind, exec_lift]
      dsimp only
      rw [hAgain]
      simp [hSame, hSpell]

end

/-
  A line of texts and calls is expanded by putting for each call the body of the macro with its
  parameters replaced by the arguments, which are expanded in the same way.
-/
theorem exec_expandLine_calls
    (limit : Nat)
    (ahead : String → Run String)
    (session : Session)
    (n : Nat)
    (line out : String)
    (hLine : Expands session.table n line out)
    (hDepth : n < limit) :
    exec (expandLine limit ahead line) session = (.ok out, session) :=
  hLine.exec_expandWith hDepth

/- A call as a whole line, with text behind it. -/
theorem Expands.of_call (gap : Option String) (behind : List String)
    (hMacro : FirstOrder table name params body)
    (hArgs : CallArguments (Expands table n) inner args values)
    (hCount : args.length = params.length) (hValues : ∀ value ∈ values, Unnamed table value)
    (hGap : ∀ blank ∈ gap, ∀ c ∈ blank.toList, c = ' ' ∨ c = '\t')
    (hLexemes : lexemes s = name :: (gap.toList ++ "(" :: (inner ++ ")" :: behind)))
    (hBehind : ∀ lexeme ∈ behind, table.contains lexeme = false ∧ lexeme ≠ "\"")
    (hOut : concat ((bodyStrands body).map (filled params values)) ++
        concat behind = out) : Expands table (n + 1) s out := by
  have hRest : Line table (Expands table n) behind (concat behind) := by
    clear hLexemes hOut
    induction behind with
    | nil => exact .nil
    | cons lexeme behind ih =>
      rw [List.forall_mem_cons] at hBehind
      rw [concat_cons]
      exact .text hBehind.1.1 hBehind.1.2 (ih hBehind.2)
  rw [Expands, hLexemes, ← hOut]
  exact .call hMacro hGap hArgs hCount hValues hRest

/- The table after `#define F(x,y) x-y`. -/
def differenceTable : Table where
  names := [("F", .function), (paramsName, .record), (bodiesName, .record)]
  params := [("F", .names ["x", "y"])]
  bodies := [("F", .pieces ((bodyStrands "x-y".toList).map (placed ["x", "y"])))]

theorem firstOrder_differenceTable : FirstOrder differenceTable "F" ["x", "y"] "x-y".toList where
  word := by decide
  ordinary := by decide
  isFunction := rfl
  hasParams := rfl
  hasBody := rfl
  fixed := by decide
  chars := by decide
  unnamed := by decide

theorem exec_expandLine_calls_nested :
    Expands differenceTable 3 "F (F(1,a),  b);" "1-a-b;" ∧
      exec (expandLine 4 pure "F (F(1,a),  b);")
          { table := differenceTable } =
        (.ok "1-a-b;", { table := differenceTable }) := by
  have hOne : ∀ s ∈ ["1", "a", "b"], lexemes s = [s] := by decide
  have hText : ∀ n, ∀ s ∈ ["1", "a", "b"], Expands differenceTable (n + 1) s s := by
    intro n s hMem
    have hLine : Line differenceTable (Expands differenceTable n) [s] (s ++ "") := by
      refine .text ?_ ?_ .nil <;> revert s <;> decide
    rwa [← hOne s hMem, String.append_empty] at hLine
  have hUnnamed : ∀ s ∈ ["1", "a", "b", "1-a"], Unnamed differenceTable s := by
    intro s hMem
    constructor <;> revert s <;> decide
  have hInner : CallArguments (Expands differenceTable 1) ["1", ",", "a"]
        [["1"], ["a"]] ["1", "a"] := by
    refine ⟨.of_plain (by decide), ?_, by decide +kernel,
      .cons (hText 0 "1" (by decide)) (.cons (hText 0 "a" (by decide)) .nil)⟩
    simp only [List.forall_mem_cons]
    exact ⟨.of_plain (by decide), .of_plain (by decide), by simp⟩
  have hCall : Expands differenceTable 2 "F(1,a)" "1-a" :=
    .of_call none [] firstOrder_differenceTable hInner rfl
      (by simp [hUnnamed]) (by simp) (by decide) (by decide)
      (by decide)
  have hOuter : CallArguments (Expands differenceTable 2)
        ["F", "(", "1", ",", "a", ")", ",", "  ", "b"]
        [["F", "(", "1", ",", "a", ")"], [" ", "b"]]
        ["1-a", "b"] := by
    refine ⟨.text (by decide) (by decide) (.paren hInner.closed
        (.of_plain (by decide))), ?_, by decide +kernel,
      .cons hCall (.cons (hText 1 "b" (by decide)) .nil)⟩
    simp only [List.forall_mem_cons]
    exact ⟨.text (by decide) (by decide) (.paren hInner.closed .nil),
      .of_plain (by decide), by simp⟩
  have hLine : Expands differenceTable 3 "F (F(1,a),  b);" "1-a-b;" :=
    .of_call (some " ") [";"] firstOrder_differenceTable hOuter rfl
      (by simp [hUnnamed]) (by simp) (by decide) (by decide)
      (by decide)
  exact ⟨hLine, exec_expandLine_calls 4 pure { table := differenceTable } 3 _ _ hLine (by decide)⟩

end Macro

end CHeader
