import Mathlib.Data.List.DropRight
import CHeader.Macro.Render
import CHeader.Proofs.Expr.Layout
import CHeader.Proofs.Fault
import CHeader.Proofs.Macro.Ending

/-
  Macro tables that are written as definitions and read again.

  A definition line enters one macro, at the place of its name. What is written for a macro is a
  line that enters the same macro again, so the lines of a table that was made of definitions make
  the same table, as long as no body needs an operator, a quote or a reserved name.

  Main declarations:
    * `Macro.Table.shown`
    * `Macro.Definition.entry`
    * `Macro.shown_defineAll_render`
-/

namespace CHeader

open List

variable {cs : List Char} {c : Char} {parts : List String}

-- Fields of a text

namespace Text

theorem mem_of_mem_dropEnds {drop : Char → Bool} (hMem : c ∈ dropEnds drop cs) : c ∈ cs := by
  rw [dropEnds, dropEnd, mem_reverse] at hMem
  have hInner := (dropWhile_suffix drop).subset hMem
  rw [mem_reverse] at hInner
  exact (dropWhile_suffix drop).subset hInner

theorem dropEnds_dropEnds (drop : Char → Bool) (cs : List Char) :
    dropEnds drop (dropEnds drop cs) = dropEnds drop cs := by
  have hStart : ((cs.dropWhile drop).rdropWhile drop).dropWhile drop =
      (cs.dropWhile drop).rdropWhile drop := by
    obtain ⟨tail, hTail⟩ := rdropWhile_prefix drop (l := cs.dropWhile drop)
    cases hKept : (cs.dropWhile drop).rdropWhile drop with
    | nil => rfl
    | cons c rest =>
      have hHead := head?_dropWhile_not drop cs
      rw [← hTail, hKept] at hHead
      exact dropWhile_cons_of_neg (by simpa using hHead)
  change (List.dropWhile drop ((cs.dropWhile drop).rdropWhile drop)).rdropWhile drop = _
  rw [hStart]
  exact rdropWhile_idempotent drop _

section

variable {sep : Char}
variable {field : List Char}

theorem splitOnChar_append (hField : sep ∉ field) (rest : List Char) :
    splitOnChar sep (field ++ sep :: rest) = field :: splitOnChar sep rest := by
  induction field with
  | nil => simp [splitOnChar]
  | cons c field ih =>
    rw [mem_cons, not_or] at hField
    rw [cons_append, splitOnChar, if_neg (Ne.symm hField.1), ih hField.2]

theorem splitOnChar_of_not_mem (hField : sep ∉ field) : splitOnChar sep field = [field] := by
  induction field with
  | nil => rfl
  | cons c field ih =>
    rw [mem_cons, not_or] at hField
    rw [splitOnChar, if_neg (Ne.symm hField.1), ih hField.2]

theorem mem_of_mem_splitOnChar (hField : field ∈ splitOnChar sep cs) (hMem : c ∈ field) :
    c ∈ cs ∧ c ≠ sep := by
  induction cs generalizing field with
  | nil =>
    rw [splitOnChar, mem_singleton] at hField
    rw [hField] at hMem
    cases hMem
  | cons d cs ih =>
    have hLater : ∀ field ∈ splitOnChar sep cs, c ∈ field →
        c ∈ d :: cs ∧ c ≠ sep := fun field hField hMem =>
      ⟨mem_cons_of_mem _ (ih hField hMem).1, (ih hField hMem).2⟩
    rw [splitOnChar] at hField
    split_ifs at hField with hSep
    · rcases mem_cons.1 hField with rfl | hField
      · cases hMem
      · exact hLater field hField hMem
    · have hHere : c = d → c ∈ d :: cs ∧ c ≠ sep := by
        rintro rfl
        exact ⟨mem_cons_self, hSep⟩
      cases hFields : splitOnChar sep cs with
      | nil =>
        rw [hFields, mem_singleton] at hField
        rw [hField, mem_singleton] at hMem
        exact hHere hMem
      | cons first fields =>
        rw [hFields] at hField hLater
        rcases mem_cons.1 hField with rfl | hField
        · rcases mem_cons.1 hMem with hMem | hMem
          · exact hHere hMem
          · exact hLater first mem_cons_self hMem
        · exact hLater field (mem_cons_of_mem _ hField) hMem

theorem joinWith_cons_cons (mark first second : String) (rest : List String) :
    joinWith mark (first :: second :: rest) = first ++ mark ++ joinWith mark (second :: rest) := by
  have hFold : ∀ (rest : List String) (start text : String),
      rest.foldl (fun text part => text ++ mark ++ part) (start ++ text) =
        start ++ rest.foldl (fun text part => text ++ mark ++ part)
          text := by
    intro rest
    induction rest with
    | nil => exact fun _ _ => rfl
    | cons part rest ih =>
      intro start text
      rw [foldl_cons, foldl_cons, ← ih]
      simp only [String.append_assoc]
  rw [joinWith, joinWith, foldl_cons, hFold]

/- Texts without the separator are the fields of what they are put together to. -/
theorem splitOnChar_joinWith (hSome : parts ≠ []) (hParts : ∀ part ∈ parts, sep ∉ part.toList) :
    splitOnChar sep (joinWith (String.singleton sep) parts).toList = parts.map String.toList := by
  induction parts with
  | nil => exact absurd rfl hSome
  | cons first rest ih =>
    rw [forall_mem_cons] at hParts
    cases rest with
    | nil => exact splitOnChar_of_not_mem hParts.1
    | cons second rest =>
      rw [joinWith_cons_cons, String.toList_append, String.toList_append, append_assoc,
        String.toList_singleton, singleton_append,
        splitOnChar_append hParts.1, ih (by simp) hParts.2]
      rfl

theorem splitOnChar_ne_nil (cs : List Char) : splitOnChar sep cs ≠ [] := by
  cases cs with
  | nil => simp [splitOnChar]
  | cons c cs =>
    rw [splitOnChar]
    split_ifs
    · simp
    · split <;> simp

end

end Text

namespace Source

namespace Directive

/- The operand of a directive ends the line. -/
theorem operand_isSuffix (hDirective : ofChars? cs = some directive) :
    directive.operand <:+ cs := by
  unfold ofChars? at hDirective
  split at hDirective
  · rename_i rest hRest
    have hCs : rest.dropWhile Text.isBlank <:+ cs :=
      ((dropWhile_suffix _).trans (suffix_cons '#' rest) ).trans (hRest ▸ dropWhile_suffix _)
    refine List.IsSuffix.trans ?_ hCs
    dsimp only at hDirective
    split at hDirective
    · rename_i hNamed
      cases hDirective
      obtain ⟨keyword, -, hFound⟩ := exists_of_findSome?_eq_some hNamed
      obtain ⟨after, hAfter, rfl⟩ := Option.map_eq_some_iff.1 hFound
      refine (dropWhile_suffix _).trans ?_
      unfold afterKeyword? at hAfter
      split_ifs at hAfter
      split at hAfter
      · rename_i hDrop
        split_ifs at hAfter
        cases hAfter
        exact hDrop ▸ drop_suffix _ _
      · cases hAfter
    · split_ifs at hDirective
      cases hDirective
      exact suffix_refl _
  · cases hDirective

theorem operandOf_isSuffix (line : String) : (operandOf line).toList <:+ line.toList := by
  unfold operandOf
  split
  · rename_i directive hDirective
    rw [operandText, String.toList_ofList]
    exact operand_isSuffix hDirective
  · exact suffix_refl _

theorem operandOf_define {operand : String} (hOperand : operand.toList = c :: rest)
    (hWord : Text.isWord c = true) : operandOf ("#define " ++ operand) = operand := by
  have hLine : ofLine? ("#define " ++ operand) = some ⟨some .define, ' ' :: operand.toList,
      operand.toList.dropWhile Text.isBlank⟩ := by
    rw [ofLine?, String.toList_append]
    rfl
  have hBlank : Text.isBlank c = false := by
    rw [Text.isBlank, Bool.or_eq_false_iff]
    constructor
    · by_contra hSpace
      rw [Text.not_isWord_of_isSpace (by simpa using hSpace)] at hWord
      cases hWord
    · rw [decide_eq_false_iff_not]
      rintro rfl
      exact absurd hWord (by decide)
  rw [operandOf, hLine]
  dsimp only [operandText]
  rw [hOperand, dropWhile_cons_of_neg (by simp [hBlank]), ← hOperand, String.ofList_toList]

end Directive

end Source

namespace Macro

open Text

variable {definition : Definition} {strand name : String}

-- What a table shows

/- What a name stands for: a text, or a function with its parameters and body. A function that lacks
  them and a record have nothing to show. -/
inductive Entry where
  | text (s : String)
  | function (params : Params) (body : Body)
  | none
  deriving DecidableEq

namespace Table

def entry (table : Table) (name : String) : Meaning → Entry
| .text s => .text s
| .function =>
    match table.params! name, table.body! name with
    | .ok params, .ok body => .function params body
    | _, _ => .none
| .record => .none

def shown (table : Table) : List (String × Entry) :=
  (table.names.filter (fun item => !isHidden item.1)).map
    (fun item => (item.1, table.entry item.1 item.2))

end Table

-- Plain definitions

def placed (params : List String) (strand : String) : Piece :=
  .text (if params.contains strand then place strand else strand)

namespace Definition

open Compiler

def entry (definition : Definition) : Entry :=
  match definition.paramText with
  | none => .text (String.ofList definition.body)
  | some params =>
      .function (.names (paramNames params)) (.pieces ((bodyStrands definition.body).map
          (placed (paramNames params))))

/- Bodies of functions that need no operator, no quote and no reserved name. -/
structure PlainBody (body : List Char) : Prop where
  chars : ∀ c ∈ body, c ≠ '#' ∧ c ≠ '"' ∧ c ≠ '$'
  words : ∀ strand ∈ bodyStrands body, hasStart strand "__CPP" = false

structure Plain (definition : Definition) : Prop where
  word : isWordText definition.name = true
  unreserved : hasStart definition.name "__CPP" = false
  start : definition.body.dropWhile isSpace = definition.body
  oneLine : '\n' ∉ definition.body
  params : ∀ params ∈ definition.paramText, ')' ∉ params ∧ '\n' ∉ params ∧ PlainBody definition.body

end Definition

/- A line with a definition whose name is not reserved and whose body is plain if it is
  function-like. The line may have its line end. -/
structure PlainLine (line : String) (definition : Definition) : Prop where
  oneLine : '\n' ∉ line.toList.dropLast
  reads : Definition.ofText? (Source.Directive.operandOf line) = some definition
  unreserved : hasStart definition.name "__CPP" = false
  body : definition.paramText.isSome = true → Definition.PlainBody definition.body

/- What is read from such a line can be written on a line. -/
theorem PlainLine.plain (hLine : PlainLine line definition) : definition.Plain := by
  obtain ⟨hOneLine, hReads, hUnreserved, hBody⟩ := hLine
  have hWord := isWordText_of_ofText? hReads
  have hBodyOf : ∀ text : List Char, ∀ body : List Char,
      (text.dropWhile isSpace).takeWhile (· ≠ '\n') = body →
        body.dropWhile isSpace = body ∧ '\n' ∉ body := by
    rintro text _ rfl
    refine ⟨?_, fun hMem => ?_⟩
    · cases hText : text.dropWhile isSpace with
      | nil => rfl
      | cons c rest =>
        have hHead := head?_dropWhile_not isSpace text
        rw [hText] at hHead
        rw [takeWhile_cons]
        split_ifs
        · exact dropWhile_cons_of_neg (by simpa using hHead)
        · rfl
    · simpa using mem_takeWhile_imp hMem
  have hSuffix := Source.Directive.operandOf_isSuffix line
  unfold Definition.ofText? at hReads
  dsimp only at hReads
  split_ifs at hReads
  split at hReads
  · rename_i params rest hParams
    cases hReads
    obtain ⟨hStart, hEnd⟩ := hBodyOf rest _ rfl
    refine ⟨hWord, hUnreserved, hStart, hEnd, ?_⟩
    rintro _ ⟨⟩
    unfold takeParamText? at hParams
    split at hParams
    · rename_i inner hInner
      cases hAfter : inner.dropWhile (· ≠ ')') with
      | nil =>
        rw [hAfter] at hParams
        cases hParams
      | cons last after =>
        rw [hAfter] at hParams
        cases hParams
        refine ⟨fun hMem => ?_, fun hMem => hOneLine ?_, hBody rfl⟩
        · simpa using mem_takeWhile_imp hMem
        · -- a parenthesis follows the parameters on the line
          have hAll : inner.takeWhile (· ≠ ')') ++ last :: rest = inner := by
            rw [← hAfter, takeWhile_append_dropWhile]
          have hTail : inner <:+ line.toList := ((suffix_cons '(' inner).trans
              (hInner ▸ (dropWhile_suffix _).trans (dropWhile_suffix _))).trans hSuffix
          obtain ⟨before, hBefore⟩ := hTail
          rw [← hBefore, ← hAll, dropLast_append_of_ne_nil (by simp),
            dropLast_append_of_ne_nil (by simp)]
          exact mem_append_right _ (mem_append_left _ hMem)
    · cases hParams
  · cases hReads
    obtain ⟨hStart, hEnd⟩ := hBodyOf _ _ rfl
    exact ⟨hWord, hUnreserved, hStart, hEnd, by simp⟩

-- Bodies

/- The strands of a body go on after those that are taken. -/
theorem bodyStrandsFrom_eq_drop (skip : Nat) (cs : List Char) :
    bodyStrandsFrom skip cs = bodyStrandsFrom 0 (cs.drop skip) := by
  induction cs generalizing skip with
  | nil => cases skip <;> rfl
  | cons c cs ih =>
    cases skip with
    | zero => rfl
    | succ skip => exact ih skip

/- The first strand of a body, and those after it. A word ends where no letter follows. -/
theorem bodyStrands_cons (hQuote : c ≠ '"') (rest : List Char) : ∃ count,
    bodyStrands (c :: rest) = String.ofList (c :: rest.take count) :: bodyStrands (rest.drop count) ∧
      (isWord c = true → ∀ d ∈ (rest.drop count).head?, isWord d = false) := by
  obtain ⟨count, hCount, hAfter⟩ : ∃ count, bodyStrandLength? c rest = some (count + 1) ∧
      (isWord c = true → ∀ d ∈ (rest.drop count).head?, isWord d = false) := by
    rw [bodyStrandLength?, if_neg hQuote]
    split_ifs with hWord
    · refine ⟨_, rfl, fun _ d hHead => ?_⟩
      have hDrop : rest.drop (rest.takeWhile isWord).length = rest.dropWhile isWord :=
        (congrArg (List.drop _) takeWhile_append_dropWhile.symm).trans drop_left
      have hNot := head?_dropWhile_not isWord rest
      rwa [← hDrop, hHead] at hNot
    · exact ⟨1, rfl, fun hIs => absurd hIs hWord⟩
    · exact ⟨0, rfl, fun hIs => absurd hIs hWord⟩
    · exact ⟨_, rfl, fun hIs => absurd hIs hWord⟩
  refine ⟨count, ?_, hAfter⟩
  rw [bodyStrands, bodyStrandsFrom, hCount]
  simp [bodyStrandsFrom_eq_drop, bodyStrands]

/- Strands of a body without quotes spell it, and none is empty. -/
theorem bodyStrands_spell (hQuote : '"' ∉ cs) :
    Text.concat (bodyStrands cs) = String.ofList cs ∧ ∀ strand ∈ bodyStrands cs, strand ≠ "" := by
  induction hLength : cs.length using Nat.strong_induction_on generalizing cs with
  | _ size ih =>
    subst hLength
    cases cs with
    | nil => exact ⟨rfl, by simp [bodyStrands, bodyStrandsFrom]⟩
    | cons c rest =>
      rw [mem_cons, not_or] at hQuote
      obtain ⟨count, hStrands, -⟩ := bodyStrands_cons (Ne.symm hQuote.1) rest
      obtain ⟨hSpell, hSome⟩ := ih (rest.drop count).length (by simp)
          (fun hMem => hQuote.2 (mem_of_mem_drop hMem)) rfl
      rw [hStrands]
      refine ⟨?_, forall_mem_cons.2 ⟨?_, hSome⟩⟩
      · rw [Text.concat_cons, hSpell, ← String.ofList_append, cons_append, take_append_drop]
      · intro hEmpty
        simpa using congrArg String.toList hEmpty

theorem mem_of_mem_bodyStrands (hQuote : '"' ∉ cs)
    (hStrand : strand ∈ bodyStrands cs) (hMem : c ∈ strand.toList) : c ∈ cs := by
  have hSpell := (bodyStrands_spell hQuote).1
  obtain ⟨before, after, hSplit⟩ := append_of_mem hStrand
  have hChars := congrArg String.toList hSpell
  rw [hSplit, Text.concat_append, Text.concat_cons, String.toList_append, String.toList_append,
    String.toList_ofList] at hChars
  rw [← hChars]
  exact mem_append_right _ (mem_append_left _ hMem)

section

variable {params strands : List String}

/- A strand that is no operator is compiled by itself. -/
theorem Compiler.step_placed (before after : List Piece) (hQuote : strand ≠ "#")
    (hJoin : strand ≠ "##") :
    step params { pieces := (before ++ Piece.text strand :: after).toArray }
        before.length =
      .ok { pieces := (before ++ placed params strand :: after).toArray } := by
  have hPiece : piece { pieces := (before ++ Piece.text strand :: after).toArray }
      before.length = .text strand := by
    simp [piece]
  unfold step
  rw [hPiece]
  by_cases hParam : strand ∈ params
  · simp [countOperand, hQuote, hJoin, hParam, placed, put]
  · simp [countOperand, hQuote, hJoin, hParam, placed]

/- Strands that are no operators are compiled one by one. -/
theorem Compiler.run_placed {before : List String} (after : List Piece)
    (hBefore : ∀ strand ∈ before, strand ≠ "#" ∧ strand ≠ "##") :
    (List.range before.length).foldlM (step params)
        { pieces := (before.map Piece.text ++ after).toArray } =
      .ok { pieces := (before.map (placed params) ++ after).toArray } := by
  induction before using List.reverseRecOn generalizing after with
  | nil => rfl
  | append_singleton before strand ih =>
    have hStrand := hBefore strand (by simp)
    have hStep : step params _ _ = _ :=
      step_placed (before.map (placed params)) after hStrand.1 hStrand.2
    rw [length_append, length_singleton, range_succ, foldlM_append,
      map_append, append_assoc, ih _ fun other hMem => hBefore other (by simp [hMem])]
    rw [length_map] at hStep
    simp [hStep]

/- Without operators a body is compiled strand by strand. -/
theorem compileBody_eq (hStrands : ∀ strand ∈ strands, strand ≠ "" ∧ strand ≠ "#" ∧ strand ≠ "##") :
    compileBody params strands = .ok (strands.map (placed params)) := by
  have hRun := @Compiler.run_placed params _ [] fun strand hMem => (hStrands strand hMem).2
  have hFilled : ∀ piece ∈ strands.map (placed params), decide (piece ≠ Piece.text "") = true := by
    intro piece hMem
    obtain ⟨strand, hStrand, rfl⟩ := mem_map.1 hMem
    have hSome := (hStrands strand hStrand).1
    by_cases hParam : strand ∈ params
    · simp [placed, hParam, place]
    · simp [placed, hParam, hSome]
  rw [append_nil, append_nil] at hRun
  unfold compileBody
  dsimp only
  rw [hRun, Fault.ok_bind, filter_eq_self.2 hFilled]
  rfl

theorem placeName_place (name : String) : placeName (place name) = name := by
  simp [placeName, place, Text.inner]

theorem isPlace_place (name : String) : isPlace (place name) = true := by
  simp [isPlace, place, hasStart, startsWith]

theorem isPlace_eq_false (hSign : '$' ∉ s.toList) : isPlace s = false := by
  by_contra hIs
  rw [Bool.not_eq_false, isPlace, Text.hasStart, Text.startsWith_eq_true_iff] at hIs
  exact hSign (hIs.subset (by decide))

/- What is written for the strands of a body is the body. -/
theorem renderBody_placed (params : List String) (hPlace : ∀ strand ∈ strands, '$' ∉ strand.toList)
    (hWords : ∀ strand ∈ strands, Text.hasStart strand "__CPP" = false) (text : String) :
    renderBody none text (strands.map (placed params)) =
      .ok (text ++ Text.concat strands, none) := by
  induction strands generalizing text with
  | nil => simp [renderBody]
  | cons strand strands ih =>
    rw [forall_mem_cons] at hPlace hWords
    have hLater := ih hPlace.2 hWords.2 (text ++ strand)
    rw [String.append_assoc, ← Text.concat_cons] at hLater
    rw [map_cons, placed, renderBody]
    by_cases hParam : params.contains strand = true
    · rw [if_pos hParam, if_pos (isPlace_place strand), placeName_place]
      exact hLater
    · rw [if_neg hParam, isPlace_eq_false hPlace.1, hWords.1]
      exact hLater

end

-- Lines that are written

theorem paramNames_joinWith (params : List Char) :
    paramNames (joinWith "," (paramNames params)).toList = paramNames params := by
  have hSome : paramNames params ≠ [] := by
    simpa [paramNames] using splitOnChar_ne_nil params
  have hComma : ∀ name ∈ paramNames params, ',' ∉ name.toList := by
    intro name hName hMem
    obtain ⟨field, hField, rfl⟩ := mem_map.1 hName
    rw [String.toList_ofList] at hMem
    exact (mem_of_mem_splitOnChar hField (mem_of_mem_dropEnds hMem)).2 rfl
  have hFields := splitOnChar_joinWith hSome hComma
  change splitOnChar ',' (joinWith "," (paramNames params)).toList = _ at hFields
  rw [paramNames, hFields]
  simp [paramNames, dropEnds_dropEnds]

theorem mem_of_mem_joinWith (hMem : c ∈ (joinWith "," parts).toList) :
    c = ',' ∨ ∃ part ∈ parts, c ∈ part.toList := by
  induction parts with
  | nil => simp [joinWith] at hMem
  | cons first rest ih =>
    cases rest with
    | nil => exact .inr ⟨first, mem_cons_self, hMem⟩
    | cons second rest =>
      rw [joinWith_cons_cons, String.toList_append, String.toList_append, mem_append,
        mem_append] at hMem
      rcases hMem with (hMem | hMem) | hMem
      · exact .inr ⟨first, by simp, hMem⟩
      · exact .inl (by simpa using hMem)
      · rcases ih hMem with rfl | ⟨part, hPart, hMem⟩
        · exact .inl rfl
        · exact .inr ⟨part, mem_cons_of_mem _ hPart, hMem⟩

/- Parameters are written with their own characters and commas. -/
theorem mem_of_mem_joinedParams (hMem : c ∈ (joinWith "," (paramNames params)).toList) :
    c = ',' ∨ c ∈ params := by
  refine (mem_of_mem_joinWith hMem).imp_right ?_
  rintro ⟨part, hPart, hMem⟩
  obtain ⟨field, hField, rfl⟩ := mem_map.1 hPart
  rw [String.toList_ofList] at hMem
  exact (mem_of_mem_splitOnChar hField (mem_of_mem_dropEnds hMem)).1

namespace Definition

variable {definition : Definition}

variable (definition : Definition)

/- The definition that is read from what is written. Its parameters have no white space around them. -/
def written : Definition :=
  { definition with
    paramText := definition.paramText.map (fun params =>
        (joinWith "," (paramNames params)).toList) }

def afterName : String :=
  match definition.paramText with
  | none => " " ++ String.ofList definition.body
  | some params =>
      "(" ++ joinWith "," (paramNames params) ++ ") " ++ String.ofList definition.body

def line : String :=
  "#define " ++ (definition.name ++ definition.afterName)

theorem entry_written : definition.written.entry = definition.entry := by
  rcases definition with ⟨name, _ | params, body⟩
  · rfl
  · simp [written, entry, paramNames_joinWith]

theorem Plain.not_mem_line (hPlain : definition.Plain) : '\n' ∉ definition.line.toList := by
  have hName : '\n' ∉ definition.name.toList := by
    intro hMem
    have hWord := hPlain.word
    rw [isWordText, Bool.and_eq_true, all_eq_true] at hWord
    exact absurd (hWord.2 _ hMem) (by decide)
  have hBody := hPlain.oneLine
  have hParams := hPlain.params
  rcases definition with ⟨name, _ | params, body⟩
  · simp_all [line, afterName]
  · have hJoined : '\n' ∉ (joinWith "," (paramNames params)).toList := by
      intro hMem
      exact (hParams params rfl).2.1 ((mem_of_mem_joinedParams hMem).resolve_left (by decide))
    simp_all [line, afterName]

/- The body behind a blank is read as it is. -/
theorem Plain.body_behind (hPlain : definition.Plain) :
    ((' ' :: definition.body).dropWhile isSpace).takeWhile (· ≠ '\n') = definition.body := by
  rw [dropWhile_cons_of_pos (by decide), hPlain.start, takeWhile_eq_self_iff]
  intro c hMem
  rw [decide_eq_true_eq]
  rintro rfl
  exact hPlain.oneLine hMem

/- What is written for a definition is read as it is, but for the white space around its parameters. -/
theorem Plain.ofText?_line (hPlain : definition.Plain) :
    ofText? (Source.Directive.operandOf definition.line) = some definition.written := by
  have hWord := hPlain.word
  rw [isWordText, Bool.and_eq_true, all_eq_true] at hWord
  obtain ⟨c, rest, hName⟩ := exists_cons_of_ne_nil
    (by simpa using hWord.1 : definition.name.toList ≠ [])
  have hFirst : isWord c = true := hWord.2 c (by simp [hName])
  rw [line, Source.Directive.operandOf_define (by rw [String.toList_append, hName]; rfl) hFirst]
  have hStart : (definition.name ++ definition.afterName).toList.dropWhile (!isWord ·) =
      definition.name.toList ++ definition.afterName.toList := by
    rw [String.toList_append, hName]
    exact dropWhile_cons_of_neg (by simp [hFirst])
  have hBehind := hPlain.body_behind
  unfold ofText?
  dsimp only
  rw [hStart, takeWhile_append_of_pos hWord.2, dropWhile_append_of_pos hWord.2]
  rcases definition with ⟨name, _ | params, body⟩
  · have hAfter : (afterName ⟨name, none, body⟩).toList = ' ' :: body := by
      simp [afterName]
    have hWords : (' ' :: body).takeWhile isWord = [] := rfl
    have hRest : (' ' :: body).dropWhile isWord = ' ' :: body := rfl
    rw [hAfter, hWords, hRest, hBehind, if_neg (by simp [hName])]
    simp [takeParamText?, written]
  · have hParams := hPlain.params params rfl
    set joined := joinWith "," (paramNames params) with hJoined
    have hAfter : (afterName ⟨name, some params, body⟩).toList =
        '(' :: (joined.toList ++ ')' :: ' ' :: body) := by
      simp [afterName, hJoined]
    have hClose : ∀ c ∈ joined.toList, decide (c ≠ ')') = true := by
      intro c hMem
      rw [decide_eq_true_eq]
      rintro rfl
      exact hParams.1 ((mem_of_mem_joinedParams hMem).resolve_left (by decide))
    have hWords : ('(' :: (joined.toList ++ ')' :: ' ' :: body)).takeWhile isWord = [] := rfl
    have hRest : ('(' :: (joined.toList ++ ')' :: ' ' :: body)).dropWhile isWord =
        '(' :: (joined.toList ++ ')' :: ' ' :: body) := rfl
    have hTaken : takeParamText? ('(' :: (joined.toList ++ ')' :: ' ' :: body)) =
        some (joined.toList, ' ' :: body) := by
      rw [takeParamText?, dropWhile_append_of_pos hClose, takeWhile_append_of_pos hClose]
      simp
    rw [hAfter, hWords, hRest, hTaken, if_neg (by simp [hName])]
    dsimp only
    rw [hBehind]
    simp [written, hJoined]

end Definition

-- Tables that are made of definitions

section

variable {α β : Type} {name : String} {value : α} {map : List (String × α)}

theorem filter_assign (keep : String → Bool) (hKeep : keep name = false) :
    (assign name value map).filter (fun item => keep item.1) =
      map.filter (fun item => keep item.1) := by
  induction map with
  | nil => simp [assign, hKeep]
  | cons entry map ih =>
    rw [assign]
    split_ifs with hSame
    · rw [filter_cons_of_neg (by simp [hKeep]), filter_cons_of_neg (by simp [hSame, hKeep])]
    · rw [filter_cons, filter_cons, ih]

/- What a map shows of a key that gets a value, if the other keys show the same as before. -/
theorem map_filter_assign (keep : String → Bool) {f g : String → α → β} (hKeep : keep name = true)
    (hNodup : (map.map Prod.fst).Nodup)
    (hSame : ∀ key value, key ≠ name → f key value = g key value) :
    ((assign name value map).filter (fun item => keep item.1)).map
        (fun item => (item.1, f item.1 item.2)) =
      assign name (f name value) ((map.filter (fun item => keep item.1)).map
          (fun item => (item.1, g item.1 item.2))) := by
  induction map with
  | nil => simp [assign, hKeep]
  | cons entry map ih =>
    rw [map_cons, nodup_cons] at hNodup
    rw [assign]
    split_ifs with hName
    · rw [filter_cons_of_pos (by simpa using hKeep),
        filter_cons_of_pos (by simpa [hName] using hKeep), map_cons, map_cons, assign, if_pos hName]
      congr 1
      refine map_congr_left fun item hItem => ?_
      rw [hSame]
      rintro hKey
      refine hNodup.1 (mem_map.2 ⟨item, ?_, ?_⟩)
      · exact (mem_filter.1 hItem).1
      · rw [hKey, hName]
    · by_cases hEntry : keep entry.1 = true
      · rw [filter_cons_of_pos (by simpa using hEntry),
          filter_cons_of_pos (by simpa using hEntry), map_cons,
          map_cons, assign, if_neg hName, ih hNodup.2, hSame _ _ hName]
      · rw [filter_cons_of_neg (by simpa using hEntry),
          filter_cons_of_neg (by simpa using hEntry), ih hNodup.2]

end

namespace Table

variable {table : Table} {name : String}

/- Tables whose names are all different, whose reserved names are hidden and in which parameters are
  not recorded without bodies. -/
structure Regular (table : Table) : Prop where
  nodup : (table.names.map Prod.fst).Nodup
  records : table.contains paramsName = true →
    table.checkRecord paramsName = .ok () ∧ table.checkRecord bodiesName = .ok ()
  reserved : ∀ item ∈ table.names, hasStart item.1 "__CPP" = isHidden item.1

theorem contains_set (name key : String) (meaning : Meaning) :
    (table.set name meaning).contains key = (decide (name = key) || table.contains key) := by
  rw [contains, find?_set]
  split_ifs with hSame
  · simp [hSame]
  · simp [hSame, contains]

theorem Regular.openRecords (hTable : table.Regular) : table.openRecords.Regular := by
  unfold Table.openRecords
  split_ifs
  · exact hTable
  · refine ⟨nodup_assign (nodup_assign hTable.nodup), fun _ => ?_, fun item hItem => ?_⟩
    · change ((table.set bodiesName .record).set paramsName .record).checkRecord paramsName = _ ∧
        ((table.set bodiesName .record).set paramsName .record).checkRecord bodiesName = _
      simp [checkRecord, find?_set]
    · rcases mem_assign hItem with rfl | hItem
      · decide
      · rcases mem_assign hItem with rfl | hItem
        · decide
        · exact hTable.reserved item hItem

theorem isHidden_of_unreserved (hName : hasStart name "__CPP" = false) : isHidden name = false := by
  by_contra hHidden
  rw [Bool.not_eq_false, isHidden, hasStart, startsWith_eq_true_iff] at hHidden
  have hStart : hasStart name "__CPP" = true := startsWith_eq_true_iff.2
      (List.IsPrefix.trans (by decide) hHidden)
  rw [hName] at hStart
  cases hStart

theorem ne_of_unreserved (hName : hasStart name "__CPP" = false)
    (hRecord : hasStart record "__CPP" = true) : name ≠ record := by
  rintro rfl
  rw [hName] at hRecord
  cases hRecord

theorem contains_set_unreserved (hName : hasStart name "__CPP" = false) (meaning : Meaning) :
    (table.set name meaning).contains paramsName = table.contains paramsName := by
  rw [contains_set, decide_eq_false (ne_of_unreserved hName (by decide)), Bool.false_or]

theorem Regular.set_unreserved (hTable : table.Regular) (hName : hasStart name "__CPP" = false)
    (meaning : Meaning) : (table.set name meaning).Regular := by
  refine ⟨nodup_assign hTable.nodup, fun hParams => ?_, fun item hItem => ?_⟩
  · rw [checkRecord_set _ _ (ne_of_unreserved hName (by decide)),
      checkRecord_set _ _ (ne_of_unreserved hName (by decide))]
    exact hTable.records ((contains_set_unreserved hName meaning).symm.trans hParams)
  · rcases mem_assign hItem with rfl | hItem
    · rw [hName, isHidden_of_unreserved hName]
    · exact hTable.reserved item hItem

theorem Regular.shown_setText (hTable : table.Regular) (hName : hasStart name "__CPP" = false)
    (s : String) : (table.setText name s).shown = assign name (.text s) table.shown := by
  refine map_filter_assign (fun key => !isHidden key)
    (by simp [isHidden_of_unreserved hName]) hTable.nodup ?_
  rintro key (_ | _ | _) hKey
  · rfl
  · simp only [entry, params!, body!, recorded, setText,
      checkRecord_set _ _ (ne_of_unreserved hName (show hasStart paramsName _ = true by decide)),
      checkRecord_set _ _ (ne_of_unreserved hName (show hasStart bodiesName _ = true by decide))]
    rfl
  · rfl

/- The table after a function-like macro is defined. -/
def enter (table : Table) (name : String) (params : Params) (body : Body) : Table :=
  (((table.set name .function).openRecords).setParams name params).setBody name body

theorem Regular.enter (hTable : table.Regular) (hName : hasStart name "__CPP" = false)
    (params : Params) (body : Body) : (table.enter name params body).Regular := by
  have hOpened := (hTable.set_unreserved hName .function).openRecords
  exact ⟨hOpened.nodup, hOpened.records, hOpened.reserved⟩

/- The other parameters and bodies stay, unless there was no record of them. -/
theorem records_openRecords (table : Table) : table.openRecords.contains paramsName = true ∧
    (table.contains paramsName = true → table.openRecords = table) ∧
    (table.contains paramsName = false → table.openRecords.params = []) := by
  unfold openRecords
  split_ifs with hParams
  · simp [hParams]
  · refine ⟨?_, fun hOther => absurd hOther hParams, fun _ => rfl⟩
    change ((table.set bodiesName .record).set paramsName .record).contains paramsName = true
    simp [contains_set]

/- A name that is defined as a function shows its parts. -/
theorem Regular.shown_enter (hTable : table.Regular)
    (hName : hasStart name "__CPP" = false) (params : Params) (body : Body) :
    (table.enter name params body).shown = assign name (.function params body) table.shown := by
  have hRegular := hTable.enter hName params body
  obtain ⟨hRecorded, hKept, hFresh⟩ := records_openRecords (table.set name .function)
  have hOther : (table.set name .function).contains paramsName = table.contains paramsName :=
    contains_set_unreserved hName .function
  obtain ⟨hParams, hBodies⟩ := hRegular.records hRecorded
  have hNames : (table.enter name params body).names.filter (fun item => !isHidden item.1) =
      (assign name .function table.names).filter (fun item => !isHidden item.1) := by
    change (table.set name .function).openRecords.names.filter
      _ = _
    unfold Table.openRecords
    split_ifs
    · rfl
    · refine (filter_assign (fun key => !isHidden key) (by decide)).trans ?_
      exact filter_assign (fun key => !isHidden key) (by decide)
  have hEntry : (table.enter name params body).entry name .function = .function params body := by
    simp only [entry, params!, body!, recorded, hParams, hBodies]
    simp [Table.enter, setBody, setParams, lookup_assign]
  rw [shown, hNames, ← hEntry]
  refine map_filter_assign (fun key => !isHidden key)
    (by simp [isHidden_of_unreserved hName]) hTable.nodup ?_
  rintro key (_ | _ | _) hKey
  · rfl
  · simp only [entry, params!, body!, recorded, hParams, hBodies]
    cases hBefore : table.contains paramsName with
    | true =>
      have hSame := hKept (hOther.trans hBefore)
      obtain ⟨hBoth, hBody⟩ := hTable.records hBefore
      simp [Table.enter, setBody, setParams, lookup_assign, hSame, Ne.symm hKey, hBoth, hBody]
      rfl
    | false =>
      have hNone := hFresh (hOther.trans hBefore)
      have hMissing : table.checkRecord paramsName = .error .missingName := by
        simp_all [checkRecord, contains]
      simp [Table.enter, setBody, setParams, lookup_assign, hNone, Ne.symm hKey, lookup, hMissing]
  · rfl

/- A definition with a plain body enters what it stands for at the place of its name. -/
theorem Regular.define (hTable : table.Regular)
    (hReads : Definition.ofText? (Source.Directive.operandOf line) = some definition)
    (hName : hasStart definition.name "__CPP" = false)
    (hBody : definition.paramText.isSome = true → Definition.PlainBody definition.body) :
    ∃ next, Macro.define line table = (next, .ok ()) ∧ next.Regular ∧ next.shown =
        assign definition.name definition.entry table.shown := by
  unfold Macro.define
  rw [hReads]
  rcases definition with ⟨name, _ | params, body⟩
  · exact ⟨_, rfl, hTable.set_unreserved hName _, hTable.shown_setText hName _⟩
  · obtain ⟨hChars, -⟩ := hBody rfl
    have hQuote : '"' ∉ body := fun hMem => (hChars _ hMem).2.1 rfl
    have hCompile : compileBody (paramNames params) (bodyStrands body) = _ :=
      compileBody_eq fun strand hStrand => by
        have hSign : '#' ∉ strand.toList := fun hMem =>
          (hChars _ (mem_of_mem_bodyStrands hQuote hStrand hMem)).1 rfl
        refine ⟨(bodyStrands_spell hQuote).2 strand hStrand, ?_, ?_⟩
        · rintro rfl
          exact hSign (by decide)
        · rintro rfl
          exact hSign (by decide)
    obtain ⟨hParams, hBodies⟩ := (hTable.set_unreserved hName .function).openRecords.records
      (records_openRecords _).1
    simp only [hParams, hCompile, checkRecord_setParams, hBodies]
    exact ⟨_, rfl, hTable.enter hName _ _, hTable.shown_enter hName _ _⟩

end Table

-- Printing and reading

def defineAll : List String → Table → Except Fault Table
| [], table => .ok table
| line :: rest, table => do
    let (next, result) := define line table
    result
    defineAll rest next

def definitionLines (text : String) : List String := (fields '\n' text).filter (· ≠ "")

section

variable {lines : List String} {table : Table} {definitions : List Definition}

def entries (definitions : List Definition) : List (String × Entry) :=
  definitions.map (fun definition => (definition.name, definition.entry))

/- Definition lines with plain bodies make a table that shows such definitions. -/
theorem defineAll_plain (hLines : ∀ line ∈ lines, ∃ definition, PlainLine line definition)
    (hTable : table.Regular) (hPlain : ∀ definition ∈ definitions, definition.Plain)
    (hShown : table.shown = entries definitions) :
    ∃ next definitions, defineAll lines table = .ok next ∧ next.Regular ∧
        next.shown = entries definitions ∧ ∀ definition ∈ definitions, definition.Plain := by
  induction lines generalizing table definitions with
  | nil => exact ⟨table, definitions, rfl, hTable, hShown, hPlain⟩
  | cons line lines ih =>
    rw [forall_mem_cons] at hLines
    obtain ⟨⟨definition, hLine⟩, hLines⟩ := hLines
    obtain ⟨next, hDefine, hNext, hAssign⟩ := hTable.define hLine.reads hLine.unreserved hLine.body
    have hEntries : ∀ definitions : List Definition, (∀ other ∈ definitions, other.Plain) →
        ∃ others, (∀ other ∈ others, Definition.Plain other) ∧
          assign definition.name definition.entry (entries definitions) = entries others := by
      intro definitions hPlain
      induction definitions with
      | nil => exact ⟨[definition], by simp [hLine.plain], rfl⟩
      | cons first rest ih =>
        rw [forall_mem_cons] at hPlain
        rw [entries, map_cons, assign]
        split_ifs
        · exact ⟨definition :: rest, forall_mem_cons.2 ⟨hLine.plain, hPlain.2⟩, rfl⟩
        · obtain ⟨others, hOthers, hSame⟩ := ih hPlain.2
          refine ⟨first :: others, forall_mem_cons.2 ⟨hPlain.1, hOthers⟩, ?_⟩
          exact congrArg _ hSame
    obtain ⟨others, hOthers, hSame⟩ := hEntries definitions hPlain
    rw [defineAll, hDefine]
    exact ih hLines hNext hOthers (by rw [hAssign, hShown, hSame])

/- The lines of definitions with different names make a table that shows them behind what was there. -/
theorem defineAll_lines (hTable : table.Regular)
    (hPlain : ∀ definition ∈ definitions, definition.Plain)
    (hNames : ((table.shown ++ entries definitions).map Prod.fst).Nodup) :
    ∃ next, defineAll (definitions.map Definition.line) table = .ok next ∧
        next.shown = table.shown ++ entries definitions := by
  induction definitions generalizing table with
  | nil => exact ⟨table, rfl, by simp [entries]⟩
  | cons definition rest ih =>
    rw [forall_mem_cons] at hPlain
    obtain ⟨next, hDefine, hNext, hAssign⟩ := hTable.define
      hPlain.1.ofText?_line hPlain.1.unreserved (by
        intro hSome
        obtain ⟨params, hParams⟩ := Option.isSome_iff_exists.1
          (show definition.paramText.isSome = true by
            simpa [Definition.written] using hSome)
        exact (hPlain.1.params params hParams).2.2)
    have hShown : next.shown = table.shown ++ [(definition.name, definition.entry)] := by
      rw [hAssign, definition.entry_written]
      refine assign_of_not_mem ?_
      rw [map_append, nodup_append] at hNames
      exact fun hMem => hNames.2.2 _ hMem _ (by simp [entries, Definition.written]) rfl
    obtain ⟨last, hLast, hEnd⟩ := ih hNext hPlain.2 (by simpa [hShown, entries] using hNames)
    rw [map_cons, defineAll, hDefine]
    exact ⟨last, hLast, by simp [hEnd, hShown, entries]⟩

theorem renderEntry_eq (hPlain : definition.Plain) (hName : definition.name = name)
    (hEntry : definition.entry = table.entry name meaning) :
    renderEntry table none name meaning = .ok (definition.line, none) := by
  subst hName
  rcases definition with ⟨name, _ | params, body⟩
  · cases meaning with
    | text s =>
      cases hEntry
      simp [renderEntry, Definition.line, Definition.afterName, String.append_assoc]
    | function =>
      rw [Table.entry] at hEntry
      split at hEntry <;> cases hEntry
    | record => cases hEntry
  · cases meaning with
    | text | record => cases hEntry
    | function =>
      rw [Table.entry] at hEntry
      split at hEntry
      · rename_i hParams hBody
        cases hEntry
        obtain ⟨hChars, hWords⟩ := (hPlain.params params rfl).2.2
        have hQuote : '"' ∉ body := fun hMem => (hChars _ hMem).2.1 rfl
        have hRender := renderBody_placed (paramNames params) (fun strand hStrand hMem => (hChars _
            (mem_of_mem_bodyStrands hQuote hStrand hMem)).2.2 rfl)
          hWords ""
        rw [(bodyStrands_spell hQuote).1] at hRender
        simp [renderEntry, hParams, hBody, writtenPieces, hRender,
          Definition.line, Definition.afterName, Params.toList, String.append_assoc]
      · cases hEntry

theorem renderEntries_eq (hReserved : ∀ item ∈ items,
    hasStart item.1 "__CPP" = Table.isHidden item.1)
    (hPlain : ∀ definition ∈ definitions, definition.Plain)
    (hItems : (items.filter (fun item => !Table.isHidden item.1)).map
        (fun item => (item.1, table.entry item.1 item.2)) = entries definitions) :
    renderEntries table none items = .ok (definitions.map Definition.line) := by
  induction items generalizing definitions with
  | nil =>
    rw [filter_nil, map_nil, entries, eq_comm, map_eq_nil_iff] at hItems
    rw [hItems]
    rfl
  | cons item items ih =>
    rw [forall_mem_cons] at hReserved
    rcases item with ⟨name, meaning⟩
    rw [renderEntries]
    cases hHidden : Table.isHidden name with
    | true =>
      rw [if_pos (hReserved.1.trans hHidden)]
      rw [filter_cons_of_neg (by simp [hHidden])] at hItems
      exact ih hReserved.2 hPlain hItems
    | false =>
      rw [if_neg (by simp [hReserved.1, hHidden])]
      rw [filter_cons_of_pos (by simp [hHidden]), map_cons, entries, eq_comm,
        map_eq_cons_iff] at hItems
      obtain ⟨definition, rest, rfl, hFirst, hRest⟩ := hItems
      rw [forall_mem_cons] at hPlain
      obtain ⟨hName, hEntry⟩ := Prod.mk.inj hFirst
      rw [renderEntry_eq hPlain.1 hName hEntry, Fault.ok_bind]
      dsimp only
      rw [ih hReserved.2 hPlain.2 hRest.symm]
      rfl

theorem definitionLines_joinWith (hLines : ∀ line ∈ lines, line ≠ "" ∧ '\n' ∉ line.toList) :
    definitionLines (joinWith "\n" lines) = lines := by
  unfold definitionLines fields
  cases lines with
  | nil => decide
  | cons first rest =>
    have hFields : splitOnChar '\n' (joinWith "\n" (first :: rest)).toList = _ :=
      splitOnChar_joinWith (cons_ne_nil first rest) fun line hMem => (hLines line hMem).2
    rw [hFields, map_map]
    simp only [Function.comp_def, String.ofList_toList, map_id']
    refine filter_eq_self.2 fun line hMem => ?_
    simpa using (hLines line hMem).1

end

/-
  Definitions survive being written and read again: the table that definition lines make can be
  written, and the lines that are written make a table that shows the same names in the same order,
  each with the same text or the same parameters and body.
-/
theorem shown_defineAll_render
    {lines : List String}
    (hLines :
      ∀ line ∈ lines, ∃ definition, PlainLine line definition) :
    ∃ table text again,
      defineAll lines {} = .ok table ∧
        render table = .ok text ∧
        defineAll (definitionLines text) {} = .ok again ∧
        again.shown = table.shown ∧
        ∀ item ∈ table.shown, item.2 ≠ .none := by
  have hEmpty : Table.Regular {} := ⟨by simp, by decide, by simp⟩
  obtain ⟨table, definitions, hTable, hRegular, hShown, hPlain⟩ := defineAll_plain hLines hEmpty
      (show ∀ definition ∈ [], Definition.Plain definition by simp)
      rfl
  have hNames : ((entries definitions).map Prod.fst).Nodup := by
    rw [← hShown, Table.shown, List.map_map]
    exact hRegular.nodup.sublist (List.filter_sublist.map Prod.fst)
  obtain ⟨again, hAgain, hSame⟩ := defineAll_lines hEmpty hPlain hNames
  have hLine : ∀ line ∈ definitions.map Definition.line, line ≠ "" ∧ '\n' ∉ line.toList := by
    intro line hMem
    obtain ⟨definition, hDefinition, rfl⟩ := List.mem_map.1 hMem
    refine ⟨?_, (hPlain definition hDefinition).not_mem_line⟩
    simp [Definition.line]
  refine ⟨table, Text.joinWith "\n" (definitions.map Definition.line), again,
    hTable, ?_, ?_, ?_, ?_⟩
  · rw [render, renderEntries_eq hRegular.reserved hPlain hShown]
    rfl
  · rw [definitionLines_joinWith hLine]
    exact hAgain
  · exact hSame.trans hShown.symm
  · intro item hMem
    rw [hShown] at hMem
    obtain ⟨definition, -, rfl⟩ := List.mem_map.1 hMem
    rcases definition with ⟨name, _ | params, body⟩ <;>
      simp [Definition.entry]

theorem shown_defineAll_render_redefined :
    ∃ table text again,
      defineAll
          ["#define N (x)", "#define F 3\n",
            "#define F( x, ...) (x)+y"] {} = .ok table ∧
        render table = .ok text ∧
        defineAll (definitionLines text) {} = .ok again ∧
        again.shown = table.shown ∧
        ∀ item ∈ table.shown, item.2 ≠ .none := by
  refine shown_defineAll_render ?_
  simp only [List.forall_mem_cons]
  refine ⟨⟨⟨"N", none, "(x)".toList⟩, ?_⟩, ⟨⟨"F", none, "3".toList⟩, ?_⟩,
    ⟨⟨"F", some " x, ...".toList, "(x)+y".toList⟩, ?_⟩, by simp⟩
  · exact ⟨by decide, by decide, by decide, by simp⟩
  · exact ⟨by decide, by decide, by decide, by simp⟩
  · have hChars : "(x)+y".toList.all
          (fun c => c ≠ '#' && c ≠ '"' && c ≠ '$') = true := by
      decide
    refine ⟨by decide, by decide, by decide, fun _ => ⟨?_, ?_⟩⟩
    · intro c hMem
      simpa [and_assoc] using List.all_eq_true.1 hChars c hMem
    · decide

/- A function that becomes a text leaves its parameters and its body in the table. They are not
  written and so not read again. -/
theorem defineAll_render_leftover :
    ∃ table again, defineAll ["#define F(x) x", "#define F 3"] {} = .ok table ∧
      render table = .ok "#define F 3" ∧
      defineAll (definitionLines "#define F 3") {} = .ok again ∧
      (lookup table.params "F").isSome ∧ (lookup table.bodies "F").isSome ∧
      again.params = [] ∧ again.bodies = [] :=
  ⟨_, _, rfl, rfl, rfl, rfl, rfl, rfl, rfl⟩

end Macro

end CHeader
