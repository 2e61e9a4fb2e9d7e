import CHeader.Proofs.Macro.CallLine
import CHeader.Proofs.Macro.Calls

/-
  Quoted parameters.

  A call of a macro whose body quotes its parameter becomes a call of the quoting operator on the
  argument as it is written, which the next pass replaces by a string literal. Nothing in the
  argument is expanded, and the literal stands for the argument.

  Main declarations:
    * `Macro.Entered`
    * `Macro.exec_expandTokens_operator`
    * `Macro.exec_expandLine_quoted`
-/

namespace CHeader

open List

namespace Macro

open Source (Run Session exec exec_bind exec_bind_getTable exec_lift exec_pure)

open Text

variable {s param arg : String} {c : Char} {rest : List Char}

-- Macros as definitions enter them

/- A function-like macro with the body that its definition is compiled to. -/
structure Entered (table : Table) (name : String) (params : List String) (body : List Char) :
    Prop where
  word : isWordText name = true
  ordinary : name ≠ quoteName ∧ name ≠ joinName
  isFunction : table.find? name = some .function
  hasParams : table.params! name = .ok (.names params)
  hasBody : ∃ pieces, compileBody params (bodyStrands body) = .ok pieces ∧
    table.body! name = .ok (.pieces pieces)

/- The strands of a body without operators and strings. -/
theorem plain_bodyStrands (hChars : '"' ∉ body ∧ '#' ∉ body ∧ '$' ∉ body) :
    ∀ s ∈ bodyStrands body, s ≠ "" ∧ '$' ∉ s.toList ∧ s ≠ "#" ∧ s ≠ "##" := by
  intro s hMem
  have hIn : ∀ c ∈ s.toList, c ∈ body := fun c => mem_of_mem_bodyStrands hChars.1 hMem
  refine ⟨(bodyStrands_spell hChars.1).2 s hMem, fun hSign => hChars.2.2 (hIn _ hSign), ?_, ?_⟩ <;>
  · rintro rfl
    exact hChars.2.1 (hIn '#' (by decide))

section

variable {ahead : String → Run String} {expander : Expander} {session : Session}
variable {name : String} {params args expanded : List String} {body : List Char}
variable {table : Table} {operator text : String} {parts : List String}

/- The tokens for a call whose arguments are expanded. -/
theorem Entered.exec_expandCall {pieces : List Piece} {list : List Token}
    (hMacro : Entered session.table name params body)
    (hCompile : compileBody params (bodyStrands body) = .ok pieces) (hFixed : "..." ∉ params)
    (hSome : args ≠ []) (hArgs : ∀ arg ∈ args, Enclosed false (lexemes arg))
    (hExpanded : exec (expandArguments expander (.pieces pieces) (args.map asArgument) params)
      session = (.ok expanded, session)) (hFilled : fillPieces session.table
      (some (bindArguments params (args.map asArgument) expanded)) [name] pieces = .ok list)
    (call : Token) (hText : call.text = "(" ++ joinWith "," args ++ ")")
    (hPainted : call.painted = []) :
    exec (expandCall expander name call) session = (.ok (list, [name]), session) := by
  obtain ⟨found, hFound, hBody⟩ := hMacro.hasBody
  cases hFound.symm.trans hCompile
  have hInner : Text.inner 1 call.text = joinWith "," args := by
    simp [hText, Text.inner]
  refine Macro.exec_expandCall hMacro.ordinary.1 hMacro.ordinary.2 hBody hMacro.hasParams hFixed
    ?_ hExpanded ?_
  · rw [hInner, splitArguments_joinWith hSome hArgs]
  · rw [hPainted]
    exact hFilled

/- Arguments that a body does not use are not expanded. -/
theorem exec_expandArguments_unused (hUnused : ∀ param ∈ params, place param ∉ meaning.texts)
    (written : List String) :
    exec (expandArguments expander meaning written params) session =
      (.ok ((written.zip params).map fun _ => ""), session) := by
  unfold expandArguments
  have hAll : ∀ entry ∈ written.zip params, meaning.texts.contains (place entry.2) = false := by
    rintro ⟨_, param⟩ hMem
    simpa using hUnused param (of_mem_zip hMem).2
  generalize written.zip params = entries at hAll ⊢
  induction entries with
  | nil => rfl
  | cons entry entries ih =>
    rw [forall_mem_cons] at hAll
    rw [mapM_cons, exec_bind]
    dsimp only
    rw [hAll.1, if_neg (by decide), exec_pure]
    dsimp only
    rw [exec_bind, ih hAll.2]
    rfl

-- Operators

theorem isPlace_of_word (hWord : isWordText s = true) : isPlace s = false :=
  isPlace_eq_false fun hSign => absurd ((isWordText_iff.1 hWord).2 '$' hSign) (by decide)

theorem fillPieces_operator {arguments : Arguments} {filled : List String}
    (hWord : isWordText operator = true)
    (hParts : parts.mapM (fillOperand arguments) = .ok filled) (painted : List String) :
    fillPieces table arguments painted [.text operator, .operands parts] =
      .ok [Token.ofPiece painted operator, Token.ofStrand painted (.call filled none)] := by
  simp [fillPieces, fillPiece, isPlace_of_word hWord, hParts, addNames]
  rfl

theorem fillPieces_plain (hPlace : isPlace text = false) (painted : List String) :
    fillPieces table none painted [.text text] = .ok [Token.ofPiece painted text] := by
  simp [fillPieces, fillPiece, hPlace]
  rfl

theorem place_notMem {texts : List String}
    (hTexts : ∀ s ∈ texts, isPlace s = false ∨ ∃ other, s = place other ∧ other ≠ param) :
    place param ∉ texts := by
  intro hMem
  rcases hTexts _ hMem with hPlain | ⟨other, hSame, hOther⟩
  · exact absurd (hPlain.symm.trans (isPlace_place param)) (by decide)
  · have hName := congrArg placeName hSame
    rw [placeName_place, placeName_place] at hName
    exact hOther hName.symm

/- A call of an operator is replaced by one token, which is at rest. -/
theorem exec_expandTokens_operator (hWord : isWordText operator = true)
    (hFind : session.table.find? operator = some .function)
    (hPainted : painted.contains operator = false)
    (hExpand : exec (expandCall (expandTokens ahead (depth + 1)) operator
      (Token.ofStrand painted (.call inside none))) session =
        (.ok ([Token.ofPiece above text], names), session))
    (hUnnamed : session.table.contains text = false) (line : String) :
    ∃ done, exec (expandTokens ahead (depth + 2) line [Token.ofPiece painted operator,
        Token.ofStrand painted (.call inside none)] false) session = (.ok done, session) ∧
      spell done = text := by
  have hInert : ∀ token ∈ [Token.ofPiece above text], Inert session.table token := by
    simpa using inert_ofPiece above hUnnamed
  have hSettles : Settles ahead session (depth + 1) _ _ := settles_inert hInert
  obtain ⟨done, hDone, hSpell⟩ := hSettles.exec_expandTokens (spell [Token.ofPiece above text])
  have hScan : exec (scanTokens (expandTokens ahead (depth + 1)) ahead false { line := line }
      (Token.ofPiece painted operator :: ([] ++ [_]))) session = _ :=
    exec_scanTokens_call hWord hFind rfl rfl rfl hPainted (by simp) ⟨rfl, rfl, rfl⟩ hExpand []
  rw [scanTokens_nil, exec_pure, nil_append] at hScan
  refine ⟨done, ?_, hSpell.trans (by simp [spell, Token.ofPiece, Token.ofStrand, Strand.spelling])⟩
  rw [expandTokens, expandOnce, exec_bind, hScan]
  simp only [if_true, append_nil, reverse_reverse]
  rw [exec_bind_getTable]
  rw [exec_bind, regroup_inert hInert]
  exact hDone

/- The whole expansion of a call whose body is one operator. -/
theorem Entered.exec_expandLine_operator {filled : List String}
    (hMacro : Entered session.table name params body)
    (hCompile : compileBody params (bodyStrands body) = .ok [.text operator, .operands parts])
    (hFixed : "..." ∉ params) (hSome : args ≠ [])
    (hArgs : ∀ arg ∈ args, Enclosed false (lexemes arg))
    (hUnused : ∀ param ∈ params, place param ∉ operator :: parts)
    (hParts : ∀ expanded, parts.mapM (fillOperand
      (some (bindArguments params (args.map asArgument) expanded))) = .ok filled)
    (hOpen : "(" ∉ filled) (hWord : isWordText operator = true) (hOther : operator ≠ name)
    (hFind : session.table.find? operator = some .function)
    (hExpand : ∃ above names, exec (expandCall (expandTokens ahead (limit + 1)) operator
      (Token.ofStrand [name] (.call filled none))) session =
        (.ok ([Token.ofPiece above text], names), session))
    (hUnnamed : session.table.contains text = false) :
    exec (expandLine (limit + 3) ahead (callText name args)) session = (.ok text, session) := by
  obtain ⟨above, names, hExpand⟩ := hExpand
  have hTexts : ∀ param ∈ params, place param ∉
      (Body.pieces [.text operator, .operands parts]).texts := by
    simpa [Body.texts] using hUnused
  have hList : ∀ call : Token, call.text = "(" ++ joinWith "," args ++ ")" →
      call.painted = [] →
        exec (expandCall (expandTokens ahead (limit + 2)) name call) session = _ :=
    hMacro.exec_expandCall hCompile hFixed hSome hArgs (exec_expandArguments_unused hTexts _)
      (fillPieces_operator hWord (hParts _) [name])
  have hSign : '(' ∉ operator.toList := fun hMem =>
    absurd ((isWordText_iff.1 hWord).2 '(' hMem) (by decide)
  have hGroup : regroup session.table [Token.ofPiece [name] operator,
      Token.ofStrand [name] (.call filled none)] = .ok ([Token.ofPiece [name] operator,
        Token.ofStrand [name] (.call filled none)], false) := by
    rw [regroup, foldlM_cons, Grouping.step_of_not_mentions rfl
      (by simpa [Token.ofPiece, Token.ofStrand, Strand.mentions] using hSign)]
    change (List.foldlM _ _ [_] >>= _) = _
    rw [foldlM_cons, Grouping.step_of_not_mentions rfl
      (by simpa [Token.ofStrand, Strand.mentions] using hOpen)]
    rfl
  obtain ⟨done, hDone, hSpell⟩ := exec_expandTokens_operator hWord hFind (by simpa using hOther)
    hExpand hUnnamed _
  rw [exec_expandLine_callText hMacro.word hMacro.isFunction hArgs hList hGroup hDone, hSpell]

/- An operand that is a parameter is its argument as it is written. -/
theorem fillOperand_rawPlace (hFixed : "..." ∉ params) (hCount : written.length = params.length)
    (hApart : ∀ p ∈ params, ∀ q ∈ params, p ≠ "__" ++ q) (hParam : param ∈ params) :
    fillOperand (some (bindArguments params written expanded)) (rawPlace param) =
      .ok (filled params written param) := by
  have hZip : (params.map ("__" ++ ·)).zip written =
      (params.zip written).map (Prod.map ("__" ++ ·) id) := by
    rw [← zip_map_left]
  have hKey : ∀ list : List (String × String), lookup (list.map (Prod.map ("__" ++ ·) id))
      ("__" ++ param) = lookup list param := by
    intro list
    induction list with
    | nil => rfl
    | cons entry list ih => simp [lookup, ih]
  have hOther : lookup (params.zip expanded).reverse ("__" ++ param) = none := by
    cases hFound : lookup (params.zip expanded).reverse ("__" ++ param) with
    | none => rfl
    | some value =>
      exact absurd rfl (hApart _ (of_mem_zip (mem_reverse.1 (mem_of_lookup hFound))).1
        param hParam)
  obtain ⟨value, hValue⟩ : ∃ value, lookup (params.zip written).reverse param = some value :=
    exists_lookup (by simpa [map_fst_zip (Nat.le_of_eq hCount.symm)] using hParam)
  have hFound : argument (some (bound params written expanded)) ("__" ++ param) = .ok value := by
    rw [argument, bound, hZip, reverse_append, lookup_append, hOther, ← map_reverse, hKey,
      hValue]
    rfl
  have hHas : hasArgument (some (bound params written expanded)) ("__" ++ param) = .ok true := by
    have hMem := mem_map_of_mem (f := Prod.map ("__" ++ ·) id)
      (mem_reverse.1 (mem_of_lookup hValue))
    rw [hasArgument, bound, hZip, any_append, Bool.or_eq_true_iff.2 (.inl
      (any_eq_true.2 ⟨_, hMem, by simp⟩))]
  have hEnd : (rawPlace param).toList.getLast? = some '\x7d' := by
    simp [rawPlace, place, List.getLast?_cons]
  rw [bindArguments_eq_bound hFixed hCount, fillOperand, if_pos ⟨isPlace_place _, hEnd⟩, rawPlace,
    placeName_place, hHas]
  simp [hFound, filled, hValue]

end

-- Strands of bodies

theorem isSpaceText_of_word (hWord : isWordText s = true) : isSpaceText s = false := by
  obtain ⟨hSome, hAll⟩ := isWordText_iff.1 hWord
  obtain ⟨c, rest, hChars⟩ := exists_cons_of_ne_nil hSome
  have hOther : isSpace c = false := by
    by_contra hSpace
    have hLetter := hAll c (by simp [hChars])
    rw [not_isWord_of_isSpace (by simpa using hSpace)] at hLetter
    cases hLetter
  simp [isSpaceText, hChars, hOther]

theorem bodyStrands_append_run (hLength : bodyStrandLength? c (cs ++ rest) = some (cs.length + 1)) :
    bodyStrands (c :: (cs ++ rest)) = String.ofList (c :: cs) :: bodyStrands rest := by
  rw [bodyStrands, bodyStrandsFrom, hLength]
  simp [bodyStrandsFrom_eq_drop, bodyStrands]

theorem bodyStrands_append_word (hWord : isWordText word = true)
    (hRest : ∀ c ∈ rest.head?, isWord c = false) :
    bodyStrands (word.toList ++ rest) = word :: bodyStrands rest := by
  obtain ⟨hSome, hAll⟩ := isWordText_iff.1 hWord
  obtain ⟨c, cs, hChars⟩ := exists_cons_of_ne_nil hSome
  rw [hChars, forall_mem_cons] at hAll
  have hMarks : c ≠ '"' ∧ c ≠ '#' := by
    refine ⟨?_, ?_⟩ <;> rintro rfl <;> exact absurd hAll.1 (by decide)
  have hRun : (cs ++ rest).takeWhile isWord = cs := by
    rw [takeWhile_append_of_pos hAll.2]
    cases rest with
    | nil => simp
    | cons d rest => simp [hRest d rfl]
  rw [hChars, cons_append, bodyStrands_append_run
    (by simp [bodyStrandLength?, hMarks, hAll.1, hRun]), ← hChars, String.ofList_toList]

-- Quoting

/- A parameter that is quoted becomes an operand of the quoting operator. -/
theorem compileBody_quoted (hWord : isWordText param = true) :
    compileBody [param] (bodyStrands ('#' :: param.toList)) =
      .ok [.text quoteName, .operands [rawPlace param]] := by
  have hStrand := @bodyStrands_append_word [] _ hWord (by simp)
  have hHead : param.toList.head? ≠ some '#' := fun hSign => absurd
    ((isWordText_iff.1 hWord).2 '#' (mem_of_mem_head? hSign)) (by decide)
  have hSpace := isSpaceText_of_word hWord
  rw [append_nil] at hStrand
  have hStrands : bodyStrands ('#' :: param.toList) = ["#", param] := by
    have hSign : bodyStrandLength? '#' param.toList = some 1 := by
      simp [bodyStrandLength?, hHead, show isWord '#' = false by decide]
    exact (@bodyStrands_append_run _ _ [] hSign).trans (congrArg (_ :: ·) hStrand)
  rw [hStrands]
  simp [compileBody, range_succ, Compiler.step, Compiler.piece, Compiler.countOperand,
    Compiler.quoteSign, Compiler.spacesEnd, Compiler.isSpacePiece, hSpace, Compiler.blankRange,
    Compiler.put, show quoteName ≠ "" by decide]

/- What backslashes stand before, without them. -/
def unescape : List Char → List Char
| '\\' :: c :: rest => c :: unescape rest
| c :: rest => c :: unescape rest
| [] => []

/- A literal stands for the text that it quotes. -/
theorem unescape_quote (s : String) : unescape (Text.inner 1 (quote s)).toList = s.toList := by
  have hInner : (Text.inner 1 (quote s)).toList = s.toList.flatMap
      fun c => if c = '\\' ∨ c = '"' then ['\\', c] else [c] := by
    simp [Text.inner, quote]
  rw [hInner]
  induction s.toList with
  | nil => rfl
  | cons c cs ih =>
    rw [flatMap_cons]
    split_ifs with hMark
    · exact congrArg (c :: ·) ih
    · rw [not_or] at hMark
      rw [singleton_append, unescape, ih]
      exact fun _ _ hSlash => absurd hSlash hMark.1

/- In a closed text no parenthesis stands alone. -/
theorem Enclosed.not_open (hList : Enclosed commas list) (hOpen : "(" ∈ list) :
    ")" ∈ list ∨ "\"" ∈ list := by
  induction hList with
  | nil => cases hOpen
  | text hPlain _ _ ih =>
    rcases ih ((mem_cons.1 hOpen).resolve_left (Ne.symm hPlain.1)) with hMem | hMem
    · exact .inl (mem_cons_of_mem _ hMem)
    · exact .inr (mem_cons_of_mem _ hMem)
  | string => exact .inr mem_cons_self
  | paren => simp

theorem mem_asArgument (hMem : c ∈ (collapsed arg).toList)
    (hOther : isSpace c = false) : c ∈ (asArgument arg).toList := by
  have hDrop : ∀ cs : List Char, c ∈ cs → c ∈ cs.dropWhile isSpace := by
    intro cs hIn
    rw [← takeWhile_append_dropWhile (p := isSpace) (l := cs), mem_append] at hIn
    refine hIn.resolve_left fun hTake => ?_
    rw [mem_takeWhile_imp hTake] at hOther
    cases hOther
  simpa [asArgument, Text.trim, dropEnds, dropEnd] using
    hDrop _ (mem_reverse.2 (hDrop _ hMem))

theorem asArgument_ne_paren (hArg : Enclosed false (lexemes arg)) : asArgument arg ≠ "(" := by
  intro hParen
  have hChars : ∀ s ∈ lexemes (collapsed arg), ∀ c ∈ s.toList, c ∈ (collapsed arg).toList := by
    intro s hMem c hc
    rw [← concat_lexemes (collapsed arg)]
    exact mem_concat.2 ⟨s, hMem, hc⟩
  have hOpen : "(" ∈ lexemes (collapsed arg) := by
    have hMem : '(' ∈ (collapsed arg).toList := by
      have hIn : '(' ∈ (asArgument arg).toList := by simp [hParen]
      rw [asArgument, Text.trim, String.toList_ofList] at hIn
      exact mem_of_mem_dropEnds hIn
    rw [← concat_lexemes (collapsed arg)] at hMem
    obtain ⟨s, hIn, hc⟩ := mem_concat.1 hMem
    obtain rfl := (isLexeme_of_mem hIn).alone '(' (by decide) hc
    exact hIn
  have hClosed := hArg.map_singleBlank
  rw [← lexemes_collapsed] at hClosed
  rcases hClosed.not_open hOpen with hMem | hMem
  · have hIn := mem_asArgument (hChars _ hMem ')' (by simp)) (by decide)
    simp [hParen] at hIn
  · have hIn := mem_asArgument (hChars _ hMem '"' (by simp)) (by decide)
    simp [hParen] at hIn

/-
  A call of a macro that quotes its parameter is expanded to the literal for its argument as it is
  written, white space apart. The literal stands for just that text.
-/
theorem exec_expandLine_quoted
    (limit : Nat)
    (ahead : String → Run String)
    (session : Session)
    (name param arg : String)
    (hWorded : session.table.Worded)
    (hQuote : session.table.find? quoteName = some .function)
    (hMacro : Entered session.table name [param] ('#' :: param.toList))
    (hParam : isWordText param = true)
    (hArg : Enclosed false (lexemes arg)) :
    exec (expandLine (limit + 3) ahead (callText name [arg])) session =
        (.ok (quote (asArgument arg)), session) ∧
      unescape (Text.inner 1 (quote (asArgument arg))).toList = (asArgument arg).toList := by
  have hApart : "__" ++ param ≠ param := fun hSame => by
    have hLength := congrArg String.length hSame
    simp at hLength
  have hFixed : "..." ∉ [param] := by
    rw [List.mem_singleton]
    rintro rfl
    exact absurd hParam (by decide)
  have hUnnamed : session.table.contains (quote (asArgument arg)) = false := by
    by_contra hName
    have hWord := hWorded _ (by simpa using hName)
    rw [not_isWordText_of_mark (c := '"') (by decide) (by simp [quote])] at hWord
    cases hWord
  have hOpen : "(" ∉ [asArgument arg] := by simpa using (asArgument_ne_paren hArg).symm
  refine ⟨hMacro.exec_expandLine_operator (compileBody_quoted hParam) hFixed (by simp)
    (by simpa using hArg) (List.forall_mem_singleton.2 (place_notMem ?_)) (fun expanded => ?_)
    hOpen (by decide) hMacro.ordinary.1.symm hQuote ⟨addName quoteName [name], [quoteName], ?_⟩
    hUnnamed, unescape_quote _⟩
  · simp only [List.forall_mem_cons]
    exact ⟨.inl (by decide), .inr ⟨_, rfl, hApart⟩, by simp⟩
  · have hRaw : fillOperand (some (bindArguments [param] [asArgument arg] expanded))
        (rawPlace param) = .ok (filled [param] [asArgument arg] param) :=
      fillOperand_rawPlace hFixed (by simp) (by simpa using hApart.symm) (by simp)
    simp [hRaw, filled, lookup]
  · have hText : Text.trim (Text.inner 1 (Token.ofStrand [name]
        (.call [asArgument arg] none)).text) = asArgument arg := by
      simp [Token.ofStrand, Strand.spelling, Text.inner, asArgument, Text.trim,
        dropEnds_dropEnds]
    have hPlace : isPlace (quote (asArgument arg)) = false := by
      simp [isPlace, quote, hasStart, startsWith]
    rw [expandCall, hText, if_pos rfl, exec_bind_getTable]
    rw [exec_bind, exec_lift, fillPieces_plain hPlace]
    rfl

/- The table after `#define S(x) #x` and `#define A 1`. -/
def quoteTable : Table where
  names := [("A", .text "1"), ("S", .function), (quoteName, .function), (paramsName, .record),
    (bodiesName, .record)]
  params := [("S", .names ["x"])]
  bodies := [("S", .pieces [.text quoteName, .operands [rawPlace "x"]])]

theorem exec_expandLine_quoted_call :
    exec (expandLine 3 pure "S( A  (x, \"a)\\n\"))") { table := quoteTable } =
      (.ok "\"A (x, \\\"a)\\\\n\\\")\"", { table := quoteTable }) := by
  have hInner : Enclosed true ["x", ",", " ", "\"", "a", ")", "\\", "n", "\""] :=
    .text (by decide) (.inl rfl) (.text (by decide) (.inl rfl) (.text (by decide) (.inl rfl)
      (@Enclosed.string _ ["a", ")", "\\", "n", "\""] _ (by decide) .nil)))
  have hArg : Enclosed false [" ", "A", "  ", "(", "x", ",", " ", "\"", "a", ")", "\\", "n",
      "\"", ")"] :=
    .text (by decide) (.inr (by decide)) (.text (by decide) (.inr (by decide))
      (.text (by decide) (.inr (by decide)) (.paren hInner .nil)))
  have hLexemes : lexemes " A  (x, \"a)\\n\")" = [" ", "A", "  ", "(", "x", ",", " ", "\"", "a",
      ")", "\\", "n", "\"", ")"] := by decide +kernel
  exact (exec_expandLine_quoted 0 pure { table := quoteTable } "S" "x" " A  (x, \"a)\\n\")"
    (Table.worded_of_all (by decide)) rfl ⟨by decide, by decide, rfl, rfl, _,
      compileBody_quoted (by decide), rfl⟩ (by decide)
    (hLexemes ▸ hArg)).1

end Macro

end CHeader
