import CHeader.Proofs.Macro.Operators

/-
  Strings in the arguments of a call.

  A string in an argument is passed on as one piece, whatever stands in it, but white space in it is
  made single blanks like that of the rest of the argument.

  Main declarations:
    * `Text.collapseSpaces_eq_iff`
    * `Macro.exec_expandLine_literals`
-/

namespace CHeader

open List Text

namespace Text

/- White space on both sides of another character is made single blanks apart. -/
theorem collapseSpaces_append (hOther : isSpace c = false) (first rest : List Char) :
    collapseSpaces (first ++ c :: rest) = collapseSpaces first ++ c :: collapseSpaces rest := by
  induction first with
  | nil => exact collapseSpaces_of_not_isSpace hOther rest
  | cons d first ih =>
    cases hSpace : isSpace d with
    | false =>
      rw [cons_append, collapseSpaces_of_not_isSpace hSpace, ih,
        collapseSpaces_of_not_isSpace hSpace, cons_append]
    | true =>
      cases first with
      | nil => simp [collapseSpaces, hSpace, hOther, collapseSpaces_of_not_isSpace]
      | cons e first =>
        rw [cons_append, cons_append, collapseSpaces, collapseSpaces, ← cons_append, ih]
        split_ifs <;> rfl

def SingleBlanks (cs : List Char) : Prop :=
  (∀ c ∈ cs, isSpace c = true → c = ' ') ∧
    cs.IsChain fun first second => isSpace first = true → isSpace second = false

theorem length_collapseSpaces_le (cs : List Char) : (collapseSpaces cs).length ≤ cs.length := by
  fun_induction collapseSpaces cs <;> simp_all
  omega

/- Only texts with single blanks stay as they are. -/
theorem collapseSpaces_eq_iff (cs : List Char) : collapseSpaces cs = cs ↔ SingleBlanks cs := by
  fun_induction collapseSpaces cs with
  | case1 => simp [SingleBlanks]
  | case2 c hSpace =>
    rw [eq_comm]
    simp [SingleBlanks, hSpace]
  | case3 c hSpace => simp [SingleBlanks, hSpace]
  | case4 c d rest hSpace hNext _ =>
    refine ⟨fun hSame => ?_, fun hBlanks => ?_⟩
    · have hLength := length_collapseSpaces_le (d :: rest)
      rw [hSame] at hLength
      simp at hLength
    · have hOther := (isChain_cons_cons.1 hBlanks.2).1 hSpace
      exact absurd (hOther.symm.trans hNext) (by decide)
  | case5 c d rest hSpace hNext ih =>
    rw [cons_eq_cons, eq_comm, ih]
    simp [SingleBlanks, hSpace, hNext, and_assoc]
  | case6 c d rest hSpace ih =>
    simp [ih, SingleBlanks, hSpace]

end Text

namespace Macro

open Source (Run Session exec)

/- A string in an argument is kept, with single blanks. -/
theorem asArgument_string (before content after : String) : ∃ front back,
    asArgument (before ++ ("\"" ++ (content ++ ("\"" ++ after)))) =
      front ++ ("\"" ++ (collapsed content ++ ("\"" ++ back))) := by
  have hQuote : isSpace '"' = false := by decide
  have hDrop : ∀ cs rest : List Char, (cs ++ '"' :: rest).dropWhile isSpace =
      cs.dropWhile isSpace ++ '"' :: rest := by
    intro cs rest
    induction cs with
    | nil => simp [hQuote]
    | cons c cs ih => cases hSpace : isSpace c <;> simp [hSpace, ih]
  refine ⟨String.ofList ((collapseSpaces before.toList).dropWhile isSpace),
    String.ofList (dropEnd isSpace (collapseSpaces after.toList)), ?_⟩
  simp [asArgument, collapsed, trim, dropEnds, dropEnd,
    collapseSpaces_append hQuote, hDrop]

/-
  A call whose arguments name no macro outside of strings is expanded to the body with the arguments
  in it. So every string of an argument stands wherever its parameter did, with single blanks for
  white space, and it is the same string only if there was no other white space in it.
-/
theorem exec_expandLine_literals
    (limit : Nat)
    (ahead : String → Run String)
    (session : Session)
    (name : String)
    (params args : List String)
    (body : List Char)
    (hMacro : Entered session.table name params body)
    (hFixed : "..." ∉ params)
    (hChars : '"' ∉ body ∧ '#' ∉ body ∧ '$' ∉ body)
    (hStrands : ∀ s ∈ bodyStrands body, s ∉ params → session.table.contains s = false)
    (hSome : args ≠ [])
    (hCount : args.length = params.length)
    (hArgs : ∀ arg ∈ args, Enclosed false (lexemes arg) ∧ Still session.table (asArgument arg)) :
    exec (expandLine (limit + 2) ahead (callText name args)) session =
        (.ok (Text.concat ((bodyStrands body).map (filled params (args.map asArgument)))),
          session) ∧
      ∀ before content after : String,
        (∃ front back, asArgument (before ++ ("\"" ++ (content ++ ("\"" ++ after)))) =
          front ++ ("\"" ++ (collapsed content ++ ("\"" ++ back)))) ∧
        (collapsed content = content ↔ Text.SingleBlanks content.toList) := by
  have hStrand := plain_bodyStrands hChars
  have hCompile : compileBody params (bodyStrands body) = _ :=
    compileBody_eq fun s hMem => ⟨(hStrand s hMem).1, (hStrand s hMem).2.2⟩
  have hValues : ∀ value ∈ args.map asArgument, Still session.table value :=
    List.forall_mem_map.2 fun arg hMem => (hArgs arg hMem).2
  have hExpand : List.Forall₂ (fun text value =>
      exec (expandWith (expandTokens ahead (limit + 1)) text) session =
        (.ok value, session)) (args.map asArgument) (args.map asArgument) :=
    List.forall₂_same.2 fun value hMem => (hValues value hMem).exec_expandWith limit
  have hLength : (args.map asArgument).length = params.length := by rw [List.length_map, hCount]
  obtain ⟨list, hFill, hInert, -, hSpell⟩ := exists_fillPieces_inert
    (fun s hMem => ⟨(hStrand s hMem).1, (hStrand s hMem).2.1⟩) hStrands
    (fun s hMem hParam => supplied_bound hLength hLength hParam
      (List.contains_iff_mem.2 (mem_texts_placed hMem hParam))) hValues [name]
  rw [← bindArguments_eq_bound hFixed hLength] at hFill
  have hCall : ∀ call : Token, call.text = "(" ++ Text.joinWith "," args ++ ")" →
      call.painted = [] →
        exec (expandCall (expandTokens ahead (limit + 1)) name call) session = _ :=
    hMacro.exec_expandCall hCompile hFixed hSome (fun arg hMem => (hArgs arg hMem).1)
      (exec_expandArguments hExpand params) hFill
  have hSettles : Settles ahead session (limit + 1) _ _ := settles_inert hInert
  obtain ⟨done, hDone, hText⟩ := hSettles.exec_expandTokens (spell list)
  refine ⟨?_, fun before content after => ⟨asArgument_string before content after, ?_⟩⟩
  · rw [exec_expandLine_callText hMacro.word hMacro.isFunction
      (fun arg hMem => (hArgs arg hMem).1) hCall (regroup_inert hInert) hDone, hText, hSpell]
  · rw [← Text.collapseSpaces_eq_iff, collapsed]
    refine ⟨fun hSame => ?_, fun hSame => by rw [hSame, String.ofList_toList]⟩
    rw [← String.toList_inj, String.toList_ofList] at hSame
    exact hSame

theorem exec_expandLine_literals_blanks :
    exec (expandLine 2 pure "F(\"a  (,F\", b)") { table := differenceTable } =
      (.ok "\"a (,F\"-b", { table := differenceTable }) := by
  have hString : Enclosed false ["\"", "a", "  ", "(", ",", "F", "\""] :=
    @Enclosed.string _ ["a", "  ", "(", ",", "F", "\""] _ (by decide) .nil
  have hPlain : Enclosed false [" ", "b"] :=
    .text (by decide) (.inr (by decide)) (.text (by decide) (.inr (by decide)) .nil)
  have hLexemes : lexemes "\"a  (,F\"" = ["\"", "a", "  ", "(", ",", "F", "\""] ∧
      lexemes " b" = [" ", "b"] := by decide +kernel
  have hLine := (exec_expandLine_literals 0 pure { table := differenceTable } "F" ["x", "y"]
    ["\"a  (,F\"", " b"] "x-y".toList ⟨by decide, by decide, rfl, rfl, _,
      compileBody_eq (by decide +kernel), rfl⟩ (by decide) (by decide) (by decide +kernel)
    (by decide) rfl (List.forall_mem_cons.2 ⟨⟨hLexemes.1 ▸ hString, by decide +kernel,
      by decide +kernel⟩, List.forall_mem_singleton.2 ⟨hLexemes.2 ▸ hPlain, by decide +kernel,
      by decide +kernel⟩⟩)).1
  exact hLine.trans (by decide +kernel)

end Macro

end CHeader
