import CHeader.Proofs.Macro.Enclosed
import CHeader.Proofs.Macro.Waiting

/-
  A line that is one call.

  The call is replaced in the first pass, and the passes after it see the tokens that stand for it.

  Main declarations:
    * `Macro.callText`
    * `Macro.strands_callText`
    * `Macro.exec_expandLine_callText`
-/

namespace CHeader

namespace Macro

open Source (Run Session exec exec_bind exec_bind_getTable exec_lift exec_pure)

def callText (name : String) (args : List String) : String :=
  name ++ ("(" ++ (Text.joinWith "," args ++ ")"))

theorem strands_callText (hName : isWordText name = true) (hFunction : table.isFunction name = true)
    (hArgs : ∀ arg ∈ args, Enclosed false (lexemes arg)) :
    ∃ inside size, strands table (callText name args) =
        ([.text name, .call inside (some size)], false) ∧
      Text.concat inside = Text.joinWith "," args := by
  have hMark := ne_mark_of_isWordText hName
  have hBehind : lexemes (Text.joinWith "," args ++ ")") =
      lexemes (Text.joinWith "," args) ++ [")"] :=
    lexemes_around_mark (c := ')') (by decide) _ ""
  have hLexemes : lexemes (callText name args) =
      name :: "(" :: (lexemes (Text.joinWith "," args) ++ [")"]) := by
    have hOpen : "(" = String.singleton '(' := by decide
    rw [callText, lexemes_append_word hName, hOpen, lexemes_append_mark (by decide), hBehind]
    · rw [String.toList_append]
      rintro _ ⟨⟩
      decide
  have hInside : Enclosed true (lexemes (Text.joinWith "," args)) := by
    rw [lexemes_joinWith]
    exact .of_commaList (by simpa using hArgs)
  obtain ⟨inside, size, hTake, hText⟩ := hInside.takeCall_eq '(' []
  refine ⟨inside, size + 1, ?_, by rw [hText, concat_lexemes]⟩
  rw [strands, hLexemes, strandsFrom]
  simp only [show name ≠ "(" from hMark '(' (by decide), false_and, if_false,
    show name ≠ "\"" from hMark '"' (by decide), hFunction, Bool.or_true]
  rw [strandsFrom_call hTake, strandsFrom]

theorem exec_expandLine_callText (hName : isWordText name = true)
    (hFind : session.table.find? name = some .function)
    (hArgs : ∀ arg ∈ args, Enclosed false (lexemes arg))
    (hExpand : ∀ call : Token, call.text = "(" ++ Text.joinWith "," args ++ ")" →
      call.painted = [] → exec (expandCall (expandTokens ahead limit) name call) session =
        (.ok (list, names), session)) (hGroup : regroup session.table list = .ok (grouped, opened))
    (hRest : exec (expandTokens ahead limit (spell list) grouped opened) session =
      (.ok done, session)) :
    exec (expandLine (limit + 1) ahead (callText name args)) session =
      (.ok (spell done), session) := by
  have hFunction : session.table.isFunction name = true := by simp [Table.isFunction, hFind]
  obtain ⟨inside, size, hStrands, hText⟩ := strands_callText hName hFunction hArgs
  have hTokens : tokens session.table [] (callText name args) = ([Token.ofPiece [] name,
      Token.ofStrand [] (.call inside (some size))], false) := by
    rw [tokens, hStrands]
    rfl
  have hScan : exec (scanTokens (expandTokens ahead limit) ahead false
      { line := callText name args } (Token.ofPiece [] name :: ([] ++ [_]))) session = _ :=
    exec_scanTokens_call hName hFind rfl rfl rfl rfl (by simp) ⟨rfl, rfl, rfl⟩
      (hExpand (Token.ofStrand [] (.call inside (some size))) (by rw [← hText]; rfl) rfl) []
  rw [scanTokens_nil, exec_pure, List.nil_append] at hScan
  rw [expandLine, expandWith, exec_bind_getTable]
  simp only [hTokens]
  rw [expandTokens, exec_bind, expandOnce, exec_bind, hScan]
  simp only [if_true, List.append_nil, List.reverse_reverse]
  rw [exec_bind_getTable]
  rw [exec_bind, exec_lift, hGroup]
  dsimp only
  rw [hRest]
  rfl

end Macro

end CHeader
