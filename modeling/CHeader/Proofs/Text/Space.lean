import Mathlib.Tactic
import CHeader.Text.CharClass

/-
  White space.

  The code points of white space are few, so that what holds of each of them holds of white space.

  Main declarations:
    * `Text.spaceCodes`
    * `Text.forall_isSpace`
-/

namespace CHeader

namespace Text

/- The code points of white space. -/
def spaceCodes : List Nat :=
  [9, 10, 11, 12, 13, 28, 29, 30, 31, 32, 133, 160, 5760, 8192,
    8193, 8194, 8195, 8196, 8197, 8198, 8199, 8200, 8201, 8202, 8232, 8233, 8239, 8287, 12288]

theorem insideRanges_cases (hInside : insideRanges start (low :: high :: rest) code = true) :
    start + low ≤ code ∧ code < start + low + high ∨
      insideRanges (start + low + high) rest code = true := by
  unfold insideRanges at hInside
  split_ifs at hInside with hLow
  unfold insideRanges at hInside
  split_ifs at hInside with hHigh
  · exact .inl ⟨by omega, hHigh⟩
  · exact .inr (by simpa using hInside)

theorem mem_spaceCodes (hSpace : isSpace c = true) : c.toNat ∈ spaceCodes := by
  unfold isSpace at hSpace
  simp only [spaceCodes, List.mem_cons]
  split_ifs at hSpace with hAscii
  · rcases (Bool.or_eq_true _ _).mp hSpace with hSpace | hLate
    · rcases (Bool.or_eq_true _ _).mp hSpace with hBlank | hEarly
      · rw [of_decide_eq_true hBlank]
        decide
      · simp only [Bool.and_eq_true, decide_eq_true_eq] at hEarly
        omega
    · simp only [Bool.and_eq_true, decide_eq_true_eq] at hLate
      omega
  · iterate 8
      rcases insideRanges_cases hSpace with hCode | hSpace
      · omega
    cases hSpace

/- What holds of the listed characters holds of all white space. -/
theorem forall_isSpace {P : Char → Prop} (hCodes : ∀ code ∈ spaceCodes, P (Char.ofNat code))
    (hSpace : isSpace c = true) : P c := by
  rw [← Char.ofNat_toNat c]
  exact hCodes _ (mem_spaceCodes hSpace)

/- A blank is white space or the null character. -/
theorem forall_isBlank {P : Char → Prop} (hCodes : ∀ code ∈ 0 :: spaceCodes, P (Char.ofNat code))
    (hBlank : isBlank c = true) : P c := by
  rcases (Bool.or_eq_true _ _).mp hBlank with hSpace | hNull
  · exact forall_isSpace (fun code hCode => hCodes code (List.mem_cons_of_mem _ hCode)) hSpace
  · rw [of_decide_eq_true hNull]
    exact hCodes 0 List.mem_cons_self

theorem not_isWord_of_isSpace (hSpace : isSpace c = true) : isWord c = false :=
  forall_isSpace (P := fun c => isWord c = false) (by decide +kernel) hSpace

end Text

end CHeader
