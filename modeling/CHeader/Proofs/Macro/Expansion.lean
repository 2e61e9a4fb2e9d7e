import CHeader.Macro.Expand
import CHeader.Proofs.Macro.Lexeme
import CHeader.Proofs.Macro.Table

/-
  The expansion of a text by names that stand for texts.

  A word that stands for a text is replaced by the expansion of that text, in which the word itself
  is painted and stands for itself. Every name is painted at most once on the way down, so the
  expansion ends for every table, and the depth of the replacements is bounded by the number of
  names.

  Main declarations:
    * `Macro.openBody?`
    * `Macro.expansion`
    * `Macro.expansionDepth`
-/

namespace CHeader

open List

namespace Macro

variable {table : Table}
variable {name piece : String} {painted : Finset String}

-- Names of a table

def Table.nameSet (table : Table) : Finset String := (table.names.map Prod.fst).toFinset

def Table.text? (table : Table) (name : String) : Option String :=
  match table.find? name with
  | some (.text body) => some body
  | _ => none

theorem Table.text?_eq_some_iff : table.text? name = some body ↔
    table.find? name = some (.text body) := by
  unfold Table.text?
  split
  · next hFind => simp [hFind]
  · next hOther =>
      simp only [reduceCtorEq, false_iff]
      exact hOther body

/-
  The text that takes the place of a piece: the one that a
  word stands for, unless the word is painted.
-/
def openBody? (table : Table) (painted : Finset String) (piece : String) : Option String :=
  if isWordText piece = true ∧ piece ∉ painted then
    table.text? piece
  else none

theorem openBody?_eq_some_iff :
    openBody? table painted piece = some body ↔ isWordText piece = true ∧ piece ∉ painted ∧
        table.find? piece = some (.text body) := by
  unfold openBody?
  split
  · next hOpen => simp [hOpen, Table.text?_eq_some_iff]
  · next hClosed => simp_all

/- Painting a name leaves fewer names to replace. -/
theorem card_unpainted_lt (hBody : openBody? table painted piece = some body) :
    (table.nameSet \ insert piece painted).card < (table.nameSet \ painted).card := by
  rcases openBody?_eq_some_iff.1 hBody with ⟨_, hUnpainted, hFind⟩
  have hName : piece ∈ table.nameSet :=
    mem_toFinset.2 (mem_map_of_mem (mem_of_lookup hFind))
  apply Finset.card_lt_card
  rw [Finset.ssubset_iff_of_subset (Finset.sdiff_subset_sdiff (Finset.Subset.refl _)
      (Finset.subset_insert _ _))]
  exact ⟨piece, by simp [hName, hUnpainted], by simp⟩

-- Expansions

/- The expansion of a text in which painted names stand for themselves. -/
def expansion (table : Table) (painted : Finset String) (s : String) : String :=
  Text.concat ((pieces s).map fun piece =>
      match _hBody : openBody? table painted piece with
      | some body =>
          expansion table (insert piece painted) body
      | none => piece)
termination_by (table.nameSet \ painted).card
decreasing_by exact card_unpainted_lt _hBody

/- How deep the replacements of an expansion are nested. -/
def expansionDepth (table : Table) (painted : Finset String) (s : String) : Nat :=
  (pieces s).toFinset.sup fun piece =>
    match hBody : openBody? table painted piece with
    | some body =>
        expansionDepth table (insert piece painted) body + 1
    | none => 0
termination_by (table.nameSet \ painted).card
decreasing_by exact card_unpainted_lt hBody

section

variable (table : Table) (painted : Finset String) (s : String)

theorem expansion_eq : expansion table painted s = Text.concat ((pieces s).map fun piece =>
    match openBody? table painted piece with
    | some body =>
      expansion table (insert piece painted) body
    | none => piece) := by
  rw [expansion]
  congr 1
  apply map_congr_left
  intro piece _
  split <;> split <;> simp_all

/- Some replacement lies at a level exactly if some word of
  the text is replaced by one that has it one level up. -/
theorem lt_expansionDepth_iff (level : Nat) :
    level < expansionDepth table painted s ↔ ∃ piece ∈ pieces s, ∃ body,
        openBody? table painted piece = some body ∧ level <
            expansionDepth table (insert piece painted) body + 1 := by
  rw [expansionDepth, Finset.lt_sup_iff]
  simp only [mem_toFinset]
  constructor
  · rintro ⟨piece, hPiece, hLevel⟩
    split at hLevel
    · next body hBody =>
        exact ⟨piece, hPiece, body, hBody, hLevel⟩
    · exact absurd hLevel (Nat.not_lt_zero _)
  · rintro ⟨piece, hPiece, body, hBody, hLevel⟩
    refine ⟨piece, hPiece, ?_⟩
    split
    · next other hOther =>
        rw [hBody, Option.some.injEq] at hOther
        rw [← hOther]
        exact hLevel
    · next hNone =>
        rw [hBody] at hNone
        cases hNone

end

-- Texts without calls

/- The texts that can take part in the expansion of a text. -/
inductive Reaches (table : Table) (s : String) :
    String → Prop
  | self : Reaches table s s
  | body {t name body : String} (hReaches : Reaches table s t) (hName : name ∈ pieces t)
      (hBody : table.find? name = some (.text body)) :
      Reaches table s body

def NamesTexts (table : Table) (s : String) : Prop :=
  ∀ piece ∈ pieces s, table.contains piece = true →
    isWordText piece = true ∧ (table.text? piece).isSome = true

instance decidableNamesTexts (table : Table) (s : String) : Decidable (NamesTexts table s) := by
  unfold NamesTexts
  infer_instance

/-
  Texts in which names only stand for texts: every name of the table is a word and stands for a
  text, and none is followed by a parenthesis at once.
-/
structure Plain (table : Table) (s : String) : Prop where
  named : NamesTexts table s
  noCall : (pieces s).IsChain fun first second => table.contains first = true → '(' ∉ second.toList

instance decidablePlain (table : Table) (s : String) : Decidable (Plain table s) :=
  decidable_of_iff (NamesTexts table s ∧
      (pieces s).IsChain fun first second => table.contains first = true → '(' ∉ second.toList)
    ⟨fun h => ⟨h.1, h.2⟩, fun h => ⟨h.named, h.noCall⟩⟩

/- Whether all texts that can take part in an expansion are plain. -/
def AllPlain (table : Table) (s : String) : Prop := ∀ t, Reaches table s t → Plain table t

section

variable {table : Table} {s : String}
variable {t : String}

theorem AllPlain.plain (hPlain : AllPlain table s) : Plain table s := hPlain s .self

theorem Reaches.of_body {body : String} (hName : name ∈ pieces s)
    (hBody : table.find? name = some (.text body))
    (hReaches : Reaches table body t) : Reaches table s t := by
  induction hReaches with
  | self => exact .body .self hName hBody
  | body _ hNext hText ih => exact .body ih hNext hText

theorem AllPlain.body {body : String} (hPlain : AllPlain table s) (hName : name ∈ pieces s)
    (hBody : table.find? name = some (.text body)) : AllPlain table body :=
  fun t hReaches => hPlain t (.of_body hName hBody hReaches)

theorem AllPlain.named (hPlain : AllPlain table s) (hPiece : piece ∈ pieces s)
    (hFind : table.find? piece = some meaning) :
    isWordText piece = true ∧ ∃ body, meaning = .text body ∧ NamesTexts table body := by
  rcases hPlain.plain.named piece hPiece (by simp [Table.contains, hFind]) with ⟨hWord, hSome⟩
  rcases Option.isSome_iff_exists.1 hSome with ⟨body, hText⟩
  rw [Table.text?_eq_some_iff] at hText
  rw [hFind, Option.some.injEq] at hText
  subst hText
  exact ⟨hWord, body, rfl, (hPlain.body hPiece hFind).plain.named⟩

theorem mem_of_reaches {texts : List String} (hStart : s ∈ texts)
    (hClosed : ∀ t ∈ texts, ∀ name ∈ pieces t, ∀ body ∈ table.text? name, body ∈ texts)
    (hReaches : Reaches table s t) : t ∈ texts := by
  induction hReaches with
  | self => exact hStart
  | body _ hName hBody ih =>
    exact hClosed _ ih _ hName _ (Table.text?_eq_some_iff.2 hBody)

end

-- Tables that agree

/- Whether a table gives all names in the texts that can
  take part in an expansion the meaning they have. -/
def AgreesFrom (table : Table) (s : String) (other : Table) : Prop :=
  ∀ t, Reaches table s t → ∀ piece ∈ pieces t, other.find? piece = table.find? piece

section

variable {table other : Table} {s : String}

variable (hAgrees : AgreesFrom table s other)
include hAgrees

theorem AgreesFrom.openBody? (hPiece : piece ∈ pieces s) :
    openBody? other painted piece = openBody? table painted piece := by
  rw [Macro.openBody?, Macro.openBody?, Table.text?, Table.text?, hAgrees s .self piece hPiece]

theorem AgreesFrom.body {body : String}
    (hName : name ∈ pieces s) (hBody : table.find? name = some (.text body)) :
    AgreesFrom table body other :=
  fun t hReaches => hAgrees t (.of_body hName hBody hReaches)

/- Tables that agree give the same expansion, nested to the same depth. -/
theorem AgreesFrom.expansion (painted : Finset String) :
    expansion other painted s = expansion table painted s ∧ expansionDepth other painted s =
        expansionDepth table painted s := by
  -- the names left to replace get fewer with every body
  induction hCard : (table.nameSet \ painted).card using Nat.strongRecOn generalizing painted s with
  | ind card ih =>
    have hBodies : ∀ piece ∈ pieces s, ∀ body, Macro.openBody? table painted piece = some body →
        expansion other (insert piece painted) body =
            expansion table (insert piece painted) body ∧
          expansionDepth other (insert piece painted) body =
            expansionDepth table (insert piece painted)
              body := by
      intro piece hPiece body hBody
      have hFind := (openBody?_eq_some_iff.1 hBody).2.2
      exact ih _ (hCard ▸ card_unpainted_lt hBody) (hAgrees.body hPiece hFind) _ rfl
    constructor
    · rw [expansion_eq, expansion_eq]
      congr 1
      apply map_congr_left
      intro piece hPiece
      rw [hAgrees.openBody? hPiece]
      cases hBody : Macro.openBody? table painted piece with
      | none => rfl
      | some body => exact (hBodies _ hPiece _ hBody).1
    · apply eq_of_forall_lt_iff
      intro level
      rw [lt_expansionDepth_iff, lt_expansionDepth_iff]
      refine exists_congr fun piece => and_congr_right fun hPiece => exists_congr fun body => ?_
      rw [hAgrees.openBody? hPiece]
      refine and_congr_right fun hBody => ?_
      rw [(hBodies _ hPiece _ hBody).2]

theorem AgreesFrom.allPlain (hContains : ∀ name, other.contains name = table.contains name)
    (hPlain : AllPlain table s) : AllPlain other s := by
  have hReached : ∀ t, Reaches other s t → Reaches table s t := by
    intro t hReaches
    induction hReaches with
    | self => exact .self
    | body _ hName hBody ih =>
      rw [hAgrees _ ih _ hName] at hBody
      exact .body ih hName hBody
  intro t hReaches
  have hTable := hReached t hReaches
  have hText := hPlain t hTable
  refine ⟨?_, ?_⟩
  · intro piece hPiece hDefined
    rw [hContains] at hDefined
    rw [Table.text?, hAgrees t hTable piece hPiece]
    exact hText.named piece hPiece hDefined
  · simpa only [hContains] using hText.noCall

end

end Macro

end CHeader
