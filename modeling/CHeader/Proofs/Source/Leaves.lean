import CHeader.Proofs.Source.Groups

/-
  Selected leaves without their groups.

  The leaves that a selection finds can be carried out one after the other, without the lines
  between them: these count lines, and no leaf looks at the number of its line. Tables are compared
  up to that number.

  Main declarations:
    * `Source.Leads`
    * `Source.Block.leadsIn`
    * `Source.Leads.walks`
-/

namespace CHeader

open List

namespace Source

open Macro

variable {table : Table}
variable {leaves : List Leaf} {ending : Ending}

-- Leaves without their groups

/- Leaves that are carried out one after the other in tables with the same macros. -/
inductive Leads (limit : Nat) :
    Table → List Leaf → Ending → Prop
  | nil {table reached : Table} (hSame : SameMacros table reached) :
      Leads limit table [] (.reached reached)
  | leaf {table current : Table} {line : LogicalLine} {text : String} {leaves : List Leaf}
      {ending : Ending}
      (hSame : SameMacros table current)
      (hLeaf : LeafRuns limit current line.text (.ok text))
      (hRest : Leads limit (leafTable line.text current) leaves ending) :
      Leads limit table ((line, text) :: leaves) ending
  | leafFault {table current : Table} {line : LogicalLine} {fault : Fault}
      (hSame : SameMacros table current)
      (hLeaf : LeafRuns limit current line.text (.error fault)) :
      Leads limit table [(line, "")] (.leafFault fault)
  | groupFault {table : Table} {fault : Fault} : Leads limit table [] (.groupFault fault)

theorem sameMacros_countAll (table : Table) (lines : List LogicalLine) :
    SameMacros (countAll table lines) table := by
  induction lines generalizing table with
  | nil => exact .refl table
  | cons line lines ih =>
    exact (ih _).trans (sameMacros_countLines table _)

namespace Leads

variable {table other : Table} {leaves more : List Leaf} {ending : Ending}

theorem of_sameMacros (hSame : SameMacros other table) (hLeads : Leads limit table leaves ending) :
    Leads limit other leaves ending := by
  cases hLeads with
  | nil hNext => exact .nil (hSame.trans hNext)
  | leaf hNext hLeaf hRest =>
    exact .leaf (hSame.trans hNext) hLeaf hRest
  | leafFault hNext hLeaf =>
    exact .leafFault (hSame.trans hNext) hLeaf
  | groupFault => exact .groupFault

theorem append (hFirst : Leads limit table leaves (.reached other))
    (hSecond : Leads limit other more ending) :
    Leads limit table (leaves ++ more) ending := by
  generalize hEnding : Ending.reached other = first at hFirst
  induction hFirst with
  | nil hSame =>
    cases hEnding
    exact hSecond.of_sameMacros hSame
  | leaf hSame hLeaf _ ih =>
    exact .leaf hSame hLeaf (ih hEnding)
  | leafFault | groupFault => cases hEnding

theorem count (lines : List LogicalLine) (hLeads : Leads limit table leaves ending) :
    Leads limit table leaves (ending.count lines) := by
  induction hLeads with
  | nil hSame =>
    exact .nil (hSame.trans (sameMacros_countAll _ _).symm)
  | leaf hSame hLeaf _ ih => exact .leaf hSame hLeaf ih
  | leafFault hSame hLeaf => exact .leafFault hSame hLeaf
  | groupFault => exact .groupFault

end Leads

def LeadsIn (limit : Nat) (lines : List LogicalLine) (table : Table) (leaves : List Leaf)
    (ending : Ending) : Prop :=
  Leads limit table leaves ending ∧ (leaves.map Prod.fst).Sublist lines

theorem leadsIn_groupFault (lines : List LogicalLine) (table : Table) (fault : Fault) :
    LeadsIn limit lines table [] (.groupFault fault) :=
  ⟨.groupFault, nil_sublist lines⟩

namespace LeadsIn

variable {lines : List LogicalLine} {table : Table} {leaves : List Leaf} {ending : Ending}

theorem after (first : List LogicalLine)
    (hLeads : LeadsIn limit lines (countAll table first) leaves ending) :
    LeadsIn limit (first ++ lines) table leaves ending :=
  ⟨hLeads.1.of_sameMacros (sameMacros_countAll _ _).symm,
    hLeads.2.trans (sublist_append_right _ _)⟩

theorem before (last : List LogicalLine) (hLeads : LeadsIn limit lines table leaves ending) :
    LeadsIn limit (lines ++ last) table leaves (ending.count last) :=
  ⟨hLeads.1.count last, hLeads.2.trans (sublist_append_left _ _)⟩

end LeadsIn

theorem GroupSelects.leadsIn
    (hBody : ∀ {depth : Nat} {table : Table} {leaves : List Leaf} {ending : Ending},
        Block.Selects limit depth table body leaves ending →
          LeadsIn limit body.lines table leaves ending)
    (hParts : ∀ {depth : Nat} {table : Table} {leaves : List Leaf} {ending : Ending},
        Parts.Selects limit depth table parts leaves ending →
          LeadsIn limit parts.lines table leaves ending)
    (hSelects : GroupSelects limit depth table line body parts leaves ending) :
    LeadsIn limit (body.lines ++ parts.lines) table leaves ending := by
  cases hSelects with
  | first _ hFirst => exact (hBody hFirst).before _
  | later _ hLater => exact (hParts hLater).after _
  | fault _ => exact leadsIn_groupFault _ _ _

mutual

/- The selected leaves of a block stand in it in their order and lead where the selection ends. -/
theorem Block.leadsIn : (block : Block) → ∀ {depth : Nat} {table : Table}
    {leaves : List Leaf} {ending : Ending},
    Block.Selects limit depth table block leaves ending →
      LeadsIn limit block.lines table leaves ending
| .nil, _, _, _, _, .nil => ⟨.nil (.refl _), .slnil⟩
| .leaf line _ rest, _, table, _, _, .leaf hLeaf hRest =>
    ⟨.leaf (sameMacros_countLines table _).symm hLeaf (rest.leadsIn hRest).1,
      (rest.leadsIn hRest).2.cons_cons line⟩
| .leaf line _ _, _, table, _, _, .leafFault hLeaf =>
    ⟨.leafFault (sameMacros_countLines table _).symm hLeaf, (nil_sublist _).cons_cons line⟩
| .leaf _ _ _, _, _, _, _, .leafDeep =>
    leadsIn_groupFault _ _ _
| .group opening _ body parts rest, _, _, _, _, .group hGroup hRest => by
    rcases GroupSelects.leadsIn body.leadsIn parts.leadsIn hGroup with ⟨hLeads, hSublist⟩
    rcases rest.leadsIn hRest with ⟨hMore, hMoreSublist⟩
    have hAll : LeadsIn limit (body.lines ++ parts.lines ++ rest.lines) _ _
        _ :=
      ⟨hLeads.append hMore, by
        rw [map_append]
        exact hSublist.append hMoreSublist⟩
    rw [append_assoc] at hAll
    exact hAll.after [opening]
| .group opening _ body parts rest, _, _, _, _, .groupFault hGroup _ => by
    rcases GroupSelects.leadsIn body.leadsIn parts.leadsIn hGroup with ⟨hLeads, hSublist⟩
    have hAll : LeadsIn limit (body.lines ++ parts.lines ++ rest.lines) _ _
        _ :=
      ⟨hLeads, hSublist.trans (sublist_append_left _ _)⟩
    rw [append_assoc] at hAll
    exact hAll.after [opening]
| .group _ _ _ _ _, _, _, _, _, .groupDeep =>
    leadsIn_groupFault _ _ _

theorem Parts.leadsIn : (parts : Parts) → ∀ {depth : Nat} {table : Table}
    {leaves : List Leaf} {ending : Ending},
    Parts.Selects limit depth table parts leaves ending →
      LeadsIn limit parts.lines table leaves ending
| .close _ _, _, table, _, _, .close =>
    ⟨.nil (sameMacros_countLines table _).symm, nil_sublist _⟩
| .otherwise line _ body closing _, _, _, _, _, .otherwise hBody =>
    LeadsIn.after [line] ((body.leadsIn hBody).before [closing])
| .orIf line _ body parts, _, _, _, _, .orIf _ hBody =>
    LeadsIn.after [line] ((body.leadsIn hBody).before parts.lines)
| .orIf line _ body parts, _, _, _, _, .orIfNot _ hParts =>
    LeadsIn.after [line] ((parts.leadsIn hParts).after body.lines)
| .orIf _ _ _ _, _, _, _, _, .orIfDeep _ =>
    leadsIn_groupFault _ _ _
| .orIf _ _ _ _, _, _, _, _, .orIfFault _ =>
    leadsIn_groupFault _ _ _

end

/- A leaf is no part of conditional groups. -/
theorem LeafRuns.neutral {line : LogicalLine} (hLeaf : LeafRuns limit table line.text result) :
    line.Neutral := by
  intro keyword hKeyword
  rcases Option.bind_eq_some_iff.1 hKeyword with ⟨directive, hDirective, hSame⟩
  cases hLeaf with
  | text hText =>
    rw [hText] at hDirective
    cases hDirective
  | define hLine hDefine _ =>
    rw [hLine, Option.some.injEq] at hDirective
    subst hDirective
    rw [hDefine, Option.some.injEq] at hSame
    subst hSame
    rfl
  | undefine hLine hUndefine _ =>
    rw [hLine, Option.some.injEq] at hDirective
    subst hDirective
    rw [hUndefine, Option.some.injEq] at hSame
    subst hSame
    rfl

/-
  Whether the steps over leaves without their groups end as the selection did: with the texts of the
  leaves and a table with the same macros, or with the fault of a leaf.
-/
def Ending.MeetsLeaves (ending : Ending) (leaves : List Leaf) (follow : List SourceLine)
    (outcome : Except Fault (List String) × Session) : Prop :=
  match ending with
  | reached table =>
      outcome.1 = .ok (leaves.map Prod.snd) ∧ Reading outcome.2 follow ∧
        SameMacros outcome.2.table table
  | leafFault fault => outcome.1 = .error fault
  | groupFault _ => True

theorem Leads.walks (hLeads : Leads limit table leaves ending) (depth : Nat)
    (hSame : SameMacros session.table table)
    (hReading : Reading session (physical (leaves.map Prod.fst) ++ follow)) :
    ∃ outcome, Walks (processNested limit (depth + 1)) leaves.length session outcome ∧
        ending.MeetsLeaves leaves follow outcome := by
  induction hLeads generalizing session with
  | nil hEnd =>
    exact ⟨_, .done, rfl, hReading, hSame.trans hEnd⟩
  | @leaf _ _ line _ _ ending hNext hLeaf _ ih =>
    simp only [map_cons, physical_cons, append_assoc] at hReading
    have hCurrent : SameMacros (session.read line).table _ :=
      (sameMacros_countLines _ _).trans (hSame.trans hNext)
    have hStep := hLeaf.exec_processLineWith (processNested limit depth) hCurrent
    rcases ih (hLeaf.sameMacros_leafTable hCurrent) (hLeaf.reading hReading.read) with
      ⟨⟨result, final⟩, hWalks, hEnds⟩
    refine ⟨_, .goOn hReading (.inl hLeaf.neutral) hStep hWalks, ?_⟩
    cases ending with
    | reached reached =>
      rcases hEnds with ⟨rfl, hRest⟩
      exact ⟨rfl, hRest⟩
    | leafFault fault =>
      rw [show result = .error fault from hEnds]
      rfl
    | groupFault fault => trivial
  | @leafFault _ _ line _ hNext hLeaf =>
    simp only [map_cons, physical_cons, append_assoc] at hReading
    have hCurrent : SameMacros (session.read line).table _ :=
      (sameMacros_countLines _ _).trans (hSame.trans hNext)
    have hStep := hLeaf.exec_processLineWith (processNested limit depth) hCurrent
    exact ⟨_, .stop hReading (.inl hLeaf.neutral) hStep, rfl⟩
  | groupFault => exact ⟨_, .done, trivial⟩

end Source

end CHeader
