import CHeader.Proofs.Fault
import CHeader.Proofs.Source.Leaf

/-
  Files as trees of conditional groups, and the lines of them that are selected.

  A block is a sequence of leaves and conditional groups; a group has a first part, further parts
  with conditions, and perhaps a last one without. The selection of a block takes from every group
  the first part whose condition holds in the table reached so far. It carries out the leaves of
  that part, counts the lines of the others and asks nothing about them.

  Main declarations:
    * `Source.Block`
    * `Source.Parts`
    * `Source.Ending`
-/

namespace CHeader

namespace Source

open Macro

-- Blocks

namespace Keyword

def isConditional : Keyword → Bool
| ifTrue | ifDefined | ifUndefined => true
| elseGroup | elseIf | endIf => true
| _ => false

end Keyword

namespace LogicalLine

def Opens (line : LogicalLine) : Prop :=
  ∃ keyword, line.keyword? = some keyword ∧ keyword.opensGroup = true

/- Whether a line has no part in conditional groups. -/
def Neutral (line : LogicalLine) : Prop :=
  ∀ keyword, line.keyword? = some keyword → keyword.isConditional = false

instance decidableOpens (line : LogicalLine) : Decidable line.Opens :=
  decidable_of_iff (line.keyword?.any Keyword.opensGroup = true)
    (by simp [Opens, Option.any_eq_true])

instance decidableNeutral (line : LogicalLine) : Decidable line.Neutral :=
  decidable_of_iff (line.keyword?.all (fun k => !k.isConditional) = true)
    (by simp [Neutral, Option.all_eq_true])

end LogicalLine

mutual

/- A sequence of leaves and conditional groups. -/
inductive Block where
  | nil
  | leaf (line : LogicalLine) (hLine : line.Neutral) (rest : Block)
  | group (opening : LogicalLine) (hOpening : opening.Opens) (body : Block) (parts : Parts)
      (rest : Block)

inductive Parts where
  | close (closing : LogicalLine) (hClosing : closing.keyword? = some .endIf)
  | orIf (line : LogicalLine) (hLine : line.keyword? = some .elseIf) (body : Block) (parts : Parts)
  | otherwise (line : LogicalLine) (hLine : line.keyword? = some .elseGroup) (body : Block)
      (closing : LogicalLine)
      (hClosing : closing.keyword? = some .endIf)

end

mutual

def Block.lines : Block → List LogicalLine
| .nil => []
| .leaf line _ rest => line :: rest.lines
| .group opening _ body parts rest =>
    opening :: (body.lines ++ (parts.lines ++ rest.lines))

def Parts.lines : Parts → List LogicalLine
| .close closing _ => [closing]
| .orIf line _ body parts =>
    line :: (body.lines ++ parts.lines)
| .otherwise line _ body closing _ =>
    line :: (body.lines ++ [closing])

end

-- Conditions

def partSelected (limit : Nat) (ahead : LineStep) (line : String) : Run Bool :=
  match Directive.ofLine? line with
  | some directive =>
      groupSelected limit ahead (directive.keyword.getD .ifTrue) line directive.argument
  | none => conditionHolds limit ahead line

/- The answer of a condition in a table. To find it nothing is read and nothing changes. -/
def Decides (limit : Nat) (table : Table) (line : String) (selected : Bool) : Prop :=
  ∀ (ahead : LineStep) (session : Session), session.table = table →
      exec (partSelected limit ahead line) session = (.ok selected, session)

def Fails (limit : Nat) (table : Table) (line : String) (fault : Fault) : Prop :=
  ∀ (ahead : LineStep) (session : Session), session.table = table →
      (exec (partSelected limit ahead line) session).1 = .error fault

section

variable {line : String} {directive : Directive} {keyword : Keyword}

theorem partSelected_eq_conditionHolds (hLine : Directive.ofLine? line = some directive)
    (hKeyword : directive.keyword = some keyword)
    (hCondition : keyword = .ifTrue ∨ keyword = .elseIf) (ahead : LineStep) :
    partSelected limit ahead line = conditionHolds limit ahead line := by
  rw [partSelected, hLine]
  simp only [hKeyword]
  rcases hCondition with rfl | rfl <;> rfl

end

-- Selection

def countAll (table : Table) (lines : List LogicalLine) : Table :=
  lines.foldl (fun table line => countLines table line.lines.length) table

/-
  How the selection of a block ends: with a table, with the fault of a leaf, or with a fault that
  lies in the groups themselves.
-/
inductive Ending where
  | reached (table : Table)
  | leafFault (fault : Fault)
  | groupFault (fault : Fault)

namespace Ending

def fault? : Ending → Option Fault
| reached _ => none
| leafFault fault => some fault
| groupFault fault => some fault

def count (ending : Ending) (lines : List LogicalLine) : Ending :=
  match ending with
  | reached table => reached (countAll table lines)
  | leafFault fault => leafFault fault
  | groupFault fault => groupFault fault

end Ending

/- A leaf that was selected and the text it gave. -/
abbrev Leaf := LogicalLine × String

def leafText (leaves : List Leaf) : String := Text.concat (leaves.map Prod.snd)

variable (limit : Nat)

mutual

/-
  The leaves of a block that are selected, and how their selection ends. The number says how deep
  lines may be nested in each other: a part needs one level more than its group, and one more again
  if it is not the first part and has a condition.
-/
inductive Block.Selects :
    Nat → Table → Block → List Leaf → Ending → Prop
  | nil {depth : Nat} {table : Table} : Block.Selects depth table .nil [] (.reached table)
  | leaf {depth : Nat} {table : Table} {line : LogicalLine} {hLine : line.Neutral}
      {rest : Block}
      {text : String}
      {leaves : List Leaf}
      {ending : Ending}
      (hLeaf : LeafRuns limit (countLines table line.lines.length) line.text (.ok text))
      (hRest : Block.Selects (depth + 1) (leafTable line.text (countLines table line.lines.length))
          rest leaves ending) :
      Block.Selects (depth + 1) table (.leaf line hLine rest) ((line, text) :: leaves) ending
  | leafFault {depth : Nat} {table : Table} {line : LogicalLine} {hLine : line.Neutral}
      {rest : Block}
      {fault : Fault}
      (hLeaf : LeafRuns limit (countLines table line.lines.length) line.text (.error fault)) :
      Block.Selects (depth + 1) table (.leaf line hLine rest) [(line, "")] (.leafFault fault)
  | leafDeep {table : Table} {line : LogicalLine} {hLine : line.Neutral} {rest : Block} :
      Block.Selects 0 table (.leaf line hLine rest) [] (.groupFault .tooDeep)
  | group {depth : Nat} {table reached : Table} {opening : LogicalLine}
      {hOpening : opening.Opens}
      {body rest : Block}
      {parts : Parts}
      {leaves more : List Leaf}
      {ending : Ending}
      (hGroup : GroupSelects depth (countLines table opening.lines.length)
          opening.text body parts leaves (.reached reached))
      (hRest : Block.Selects (depth + 1) reached rest more ending) :
      Block.Selects (depth + 1) table (.group opening hOpening body parts rest)
        (leaves ++ more) ending
  | groupFault {depth : Nat} {table : Table} {opening : LogicalLine}
      {hOpening : opening.Opens}
      {body rest : Block}
      {parts : Parts}
      {leaves : List Leaf}
      {ending : Ending}
      {fault : Fault}
      (hGroup : GroupSelects depth (countLines table opening.lines.length)
          opening.text body parts leaves ending)
      (hFault : ending.fault? = some fault) :
      Block.Selects (depth + 1) table (.group opening hOpening body parts rest) leaves ending
  | groupDeep {table : Table} {opening : LogicalLine} {hOpening : opening.Opens}
      {body rest : Block}
      {parts : Parts} :
      Block.Selects 0 table (.group opening hOpening body parts rest) [] (.groupFault .tooDeep)

/- The leaves of a group whose first line has been read. -/
inductive GroupSelects :
    Nat → Table → String → Block → Parts → List Leaf → Ending → Prop
  | first {depth : Nat} {table : Table} {line : String} {body : Block} {parts : Parts}
      {leaves : List Leaf}
      {ending : Ending}
      (hHolds : Decides limit table line true)
      (hBody : Block.Selects depth table body leaves ending) :
      GroupSelects depth table line body parts leaves (ending.count parts.lines)
  | later {depth : Nat} {table : Table} {line : String} {body : Block} {parts : Parts}
      {leaves : List Leaf}
      {ending : Ending}
      (hHolds : Decides limit table line false)
      (hParts : Parts.Selects depth (countAll table body.lines) parts leaves ending) :
      GroupSelects depth table line body parts leaves ending
  | fault {depth : Nat} {table : Table} {line : String} {body : Block} {parts : Parts}
      {fault : Fault}
      (hFails : Fails limit table line fault) :
      GroupSelects depth table line body parts [] (.groupFault fault)

/- The leaves of the parts after one that was passed over. -/
inductive Parts.Selects :
    Nat → Table → Parts → List Leaf → Ending → Prop
  | close {depth : Nat} {table : Table} {closing : LogicalLine}
      {hClosing : closing.keyword? = some .endIf} :
      Parts.Selects depth table (.close closing hClosing) []
        (.reached (countLines table closing.lines.length))
  | otherwise {depth : Nat} {table : Table} {line closing : LogicalLine}
      {hLine : line.keyword? = some .elseGroup}
      {hClosing : closing.keyword? = some .endIf}
      {body : Block}
      {leaves : List Leaf}
      {ending : Ending}
      (hBody : Block.Selects depth (countLines table line.lines.length) body leaves ending) :
      Parts.Selects depth table (.otherwise line hLine body closing hClosing) leaves
        (ending.count [closing])
  | orIf {depth : Nat} {table : Table} {line : LogicalLine}
      {hLine : line.keyword? = some .elseIf}
      {body : Block}
      {parts : Parts}
      {leaves : List Leaf}
      {ending : Ending}
      (hHolds : Decides limit (countLines table line.lines.length) line.text true)
      (hBody : Block.Selects depth (countLines table line.lines.length) body leaves ending) :
      Parts.Selects (depth + 1) table (.orIf line hLine body parts) leaves
        (ending.count parts.lines)
  | orIfDeep {table : Table} {line : LogicalLine} {hLine : line.keyword? = some .elseIf}
      {body : Block}
      {parts : Parts}
      (hHolds : Decides limit (countLines table line.lines.length) line.text true) :
      Parts.Selects 0 table (.orIf line hLine body parts) [] (.groupFault .tooDeep)
  | orIfNot {depth : Nat} {table : Table} {line : LogicalLine}
      {hLine : line.keyword? = some .elseIf}
      {body : Block}
      {parts : Parts}
      {leaves : List Leaf}
      {ending : Ending}
      (hHolds : Decides limit (countLines table line.lines.length) line.text false)
      (hParts : Parts.Selects depth (countAll (countLines table line.lines.length) body.lines)
          parts leaves ending) :
      Parts.Selects depth table (.orIf line hLine body parts) leaves ending
  | orIfFault {depth : Nat} {table : Table} {line : LogicalLine}
      {hLine : line.keyword? = some .elseIf}
      {body : Block}
      {parts : Parts}
      {fault : Fault}
      (hFails : Fails limit (countLines table line.lines.length) line.text fault) :
      Parts.Selects depth table (.orIf line hLine body parts) [] (.groupFault fault)

end

end Source

end CHeader
