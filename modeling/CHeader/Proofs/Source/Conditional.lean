import CHeader.Proofs.Source.Leaves

/-
  Files with conditional groups.

  A file is processed like the file that has only its selected leaves: both give the same text and
  leave tables with the same macros. A fault of a selected leaf ends both of them, and a fault of a
  condition that has to be asked, or of groups that are nested too deep, ends the first.

  Main declarations:
    * `Source.processOpen`
    * `Source.processOpen_of_selects`
-/

namespace CHeader

namespace Source

open Macro

variable {session : Session}

-- Whole files

section

variable {step : LineStep} {steps bound : Nat} {session final : Session}

theorem Walks.exec_processLines_of_ok {pieces : List String}
    (hWalks : Walks step steps session (.ok pieces, final))
    (hEnd : Reading final []) (hBound : steps < bound) :
    ∃ last, exec (processLines step bound []) session =
        (.ok pieces, last) ∧ last.table = final.table := by
  obtain ⟨count, rfl⟩ : ∃ count, bound = steps + (count + 1) := ⟨bound - steps - 1, by omega⟩
  rcases exec_nextLine?_of_spent hEnd.readable hEnd.unread_eq with ⟨last, hNext, hTable⟩
  refine ⟨last, ?_, hTable⟩
  rw [hWalks.exec_processLines]
  simp [processLines, exec_bind, hNext]

theorem Walks.exec_processLines_of_error (hWalks : Walks step steps session (.error fault, final))
    (hBound : steps < bound) :
    exec (processLines step bound []) session = (.error fault, final) := by
  obtain ⟨count, rfl⟩ : ∃ count, bound = steps + count := ⟨bound - steps, by omega⟩
  rw [hWalks.exec_processLines]

end

/- A session whose open file has other lines left. -/
def Session.withLines (session : Session) (lines : List SourceLine) : Session :=
  { session with
    reader := session.reader.map (fun reader => { reader with lines := lines }) }

theorem Reading.withLines (hReading : Reading session lines)
    (hFewer : fewer.length ≤ lines.length) : Reading (session.withLines fewer) fewer := by
  rcases hReading.reader with ⟨reader, hReader, _, hClosed, hDecodable⟩
  rcases hReading.number with ⟨n, hFind, hShort⟩
  refine ⟨?_, hReading.record, n, hFind, ?_⟩
  · exact ⟨{ reader with lines := fewer }, by simp [Session.withLines, hReader], rfl, hClosed,
      hDecodable⟩
  · exact length_repr_le (by omega) hShort (by decide)

def processOpen (limit : Nat) (session : Session) (lines : List LogicalLine) :
    Except Fault (List String) × Session :=
  exec (processLines (processLine limit) ((physical lines).length + 2) [])
    (session.withLines (physical lines))

section

variable {session : Session} {block : Block} {leaves : List Leaf} {ending : Ending}

variable (hReading : Reading session (physical block.lines))
  (hSelects : Block.Selects (limit + 1) (limit + 1) session.table block leaves ending)
include hReading hSelects

theorem Block.Selects.walks :
    ∃ steps result final, Walks (processLine (limit + 1)) steps
        (session.withLines (physical block.lines)) (result, final) ∧
        steps < (physical block.lines).length + 2 ∧
        ending.Meets leaves [] (result.map Text.concat, final) := by
  have hFull : Reading (session.withLines (physical block.lines)) (physical block.lines ++ []) := by
    rw [List.append_nil]
    exact hReading.withLines (Nat.le_refl _)
  have hOpen : Block.Selects (limit + 1) (limit + 1)
      (session.withLines (physical block.lines)).table block
      leaves ending := hSelects
  rcases block.runs hOpen hFull with ⟨steps, result, final, hWalks, hSteps, hMeets⟩
  have hLines := length_le_physical block.lines
  exact ⟨steps, result, final, hWalks, by omega, hMeets⟩

theorem Block.Selects.walks_leaves :
    ∃ outcome, Walks (processLine (limit + 1)) leaves.length
        (session.withLines (physical (leaves.map Prod.fst))) outcome ∧
        leaves.length < (physical (leaves.map Prod.fst)).length + 2 ∧
        ending.MeetsLeaves leaves [] outcome := by
  rcases block.leadsIn hSelects with ⟨hLeads, hSublist⟩
  have hFewer := (physical_sublist hSublist).length_le
  have hShort : Reading (session.withLines (physical (leaves.map Prod.fst)))
      (physical (leaves.map Prod.fst) ++ []) := by
    rw [List.append_nil]
    exact hReading.withLines hFewer
  have hSame : SameMacros (session.withLines (physical (leaves.map Prod.fst))).table
      session.table := .refl _
  rcases hLeads.walks limit hSame hShort with ⟨outcome, hWalks, hEnds⟩
  have hLines := length_le_physical (leaves.map Prod.fst)
  rw [List.length_map] at hLines
  exact ⟨outcome, hWalks, by omega, hEnds⟩

end

/-
  A file of conditional groups is processed like the file of its selected leaves. If the selection
  reaches a table, the texts are the same and the tables have the same macros. If a selected leaf
  fails, both fail in the same way. If a condition that must be asked fails or the groups are nested
  too deep, the whole file fails.
-/
theorem processOpen_of_selects
    (limit : Nat)
    (session : Session)
    (block : Block)
    (leaves : List Leaf)
    (ending : Ending)
    (hReading : Reading session (physical block.lines))
    (hSelects :
      Block.Selects (limit + 1) (limit + 1) session.table block
        leaves ending) :
    (∀ table, ending = .reached table →
      ∃ pieces final short,
        processOpen (limit + 1) session block.lines =
            (.ok pieces, final) ∧
          processOpen (limit + 1) session (leaves.map Prod.fst) =
            (.ok (leaves.map Prod.snd), short) ∧
          Text.concat pieces =
            Text.concat (leaves.map Prod.snd) ∧
          final.table = table ∧
          SameMacros final.table short.table) ∧
    (∀ fault, ending = .leafFault fault →
      (processOpen (limit + 1) session block.lines).1 = .error fault ∧
        (processOpen (limit + 1) session (leaves.map Prod.fst)).1 =
          .error fault) ∧
    (∀ fault, ending = .groupFault fault →
      (processOpen (limit + 1) session block.lines).1 =
        .error fault) := by
  rcases hSelects.walks hReading with
    ⟨steps, result, final, hWalks, hSteps, hMeets⟩
  rcases hSelects.walks_leaves hReading with
    ⟨⟨leafResult, leafFinal⟩, hLeafWalks, hLeafSteps, hEnds⟩
  refine ⟨?_, ?_, ?_⟩
  · rintro table rfl
    rcases hMeets with ⟨hText, hFinal, hTable⟩
    rcases hEnds with ⟨rfl, hLeafFinal, hSame⟩
    rcases Fault.map_eq_ok_iff.1 hText with
      ⟨pieces, rfl, hPieces⟩
    rcases hWalks.exec_processLines_of_ok hFinal hSteps with
      ⟨last, hExec, hLast⟩
    rcases hLeafWalks.exec_processLines_of_ok hLeafFinal
        hLeafSteps with ⟨short, hLeafExec, hLeafLast⟩
    have hReached : last.table = table := hLast.trans hTable
    refine ⟨pieces, last, short, hExec, hLeafExec, hPieces, hReached, ?_⟩
    rw [hReached, hLeafLast]
    exact hSame.symm
  · rintro fault rfl
    rw [show leafResult = .error fault from hEnds] at hLeafWalks
    rw [Fault.map_eq_error_iff.1 hMeets] at hWalks
    rw [processOpen, processOpen, hWalks.exec_processLines_of_error hSteps,
      hLeafWalks.exec_processLines_of_error hLeafSteps]
    exact ⟨rfl, rfl⟩
  · rintro fault rfl
    rw [Fault.map_eq_error_iff.1 hMeets] at hWalks
    rw [processOpen, hWalks.exec_processLines_of_error hSteps]

-- A file with conditions that are not asked

def singleLine (text : String) (hReads : logicalLine? [text] = some (text, 1, [])) : LogicalLine :=
  ⟨[{ text := text }], text, hReads⟩

def numberedTable (number : String) (macros : List (String × Meaning)) : Table :=
  { names := (readerName, .record) :: (lineName, .text number) :: macros }

def openSession (lines : List LogicalLine) : Session :=
  { table := numberedTable "0" []
    reader := some { path := none, lines := physical lines } }

theorem reading_openSession (lines : List LogicalLine) (hShort :
    (physical lines).length.repr.length ≤ Text.decimalDigitLimit) :
    Reading (openSession lines) (physical lines) := by
  refine ⟨⟨_, rfl, rfl, rfl, rfl⟩, rfl, 0, rfl, ?_⟩
  rw [Nat.zero_add]
  exact hShort

def endLine : LogicalLine := singleLine "#endif\n" (by cbv)

def defineLine : LogicalLine := singleLine "#define A 1\n" (by cbv)

def undefineLine : LogicalLine := singleLine "#undef B\n" (by cbv)

def textLine : LogicalLine := singleLine "A \"A\"\n" (by cbv)

/- A part of a group that is selected. -/
def samplePart : Block := .leaf undefineLine (by decide) (.leaf textLine (by decide) .nil)

/- The parts after the first one; the condition of the last one has no value. -/
def sampleParts : Parts :=
  .orIf (singleLine "#elif A\n" (by cbv)) (by decide) samplePart
    (.orIf (singleLine "#elif 1 / 0\n" (by cbv)) (by decide)
      (.leaf (singleLine "#error\n" (by cbv)) (by decide) .nil)
      (.close endLine (by decide)))

/- A file with a definition and a group. The first part of the group is not selected and has a group
  inside it whose condition has no value. -/
def sampleBlock : Block :=
  .leaf defineLine (by decide) (.group (singleLine "#ifdef B\n" (by cbv)) (by decide)
      (.group (singleLine "#if 1 / 0\n" (by cbv)) (by decide)
        .nil (.close endLine (by decide)) .nil)
      sampleParts .nil)

def sampleTable (number : String) : Table := numberedTable number [("A", .text "1")]

def sampleTexts : List String := ["A \"A\"\n", "A", "1"]

theorem plain_sampleTexts : ∀ t ∈ sampleTexts,
    Plain (sampleTable "7") t ∧ lineName ∉ Macro.pieces t ∧ ∀ name ∈ Macro.pieces t,
        ∀ body ∈ (sampleTable "7").text? name, body ∈ sampleTexts := by
  decide

theorem expands_sampleTexts (hText : text ∈ sampleTexts) :
    Expands 4 (sampleTable "7") text (plainResult 4 (sampleTable "7") text) := by
  have hReached : ∀ t, Reaches (sampleTable "7") text t → t ∈ sampleTexts := fun t =>
    mem_of_reaches hText fun t hText => (plain_sampleTexts t hText).2.2
  exact expands_of_allPlain 4 (fun t h => (plain_sampleTexts t (hReached t h)).1)
    (fun t h => (plain_sampleTexts t (hReached t h)).2.1)

/- The line of text is expanded up to its string. -/
theorem leafRuns_text : LeafRuns 4 (sampleTable "7") "A \"A\"\n" (.ok "1 \"A\"\n") := by
  have hResult : plainResult 4 (sampleTable "7") "A \"A\"\n" = .ok "1 \"A\"\n" := by
    decide +kernel
  rw [← hResult]
  exact .text rfl (expands_sampleTexts (by decide))

theorem decides_ifdef : Decides 4 (sampleTable "2") "#ifdef B\n" false := by
  rintro ahead session hTable
  have hSelected : partSelected 4 ahead "#ifdef B\n" = do
      return (← getTable).contains "B" := rfl
  rw [hSelected, exec_bind, exec_getTable, hTable]
  rfl

theorem decides_elif : Decides 4 (sampleTable "5") "#elif A\n" true := by
  rintro ahead session hTable
  have hText : exec (Macro.expandLine 4 ahead "A") session = (.ok "1", session) := by
    have hResult : plainResult 4 (sampleTable "7") "A" = .ok "1" := by decide +kernel
    rw [← hResult]
    exact expands_sampleTexts (by decide) ahead session (hTable ▸ rfl)
  have hParts : exec (substituteNames 4 ahead false ["A"]) session = (.ok ["1"], session) := by
    have hName : Text.isIdentifier? "A" = some true := by decide
    have hKnown : (sampleTable "5").contains "A" = true := by decide
    simp [substituteNames, substituteName, exec_bind, exec_getTable, hTable, hName, hKnown, hText]
  have hLexemes : Expr.lexemes (openDefined (Directive.operandOf "#elif A\n")) = ["A"] := by
    decide +kernel
  have hValue : Expr.evaluateAll (sampleTable "5").contains (Expr.lexemes (Text.concat ["1"])) =
      .ok (.int 1, .int 1) := by decide +kernel
  rw [partSelected_eq_conditionHolds rfl rfl (.inr rfl), conditionHolds, hLexemes]
  simp only [exec_bind, hParts, exec_getTable, hTable, hValue]
  rfl

theorem leafRuns_define : LeafRuns 4 (numberedTable "1" []) "#define A 1\n" (.ok "") := by
  refine @LeafRuns.define _ _ _ _ (.ok ()) rfl rfl ?_ rfl
  intro definition hDefinition
  cases hDefinition
  exact ⟨by decide, by decide⟩

/- The three leaves of this file are processed like a file of their own. -/
theorem processOpen_sampleBlock :
    ∃ pieces final short,
      processOpen 4 (openSession sampleBlock.lines)
          sampleBlock.lines =
        (.ok pieces, final) ∧
      processOpen 4 (openSession sampleBlock.lines)
          [defineLine, undefineLine, textLine] =
        (.ok ["", "", "1 \"A\"\n"], short) ∧
      Text.concat pieces = "1 \"A\"\n" ∧
      final.table = sampleTable "10" ∧
      SameMacros final.table short.table := by
  have hUndefine : LeafRuns 4 (sampleTable "6") "#undef B\n" (.ok "") :=
    .undefine rfl rfl ⟨by decide, by decide⟩
  have hPart : Block.Selects 4 2 (sampleTable "5") samplePart
        [(undefineLine, ""), (textLine, "1 \"A\"\n")]
        (.reached (sampleTable "7")) :=
    .leaf hUndefine (.leaf leafRuns_text .nil)
  have hParts : Parts.Selects 4 3 (sampleTable "4") sampleParts
        [(undefineLine, ""), (textLine, "1 \"A\"\n")]
        (.reached (sampleTable "10")) :=
    @Parts.Selects.orIf 4 2 (sampleTable "4") _ _ _ _ _ (.reached (sampleTable "7"))
      decides_elif hPart
  have hSelects : Block.Selects 4 4 (openSession sampleBlock.lines).table sampleBlock
        [(defineLine, ""), (undefineLine, ""), (textLine, "1 \"A\"\n")]
        (.reached (sampleTable "10")) :=
    .leaf leafRuns_define (@Block.Selects.group 4 3 (sampleTable "1") (sampleTable "10") _ _ _ _ _
        [(undefineLine, ""), (textLine, "1 \"A\"\n")] [] _
        (.later decides_ifdef hParts) .nil)
  exact (processOpen_of_selects 3 _ sampleBlock _ _
    (reading_openSession _ (by decide)) hSelects).1 _ rfl

-- A macro that stands for the line number

def lineMacroLine : LogicalLine := singleLine "#define L __LINE__\n" (by cbv)

def ifdefLine : LogicalLine := singleLine "#ifdef L\n" (by cbv)

def lineUseLine : LogicalLine := singleLine "L\n" (by cbv)

/- A line in a group has another number than without it. -/
theorem processOpen_lineNumber :
    (processOpen 4 (openSession [])
        [lineMacroLine, ifdefLine, lineUseLine, endLine]).1 =
      .ok ["", "3\n"] ∧
    (processOpen 4 (openSession [])
        [lineMacroLine, lineUseLine]).1 =
      .ok ["", "2\n"] := by
  decide +kernel

end Source

end CHeader
