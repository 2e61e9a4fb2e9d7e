import CHeader.Proofs.Source.Skipping

/-
  Processing of conditional groups.

  A file or a selected part of a group is processed line by line, and a line that opens a group
  takes the lines of the whole group with it. What this gives is what the selection says: the texts
  of the selected leaves one after the other, and the table at the end, or the fault.

  A part after the first whose condition holds is processed as if it were the first part of a group
  of its own, so its condition is asked twice and the end of that group is the end of the whole.

  Main declarations:
    * `Source.Walks`
    * `Source.Ending.Meets`
    * `Source.Block.runs`
-/

namespace CHeader

namespace Source

open List Directive

variable {line : LogicalLine} {session : Session} {follow : List SourceLine} {body : Block}
variable {depth : Nat} {leaves : List Leaf} {ending : Ending}
variable {directive : Directive} {keyword : Keyword}

-- Conditions of later parts

namespace Directive

variable {line : String}

/- The operand of a directive does not begin with a blank. -/
theorem dropWhile_operand (hLine : ofLine? line = some directive) :
    directive.operand.dropWhile Text.isBlank = directive.operand := by
  rw [ofLine?, ofChars?] at hLine
  split at hLine
  · simp only at hLine
    split at hLine
    · rename_i named hNamed
      cases hLine
      obtain ⟨keyword, _, hKeyword⟩ := exists_of_findSome?_eq_some hNamed
      obtain ⟨after, _, rfl⟩ := Option.map_eq_some_iff.1 hKeyword
      exact dropWhile_idempotent _ _
    · split at hLine
      · cases hLine
      · cases hLine
        exact dropWhile_idempotent _ _
  · cases hLine

/- The line by which a later part is processed again. -/
theorem ofLine?_if (operand : String) : ofLine? ("#if " ++ operand) =
    some ⟨some .ifTrue, ' ' :: operand.toList, operand.toList.dropWhile Text.isBlank⟩ := by
  rw [ofLine?, String.toList_append]
  rfl

theorem operandOf_if (hLine : ofLine? line = some directive) :
    operandOf ("#if " ++ operandOf line) = operandOf line := by
  have hOperand : operandOf line = String.ofList directive.operand := by
    rw [operandOf, hLine]
    rfl
  rw [hOperand, operandOf, ofLine?_if, String.toList_ofList, dropWhile_operand hLine]
  rfl

end Directive

theorem partSelected_of_elseIf (hLine : line.keyword? = some .elseIf) (ahead : LineStep) :
    partSelected limit ahead line.text = conditionHolds limit ahead line.text := by
  rcases Option.bind_eq_some_iff.1 hLine with ⟨directive, hDirective, hKeyword⟩
  exact partSelected_eq_conditionHolds hDirective hKeyword (.inr rfl) ahead

/- The same condition has the same answer when it is asked again for the group of its own. -/
theorem decides_if (hLine : line.keyword? = some .elseIf)
    (hDecides : Decides limit table line.text selected) :
    Decides limit table ("#if " ++ operandOf line.text) selected := by
  rcases Option.bind_eq_some_iff.1 hLine with ⟨directive, hDirective, _⟩
  intro ahead session hTable
  rw [← hDecides ahead session hTable, partSelected_of_elseIf hLine,
    partSelected_eq_conditionHolds (ofLine?_if _)
      rfl (.inl rfl), conditionHolds, conditionHolds,
    operandOf_if hDirective]

-- Steps over lines

/-
  Steps over the lines of a file or of a selected part: the number of lines that are read here, the
  pieces of text they give and the session they leave, or their fault.
-/
inductive Walks (step : LineStep) :
    Nat → Session → Except Fault (List String) × Session → Prop
  | done {session : Session} : Walks step 0 session (.ok [], session)
  | goOn {count : Nat} {session next final : Session} {line : LogicalLine}
      {follow : List SourceLine}
      {piece : String}
      {result : Except Fault (List String)}
      (hReading : Reading session (line.lines ++ follow))
      (hLine : line.Neutral ∨ line.Opens)
      (hStep : exec (step line.text) (session.read line) = (.ok piece, next))
      (hNext : Walks step count next (result, final)) :
      Walks step (count + 1) session (result.map (piece :: ·), final)
  | stop {session final : Session} {line : LogicalLine} {follow : List SourceLine} {fault : Fault}
      (hReading : Reading session (line.lines ++ follow))
      (hLine : line.Neutral ∨ line.Opens)
      (hStep : exec (step line.text) (session.read line) = (.error fault, final)) :
      Walks step 1 session (.error fault, final)

theorem exec_processGroupFrom_true (hReading : Reading session (line.lines ++ follow))
    (hLine : line.Neutral ∨ line.Opens) (step : LineStep) (count : Nat) (text : String) :
    exec (processGroupFrom limit step (count + 1) true text) session = exec (do
        let more ← step line.text
        processGroupFrom limit step count true (text ++ more))
        (session.read line) := by
  rw [exec_processGroupFrom_succ step count text hReading]
  cases hKeyword : line.keyword? with
  | none => rfl
  | some keyword =>
    have hInside : keyword ≠ .endIf ∧ keyword ≠ .elseGroup ∧ keyword ≠ .elseIf := by
      rcases hLine with hNeutral | ⟨_, hOpens, hOpensGroup⟩
      · have hOther := hNeutral keyword hKeyword
        refine ⟨?_, ?_, ?_⟩ <;> rintro rfl <;> cases hOther
      · rw [hKeyword, Option.some.injEq] at hOpens
        subst hOpens
        refine ⟨?_, ?_, ?_⟩ <;> rintro rfl <;> cases hOpensGroup
    cases keyword with
    | endIf => exact absurd rfl hInside.1
    | elseGroup => exact absurd rfl hInside.2.1
    | elseIf => exact absurd rfl hInside.2.2
    | _ => rfl

namespace Walks

variable {step : LineStep} {steps : Nat} {session : Session}
variable {outcome : Except Fault (List String) × Session}

theorem exec_processGroupFrom (hWalks : Walks step steps session outcome) (count : Nat)
    (text : String) : exec (processGroupFrom limit step (steps + count) true text) session =
      match outcome with
      | (.ok pieces, final) =>
        exec (processGroupFrom limit step count true (text ++ Text.concat pieces)) final
      | (.error fault, final) => (.error fault, final) := by
  induction hWalks generalizing text with
  | done => simp
  | @goOn _ _ _ _ _ _ _ result hReading hLine hStep _ ih =>
    rw [Nat.add_right_comm, exec_processGroupFrom_true hReading hLine, exec_bind, hStep]
    cases result with
    | error fault => simp [ih]
    | ok pieces => simp [ih, String.append_assoc]
  | stop hReading hLine hStep =>
    rw [Nat.add_comm, exec_processGroupFrom_true hReading hLine, exec_bind, hStep]

theorem exec_processLines (hWalks : Walks step steps session outcome) (count : Nat)
    (before : List String) : exec (processLines step (steps + count) before) session =
      match outcome with
      | (.ok pieces, final) =>
        exec (processLines step count (pieces.reverse ++ before)) final
      | (.error fault, final) => (.error fault, final) := by
  induction hWalks generalizing before with
  | done => simp
  | @goOn _ _ _ _ _ _ _ result hReading hLine hStep _ ih =>
    rw [Nat.add_right_comm, processLines, exec_bind, exec_nextLine? hReading]
    simp only [exec_bind, hStep, ih]
    cases result with
    | error fault => simp
    | ok pieces => simp
  | stop hReading hLine hStep =>
    rw [Nat.add_comm, processLines, exec_bind, exec_nextLine? hReading]
    simp only [exec_bind, hStep]

end Walks

-- Runs and selections

/-
  Whether a run ends as a selection does: with the text of the leaves, ready for the lines that
  follow and with the table that was reached, or with the same fault.
-/
def Ending.Meets (ending : Ending) (leaves : List Leaf) (follow : List SourceLine)
    (outcome : Except Fault String × Session) : Prop :=
  match ending with
  | reached table =>
      outcome.1 = .ok (leafText leaves) ∧ Reading outcome.2 follow ∧ outcome.2.table = table
  | leafFault fault => outcome.1 = .error fault
  | groupFault fault => outcome.1 = .error fault

theorem leafText_append (first second : List Leaf) :
    leafText (first ++ second) = leafText first ++ leafText second := by
  simp [leafText]

namespace Ending

variable {ending : Ending} {leaves more : List Leaf} {follow : List SourceLine}
variable {outcome : Except Fault String × Session}

theorem meets_iff_of_fault (hFault : ending.fault? = some fault) :
    ending.Meets leaves follow outcome ↔ outcome.1 = .error fault := by
  cases ending with
  | reached table => cases hFault
  | leafFault | groupFault =>
    cases hFault
    exact Iff.rfl

/- The texts of leaves that came before are put in front. -/
theorem Meets.prepend (hMeets : ending.Meets more follow outcome) :
    ending.Meets (leaves ++ more) follow (outcome.1.map (leafText leaves ++ ·), outcome.2) := by
  cases ending with
  | reached table =>
    rcases hMeets with ⟨hText, hRest⟩
    refine ⟨?_, hRest⟩
    simp only [hText, leafText_append]
    rfl
  | leafFault fault | groupFault fault =>
    have hError : outcome.1 = .error fault := hMeets
    simp only [hError]
    rfl

end Ending

/- Whether a block is processed as it is selected. -/
def Block.Runs (block : Block) : Prop :=
  ∀ {limit depth : Nat} {session : Session} {leaves : List Leaf}
    {ending : Ending} {follow : List SourceLine},
    Block.Selects limit depth session.table block leaves ending →
    Reading session (physical block.lines ++ follow) →
      ∃ steps result final, Walks (processNested limit depth) steps session (result, final) ∧
          steps ≤ block.lines.length ∧
          ending.Meets leaves follow (result.map Text.concat, final)

/- Whether the parts of a group after one that was passed over are processed as they are selected. -/
def Parts.Runs (parts : Parts) : Prop :=
  ∀ {limit depth count : Nat} {session : Session} {leaves : List Leaf} {ending : Ending}
    {follow : List SourceLine},
    Parts.Selects limit depth session.table parts leaves ending →
    Reading session (physical parts.lines ++ follow) →
    parts.lines.length ≤ count → ending.Meets leaves follow (exec
        (processGroupFrom limit (processNested limit depth) count false "")
        session)

-- Selected parts

/- After a selected part the rest of the group is passed over. -/
theorem Parts.exec_processGroupFrom_true (parts : Parts) (step : LineStep) (count : Nat)
    (text : String) (hReading : Reading session (physical parts.lines ++ follow)) :
    exec (processGroupFrom limit step (count + 1) true text) session =
      (.ok text, session.readAll parts.lines) := by
  cases parts
  all_goals
    simp only [Parts.lines, physical_cons, append_assoc] at hReading
    rw [exec_processGroupFrom_succ step count text hReading]
  case close hClosing =>
    rw [hClosing]
    rfl
  case orIf hLine body parts =>
    rw [hLine, exec_bind, exec_skipGroup (body.skipsOver.append parts.skipsPast) hReading.read]
    rfl
  case otherwise hLine body closing hClosing =>
    rw [hLine, exec_bind,
      exec_skipGroup (body.skipsOver.append (skipsPast_endIf hClosing)) hReading.read]
    rfl

/- A selected part gives the texts of its leaves, and the lines of the parts after it are counted. -/
theorem Block.Runs.exec_processGroupFrom (hRuns : body.Runs) (parts : Parts) {count : Nat}
    (hSelects : Block.Selects limit depth session.table body leaves ending)
    (hReading : Reading session (physical (body.lines ++ parts.lines) ++ follow))
    (hCount : body.lines.length < count) : (ending.count parts.lines).Meets leaves follow (exec
        (processGroupFrom limit (processNested limit depth) count true "") session) := by
  rw [physical_append, append_assoc] at hReading
  rcases hRuns hSelects hReading with ⟨steps, result, final, hWalks, hSteps, hMeets⟩
  obtain ⟨left, rfl⟩ : ∃ left, count = steps + (left + 1) := ⟨count - steps - 1, by omega⟩
  rw [hWalks.exec_processGroupFrom]
  cases ending with
  | reached table =>
    rcases hMeets with ⟨hText, hFinal, hTable⟩
    cases result with
    | error fault => cases hText
    | ok pieces =>
      have hPieces : Text.concat pieces = leafText leaves := Except.ok.inj hText
      simp only at hFinal hTable ⊢
      rw [parts.exec_processGroupFrom_true _ _ _ hFinal]
      refine ⟨?_, hFinal.readAll, ?_⟩
      · simp [hPieces]
      · simp [hTable]
  | leafFault | groupFault =>
    cases result with
    | error _ => exact hMeets
    | ok pieces => cases hMeets

-- Groups

/- A line that opens a group decides about its first part and processes the lines of the group. -/
theorem exec_processLineWith_opens {line : String}
    (hLine : ofLine? line = some directive) (hKeyword : directive.keyword = some keyword)
    (hOpens : keyword.opensGroup = true) (step : LineStep) (session : Session) :
    exec (processLineWith limit step line) session = exec (do
        let selected ← partSelected limit step line
        processGroupFrom limit step ((← linesLeft) + 1) selected "")
        session := by
  rw [processLineWith, partSelected, hLine]
  simp only [processDirective, hKeyword]
  cases keyword with
  | ifTrue | ifDefined | ifUndefined => simp only [processGroup]
  | _ => cases hOpens

/- If the condition of such a line holds, the first part is processed. -/
theorem Block.Runs.exec_processNested (hRuns : body.Runs) (parts : Parts) {line : String}
    (hLine : ofLine? line = some directive) (hKeyword : directive.keyword = some keyword)
    (hOpens : keyword.opensGroup = true) (hHolds : Decides limit session.table line true)
    (hSelects : Block.Selects limit depth session.table body leaves ending)
    (hReading : Reading session (physical (body.lines ++ parts.lines) ++ follow)) :
    (ending.count parts.lines).Meets leaves follow
      (exec (processNested limit (depth + 1) line) session) := by
  have hLength := length_le_physical body.lines
  rw [processNested, exec_processLineWith_opens hLine hKeyword hOpens,
    exec_bind, hHolds (processNested limit depth) session rfl]
  simp only
  rw [exec_bind, exec_linesLeft, hReading.unread_eq]
  apply hRuns.exec_processGroupFrom parts hSelects hReading
  simp only [physical_append, length_append]
  omega

theorem GroupSelects.meets {parts : Parts} (hBodyRuns : body.Runs) (hPartsRuns : parts.Runs)
    {opening : LogicalLine} (hOpening : opening.Opens)
    (hSelects : GroupSelects limit depth session.table opening.text body parts leaves ending)
    (hReading : Reading session (physical (body.lines ++ parts.lines) ++ follow)) :
    ending.Meets leaves follow (exec (processNested limit (depth + 1) opening.text) session) := by
  rcases hOpening with ⟨keyword, hKeyword, hOpens⟩
  rcases Option.bind_eq_some_iff.1 hKeyword with ⟨directive, hDirective, hDirectiveKeyword⟩
  cases hSelects with
  | first hHolds hBody =>
    exact hBodyRuns.exec_processNested parts hDirective
      hDirectiveKeyword hOpens hHolds hBody hReading
  | later hHolds hParts =>
    have hLength := length_le_physical body.lines
    have hPartsLength := length_le_physical parts.lines
    rw [processNested, exec_processLineWith_opens hDirective hDirectiveKeyword hOpens,
      exec_bind, hHolds (processNested limit depth) session rfl]
    simp only
    rw [exec_bind, exec_linesLeft, hReading.unread_eq]
    have hCount : body.lines.length + parts.lines.length ≤ (physical (body.lines ++ parts.lines) ++
        follow).length + 1 := by
      simp only [physical_append, length_append]
      omega
    rw [physical_append, append_assoc] at hReading
    rcases body.exec_processGroupFrom_false limit (processNested limit depth) "" hReading
      hCount with ⟨left, hLeft, hPassed⟩
    simp only [hPassed]
    exact hPartsRuns (by simpa using hParts) hReading.readAll hLeft
  | fault hFails =>
    rw [processNested, exec_processLineWith_opens hDirective hDirectiveKeyword hOpens]
    exact exec_bind_of_error session _ (hFails (processNested limit depth) session rfl)

-- Blocks

theorem runs_nil : Block.Runs .nil := by
  intro limit depth session leaves ending follow hSelects hReading
  cases hSelects with
  | nil =>
    exact ⟨0, .ok [], session, .done, Nat.le_refl _, rfl, hReading, rfl⟩

/- A piece of text before the steps of a block. -/
theorem Ending.Meets.cons (leaves : List Leaf) {result : Except Fault (List String)}
    (hPiece : piece = leafText leaves)
    (hMeets : ending.Meets more follow (result.map Text.concat, final)) :
    ending.Meets (leaves ++ more) follow ((result.map (piece :: ·)).map Text.concat, final) := by
  have hPrepend : ending.Meets (leaves ++ more) follow _ := hMeets.prepend
  rw [← hPiece] at hPrepend
  cases result with
  | error fault => exact hPrepend
  | ok pieces => simpa [Except.map] using hPrepend

theorem Block.Runs.leaf {line : LogicalLine} {hLine : line.Neutral} {rest : Block}
    (hRuns : rest.Runs) : Block.Runs (.leaf line hLine rest) := by
  intro limit depth session leaves ending follow hSelects hReading
  simp only [Block.lines, physical_cons, append_assoc] at hReading
  cases hSelects with
  | leaf hLeaf hRest =>
    have hStep := fun depth => hLeaf.exec_processLineWith
      (processNested limit depth) (.refl (session.read line).table)
    rcases hRuns hRest (hLeaf.reading hReading.read) with
      ⟨steps, result, final, hWalks, hSteps, hMeets⟩
    refine ⟨steps + 1, _, _, .goOn hReading (.inl hLine) (hStep _) hWalks, ?_, ?_⟩
    · simpa [Block.lines] using hSteps
    · exact hMeets.cons [(line, _)] (by simp [leafText])
  | leafFault hLeaf =>
    have hStep := fun depth => hLeaf.exec_processLineWith
      (processNested limit depth) (.refl (session.read line).table)
    exact ⟨1, _, _, .stop hReading (.inl hLine) (hStep _), by simp [Block.lines], rfl⟩
  | leafDeep =>
    exact ⟨1, _, _, .stop hReading (.inl hLine) rfl, by simp [Block.lines], rfl⟩

theorem Block.Runs.group (hBodyRuns : body.Runs) (hPartsRuns : parts.Runs) (hRuns : rest.Runs) :
    Block.Runs (.group opening hOpening body parts rest) := by
  intro limit depth session leaves ending follow hSelects hReading
  have hInside : Reading (session.read opening) (physical (body.lines ++ parts.lines) ++
      (physical rest.lines ++ follow)) := by
    simp only [Block.lines, physical_cons, append_assoc] at hReading
    simpa using hReading.read
  simp only [Block.lines, physical_cons, append_assoc] at hReading
  cases hSelects with
  | group hGroup hRest =>
    have hMeets := GroupSelects.meets hBodyRuns hPartsRuns hOpening hGroup hInside
    rcases hMeets with ⟨hText, hNext, rfl⟩
    rcases hRuns hRest hNext with ⟨steps, result, final, hWalks, hSteps, hMeets⟩
    refine ⟨steps + 1, _, _, .goOn hReading (.inr hOpening) (Prod.ext hText rfl)
        hWalks, ?_, hMeets.cons _ rfl⟩
    simp only [Block.lines, length_cons, length_append]
    omega
  | groupFault hGroup hFault =>
    have hMeets := GroupSelects.meets hBodyRuns hPartsRuns hOpening hGroup hInside
    rw [Ending.meets_iff_of_fault hFault] at hMeets
    refine ⟨1, _, _, .stop hReading (.inr hOpening) (Prod.ext hMeets rfl),
      by simp [Block.lines], ?_⟩
    exact (Ending.meets_iff_of_fault hFault).2 rfl
  | groupDeep =>
    exact ⟨1, _, _, .stop hReading (.inr hOpening) rfl, by simp [Block.lines], rfl⟩

-- Later parts

theorem runs_close : Parts.Runs (.close closing hClosing) := by
  intro limit depth count session leaves ending follow hSelects hReading hCount
  simp only [Parts.lines, physical_cons, append_assoc] at hReading
  obtain ⟨left, rfl⟩ : ∃ left, count = left + 1 := ⟨count - 1, (Nat.sub_add_cancel hCount).symm⟩
  rw [exec_processGroupFrom_succ _ _ _ hReading, hClosing]
  cases hSelects with
  | close => exact ⟨rfl, hReading.read, rfl⟩

theorem Block.Runs.otherwise {line closing : LogicalLine} {hLine : line.keyword? = some .elseGroup}
    {hClosing : closing.keyword? = some .endIf} {body : Block} (hRuns : body.Runs) :
    Parts.Runs (.otherwise line hLine body closing hClosing) := by
  intro limit depth count session leaves ending follow hSelects hReading hCount
  simp only [Parts.lines, physical_cons, append_assoc,
    length_cons, length_append] at hReading hCount
  obtain ⟨left, rfl⟩ : ∃ left, count = left + 1 := ⟨count - 1, by omega⟩
  rw [exec_processGroupFrom_succ _ _ _ hReading, hLine]
  cases hSelects with
  | otherwise hBody =>
    exact hRuns.exec_processGroupFrom (.close closing hClosing) hBody hReading.read (by omega)

theorem Block.Runs.orIf {line : LogicalLine} {hLine : line.keyword? = some .elseIf} {body : Block}
    {parts : Parts} (hBodyRuns : body.Runs) (hPartsRuns : parts.Runs) :
    Parts.Runs (.orIf line hLine body parts) := by
  intro limit depth count session leaves ending follow hSelects hReading hCount
  simp only [Parts.lines, physical_cons, append_assoc,
    length_cons, length_append] at hReading hCount
  obtain ⟨left, rfl⟩ : ∃ left, count = left + 1 := ⟨count - 1, by omega⟩
  rw [exec_processGroupFrom_succ _ _ _ hReading, hLine]
  simp only [← partSelected_of_elseIf hLine]
  cases hSelects with
  | @orIf depth _ _ _ _ _ leaves ending hHolds hBody =>
    rw [exec_bind, hHolds _ (session.read line) rfl]
    simp only [if_true]
    rw [exec_bind]
    -- the part is the first one of a group of its own
    have hMeets : (ending.count parts.lines).Meets leaves follow
        (exec (processNested limit (depth + 1) ("#if " ++ operandOf line.text))
          (session.read line)) :=
      hBodyRuns.exec_processNested parts (ofLine?_if _) rfl rfl
        (decides_if hLine hHolds) hBody hReading.read
    rcases hOutcome : exec (processNested limit (depth + 1) ("#if " ++ operandOf line.text))
        (session.read line) with ⟨_ | more, final⟩
    · rw [hOutcome] at hMeets
      exact hMeets
    · rw [hOutcome] at hMeets
      simpa using hMeets
  | orIfDeep hHolds =>
    rw [exec_bind, hHolds _ (session.read line) rfl]
    rfl
  | orIfNot hHolds hParts =>
    rw [exec_bind, hHolds _ (session.read line) rfl]
    have hInside := hReading.read
    rw [physical_append, append_assoc] at hInside
    rcases body.exec_processGroupFrom_false limit (processNested limit depth) "" hInside
        (show body.lines.length + parts.lines.length ≤ left by omega) with
      ⟨left, hLeft, hPassed⟩
    simp only [Bool.false_eq_true, if_false, hPassed]
    exact hPartsRuns (by simpa using hParts) hInside.readAll hLeft
  | orIfFault hFails =>
    exact exec_bind_of_error _ _ (hFails (processNested limit depth) (session.read line) rfl)

mutual

theorem Block.runs : (block : Block) → block.Runs
| .nil => runs_nil
| .leaf _ _ rest => Block.Runs.leaf rest.runs
| .group _ _ body parts rest =>
    Block.Runs.group body.runs parts.runs rest.runs

theorem Parts.runs : (parts : Parts) → parts.Runs
| .close _ _ => runs_close
| .orIf _ _ body parts =>
    Block.Runs.orIf body.runs parts.runs
| .otherwise _ _ body _ _ => Block.Runs.otherwise body.runs

end

end Source

end CHeader
