import CHeader.Proofs.Source.Selection

/-
  Lines that are passed over.

  In skipped text only the marks of groups count, so a block is skipped as a whole and the parts of
  a group are skipped up to the end of the group. A part that is not selected is passed over in the
  same way.

  Main declarations:
    * `Source.SkipsOver`
    * `Source.SkipsPast`
    * `Source.exec_skipGroup`
-/

namespace CHeader

namespace Source

open List

variable {session : Session} {follow : List SourceLine}

-- Several lines

def Session.readAll (session : Session) (lines : List LogicalLine) : Session :=
  lines.foldl Session.read session

@[simp] theorem Session.readAll_nil (session : Session) : session.readAll [] = session := rfl

@[simp] theorem Session.readAll_cons (session : Session)
    (line : LogicalLine) (lines : List LogicalLine) :
    session.readAll (line :: lines) = (session.read line).readAll lines := rfl

@[simp] theorem Session.readAll_append (session : Session) (first second : List LogicalLine) :
    session.readAll (first ++ second) = (session.readAll first).readAll second :=
  foldl_append

@[simp] theorem Session.table_readAll (session : Session) (lines : List LogicalLine) :
    (session.readAll lines).table = countAll session.table lines := by
  induction lines generalizing session with
  | nil => rfl
  | cons line lines ih =>
    rw [Session.readAll_cons, ih]
    rfl

theorem Reading.readAll (hReading : Reading session (physical lines ++ follow)) :
    Reading (session.readAll lines) follow := by
  induction lines generalizing session with
  | nil => exact hReading
  | cons line lines ih =>
    rw [physical_cons, append_assoc] at hReading
    exact ih hReading.read

-- Skipped lines

namespace LogicalLine

variable {line : LogicalLine}

theorem groupMark?_eq : groupMark? line.text = match line.keyword? with
    | some .endIf => some .closes
    | some keyword =>
      if keyword.opensGroup then some .opens else none
    | none => none := by
  rw [groupMark?, keyword?]
  rcases Directive.ofLine? line.text with
    _ | ⟨_ | keyword, _, _⟩
  · rfl
  · rfl
  · cases keyword <;> rfl

theorem Opens.groupMark? (hOpens : line.Opens) : groupMark? line.text = some .opens := by
  rcases hOpens with ⟨keyword, hKeyword, hOpensGroup⟩
  rw [groupMark?_eq, hKeyword]
  cases keyword <;> simp_all [Keyword.opensGroup]

theorem Neutral.groupMark? (hNeutral : line.Neutral) : groupMark? line.text = none := by
  rw [groupMark?_eq]
  cases hKeyword : line.keyword? with
  | none => rfl
  | some keyword =>
    have hOther := hNeutral keyword hKeyword
    cases keyword <;> simp_all [Keyword.isConditional]
    all_goals rfl

end LogicalLine

/- What follows the end of a group in skipped text. -/
def afterClose (count : Nat) : Nat → Run Unit
| 0 => pure ()
| inside + 1 => skipGroupFrom count inside

theorem exec_skipGroupFrom_succ (hReading : Reading session (line.lines ++ follow))
    (count inside : Nat) :
    exec (skipGroupFrom (count + 1) inside) session = exec (match groupMark? line.text with
        | some .opens => skipGroupFrom count (inside + 1)
        | some .closes => afterClose count inside
        | none => skipGroupFrom count inside)
        (session.read line) := by
  rw [skipGroupFrom.eq_def]
  rw [exec_bind, exec_nextLine hReading]
  cases hMark : groupMark? line.text with
  | none => simp only [hMark]
  | some mark =>
    cases mark with
    | opens => simp only [hMark]
    | closes => cases inside <;> simp only [hMark] <;> rfl

/- Whether skipping goes over lines and on with a run that depends on the groups still open. -/
def SkipsTo (next : Nat → Nat → Run Unit) (lines : List LogicalLine) : Prop :=
  ∀ (session : Session) (follow : List SourceLine) (count inside : Nat),
    Reading session (physical lines ++ follow) →
      exec (skipGroupFrom (lines.length + count) inside) session =
        exec (next count inside) (session.readAll lines)

abbrev SkipsOver (lines : List LogicalLine) : Prop := SkipsTo skipGroupFrom lines

/- Whether skipping goes over lines and out of the group. -/
abbrev SkipsPast (lines : List LogicalLine) : Prop := SkipsTo afterClose lines

section

variable {next : Nat → Nat → Run Unit} {line : LogicalLine} {body lines : List LogicalLine}

theorem skipsOver_nil : SkipsOver [] := by
  intro session follow count inside _
  rw [length_nil, Nat.zero_add, Session.readAll_nil]

theorem SkipsTo.cons (hMark : groupMark? line.text = none) (hLines : SkipsTo next lines) :
    SkipsTo next (line :: lines) := by
  intro session follow count inside hReading
  rw [physical_cons, append_assoc] at hReading
  rw [length_cons, Nat.add_right_comm, exec_skipGroupFrom_succ hReading, hMark]
  exact hLines _ follow count inside hReading.read

theorem SkipsOver.append (hBody : SkipsOver body) (hLines : SkipsTo next lines) :
    SkipsTo next (body ++ lines) := by
  intro session follow count inside hReading
  rw [physical_append, append_assoc] at hReading
  rw [length_append, Nat.add_assoc, hBody _ _ _ _ hReading,
    hLines _ _ _ _ hReading.readAll, Session.readAll_append]

theorem skipsPast_endIf (hEnd : line.keyword? = some .endIf) : SkipsPast [line] := by
  intro session follow count inside hReading
  have hMark : groupMark? line.text = some .closes := by
    rw [LogicalLine.groupMark?_eq, hEnd]
  rw [physical_cons, physical_nil, append_assoc] at hReading
  rw [length_singleton, Nat.add_comm, exec_skipGroupFrom_succ hReading, hMark]
  rfl

theorem SkipsPast.cons_opens (hOpens : line.Opens)
    (hLines : SkipsPast lines) : SkipsOver (line :: lines) := by
  intro session follow count inside hReading
  rw [physical_cons, append_assoc] at hReading
  rw [length_cons, Nat.add_right_comm, exec_skipGroupFrom_succ hReading, hOpens.groupMark?]
  exact hLines _ follow count (inside + 1) hReading.read

end

mutual

theorem Block.skipsOver : (block : Block) → SkipsOver block.lines
| .nil => skipsOver_nil
| .leaf _ hLine rest => rest.skipsOver.cons hLine.groupMark?
| .group opening hOpening body parts rest => by
    have hGroup : SkipsOver (opening :: (body.lines ++ parts.lines)) :=
      SkipsPast.cons_opens hOpening (body.skipsOver.append parts.skipsPast)
    rw [Block.lines, ← append_assoc, ← cons_append]
    exact hGroup.append rest.skipsOver

theorem Parts.skipsPast : (parts : Parts) → SkipsPast parts.lines
| .close _ hClosing => skipsPast_endIf hClosing
| .orIf line hLine body parts =>
    (body.skipsOver.append parts.skipsPast).cons (by rw [line.groupMark?_eq, hLine]; rfl)
| .otherwise line hLine body _ hClosing =>
    (body.skipsOver.append (skipsPast_endIf hClosing)).cons (by rw [line.groupMark?_eq, hLine]; rfl)

end

theorem exec_skipGroup (hSkips : SkipsPast lines)
    (hReading : Reading session (physical lines ++ follow)) :
    exec skipGroup session = (.ok (), session.readAll lines) := by
  have hLength := length_le_physical lines
  rw [skipGroup, exec_bind, exec_linesLeft, hReading.unread_eq, length_append]
  simp only
  obtain ⟨count, hCount⟩ : ∃ count, (physical lines).length + follow.length + 1 =
      lines.length + count :=
    ⟨_, (Nat.add_sub_of_le (by omega)).symm⟩
  rw [hCount, hSkips _ _ _ _ hReading]
  rfl

-- Lines of a group

section

variable {session : Session} {line : LogicalLine} {follow : List SourceLine} (step : LineStep)
variable (count : Nat) (text : String)

theorem exec_processGroupFrom_succ (hReading : Reading session (line.lines ++ follow))
    (selected : Bool) : exec (processGroupFrom limit step (count + 1) selected text) session =
      exec (match selected, line.keyword? with
        | _, some .endIf => return text
        | true, some .elseGroup
        | true, some .elseIf => do
            skipGroup
            return text
        | true, _ => do
            let more ← step line.text
            processGroupFrom limit step count true (text ++ more)
        | false, some .elseGroup =>
          processGroupFrom limit step count true text
        | false, some .elseIf => do
            if ← conditionHolds limit step line.text then
              let more ← step ("#if " ++ Directive.operandOf line.text)
              return text ++ more
            else processGroupFrom limit step count false text
        | false, some keyword => do
            if keyword.opensGroup then skipGroup
            processGroupFrom limit step count false text
        | false, none =>
          processGroupFrom limit step count false text)
        (session.read line) := by
  rw [processGroupFrom.eq_def]
  rw [exec_bind, exec_nextLine hReading]
  rfl

/- A leaf of a part that is not selected is passed over. -/
theorem exec_processGroupFrom_neutral (hReading : Reading session (line.lines ++ follow))
    (hNeutral : line.Neutral) : exec (processGroupFrom limit step (count + 1) false text) session =
      exec (processGroupFrom limit step count false text) (session.read line) := by
  rw [exec_processGroupFrom_succ step count text hReading]
  cases hKeyword : line.keyword? with
  | none => rfl
  | some keyword =>
    have hOther := hNeutral keyword hKeyword
    cases keyword with
    | ifDefined => cases hOther
    | ifUndefined => cases hOther
    | ifTrue => cases hOther
    | elseGroup => cases hOther
    | elseIf => cases hOther
    | endIf => cases hOther
    | _ => rfl

/- A group in a part that is not selected is skipped. -/
theorem exec_processGroupFrom_opens (hReading : Reading session (line.lines ++ follow))
    (hOpens : line.Opens) :
    exec (processGroupFrom limit step (count + 1) false text) session = exec (do
        skipGroup
        processGroupFrom limit step count false text)
        (session.read line) := by
  rcases hOpens with ⟨keyword, hKeyword, hOpensGroup⟩
  rw [exec_processGroupFrom_succ step count text hReading, hKeyword]
  cases keyword with
  | ifDefined | ifUndefined | ifTrue => rfl
  | _ => cases hOpensGroup

end

/- A block that is not selected is passed over as a whole. -/
theorem Block.exec_processGroupFrom_false (limit : Nat) (step : LineStep) (text : String) :
    (block : Block) → ∀ {session : Session} {follow : List SourceLine} {count need : Nat},
        Reading session (physical block.lines ++ follow) →
        block.lines.length + need ≤ count → ∃ left, need ≤ left ∧
            exec (processGroupFrom limit step count false text) session =
              exec (processGroupFrom limit step left false text) (session.readAll block.lines)
| .nil, _, _, count, _, _, hCount =>
    ⟨count, by simpa [Block.lines] using hCount, rfl⟩
| .leaf line hLine rest, session, follow, count, need, hReading, hCount => by
    simp only [Block.lines, physical_cons, append_assoc, length_cons] at hReading hCount
    obtain ⟨left, rfl⟩ : ∃ left, count = left + 1 := ⟨count - 1, by omega⟩
    rw [exec_processGroupFrom_neutral step left text hReading hLine]
    exact rest.exec_processGroupFrom_false limit step text hReading.read (by omega)
| .group opening hOpening body parts rest, session, follow, count, need, hReading, hCount => by
    simp only [Block.lines, physical_cons, append_assoc, length_cons,
      length_append] at hReading hCount
    obtain ⟨left, rfl⟩ : ∃ left, count = left + 1 := ⟨count - 1, by omega⟩
    have hSkips : SkipsPast (body.lines ++ parts.lines) := body.skipsOver.append parts.skipsPast
    have hInside : Reading (session.read opening) (physical (body.lines ++ parts.lines) ++
        (physical rest.lines ++ follow)) := by
      simpa using hReading.read
    rw [exec_processGroupFrom_opens step left text hReading
      hOpening, exec_bind, exec_skipGroup hSkips hInside]
    simpa [Block.lines] using
      rest.exec_processGroupFrom_false limit step text hInside.readAll (by omega)

end Source

end CHeader
