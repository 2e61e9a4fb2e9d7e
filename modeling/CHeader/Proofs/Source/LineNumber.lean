import CHeader.Proofs.Source.Course
import CHeader.Proofs.Text.Space

/-
  The numbers of lines.

  While a file is read the number of the line is that of the last directive that set it, or zero,
  plus the physical lines that were taken since then. Each move of a run keeps this true of the file
  that is read and of those that are suspended, whose numbers wait in their saved states.

  Main declarations:
    * `Source.rebindsLine`
    * `Source.Moment.Exact`
    * `Source.preprocess_lines_counted`
-/

namespace CHeader

namespace Source

open Macro List

open Relation (ReflTransGen)

variable {digits name : String} {first last : Moment}

-- Numbers in directives

/- What is taken for the number of a directive is made of digits. -/
theorem isDigit_of_numberAndRest? (hFound : numberAndRest? skip cs = some (digits, name)) :
    ∃ list, digits = String.ofList list ∧ ∀ c ∈ list, c.isDigit = true := by
  fun_induction numberAndRest? skip cs with
  | case1 => cases hFound
  | case2 c rest _ found _ _ _ _ =>
    cases hFound
    exact ⟨_, rfl, fun _ hMem => mem_takeWhile_imp hMem⟩
  | case3 _ _ _ _ _ _ _ _ ih => exact ih hFound
  | case4 => cases hFound
  | case5 _ _ _ ih | case6 _ _ _ ih => exact ih hFound

/- The number of a directive is the first one of its text, if a blank follows. -/
theorem numberAndRest?_literal (before digits rest : List Char)
    (blank : Char) (hBefore : ∀ c ∈ before, c.isDigit = false) (hSome : digits ≠ [])
    (hDigits : ∀ c ∈ digits, c.isDigit = true) (hBlank : Text.isBlank blank = true) :
    numberAndRest? 0 (before ++ digits ++ blank :: rest) = some (String.ofList digits, String.ofList
        ((rest.dropWhile Text.isBlank).takeWhile (· ≠ '\n'))) := by
  induction before with
  | nil =>
    rcases exists_cons_of_ne_nil hSome with ⟨first, more, rfl⟩
    have hFirst := hDigits first mem_cons_self
    have hEnd : ¬ blank.isDigit = true :=
      Text.forall_isBlank (P := fun c => ¬ c.isDigit = true) (by decide +kernel) hBlank
    have hTaken : (first :: more ++ blank :: rest).takeWhile Char.isDigit = first :: more := by
      rw [takeWhile_append_of_pos hDigits, takeWhile_cons_of_neg hEnd, append_nil]
    have hLeft : (first :: more ++ blank :: rest).dropWhile Char.isDigit = blank :: rest := by
      rw [dropWhile_append_of_pos hDigits, dropWhile_cons_of_neg hEnd]
    rw [cons_append] at hTaken hLeft
    rw [nil_append, cons_append, numberAndRest?]
    simp only [hFirst, if_true, hTaken, hLeft, hBlank, dropWhile_cons_of_pos]
  | cons c before ih =>
    have hOther := hBefore c mem_cons_self
    rw [cons_append, cons_append, numberAndRest?]
    simp only [hOther]
    exact ih (fun d hMem => hBefore d (mem_cons_of_mem c hMem))

-- Exact numbers

/- Whether a line gives the name of the line number another meaning or takes it out. -/
def rebindsLine (line : String) : Bool :=
  match Directive.ofLine? line with
  | some directive =>
      match directive.keyword with
      | some .define =>
          (Definition.ofText? (Directive.operandOf line)).any (·.name = lineName)
      | some .undefine => directive.argument = lineName
      | _ => false
  | none => false

/- Whether a meaning of the name is the number of the line that was taken last of a file. -/
def Frame.Shown (frame : Frame) (meaning : Option Meaning) : Prop :=
  frame.live = true → ∃ text, meaning = some (.text text) ∧
      Text.readInteger? text = some (frame.base + (frame.taken : Int))

/-
  Whether the number of the line is exact at a moment: it is the number of the last line taken of
  the file that is read, provided that no line so far gave its name another meaning.
-/
def Moment.Exact (moment : Moment) : Prop :=
  (∀ line ∈ moment.heard, rebindsLine line = false) → ∀ frame ∈ moment.files.head?,
      frame.Shown (moment.session.table.find? lineName)

/- Whether the saved states of files have the numbers of their last lines. -/
def Waiting : Option Suspended → List Frame → Prop
| _, [] => True
| outer, frame :: files =>
    (∀ state, outer = some state → frame.Shown (some state.line)) ∧ Waiting frame.outer files

/- Whether the numbers of all files being read are exact. -/
def FilesCounted (meaning : Option Meaning) : List Frame → Prop
| [] => True
| frame :: files =>
    frame.Shown meaning ∧ Waiting frame.outer files

/- Whether the numbers are exact unless a line so far gave the name of the number another meaning. -/
def Moment.Counted (moment : Moment) : Prop :=
  (∀ line ∈ moment.heard, rebindsLine line = false) →
    FilesCounted (moment.session.table.find? lineName) moment.files

theorem Moment.Counted.exact {moment : Moment} (hCounted : moment.Counted) : moment.Exact := by
  intro hHeard frame hFrame
  have hFiles := hCounted hHeard
  cases hCase : moment.files with
  | nil =>
    rw [hCase] at hFrame
    cases hFrame
  | cons first files =>
    rw [hCase] at hFrame hFiles
    cases hFrame
    exact hFiles.1

-- Moves

section

variable {session next : Session} {frame : Frame} {files : List Frame}
variable {line : String} {directive : Directive}

theorem Frame.shown_finish (frame : Frame) (meaning : Option Meaning) :
    frame.finish.Shown meaning := nofun

theorem FilesCounted.finish (hCounted : FilesCounted meaning files) :
    FilesCounted other (files.modifyHead Frame.finish) := by
  cases files with
  | nil => trivial
  | cons frame files =>
    exact ⟨frame.shown_finish _, hCounted.2⟩

/- A line that is read is counted with all its physical lines. -/
theorem LineRead.shown (hRead : LineRead session next)
    (hShown : frame.Shown (session.table.find? lineName)) :
    (frame.take (session.unread - next.unread)).Shown (next.table.find? lineName) := by
  intro hLive
  rcases hShown hLive with ⟨shown, hFind, hNumber⟩
  rcases hRead.counted with ⟨old, n, text, hOld, hOldNumber, hWrite, hTable⟩
  rw [hOld, Option.some.injEq, Meaning.text.injEq] at hFind
  subst hFind
  rw [hOldNumber, Option.some.injEq] at hNumber
  subst hNumber
  refine ⟨text, ?_, ?_⟩
  · rw [hTable, find?_setText, if_pos rfl]
  · rw [Text.readInteger?_of_writeInteger? hWrite]
    simp only [Frame.take, Nat.cast_add, Option.some.injEq]
    ring

/- A line that is no directive for the name keeps its meaning. -/
theorem find?_define_lineName (table : Table)
    (hLine : Directive.ofLine? line = some directive) (hKeyword : directive.keyword = some .define)
    (hOther : rebindsLine line = false) :
    (define line table).1.find? lineName = table.find? lineName := by
  refine find?_define table ?_ (by decide) (by decide)
  intro definition hDefinition hName
  simp only [rebindsLine, hLine, hKeyword, hDefinition,
    Option.any_some, decide_eq_false_iff_not] at hOther
  exact hOther hName

theorem find?_erase_lineName (table : Table) (hLine : Directive.ofLine? line = some directive)
    (hKeyword : directive.keyword = some .undefine) (hOther : rebindsLine line = false) :
    (table.erase directive.argument).find? lineName = table.find? lineName := by
  simp only [rebindsLine, hLine, hKeyword, decide_eq_false_iff_not] at hOther
  rw [Table.find?_erase, if_neg hOther]

/- A directive that sets the number sets it to the one before the next line's. -/
theorem shown_renumber {text : String} (frame : Frame) (table : Table)
    (hNumber : numberAndRest? 0 text.toList = some (digits, name))
    (hDigits : Text.readInteger? digits = some n) :
    (frame.renumber n).Shown ((renumbered n name table).find? lineName) := by
  intro _
  rcases isDigit_of_numberAndRest? hNumber with ⟨list, rfl, hList⟩
  refine ⟨toString (n - 1), ?_, ?_⟩
  · rw [renumbered]
    cases name.isEmpty <;> simp [find?_setText, lineName, fileName]
  · rw [Text.readInteger?_toString_sub_one hList hDigits]
    simp [Frame.renumber]

/- A file that is entered starts at zero, and the number of the one that includes it is saved. -/
theorem FilesCounted.enter (hEntered : FileEntered session next entry)
    (hCounted : FilesCounted (session.table.find? lineName) files) :
    FilesCounted (next.table.find? lineName) (⟨entry.path, entry.outer, 0, 0, true⟩ :: files) := by
  refine ⟨?_, ?_⟩
  · intro _
    exact ⟨"0", hEntered.number, rfl⟩
  · cases files with
    | nil => trivial
    | cons frame files =>
      refine ⟨?_, hCounted.2⟩
      intro state hState
      rw [← (hEntered.suspended state hState).1.line]
      exact hCounted.1

/- The number of a file that is resumed is the saved one. -/
theorem Waiting.leave (hLeft : FileLeft session next path outer) (hWaiting : Waiting outer files) :
    FilesCounted (next.table.find? lineName) (filesAfter outer files) := by
  cases files with
  | nil => cases outer <;> trivial
  | cons frame files =>
    cases outer with
    | none => exact ⟨frame.shown_finish _, hWaiting.2⟩
    | some state =>
      refine ⟨?_, hWaiting.2⟩
      rw [(hLeft.resumed state rfl).line]
      exact hWaiting.1 state rfl

end

theorem Advance.counted (hMove : Advance first last) (hCounted : first.Counted) : last.Counted := by
  intro hHeard
  cases hMove with
  | @reads session next heard frame files line hRead =>
    have hFiles := hCounted fun other hMem => hHeard other (mem_cons_of_mem line hMem)
    exact ⟨(LineRead.of_exec hRead).shown hFiles.1, hFiles.2⟩
  | runsOut hRead =>
    exact (hCounted hHeard).finish
  | @defines session _ _ _ _ hMem hLine hKeyword =>
    have hSame := find?_define_lineName session.table hLine hKeyword (hHeard _ hMem)
    exact hSame ▸ hCounted hHeard
  | @undefines session _ _ _ _ hMem hLine hKeyword =>
    have hSame := find?_erase_lineName session.table hLine hKeyword (hHeard _ hMem)
    exact hSame ▸ hCounted hHeard
  | renumbers _ _ _ _ hNumber hDigits =>
    exact ⟨shown_renumber _ _ hNumber hDigits, (hCounted hHeard).2⟩
  | reports level message => exact hCounted hHeard
  | enters hEnter =>
    exact (hCounted hHeard).enter (FileEntered.of_exec hEnter)
  | refuses hEnter => trivial
  | leaves hLeave =>
    exact (hCounted hHeard).2.leave (FileLeft.of_exec hLeave)
  | fails hLeave => trivial
  | closes => exact (hCounted hHeard).finish

/- A run from a moment with exact numbers meets only such moments. -/
theorem exact_of_moves (hFirst : first.Counted) (hMoves : ReflTransGen Advance first last) :
    last.Counted ∧ ReflTransGen (fun moment next => Advance moment next ∧ next.Exact)
        first last := by
  induction hMoves with
  | refl => exact ⟨hFirst, .refl⟩
  | tail _ hMove ih =>
    have hCounted := hMove.counted ih.1
    exact ⟨hCounted, ih.2.tail ⟨hMove, hCounted.exact⟩⟩

/- A session in whose working directory there is a file that sets its line number. -/
def renumberingSession : Session :=
  { world := { tree := { files :=
      [(["main.h"], asciiBytes "#line 12 \"a 7\"\n__LINE__\n")] } } }

end Source

end CHeader
