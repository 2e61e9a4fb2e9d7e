import CHeader.Proofs.Interface.Sound
import CHeader.Proofs.Value.Calm

/-
  Steps that keep an interface sound.

  A step leads from a sound workspace to sound ones, both where it succeeds and where it fails for
  want of a name. Steps that fail for that reason are the only ones that are ever taken up again.

  Main declarations:
    * `Workspace.Leads`
    * `Workspace.Leads.bind`
    * `Workspace.leads_enterRecord`
-/

namespace CHeader

open Declaration List Macro Step Work Interface

namespace Workspace

variable {tag : Option String}

-- Steps along sound workspaces

/- Whether a step from a workspace leads to sound ones: to a value and a workspace of which `post`
  holds, or to a fault. Of the faults only that of a missing name has to leave a sound workspace. -/
structure Leads {α : Type} (bodies : Bodies) (step : Work α) (work : Workspace)
    (post : α → Workspace → Prop) : Prop where
  ok : ∀ {a next}, exec step work = (.ok a, next) → Extends bodies work next ∧ post a next
  missing : ∀ {next}, exec step work = (.error .missingName, next) → Extends bodies work next

namespace Leads

variable {α β : Type} {bodies : Bodies} {work : Workspace} {step : Work α}
variable {post : α → Workspace → Prop}

variable {next : Workspace}
variable {a : α} {fault : Fault} {rest : α → Work β} {last : β → Workspace → Prop}

theorem mono {weaker : α → Workspace → Prop} (hLeads : Leads bodies step work post)
    (hPost : ∀ a next, Extends bodies work next → post a next →
        weaker a next) : Leads bodies step work weaker where
  ok hExec := let ⟨hNext, hThen⟩ := hLeads.ok hExec
    ⟨hNext, hPost _ _ hNext hThen⟩
  missing := hLeads.missing

theorem traced (hLeads : Leads bodies step work post) : Leads bodies step work (fun a next =>
    exec step work = (.ok a, next) ∧ post a next) where
  ok hExec := ⟨(hLeads.ok hExec).1, hExec, (hLeads.ok hExec).2⟩
  missing := hLeads.missing

theorem of_exec_ok (hExec : exec step work = (.ok a, next))
    (hNext : Extends bodies work next) (hPost : post a next) : Leads bodies step work post where
  ok hOther := by
    obtain ⟨hValue, rfl⟩ := Prod.mk.inj (hExec.symm.trans hOther)
    cases hValue
    exact ⟨hNext, hPost⟩
  missing hOther := by
    cases (Prod.mk.inj (hExec.symm.trans hOther)).1

/- A step that fails, with a sound workspace or for another reason than a name. -/
theorem of_exec_error (hExec : exec step work = (.error fault, next))
    (hNext : fault = .missingName → Extends bodies work next) : Leads bodies step work post where
  ok hOther := by
    cases (Prod.mk.inj (hExec.symm.trans hOther)).1
  missing hOther := by
    obtain ⟨hFault, rfl⟩ := Prod.mk.inj (hExec.symm.trans hOther)
    exact hNext (Except.error.inj hFault)

variable (hWork : Extends bodies work work)
include hWork

theorem pure (hPost : post a work) : Leads bodies (Pure.pure a) work post :=
  of_exec_ok rfl hWork hPost

theorem throw : Leads bodies (throw fault : Work α) work post :=
  of_exec_error rfl fun _ => hWork

theorem lift (hPost : ∀ a, result = .ok a → post a work) :
    Leads bodies (Work.lift result) work post := by
  cases result with
  | error fault => exact throw hWork
  | ok a => exact pure hWork (hPost a rfl)

omit hWork in
theorem bind (hFirst : Leads bodies step work post)
    (hRest : ∀ a next, Extends bodies work next → post a next → Leads bodies (rest a) next last) :
    Leads bodies (step >>= rest) work last := by
  rcases hExec : exec step work with ⟨fault | a, next⟩
  · have hBoth := exec_bind_of_error rest hExec
    refine of_exec_error hBoth fun hFault => ?_
    subst hFault
    exact hFirst.missing hExec
  · obtain ⟨hNext, hPost⟩ := hFirst.ok hExec
    have hThen := hRest a next hNext hPost
    have hBoth := exec_bind_of_ok rest hExec
    constructor
    · intro b final hOther
      obtain ⟨hFinal, hLast⟩ := hThen.ok (hBoth ▸ hOther)
      exact ⟨hNext.trans hFinal, hLast⟩
    · intro final hOther
      exact hNext.trans (hThen.missing (hBoth ▸ hOther))

omit hWork in
theorem bind_ok (hExec : exec step work = (.ok a, next)) (hNext : Extends bodies work next)
    (hRest : Leads bodies (rest a) next last) : Leads bodies (step >>= rest) work last := by
  have hFirst : Leads bodies step work (fun b after => b = a ∧ after = next) :=
    of_exec_ok hExec hNext ⟨rfl, rfl⟩
  refine hFirst.bind ?_
  rintro _ _ _ ⟨rfl, rfl⟩
  exact hRest

theorem bind_read (hExec : exec step work = (.ok a, work))
    (hRest : Leads bodies (rest a) work last) : Leads bodies (step >>= rest) work last :=
  bind_ok hExec hWork hRest

theorem forM {items : List α} (hEach : ∀ item ∈ items, ∀ next, Extends bodies work next →
    Leads bodies (each item) next (fun _ _ => True)) :
    Leads bodies (items.forM each) work (fun _ _ => True) := by
  induction items generalizing work with
  | nil => exact pure hWork trivial
  | cons item items ih =>
    refine (hEach item mem_cons_self work hWork).bind ?_
    intro _ next hNext _
    refine ih hNext.stays fun other hOther after hAfter => ?_
    exact hEach other (mem_cons_of_mem _ hOther) after (hNext.trans hAfter)

end Leads

-- Reading the tables

/- The tag of a definition, or the name made up for it. -/
def tagOf (work : Workspace) (tag : Option String) (key : Nat) : Option String :=
  match tag with
  | some name => some name
  | none =>
      (work.givenNames.find? (fun given => given.1 = key)).map Prod.snd

theorem exec_tagOf (work : Workspace) (tag : Option String) (key : Nat) :
    exec (Work.tagOf tag key) work = (.ok (work.tagOf tag key), work) := by
  cases tag <;> rfl

section

variable {bodies : Bodies} {work : Workspace}

/- Whether an interface has its tables, as it does until it is closed. -/
structure HasTables (work : Workspace) : Prop where
  structs : work.iface.structs.isSome
  unions : work.iface.unions.isSome
  enums : work.iface.enums.isSome

namespace HasTables

theorem eq_some_getD {α : Type} {table : Option (List α)} (hTable : table.isSome) :
    table = some (table.getD []) := by
  obtain ⟨items, rfl⟩ := Option.isSome_iff_exists.1 hTable
  rfl

variable (hTables : HasTables work)
include hTables

theorem exec_tagged (kind : RecordKind) : exec (tagged kind) work =
    (.ok (work.iface.table kind), work) := by
  cases kind with
  | struct =>
    unfold tagged Work.structs
    rw [exec_bind_of_ok _ (exec_iface work), eq_some_getD hTables.structs]
    rfl
  | union =>
    unfold tagged Work.unions
    rw [exec_bind_of_ok _ (exec_iface work), eq_some_getD hTables.unions]
    rfl

theorem exec_enums : exec Work.enums work = (.ok (work.iface.enums.getD []), work) := by
  unfold Work.enums
  rw [exec_bind_of_ok _ (exec_iface work), eq_some_getD hTables.enums]
  rfl

/- What stands under a tag has a number. -/
theorem exec_recordNumber (hEntered : work.Entered kind tag number) :
    exec (recordNumber kind tag) work = (.ok number, work) := by
  unfold recordNumber
  rw [exec_bind_of_ok _ (hTables.exec_tagged kind)]
  rw [hEntered]
  rfl

end HasTables

theorem Sound.hasTables (hSound : Sound bodies work) : HasTables work :=
  ⟨hSound.structs, hSound.unions, hSound.enums⟩

end

-- Entering records

def withTable (iface : Interface) (kind : RecordKind) (table : TagTable) : Interface :=
  match kind with
  | .struct => { iface with structs := some table }
  | .union => { iface with unions := some table }

section

variable (iface : Interface) (kind other : RecordKind) (table : TagTable)

theorem table_withTable : (withTable iface kind table).table other =
    if kind = other then table else iface.table other := by
  cases kind <;> cases other <;> rfl

@[simp] theorem libraries_withTable : (withTable iface kind table).libraries = iface.libraries := by
  cases kind <;> rfl

@[simp] theorem enums_withTable : (withTable iface kind table).enums = iface.enums := by
  cases kind <;> rfl

@[simp] theorem entries_withTable : (withTable iface kind table).entries = iface.entries := by
  cases kind <;> rfl

@[simp] theorem exported_withTable : (withTable iface kind table).exported = iface.exported := by
  cases kind <;> rfl

end

def enter (work : Workspace) (kind : RecordKind) (tag : Option String) (name : String) :
    Workspace :=
  { work with
    iface := withTable work.iface kind ((work.iface.table kind).put tag
        (.type (.record work.heap.types.records.length))),
    heap := { work.heap with
        types := (work.heap.types.add kind name).1 } }

section

variable {bodies : Bodies} {work : Workspace}

variable {kind : RecordKind} {name : String}
variable {value : Value} {α : Type} {step : OnHeap α}

theorem HasTables.exec_setTagged (hTables : HasTables work)
    (kind : RecordKind) (tag : Option String) (value : Value) :
    exec (setTagged kind tag value) work = (.ok (), { work with
        iface := withTable work.iface kind ((work.iface.table kind).put tag value) }) := by
  unfold setTagged
  rw [exec_bind_of_ok _ (hTables.exec_tagged kind)]
  cases kind <;> rfl

theorem table_enter (work : Workspace) (kind other : RecordKind)
    (tag : Option String) (name : String) :
    (work.enter kind tag name).iface.table other = if kind = other then
        (work.iface.table kind).put tag (.type (.record work.heap.types.records.length))
      else work.iface.table other := table_withTable _ _ _ _

/- A workspace grows when a record is entered under a tag that is not known. -/
theorem grows_enter (hNew : (work.iface.table kind).find? tag = none) (name : String) :
    work.Grows (work.enter kind tag name) := by
  refine ⟨libraries_withTable _ _ _, rfl, TypeTable.grows_add _ _, ?_⟩
  intro other key number hEntered
  unfold Entered at hEntered ⊢
  rw [table_enter]
  by_cases hKind : kind = other
  · subst hKind
    rw [if_pos rfl, TagTable.find?_put, if_neg, hEntered]
    rintro rfl
    rw [hNew] at hEntered
    cases hEntered
  · rw [if_neg hKind, hEntered]

/- A record may be entered under a tag that is not known. -/
theorem Extends.enter (hWork : Extends bodies work work)
    (hNew : (work.iface.table kind).find? tag = none) :
    Extends bodies work (work.enter kind tag (tag.getD "None")) := by
  have hSound := hWork.sound
  have hTable := fun other => table_enter work kind other tag (tag.getD "None")
  have hGrows := grows_enter hNew (tag.getD "None")
  have hKept : ∀ (value : Value) number record next, value = .type (.record number) →
      work.heap.types.record? number = some record →
      (work.enter kind tag (tag.getD "None")).heap.types.record? number = some next →
        next.members = record.members := by
    intro value number record next _ hRecord hNext
    have hSame := TypeTable.record?_add_of_some kind (tag.getD "None") hRecord
    cases hSame.symm.trans hNext
    rfl
  have hRenews : Renews bodies work (work.enter kind tag (tag.getD "None")) := by
    refine ⟨hGrows, hSound.types.add _ _, ?_, ?_, ?_, ?_, ?_, ?_, ?_, ?_, ?_, ?_, ?_, ?_⟩
    · cases kind
      · rfl
      · exact hSound.structs
    · cases kind
      · exact hSound.unions
      · rfl
    · exact (enums_withTable _ _ _).symm ▸ hSound.enums
    · intro other key value hFind
      rw [hTable] at hFind
      by_cases hKind : kind = other
      · subst hKind
        rw [if_pos rfl, TagTable.find?_put] at hFind
        by_cases hKey : tag = key
        · subst hKey
          rw [if_pos rfl] at hFind
          cases hFind
          refine .inr ⟨_, { kind := kind, name := _ }, rfl, ?_,
            rfl, rfl, .inl rfl, fun _ hSome => (nomatch hSome)⟩
          exact (TypeTable.record?_add _ _ _ _).trans (if_pos rfl)
        · rw [if_neg hKey] at hFind
          exact .inl ⟨hFind, hKept value⟩
      · rw [if_neg hKind] at hFind
        exact .inl ⟨hFind, hKept value⟩
    · intro other
      rw [hTable]
      split
      · exact TagTable.nodup_put (hSound.tagsOnce kind)
      · exact hSound.tagsOnce other
    · intro other key key' number hKey hKey'
      unfold Entered at hKey hKey'
      rw [hTable] at hKey hKey'
      by_cases hKind : kind = other
      · subst hKind
        rw [if_pos rfl, TagTable.find?_put] at hKey hKey'
        -- The number of the new record is that of no other.
        have hFresh : ∀ tag, (work.iface.table kind).find? tag ≠ some (.type
            (.record work.heap.types.records.length)) := by
          intro tag hOld
          obtain ⟨record, hTag⟩ := hSound.tag_of_entered hOld
          have hRecord := hTag.record?
          rw [TypeTable.record?_length] at hRecord
          cases hRecord
        split at hKey <;> split at hKey'
        · rename_i hFirst hSecond
          exact hFirst.symm.trans hSecond
        · cases hKey
          exact absurd hKey' (hFresh key')
        · cases hKey'
          exact absurd hKey (hFresh key)
        · exact hSound.tagsApart kind key key' number hKey hKey'
      · rw [if_neg hKind] at hKey hKey'
        exact hSound.tagsApart other key key' number hKey hKey'
    · exact (enums_withTable _ _ _).symm ▸ hSound.enumTypes
    · exact (enums_withTable _ _ _).symm ▸ hSound.enumsOnce
    · intro entry hEntry
      exact .inl ((entries_withTable _ _ _) ▸ hEntry)
    · exact (entries_withTable _ _ _).symm ▸ hSound.entriesOnce
    · intro entry hEntry
      exact .inl ((exported_withTable _ _ _) ▸ hEntry)
    · exact (exported_withTable _ _ _).symm ▸ hSound.exportedOnce
  refine ⟨hGrows, hRenews.sound hSound, ?_, hWork.named⟩
  intro entry hEntry
  exact hWork.textless entry ((entries_withTable _ _ _) ▸ hEntry)

theorem entered_enter (work : Workspace) (kind : RecordKind) (tag : Option String) (name : String) :
    (work.enter kind tag name).Entered kind tag work.heap.types.records.length := by
  unfold Entered enter
  rw [table_withTable, if_pos rfl, TagTable.find?_put, if_pos rfl]

theorem HasTables.onHeap (hTables : HasTables work)
    (heap : Heap) : HasTables { work with heap := heap } :=
  ⟨hTables.structs, hTables.unions, hTables.enums⟩

theorem HasTables.exec_newTagged (hTables : HasTables work)
    (kind : RecordKind) (tag : Option String) (name : String) :
    exec (do
        let type ← newRecord kind name
        setTagged kind tag (.type type)) work =
      (.ok (), work.enter kind tag name) := by
  exact (hTables.onHeap _).exec_setTagged kind tag _

theorem HasTables.exec_enterRecord (hTables : HasTables work)
    (kind : RecordKind) (tag : Option String) : exec (enterRecord kind tag) work = (.ok (),
        if (work.iface.table kind).find? tag = none then work.enter kind tag (tag.getD "None")
        else work) := by
  unfold enterRecord
  rw [exec_bind_of_ok _ (hTables.exec_tagged kind)]
  cases hFind : (work.iface.table kind).find? tag with
  | none =>
    exact hTables.exec_newTagged kind tag (tag.getD "None")
  | some value => rfl

theorem HasTables.exec_replaceRecord (hTables : HasTables work)
    (kind : RecordKind) (name : String) : exec (replaceRecord kind name) work =
      (.ok (.type (.record work.heap.types.records.length)), work.enter kind (some name) name) := by
  unfold replaceRecord
  rw [exec_bind_of_ok _ (exec_newRecord work kind name), exec_bind_of_ok _
      ((hTables.onHeap _).exec_setTagged kind (some name) _)]
  rfl

theorem leads_enterRecord (hWork : Extends bodies work work)
    (kind : RecordKind) (tag : Option String) : Leads bodies (enterRecord kind tag) work
      (fun _ next => ∃ number, next.Entered kind tag number) := by
  have hExec := hWork.sound.hasTables.exec_enterRecord kind tag
  cases hFind : (work.iface.table kind).find? tag with
  | none =>
    rw [if_pos hFind] at hExec
    exact .of_exec_ok hExec (hWork.enter hFind) ⟨_, entered_enter _ _ _ _⟩
  | some value =>
    rw [if_neg (by simp [hFind])] at hExec
    obtain ⟨number, record, hTag⟩ := hWork.sound.tags kind tag value hFind
    refine .of_exec_ok hExec hWork ⟨number, ?_⟩
    unfold Entered
    rw [hFind, hTag.value_eq]

/- A record may be put under a tag that is not known. -/
theorem leads_replaceRecord (hWork : Extends bodies work work)
    (hNew : (work.iface.table kind).find? (some name) = none) :
    Leads bodies (replaceRecord kind name) work (fun value next =>
        ∃ number, value = .type (.record number) ∧ next.Entered kind (some name) number) :=
  .of_exec_ok (hWork.sound.hasTables.exec_replaceRecord kind name)
    (hWork.enter hNew) ⟨_, rfl, entered_enter _ _ _ _⟩

-- Names that are made up

theorem madeUp_not_part (count : Nat) : "__include_anon" ++ toString count ++ "__" ∉ partNames := by
  intro hMem
  have hHead : ∀ name ∈ partNames, name.toList.head? ≠ some '_' := by
    decide
  refine hHead _ hMem ?_
  simp

theorem leads_nameKey (hWork : Extends bodies work work) (hNew : work.tagOf none key = none) :
    Leads bodies (nameKey key) work (fun name next =>
        next.tagOf none key = some name ∧ name ∉ partNames) := by
  have hNext : Extends bodies work (exec (nameKey key) work).2 := by
    refine hWork.of_same rfl rfl rfl ?_
    intro given hGiven
    rcases mem_append.1 hGiven with hOld | hNew
    · exact hWork.named given hOld
    · rw [mem_singleton.1 hNew]
      exact madeUp_not_part _
  refine .of_exec_ok rfl hNext ⟨?_, madeUp_not_part _⟩
  unfold tagOf at hNew ⊢
  rw [Option.map_eq_none_iff] at hNew
  rw [List.find?_append, hNew]
  simp

-- Items

/- Whether a value is what a name or type expression means:
  it is sound, and a text only if it is empty. -/
def Meant (work : Workspace) (value : Value) : Prop :=
  work.SoundValue value ∧ ∀ text, value = .text text → text = ""

theorem Meant.mono {before after : Workspace} (hGrows : before.Grows after)
    (hMeant : before.Meant value) : after.Meant value :=
  ⟨hMeant.1.mono hGrows, hMeant.2⟩

theorem Sound.fix (hWork : Sound bodies work) (type : CType) :
    let next := { work with
        heap := { work.heap with
            types := work.heap.types.fix type } }
    work.Grows next ∧ Sound bodies next := by
  have hFixes := TypeTable.fixes_fix work.heap.types type
  refine hWork.of_types rfl rfl (hFixes.sound hWork.types) (hFixes.grows hWork.types) ?_
  intro number record other hRecord hOther
  rcases hFixes.record?_eq_some hRecord with hSame | hFixed
  · cases hSame.symm.trans hOther
    rfl
  · cases hFixed.symm.trans hOther
    rfl

/- Where no entry changes, a sound workspace comes about. -/
theorem Extends.of_entries (hWork : Extends bodies work work) {next : Workspace}
    (hNext : work.Grows next ∧ Sound bodies next)
    (hEntries : next.iface.entries = work.iface.entries)
    (hGiven : next.givenNames = work.givenNames) : Extends bodies work next := by
  refine ⟨hNext.1, hNext.2, ?_, ?_⟩
  · unfold Textless
    rw [hEntries]
    exact hWork.textless
  · unfold NamedApart
    rw [hGiven]
    exact hWork.named

theorem Extends.fix (hWork : Extends bodies work work) (type : CType) :
    Extends bodies work { work with
        heap := { work.heap with
            types := work.heap.types.fix type } } :=
  hWork.of_entries (hWork.sound.fix type) rfl rfl

theorem Extends.calm (hWork : Extends bodies work work) (hCalm : OnHeap.Calm step) :
    Extends bodies work { work with heap := (exec step work.heap).2 } :=
  hWork.of_same rfl (hCalm work.heap) rfl hWork.named

/- Whether only the heap differs. -/
def HeapOnly (before after : Workspace) : Prop := after = { before with heap := after.heap }

namespace HeapOnly

variable {first second : Workspace}

theorem refl (work : Workspace) : HeapOnly work work := rfl

theorem iface (hOnly : HeapOnly first second) : second.iface = first.iface := by
  rw [hOnly]

theorem givenNames (hOnly : HeapOnly first second) : second.givenNames = first.givenNames := by
  rw [hOnly]

theorem tagOf (hOnly : HeapOnly first second) (tag : Option String) (key : Nat) :
    second.tagOf tag key = first.tagOf tag key := by
  unfold Workspace.tagOf
  rw [hOnly.givenNames]

end HeapOnly

theorem leads_calm (hWork : Extends bodies work work) (hCalm : OnHeap.Calm step) :
    Leads bodies (Work.onHeap step) work (fun _ next => HeapOnly work next) := by
  have hExec := exec_onHeap work step
  have hNext := hWork.calm hCalm
  cases hResult : (exec step work.heap).1 with
  | error fault =>
    rw [hResult] at hExec
    exact .of_exec_error hExec fun _ => hNext
  | ok a =>
    rw [hResult] at hExec
    exact .of_exec_ok hExec hNext rfl

theorem leads_variableAt (hWork : Extends bodies work work)
    (type : Value) (library symbol : String) :
    Leads bodies (variableAt type library symbol) work (fun _ next => HeapOnly work next) := by
  unfold variableAt
  split
  · exact .throw hWork
  · refine .bind_read hWork rfl ?_
    split
    · exact .throw hWork
    · exact .bind_ok (exec_onHeap work _) (hWork.fix _) (.pure (hWork.fix _).stays rfl)
  · exact .throw hWork

/- An exported name has an object, and no other name has. -/
theorem leads_exportedObject? (hWork : Extends bodies work work) (name : String) :
    Leads bodies (exportedObject? name) work (fun found next =>
        HeapOnly work next ∧ (found = none ↔ next.iface.exported? name = none)) := by
  refine .bind_read hWork (exec_iface work) ?_
  split
  · rename_i hNone
    exact .pure hWork ⟨.refl work, ⟨fun _ => hNone, fun _ => rfl⟩⟩
  · rename_i type library hSome
    refine (leads_variableAt hWork _ _ _).bind ?_
    intro object next hNext hOnly
    refine .pure hNext.stays ⟨hOnly, nofun, fun hNone => ?_⟩
    rw [hOnly.iface, hSome] at hNone
    cases hNone

/- Whether a value is what a name stands for: the object of
  an exported name, and otherwise its entry. -/
def StandsFor (work : Workspace) (name : String) (value : Value) : Prop :=
  (∃ object, value = .object object) ∨ work.iface.exported? name = none ∧
      lookup work.iface.entries name = some value

variable (hWork : Extends bodies work work)
include hWork

/- What a name stands for is sound, but for the parts. -/
theorem leads_item? (name : String) : Leads bodies (item? name) work (fun found next =>
    HeapOnly work next ∧ (name ∉ partNames →
        ∀ value, found = some value → next.Meant value ∧ next.StandsFor name value)) := by
  refine (leads_exportedObject? hWork name).bind ?_
  rintro found next hNext ⟨hOnly, hFound⟩
  cases found with
  | some object =>
    refine .pure hNext.stays ⟨hOnly, fun _ => ?_⟩
    rintro _ ⟨⟩
    exact ⟨⟨trivial, fun _ hText => (nomatch hText)⟩, .inl ⟨object, rfl⟩⟩
  | none =>
    refine .bind_read hNext.stays (exec_iface next) ?_
    refine .pure hNext.stays ⟨hOnly, fun hName => ?_⟩
    intro value hValue
    rw [plain?_of_not_part _ hName] at hValue
    have hMem := mem_of_lookup hValue
    exact ⟨⟨(hNext.sound.entries _ hMem).2, hNext.textless _ hMem⟩, .inr ⟨hFound.1 rfl, hValue⟩⟩

theorem leads_item (name : String) : Leads bodies (Work.item name) work (fun value next =>
    HeapOnly work next ∧ (name ∉ partNames →
        next.Meant value ∧ next.StandsFor name value)) := by
  refine (leads_item? hWork name).bind ?_
  rintro found next hNext ⟨hOnly, hFound⟩
  cases found with
  | some value =>
    exact .pure hNext.stays ⟨hOnly, fun hName => hFound hName value rfl⟩
  | none => exact .throw hNext.stays

/- The names, enumerations and exported variables of an interface may be changed to sound ones. -/
omit hWork in
theorem Sound.of_names (hSound : Sound bodies work) {iface : Interface}
    (hLibraries : iface.libraries = work.iface.libraries)
    (hStructs : iface.structs = work.iface.structs) (hUnions : iface.unions = work.iface.unions)
    (hEnums : iface.enums.isSome)
    (hEnumTypes : ∀ entry ∈ iface.enums.getD [], entry.2 = .type (.scalar .int))
    (hEnumsOnce : ((iface.enums.getD []).map Prod.fst).Nodup)
    (hEntries : ∀ entry ∈ iface.entries, entry ∈ work.iface.entries ∨
        entry.1 ∉ partNames ∧ work.SoundValue entry.2)
    (hEntriesOnce : (iface.entries.map Prod.fst).Nodup)
    (hExported : ∀ entry ∈ iface.exported, entry ∈ work.iface.exported ∨
        entry.1 ∉ partNames ∧ entry.2.2 ∈ work.iface.libraries ∧
          ∃ type, entry.2.1 = .type type ∧ type.Over work.Known)
    (hExportedOnce : (iface.exported.map Prod.fst).Nodup) :
    work.Grows { work with iface := iface } ∧ Sound bodies { work with iface := iface } := by
  have hTable : ∀ kind, iface.table kind = work.iface.table kind := by
    intro kind
    cases kind with
    | struct => rw [table, table, hStructs]
    | union => rw [table, table, hUnions]
  have hGrows : work.Grows { work with iface := iface } := by
    refine ⟨hLibraries, rfl, .refl _, ?_⟩
    intro kind tag number hEntered
    unfold Entered at hEntered ⊢
    rw [← hTable kind] at hEntered
    exact hEntered
  refine ⟨hGrows, Renews.sound ?_ hSound⟩
  refine ⟨hGrows, hSound.types, hStructs ▸ hSound.structs,
    hUnions ▸ hSound.unions, hEnums, ?_, ?_, ?_, hEnumTypes,
    hEnumsOnce, ?_, hEntriesOnce, ?_, hExportedOnce⟩
  · intro kind tag found hFind
    refine .inl ⟨(hTable kind) ▸ hFind, ?_⟩
    intro number record next _ hRecord hNext
    cases hRecord.symm.trans hNext
    rfl
  · intro kind
    exact (hTable kind).symm ▸ hSound.tagsOnce kind
  · intro kind tag other number hTag hOther
    unfold Entered at hTag hOther
    rw [hTable] at hTag hOther
    exact hSound.tagsApart kind tag other number hTag hOther
  · intro entry hEntry
    refine (hEntries entry hEntry).imp id ?_
    rintro ⟨hName, hValue⟩
    exact ⟨hName, hValue.mono hGrows⟩
  · intro entry hEntry
    refine (hExported entry hEntry).imp id ?_
    rintro ⟨hName, hLibrary, type, hType, hOver⟩
    exact ⟨hName, hLibraries ▸ hLibrary, type, hType, hOver.mono hGrows.known⟩

omit hWork in
theorem Sound.entry (hSound : Sound bodies work) {name : String}
    (hName : name ∉ partNames) {value : Value} (hValue : work.SoundValue value) :
    let next := { work with
        iface := { work.iface with
            entries := assign name value work.iface.entries } }
    work.Grows next ∧ Sound bodies next := by
  refine hSound.of_names rfl rfl rfl hSound.enums hSound.enumTypes hSound.enumsOnce ?_
    (nodup_assign hSound.entriesOnce)
    (fun _ hEntry => .inl hEntry) hSound.exportedOnce
  intro entry hEntry
  rcases mem_assign hEntry with rfl | hOld
  · exact .inr ⟨hName, hValue⟩
  · exact .inl hOld

/- A name may be given a value that is meant. -/
theorem Extends.entry (hName : name ∉ partNames) (hValue : work.Meant value) :
    Extends bodies work { work with
        iface := { work.iface with
            entries := assign name value work.iface.entries } } := by
  obtain ⟨hGrows, hSound⟩ := hWork.sound.entry hName hValue.1
  refine ⟨hGrows, hSound, ?_, hWork.named⟩
  intro entry hEntry text hText
  rcases mem_assign hEntry with rfl | hOld
  · exact hValue.2 text hText
  · exact hWork.textless entry hOld text hText

/- Setting a name keeps an interface sound. An exported name sets the variable instead. -/
theorem leads_setItem (hName : name ∉ partNames) (hValue : work.Meant value) :
    Leads bodies (setItem name value) work (fun _ next =>
        next.iface.exported? name = none → lookup next.iface.entries name = some value) := by
  refine (leads_exportedObject? hWork name).bind ?_
  rintro found next hNext ⟨hOnly, hFound⟩
  cases found with
  | some object =>
    refine (leads_calm hNext.stays (OnHeap.calm_reference object)).bind ?_
    intro _ last hLast hSame
    refine (leads_calm hLast.stays (OnHeap.calm_assign _ _ _)).mono ?_
    intro _ final _ hFinal hNone
    rw [hFinal.iface, hSame.iface] at hNone
    exact absurd (hFound.2 hNone) nofun
  | none =>
    rw [setPlain_of_not_part hName]
    refine .of_exec_ok (exec_modifyIface _ _) (hNext.stays.entry hName (hValue.mono hNext.grows))
      fun _ => ?_
    exact (lookup_assign _ _ _ _).trans (if_pos rfl)

theorem Extends.enumTag (tag : Option String) : Extends bodies work { work with
    iface := { work.iface with
        enums := some ((work.iface.enums.getD []).put tag (.type (.scalar .int))) } } := by
  have hSound := hWork.sound
  refine hWork.of_entries (hSound.of_names rfl rfl rfl rfl ?_ (TagTable.nodup_put hSound.enumsOnce)
      (fun _ hEntry => .inl hEntry) hSound.entriesOnce
      (fun _ hEntry => .inl hEntry) hSound.exportedOnce) rfl rfl
  intro entry hEntry
  rcases TagTable.mem_put hEntry with rfl | hOld
  · rfl
  · exact hSound.enumTypes entry hOld

theorem leads_setEnum (tag : Option String) :
    Leads bodies (setEnum tag (.type (.scalar .int))) work (fun _ _ => True) := by
  refine .bind_read hWork hWork.sound.hasTables.exec_enums ?_
  exact .of_exec_ok (exec_modifyIface _ _) (hWork.enumTag tag) trivial

theorem Extends.exportedName {type : CType} (hName : name ∉ partNames)
    (hLibrary : library ∈ work.iface.libraries) (hOver : type.Over work.Known) :
    Extends bodies work { work with
        iface := { work.iface with
            exported := assign name (.type type, library) work.iface.exported } } := by
  have hSound := hWork.sound
  refine hWork.of_entries (hSound.of_names rfl rfl rfl hSound.enums hSound.enumTypes
      hSound.enumsOnce (fun _ hEntry => .inl hEntry) hSound.entriesOnce ?_
      (nodup_assign hSound.exportedOnce)) rfl rfl
  intro entry hEntry
  rcases mem_assign hEntry with rfl | hOld
  · exact .inr ⟨hName, hLibrary, type, rfl, hOver⟩
  · exact .inl hOld

end

-- Members as they are read

def readName (kind : RecordKind) (name : Option String) (key : Nat) : Work (Option String) :=
  match name, kind with
  | none, .struct => do
      match ← Work.tagOf none key with
      | some name => pure (some name)
      | none => some <$> nameKey key
  | name, _ => pure name

/- The members of a definition are read after its record is entered. -/
theorem defineRecord_some (kind : RecordKind) (tag : Option String) (decls : List Decl) :
    defineRecord kind tag (some decls) = (do
      enterRecord kind tag
      let (read, descriptions) ← writtenMembers kind decls
      let number ← recordNumber kind tag
      setWrittenMembers number read
      modifyTypes (·.describe number descriptions)) := by
  cases kind <;> rw [defineRecord]

theorem writtenMembers_cons (kind : RecordKind)
    (name : Option String) (storage functionWords : List String)
    (type : TypeExpr) (bits : Option Declaration.Expr) (key : Nat) (rest : List Decl) :
    writtenMembers kind (.mk name storage functionWords type bits key :: rest) = (do
      let value ← typeOfDecl (.mk name storage functionWords type bits key)
      let name ← readName kind name key
      let bits ← lift (bits.mapM widthOf)
      let description ← describeBase type.base
      let (written, descriptions) ← writtenMembers kind rest
      return (⟨name, value, bits⟩ :: written, description :: descriptions)) := by
  have hName : ∀ {α : Type} (next : Option String → Work α), (match name, kind with
      | none, .struct =>
        Work.tagOf none key >>= fun tag =>
          match tag with
          | some name => pure (some name) >>= next
          | none => (some <$> nameKey key) >>= next
      | name, _ => pure name >>= next) =
      readName kind name key >>= next := by
    intro α next
    cases name with
    | some name => rfl
    | none =>
      cases kind with
      | union => rfl
      | struct =>
        rw [readName, bind_assoc]
        refine bind_congr ?_
        intro tag
        cases tag with
        | none => rfl
        | some tag => rfl
  rw [writtenMembers]
  exact bind_congr fun value => hName _

end Workspace

end CHeader
