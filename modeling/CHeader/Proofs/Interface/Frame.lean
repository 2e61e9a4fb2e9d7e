import CHeader.Proofs.Declaration.Stored
import CHeader.Proofs.Interface.Steps

/-
  What building an interface leaves alone.

  The steps that build an interface change the types, the log, the tables of tags and made-up names,
  and they store values under names. A property of workspaces that bears these changes holds after
  every step, whether it succeeds or fails; the induction over declarations is made once for all
  such properties.

  Main declarations:
    * `Workspace.Preserves`
    * `Workspace.Bears`
    * `Workspace.preserves_typeOver`
-/

namespace CHeader

open Declaration Step Work List

namespace Workspace

variable {tag : Option String} {key : Nat} {name : String} {before : Workspace}
variable {work after : Workspace}

-- Properties that steps keep

def Preserves {α : Type} (property : Workspace → Prop) (step : Work α) : Prop :=
  ∀ work, property work → property (exec step work).2

namespace Preserves

variable {α β : Type} {property : Workspace → Prop}
variable {first step : Work α} {rest : α → Work β}

theorem pure (a : α) : Preserves property (Pure.pure a : Work α) := fun _ hWork => hWork

theorem throw (fault : Fault) : Preserves property (throw fault : Work α) := fun _ hWork => hWork

theorem lift (result : Except Fault α) : Preserves property (lift result) := by
  intro work hWork
  rw [exec_lift]
  exact hWork

theorem get : Preserves property (get : Work Workspace) := fun _ hWork => hWork

theorem iface : Preserves property Work.iface := fun _ hWork => hWork

/- The second part may make use of what the first one gave. -/
theorem bind_traced (hFirst : Preserves property first)
    (hRest : ∀ work a next, exec first work = (.ok a, next) →
        property next → property (exec (rest a) next).2) : Preserves property (first >>= rest) := by
  intro work hWork
  have hNext := hFirst work hWork
  rw [exec_bind]
  rcases hExec : exec first work with ⟨fault | a, next⟩
  · rwa [hExec] at hNext
  · rw [hExec] at hNext
    exact hRest work a next hExec hNext

theorem bind (hFirst : Preserves property first) (hRest : ∀ a, Preserves property (rest a)) :
    Preserves property (first >>= rest) :=
  hFirst.bind_traced fun _ a next _ => hRest a next

/- What holds after the first part holds after the second. -/
theorem property_bind (hFirst : property (exec first work).2)
    (hRest : ∀ a, Preserves property (rest a)) : property (exec (first >>= rest) work).2 := by
  rw [exec_bind]
  rcases hExec : exec first work with ⟨fault | a, next⟩
  · rwa [hExec] at hFirst
  · rw [hExec] at hFirst
    exact hRest a next hFirst

theorem map (f : α → β) (hStep : Preserves property step) : Preserves property (f <$> step) := by
  exact hStep.bind fun a => .pure (f a)

theorem tryCatch (hStep : Preserves property step)
    (hHandler : ∀ fault, Preserves property (handler fault)) :
    Preserves property (tryCatch step handler) := by
  intro work hWork
  have hNext := hStep work hWork
  rw [exec_tryCatch]
  rcases hExec : exec step work with ⟨fault | a, next⟩
  · rw [hExec] at hNext
    exact hHandler fault next hNext
  · rwa [hExec] at hNext

theorem forM {list : List α} {step : α → Work PUnit}
    (hStep : ∀ a ∈ list, Preserves property (step a)) : Preserves property (list.forM step) := by
  induction list with
  | nil => exact .pure _
  | cons a list ih =>
    exact (hStep a mem_cons_self).bind fun _ =>
      ih fun b hMem => hStep b (mem_cons_of_mem a hMem)

/- A step that preserves all properties changes nothing. -/
theorem eq_of_exec (hStep : ∀ work, Preserves (· = work) step) {next : Workspace}
    {result : Except Fault α} (hExec : exec step work = (result, next)) : next = work := by
  have hSame := hStep work work rfl
  rwa [hExec] at hSame

end Preserves

def IsMadeUp (name : String) : Prop :=
  ∃ count : Nat, name = "__include_anon" ++ toString count ++ "__"

/-
  Whether a property bears what the building steps do, when values are stored under certain names
  only. Types change without new records, and records are made for tags that are not known. Names
  that were made up may be stored under, and also the name that stands in for one that is missing. A
  tag that a pointer leads to is entered or stored under where it stands for nothing.
-/
structure Bears (stored : Store → Prop) (property : Workspace → Prop) : Prop where
  types : ∀ {work : Workspace} (types : TypeTable),
      types.heads = work.heap.types.heads → property work →
        property { work with heap := { work.heap with types := types } }
  log : ∀ {work : Workspace} (log : List Source.LogEntry),
      property work → property { work with log := log }
  entered : ∀ kind tag, Preserves property (enterRecord kind tag)
  replaced : ∀ {work : Workspace} (kind : RecordKind) {name : String},
      exec (typeNamed true (some name)) work = (.ok (.text ""), work) →
        property work → property (exec (replaceRecord kind name) work).2
  enumTag : ∀ tag, Preserves property (setEnum tag (.type (.scalar .int)))
  nameKey : ∀ key, Preserves property (nameKey key)
  givenStored : ∀ {work : Workspace}, property work →
      ∀ given ∈ work.givenNames, stored (.value given.2)
  missing : stored (.value "None")
  setItem : ∀ {name : String} (value : Value), stored (.value name) →
      Preserves property (setItem name value)
  target : ∀ {work : Workspace} {tag : String}, stored (.target tag) →
      exec (typeNamed true (some tag)) work = (.ok (.text ""), work) → property work →
          property (exec (Work.setItem tag .none) work).2

section

variable {stored : Store → Prop} {property : Workspace → Prop}

variable {value : Value} {work next : Workspace}
variable {base : Option Base}

-- Small steps

/- A property that bears fixed types bears a look at the libraries. -/
theorem preserves_exportedObject? (hFix : ∀ {work : Workspace} type, property work → property
      { work with heap := { work.heap with types := work.heap.types.fix type } }) (name : String) :
    Preserves property (exportedObject? name) := by
  refine Preserves.bind .iface fun iface => ?_
  split
  · exact .pure _
  · rename_i type library _
    refine Preserves.bind (fun work hWork => ?_) fun _ => .pure _
    rcases exec_variableAt_cases work type library name with
      ⟨fixed, _, _, _, hExec⟩ | ⟨fault, hExec⟩ <;> rw [hExec]
    · exact hFix fixed hWork
    · exact hWork

section

variable (hBears : Bears stored property)
include hBears

/- A step on the heap that changes the types only, and makes no record. -/
theorem Bears.onHeap {α : Type} {step : OnHeap α}
    (hStep : ∀ heap, (exec step heap).2 = { heap with types := (exec step heap).2.types } ∧
        (exec step heap).2.types.heads = heap.types.heads) :
    Preserves property (Work.onHeap step) := by
  intro work hWork
  rw [exec_onHeap, (hStep _).1]
  exact hBears.types _ (hStep _).2 hWork

theorem Bears.times (count : Int) (value : Value) :
    Preserves property (Work.onHeap (OnHeap.times count value)) := by
  refine hBears.onHeap fun heap => ?_
  by_cases hType : ∃ type, value = .type type
  · rcases hType with ⟨type, rfl⟩
    by_cases hTold : type = .ellipsis
    · rw [hTold]
      exact ⟨rfl, rfl⟩
    · rw [OnHeap.exec_times count hTold]
      split_ifs
      iterate 3 exact ⟨rfl, rfl⟩
      exact ⟨rfl, TypeTable.heads_makeArray _ _ _⟩
  · rw [OnHeap.exec_times_of_ne count fun type hEq => hType ⟨type, hEq⟩]
    exact ⟨rfl, rfl⟩

theorem Bears.truth (value : Value) : Preserves property (Work.onHeap (OnHeap.truth value)) :=
  hBears.onHeap fun _ => ⟨rfl, rfl⟩

theorem Bears.sizeOfValue (value : Value) :
    Preserves property (Work.onHeap (OnHeap.sizeOfValue value)) := by
  refine hBears.onHeap fun heap => ?_
  rw [OnHeap.exec_sizeOfValue_snd]
  exact ⟨rfl, rfl⟩

theorem Bears.report (level : Source.Level) (message : String) :
    Preserves property (Work.report level message) := by
  intro work hWork
  exact hBears.log _ hWork

theorem Bears.item? (name : String) : Preserves property (Work.item? name) := by
  refine (preserves_exportedObject? (fun _ => hBears.types _ (TypeTable.heads_fix _ _)) name).bind
    fun object => ?_
  cases object with
  | some object => exact .pure _
  | none => exact Preserves.bind .iface fun _ => .pure _

theorem Bears.item (name : String) : Preserves property (Work.item name) := by
  refine (hBears.item? name).bind fun value => ?_
  cases value with
  | some value => exact .pure _
  | none => exact .throw _

end

theorem preserves_hasItem (name : String) : Preserves property (hasItem name) :=
  Preserves.bind .iface fun _ => .pure _

theorem preserves_tagged (kind : RecordKind) : Preserves property (tagged kind) := by
  cases kind with
  | struct | union =>
    refine Preserves.bind .iface fun iface => ?_
    split
    · exact .pure _
    · exact .throw _

theorem preserves_enums : Preserves property enums := by
  refine Preserves.bind .iface fun iface => ?_
  split
  · exact .pure _
  · exact .throw _

/- Types are looked up by name without a change but to the types themselves. -/
theorem Bears.typeNamed (hBears : Bears stored property) (tag : Option String) :
    Preserves property (Work.typeNamed true tag) := by
  unfold Work.typeNamed
  split
  · exact .pure _
  · refine (preserves_tagged .struct).bind fun structs => ?_
    split
    · exact .pure _
    · refine (preserves_tagged .union).bind fun unions => ?_
      split
      · exact .pure _
      · split
        · exact preserves_enums.bind fun _ => .pure _
        · refine (preserves_hasItem _).bind fun isThere => ?_
          split
          · exact hBears.item _
          · exact preserves_enums.bind fun _ => .pure _

-- Tags

theorem preserves_tagOf (tag : Option String) (key : Nat) :
    Preserves property (Work.tagOf tag key) := by
  cases tag with
  | some name => exact .pure _
  | none => exact Preserves.bind .get fun _ => .pure _

/- A property that bears any types and any new tag bears new records. -/
theorem preserves_newTagged (hTypes : ∀ {work : Workspace} (types : TypeTable), property work →
    property { work with heap := { work.heap with types := types } })
    (hTagged : ∀ kind tag (type : CType), Preserves property (setTagged kind tag (.type type))) :
    (∀ kind tag, Preserves property (enterRecord kind tag)) ∧
      ∀ kind name, Preserves property (replaceRecord kind name) := by
  have hNew : ∀ kind name, Preserves property (newRecord kind name) := by
    intro kind name work hWork
    exact hTypes _ hWork
  refine ⟨?_, ?_⟩
  · intro kind tag
    refine (preserves_tagged kind).bind fun table => ?_
    split
    · exact (hNew _ _).bind fun _ => hTagged _ _ _
    · exact .pure _
  · intro kind name
    exact (hNew _ _).bind fun _ => (hTagged _ _ _).bind fun _ => .pure _

/- A property that bears any number of names and any name that is made up. -/
theorem preserves_nameKey (hMadeUp : ∀ {work : Workspace} (count : Nat),
    property work → property { work with madeUp := count })
    (hGiven : ∀ {work : Workspace} (key : Nat) {name : String}, IsMadeUp name → property work →
        property { work with givenNames := work.givenNames ++ [(key, name)] })
    (key : Nat) : Preserves property (nameKey key) := by
  intro work hWork
  exact hGiven key ⟨work.madeUp + 1, rfl⟩ (hMadeUp (work.madeUp + 1) hWork)

/- A property that bears any interface bears new tags. -/
theorem preserves_setTagged (hIface : ∀ {work : Workspace} (iface : Interface),
    property work → property { work with iface := iface })
    (kind : RecordKind) (tag : Option String) (value : Value) :
    Preserves property (setTagged kind tag value) := by
  refine (preserves_tagged kind).bind fun table => ?_
  intro work hWork
  cases kind <;> exact hIface _ hWork

/- A property that bears any heap and any interface bears values under names. -/
theorem preserves_setItem (hHeap : ∀ {work : Workspace} (heap : Heap),
    property work → property { work with heap := heap })
    (hIface : ∀ {work : Workspace} (iface : Interface),
        property work → property { work with iface := iface }) (name : String) (value : Value) :
    Preserves property (Work.setItem name value) := by
  have hOnHeap : ∀ {α : Type} (step : OnHeap α), Preserves property (onHeap step) := by
    intro α step work hWork
    rw [exec_onHeap]
    exact hHeap _ hWork
  have hPlain : Preserves property (setPlain name value) := by
    intro work hWork
    unfold setPlain
    split <;> exact hIface _ hWork
  refine (preserves_exportedObject? (fun _ => hHeap _) name).bind fun object => ?_
  split
  · exact (hOnHeap _).bind fun _ => hOnHeap _
  · exact hPlain

/- A name stands for an object, or it is not exported and is read without a change. -/
theorem exec_item_cases (hExec : exec (item name) work = (.ok value, next)) :
    (∃ object, value = .object object) ∨ next = work ∧ work.iface.exported? name = none ∧
        work.iface.plain? name = some value := by
  unfold item item? exportedObject? at hExec
  obtain ⟨found, second, hFound, hLast⟩ := exec_bind_eq_ok hExec
  obtain ⟨object, first, hObject, hPlain⟩ := exec_bind_eq_ok hFound
  rw [exec_bind, exec_iface] at hObject
  dsimp only at hObject
  split at hObject
  · rename_i hExported
    cases hObject
    cases hPlain
    split at hLast
    · rename_i hSome
      cases hLast
      exact .inr ⟨rfl, hExported, hSome⟩
    · cases hLast
  · obtain ⟨object, _, _, hSome⟩ := exec_bind_eq_ok hObject
    cases hSome
    cases hPlain
    cases hLast
    exact .inl ⟨object, rfl⟩

/- The tables are read without a change. -/
theorem eq_of_tagged (hTable : exec (tagged kind) work = (.ok table, last)) :
    last = work ∧ work.iface.table kind = table := by
  cases kind <;>
    unfold tagged structs unions at hTable <;>
    rw [exec_bind, exec_iface] at hTable <;>
    dsimp only at hTable <;>
    split at hTable <;>
    cases hTable <;>
    rename_i hSome <;>
    exact ⟨rfl, by rw [Interface.table, hSome]; rfl⟩

/- Where the type that a name stands for comes from. -/
theorem exec_typeNamed_cases (hExec : exec (typeNamed true (some name)) work = (.ok value, next)) :
    next = work ∧ (builtinType? name = some value ∨
        (∃ kind, (work.iface.table kind).find? (some name) = some value) ∨
        work.iface.plain? name = none) ∨
      (work.iface.plain? name).isSome = true ∧ exec (item name) work = (.ok value, next) := by
  unfold typeNamed at hExec
  split at hExec
  · rename_i hBuiltin
    cases hExec
    exact .inl ⟨rfl, .inl hBuiltin⟩
  · obtain ⟨structs, _, hStructs, hFirst⟩ := exec_bind_eq_ok hExec
    obtain ⟨rfl, hTable⟩ := @eq_of_tagged _ .struct _ _ hStructs
    split at hFirst
    · rename_i hFound
      cases hFirst
      rw [← hTable] at hFound
      exact .inl ⟨rfl, .inr (.inl ⟨.struct, hFound⟩)⟩
    · obtain ⟨unions, _, hUnions, hSecond⟩ := exec_bind_eq_ok hFirst
      obtain ⟨rfl, hTable⟩ := @eq_of_tagged _ .union _ _ hUnions
      split at hSecond
      · rename_i hFound
        cases hSecond
        rw [← hTable] at hFound
        exact .inl ⟨rfl, .inr (.inl ⟨.union, hFound⟩)⟩
      · obtain ⟨isThere, _, hThere, hThird⟩ := exec_bind_eq_ok hSecond
        cases hThere
        split at hThird
        · rename_i hThere
          exact .inr ⟨hThere, hThird⟩
        · rename_i hThere
          obtain ⟨enums, last, hEnums, hLast⟩ := exec_bind_eq_ok hThird
          have hSame := Preserves.eq_of_exec (fun _ => preserves_enums) hEnums
          cases hSame
          cases hLast
          rw [Option.not_isSome_iff_eq_none] at hThere
          exact .inl ⟨rfl, .inr (.inr hThere)⟩

/- A name that stands for nothing is looked up without a change. -/
theorem eq_of_typeNamed (hExec : exec (typeNamed true (some name)) work =
    (.ok (.text ""), next)) : next = work := by
  rcases exec_typeNamed_cases hExec with ⟨hSame, _⟩ | ⟨_, hItem⟩
  · exact hSame
  · rcases exec_item_cases hItem with ⟨_, hObject⟩ | ⟨hSame, _⟩
    · cases hObject
    · exact hSame

/- What is stored under a name may be read. -/
theorem Bears.setAndRead (hBears : Bears stored property)
    (hSet : property (exec (Work.setItem name value) work).2) :
    property (exec (do
        Work.setItem name value
        Work.item name) work).2 :=
  Preserves.property_bind hSet fun _ => hBears.item name

/- Whether the tag of a record, or the name made up for it, stands for nothing. -/
def UnknownTag (tag : Option String) (key : Nat) (work : Workspace) : Prop :=
  exec (typeNamed true (some ((work.tagOf tag key).getD "None"))) work = (.ok (.text ""), work)

/- Whether the tag of a base stands for nothing and, if it is written for an enumeration, a value
  may be stored under it. -/
def UnknownBase (stored : Store → Prop) (work : Workspace) : Option Base → Prop
| some (.record _ tag _ key) => UnknownTag tag key work
| some (.enumeration (some tag) _ _) =>
    stored (.target tag) ∧ exec (typeNamed true (some tag)) work = (.ok (.text ""), work)
| _ => True

/- A base that stands for nothing gets a meaning: a record is entered, and under the tag of an
  enumeration, or the name made up for it, a value is stored. -/
theorem Bears.unknownTarget (hBears : Bears stored property) (hWork : property work)
    (hBase : UnknownBase stored work base) : property (exec (Work.unknownTarget base) work).2 := by
  unfold Work.unknownTarget
  split
  · rename_i kind tag members key
    rw [exec_bind_of_ok _ (exec_tagOf work tag key)]
    exact hBears.replaced kind hBase hWork
  · rename_i tag values key
    cases tag with
    | some tag => exact hBears.setAndRead (hBears.target hBase.1 hBase.2 hWork)
    | none =>
      rw [exec_bind_of_ok _ (exec_tagOf work none key)]
      refine hBears.setAndRead (hBears.setItem _ ?_ work hWork)
      unfold tagOf
      cases hFind : work.givenNames.find? (fun given => given.1 = key) with
      | none => exact hBears.missing
      | some given =>
        exact hBears.givenStored hWork given (mem_of_find?_eq_some hFind)
  · exact hWork

theorem Bears.addPointers (hBears : Bears stored property) (count : Nat) (hWork : property work)
    (hBase : 0 < count → value = .text "" → UnknownBase stored work base) :
    property (exec (Work.addPointers count base value) work).2 := by
  cases count with
  | zero => exact hWork
  | succ more =>
    unfold Work.addPointers
    dsimp only
    split
    · have hNext := hBears.unknownTarget hWork (hBase more.succ_pos rfl)
      exact Preserves.property_bind hNext fun _ => .lift _
    · exact Preserves.lift _ work hWork

-- Members and operands

theorem Bears.modifyTypes (hBears : Bears stored property)
    (hHeads : ∀ types, (change types).heads = types.heads) :
    Preserves property (Work.modifyTypes change) := by
  intro work hWork
  exact hBears.types _ (hHeads _) hWork

theorem preserves_types : Preserves property Work.types := fun _ hWork => hWork

theorem Bears.setWrittenMembers (hBears : Bears stored property)
    (number : Nat) (written : List WrittenMember) :
    Preserves property (Work.setWrittenMembers number written) := by
  unfold Work.setWrittenMembers
  dsimp only
  split
  · intro work hWork
    rw [exec_setMembers]
    exact hBears.types _ (TypeTable.heads_setMembers _ _ _) hWork
  · refine preserves_types.bind fun table => ?_
    split
    · exact .throw _
    · refine Preserves.bind (hBears.modifyTypes ?_) fun _ => ?_
      · intro types
        refine types.heads_modify number ?_ ?_
        · exact fun _ => rfl
        · exact fun _ => rfl
      exact preserves_types.bind fun _ => (Preserves.lift _).bind fun _ => .throw _

theorem preserves_recordNumber (kind : RecordKind) (tag : Option String) :
    Preserves property (recordNumber kind tag) := by
  refine (preserves_tagged kind).bind fun table => ?_
  split
  · exact .pure _
  · exact .throw _
  · exact .throw _

theorem Bears.readName (hBears : Bears stored property) (kind : RecordKind) (name : Option String)
    (key : Nat) : Preserves property (Workspace.readName kind name key) := by
  unfold Workspace.readName
  split
  · refine (preserves_tagOf none key).bind fun found => ?_
    split
    · exact .pure _
    · exact (hBears.nameKey key).map _
  · exact .pure _

theorem preserves_describeBase (base : Base) : Preserves property (describeBase base) := by
  cases base with
  | words names => exact .pure _
  | record _ tag _ key | enumeration tag _ key =>
    exact (preserves_tagOf tag key).bind fun _ => .pure _

theorem preserves_describeType (modifiers : List Modifier) (base : Base) :
    Preserves property (describeType modifiers base) := by
  exact (preserves_describeBase base).bind fun _ => .pure _

theorem preserves_valueOfOperand (expr : Declaration.Expr) :
    Preserves property (valueOfOperand expr) := by
  unfold valueOfOperand
  split
  · refine Preserves.bind .iface fun iface => ?_
    split
    · exact .pure _
    · exact .throw _
  · exact .lift _
  · exact .throw _

theorem Bears.orPointer (hBears : Bears stored property) (hStep : Preserves property step) :
    Preserves property (Work.orPointer step) := by
  refine hStep.tryCatch fun fault => ?_
  split
  · exact (hBears.report _ _).bind fun _ => .pure _
  · exact .throw _

theorem Bears.applyFront (hBears : Bears stored property) (op : String) (value : Value) :
    Preserves property (Work.applyFront op value) := by
  unfold Work.applyFront
  split
  · exact .lift _
  · exact .lift _
  · exact .lift _
  · exact (hBears.sizeOfValue value).bind fun _ => .pure _
  · exact .throw _

end

-- Names that were made up

/- The names that were made up stay as they are while others are added. -/
theorem bears_growing (given : List (Nat × String)) :
    Bears (fun _ => True) (given <+: ·.givenNames) := by
  have hNew := @preserves_newTagged (given <+: ·.givenNames) (fun _ hGiven => hGiven)
      (preserves_setTagged (fun _ hGiven => hGiven) · · <| .type ·)
  have hSet := @preserves_setItem (given <+: ·.givenNames)
      (fun _ hGiven => hGiven) (fun _ hGiven => hGiven)
  exact
    { types := fun _ _ hGiven => hGiven
      log := fun _ hGiven => hGiven
      entered := hNew.1
      replaced := fun kind name _ => hNew.2 kind name _
      enumTag := fun _ => preserves_enums.bind fun _ _ hGiven => hGiven
      nameKey := preserves_nameKey (fun _ hGiven => hGiven) fun _ _ _ hGiven =>
          hGiven.trans (prefix_append _ _)
      givenStored := fun _ _ _ => trivial
      missing := trivial
      setItem := fun value _ => hSet _ value
      target := fun _ _ => hSet _ _ _ }

/- A name that was made up stays that of its definition. -/
theorem tagOf_mono (hGiven : before.givenNames <+: after.givenNames)
    (hName : before.tagOf tag key = some name) : after.tagOf tag key = some name := by
  cases tag with
  | some tag => exact hName
  | none =>
    obtain ⟨more, hMore⟩ := hGiven
    unfold tagOf at hName ⊢
    obtain ⟨given, hFind, hGiven⟩ := Option.map_eq_some_iff.1 hName
    rw [← hMore, find?_append, hFind]
    exact congrArg some hGiven

theorem tagOf_of_nameKey (hNew : before.tagOf tag key = none)
    (hExec : exec (nameKey key) before = (.ok name, after)) : after.tagOf tag key = some name := by
  cases tag with
  | some tag => cases hNew
  | none =>
    cases hExec
    unfold tagOf at hNew ⊢
    rw [Option.map_eq_none_iff] at hNew
    rw [find?_append, hNew]
    simp

theorem unknownTag_of_name (hName : before.tagOf tag key = some name)
    (hNamed : exec (typeNamed true (some name)) before =
        (.ok (.text ""), work)) : UnknownTag tag key work := by
  obtain rfl := eq_of_typeNamed hNamed
  unfold UnknownTag
  rw [hName]
  exact hNamed

-- Trees

abbrev AllStored (stored : Store → Prop) (stores : List Store) : Prop :=
  ∀ store ∈ stores, stored store

mutual

theorem preserves_typeOver (hBears : Bears stored property) (count : Nat)
    (modifiers : List Modifier) (base : Base)
    (hModifiers : AllStored stored (storesOfModifiers modifiers))
    (hTag : AllStored stored (targetsBelow (decide (0 < count)) modifiers base))
    (hBase : AllStored stored base.stores) :
    Preserves property (typeOver count modifiers base) := by
  match modifiers, hModifiers, hTag with
  | [], _, hTag =>
    rw [typeOver]
    refine (preserves_typeOfBase hBears base hBase).bind_traced ?_
    intro before value work hExec hWork
    refine hBears.addPointers count hWork ?_
    rintro hCount rfl
    unfold UnknownBase
    split
    · rename_i kind tag members key hSame
      cases hSame
      exact unknownTag_of_typeOfBase kind tag members key hExec
    · rename_i tag values key hSame
      cases hSame
      rw [targetsBelow, endsInPointer, if_pos (decide_eq_true hCount)] at hTag
      rw [typeOfBase] at hExec
      obtain rfl := eq_of_typeNamed hExec
      exact ⟨hTag _ (mem_singleton_self _), hExec⟩
    · trivial
  | .pointer :: rest, hRest, hTag =>
    rw [typeOver]
    exact preserves_typeOver hBears (count + 1) rest base hRest hTag hBase
  | .array size :: rest, hBoth, hTag =>
    rw [typeOver]
    rw [storesOfModifiers, AllStored, forall_mem_append] at hBoth
    refine (preserves_sizeOfArray hBears size hBoth.1).bind fun length => ?_
    refine (preserves_typeOver hBears 0 rest base hBoth.2 hTag hBase).bind fun item => ?_
    exact (hBears.times length item).bind fun value _ hWork =>
      hBears.addPointers count hWork fun _ _ => trivial
  | .function params :: rest, hBoth, hTag =>
    rw [typeOver]
    rw [storesOfModifiers, AllStored, forall_mem_append] at hBoth
    refine (preserves_typeOver hBears 0 rest base hBoth.2 hTag hBase).bind fun result => ?_
    split
    · exact .pure _
    · refine (preserves_paramTypes hBears params hBoth.1).bind fun types => ?_
      exact (Preserves.lift _).bind fun type _ hWork =>
        hBears.addPointers (count - 1) hWork fun _ _ => trivial
termination_by sizeOf modifiers + sizeOf base + 1

theorem preserves_typeOf (hBears : Bears stored property) (type : TypeExpr)
    (hType : AllStored stored type.stores) :
    Preserves property (typeOf type) := by
  match type, hType with
  | .mk modifiers base bare, hBoth =>
    rw [typeOf]
    rw [TypeExpr.stores, AllStored, forall_mem_append, forall_mem_append] at hBoth
    exact preserves_typeOver hBears 0 modifiers base hBoth.1 hBoth.2.1 hBoth.2.2
termination_by sizeOf type

theorem preserves_typeOfBase (hBears : Bears stored property) (base : Base)
    (hBase : AllStored stored base.stores) :
    Preserves property (typeOfBase base) := by
  match base, hBase with
  | .words names, _ =>
    rw [typeOfBase]
    refine (hBears.typeNamed _).bind fun value => ?_
    split
    · exact hBears.times 2 value
    · exact .pure _
  | .record kind tag members key, hBody =>
    rw [typeOfBase]
    refine (preserves_tagOf tag key).bind fun name => ?_
    cases name with
    | none =>
      refine (hBears.nameKey key).bind fun name => ?_
      exact (preserves_defineRecord hBears kind (some name)
        members hBody).bind fun _ => hBears.typeNamed _
    | some name =>
      cases members with
      | none => exact hBears.typeNamed _
      | some members =>
        refine (preserves_tagged kind).bind fun table => ?_
        split
        · exact (preserves_defineRecord hBears kind (some name) (some members) hBody).bind
              fun _ => hBears.typeNamed _
        · exact hBears.typeNamed _
  | .enumeration tag values key, hValues =>
    rw [typeOfBase]
    refine (preserves_tagOf tag key).bind fun name => ?_
    match name with
    | some name => exact hBears.typeNamed _
    | none =>
      refine (hBears.nameKey key).bind fun name => ?_
      exact (preserves_defineEnum hBears (some name) values
        hValues).bind fun _ => hBears.typeNamed _
termination_by sizeOf base

/- A record that stands for nothing after its base was read is not known under its tag: the names
  that were made up stay while its members are read. -/
theorem unknownTag_of_typeOfBase (kind : RecordKind)
    (tag : Option String) (members : Option (List Decl)) (key : Nat) {before work : Workspace}
    (hExec : exec (typeOfBase (.record kind tag members key))
        before = (.ok (.text ""), work)) : UnknownTag tag key work := by
  rw [typeOfBase] at hExec
  obtain ⟨name?, first, hName, hRest⟩ := exec_bind_eq_ok hExec
  rw [exec_tagOf] at hName
  obtain ⟨hTag, rfl⟩ := Prod.mk.inj hName
  have hDefined : ∀ {name} {mid last : Workspace},
      exec (defineRecord kind (some name) members) mid = (.ok (), last) →
        mid.givenNames <+: last.givenNames := by
    intro name mid last hDefine
    have hGiven := preserves_defineRecord (bears_growing mid.givenNames) kind
        (some name) members (fun _ _ => trivial) mid
        (prefix_refl _)
    rwa [hDefine] at hGiven
  cases hOld : before.tagOf tag key with
  | none =>
    rw [hOld] at hTag
    cases hTag
    obtain ⟨name, named, hKey, hNext⟩ := exec_bind_eq_ok hRest
    obtain ⟨_, last, hDefine, hNamed⟩ := exec_bind_eq_ok hNext
    exact unknownTag_of_name (tagOf_mono (hDefined hDefine) (tagOf_of_nameKey hOld hKey)) hNamed
  | some name =>
    rw [hOld] at hTag
    cases hTag
    cases members with
    | none => exact unknownTag_of_name hOld hRest
    | some members =>
      obtain ⟨table, second, hTable, hNext⟩ := exec_bind_eq_ok hRest
      cases Preserves.eq_of_exec (fun _ => preserves_tagged kind) hTable
      split at hNext
      · obtain ⟨_, last, hDefine, hNamed⟩ := exec_bind_eq_ok hNext
        exact unknownTag_of_name (tagOf_mono (hDefined hDefine) hOld) hNamed
      · exact unknownTag_of_name hOld hNext
termination_by sizeOf (Base.record kind tag members key) + 1

theorem preserves_defineRecord (hBears : Bears stored property) (kind : RecordKind)
    (tag : Option String)
    (members : Option (List Decl)) (hMembers : AllStored stored (storesOfDecls? members)) :
    Preserves property (defineRecord kind tag members) := by
  match members, hMembers with
  | none, _ =>
    rw [defineRecord.eq_def]
    refine (hBears.entered kind tag).bind fun _ => ?_
    cases kind with
    | struct => exact .pure _
    | union => exact .throw _
  | some members, hMembers =>
    rw [defineRecord_some]
    refine (hBears.entered kind tag).bind fun _ => ?_
    refine (preserves_writtenMembers hBears kind members hMembers).bind fun found => ?_
    refine (preserves_recordNumber kind tag).bind fun number => ?_
    exact (hBears.setWrittenMembers number _).bind fun _ =>
      hBears.modifyTypes fun types => types.heads_describe _ _
termination_by sizeOf members

theorem preserves_writtenMembers (hBears : Bears stored property) (kind : RecordKind)
    (members : List Decl)
    (hMembers : AllStored stored (storesOfDecls members)) :
    Preserves property (writtenMembers kind members) := by
  match members, hMembers with
  | [], _ =>
    rw [writtenMembers]
    exact .pure _
  | .mk name storage words type bits key :: rest, hBoth =>
    rw [writtenMembers_cons]
    rw [storesOfDecls, AllStored, forall_mem_append] at hBoth
    have hValue : Preserves property (typeOfDecl (.mk name storage words type bits key)) := by
      rw [typeOfDecl]
      split
      · exact .pure _
      · exact preserves_typeOf hBears type hBoth.1
    refine hValue.bind fun value => ?_
    refine (hBears.readName kind name key).bind fun given => ?_
    refine (Preserves.lift _).bind fun width => ?_
    refine (preserves_describeBase _).bind fun description => ?_
    exact (preserves_writtenMembers hBears kind rest hBoth.2).bind fun _ => .pure _
termination_by sizeOf members

theorem preserves_defineEnum (hBears : Bears stored property) (tag : Option String)
    (values : Option (List Enumerator))
    (hValues : AllStored stored (storesOfValues? values)) :
    Preserves property (defineEnum tag values) := by
  rw [defineEnum.eq_def]
  refine (hBears.enumTag tag).bind fun _ => ?_
  match values, hValues with
  | none, _ => exact .throw _
  | some values, hValues =>
    exact preserves_defineEnumerators hBears 0 _ values hValues
termination_by sizeOf values

theorem preserves_defineEnumerators (hBears : Bears stored property) (position : Nat)
    (offset : Value) (values : List Enumerator)
    (hValues : AllStored stored (storesOfValues values)) :
    Preserves property (defineEnumerators position offset values) := by
  match values, hValues with
  | [], _ =>
    rw [defineEnumerators]
    exact .pure _
  | .mk name given :: rest, hBoth =>
    rw [defineEnumerators.eq_def]
    rw [storesOfValues, AllStored, forall_mem_cons, forall_mem_append] at hBoth
    have hTail : ∀ offset, Preserves property (do
        let value ← Work.lift (Value.binary .add (.int position) offset)
        Work.setItem name value
        defineEnumerators (position + 1) offset rest) :=
      fun offset => (Preserves.lift _).bind fun value =>
        (hBears.setItem value hBoth.1).bind fun _ =>
          preserves_defineEnumerators hBears (position + 1) offset rest hBoth.2.2
    cases given with
    | none => exact (Preserves.pure offset).bind hTail
    | some expr =>
      refine (preserves_calculate hBears expr hBoth.2.1).bind fun value => ?_
      exact (Preserves.lift _).bind hTail
termination_by sizeOf values

theorem preserves_paramTypes (hBears : Bears stored property) (params : Option (List Param))
    (hParams : AllStored stored (storesOfParams? params)) :
    Preserves property (paramTypes params) := by
  match params, hParams with
  | none, _ =>
    rw [paramTypes]
    exact .pure _
  | some params, hParams =>
    rw [paramTypes]
    exact (preserves_describedParams hBears params hParams).bind fun _ => .pure _
termination_by sizeOf params

theorem preserves_describedParams (hBears : Bears stored property) (params : List Param)
    (hParams : AllStored stored (storesOfParams params)) :
    Preserves property (describedParams params) := by
  match params, hParams with
  | [], _ =>
    rw [describedParams]
    exact .pure _
  | .ellipsis :: rest, _ =>
    rw [describedParams]
    exact .pure _
  | .untyped name :: rest, hRest =>
    rw [describedParams]
    exact preserves_describedParams hBears rest hRest
  | .typed name type :: rest, hBoth =>
    rw [describedParams]
    rw [storesOfParams, AllStored, forall_mem_append] at hBoth
    have hTail : ∀ described : List (Value × String), Preserves property (do
        return described ++ (← describedParams rest)) :=
      fun described => (preserves_describedParams hBears rest hBoth.2).bind fun _ => .pure _
    refine (preserves_typeOf hBears type hBoth.1).bind fun first => ?_
    refine (hBears.truth first).bind fun isType => ?_
    split
    · refine (preserves_typeOf hBears type hBoth.1).bind fun value => ?_
      refine (preserves_describeType _ _).bind fun description => ?_
      exact (Preserves.pure _).bind hTail
    · exact (Preserves.pure _).bind hTail
termination_by sizeOf params

theorem preserves_sizeOfArray (hBears : Bears stored property) (size : Option Declaration.Expr)
    (hSize : AllStored stored (storesOfExpr? size)) : Preserves property (sizeOfArray size) := by
  match size, hSize with
  | none, _ =>
    rw [sizeOfArray]
    exact .pure _
  | some expr, hExpr =>
    rw [sizeOfArray]
    exact (preserves_calculate hBears expr hExpr).bind fun _ => .lift _
termination_by sizeOf size

theorem preserves_calculate (hBears : Bears stored property) (expr : Declaration.Expr)
    (hExpr : AllStored stored expr.stores) : Preserves property (calculate expr) := by
  match expr, hExpr with
  | .binary op left right, hBoth =>
    rw [calculate]
    rw [Expr.stores, AllStored, forall_mem_append] at hBoth
    refine (preserves_calculate hBears left hBoth.1).bind fun _ => ?_
    refine (preserves_calculate hBears right hBoth.2).bind fun _ => ?_
    split
    · exact .lift _
    · exact .throw _
  | .unary op operand, _ =>
    rw [calculate]
    split
    · exact .throw _
    · exact (hBears.orPointer (preserves_valueOfOperand operand)).bind fun _ =>
          hBears.applyFront op _
  | .sizeofType type, hType =>
    rw [calculate]
    exact (hBears.orPointer (preserves_typeOf hBears type hType)).bind fun _ =>
        hBears.applyFront "sizeof" _
  | .conditional test yes no, hAll =>
    rw [calculate]
    rw [Expr.stores, AllStored, forall_mem_append, forall_mem_append] at hAll
    refine (preserves_calculate hBears test hAll.1.1).bind fun _ => ?_
    refine (hBears.truth _).bind fun isTrue => ?_
    split
    · exact preserves_calculate hBears yes hAll.1.2
    · exact preserves_calculate hBears no hAll.2
  | .name text, _ =>
    rw [calculate]
    exact hBears.item text
  | .constant kind text, _ =>
    rw [calculate]
    exact .lift _
  | .unvalued kind, _ =>
    rw [calculate]
    exact .throw _
termination_by sizeOf expr

end

-- Items

def BearsExport (property : Workspace → Prop) (name : String) : Prop :=
  ∀ {work : Workspace} (type : Value) (library : String), library ∈ work.iface.libraries →
      work.hasSymbol name library = true → property work → property
          { work with
            iface := { work.iface with
                exported := Macro.assign name (type, library) work.iface.exported } }

section

variable {stored : Store → Prop} {property : Workspace → Prop}

theorem preserves_libraryWith? (symbol : String) (libraries : List String) :
    Preserves property (libraryWith? symbol libraries) := by
  induction libraries with
  | nil => exact .pure _
  | cons library rest ih =>
    refine Preserves.bind (Preserves.bind .get fun _ => .pure _) fun address => ?_
    split
    · exact .pure _
    · exact ih

variable (hBears : Bears stored property)
include hBears

theorem preserves_defineFunction (result : Value)
    (params : List Value) (convention : String) (descriptions : List String)
    (hName : stored (.value name)) :
    Preserves property (defineFunction name result params convention descriptions) := by
  unfold defineFunction
  split
  · exact Preserves.throw Fault.missingPart
  · refine (Preserves.lift _).bind fun type => ?_
    split
    · refine Preserves.bind .iface fun iface => ?_
      refine (preserves_libraryWith? _ _).bind fun found => ?_
      cases found with
      | none => exact hBears.report _ _
      | some library => exact hBears.setItem _ hName
    · exact .throw _

theorem preserves_declareFunction (name : Option String)
    (functionWords : Option (List String)) (params : Option (List Param)) (rest : List Modifier)
    (base : Base) (hName : stored (.value (name.getD "None")))
    (hParams : AllStored stored (storesOfParams? params))
    (hRest : AllStored stored (storesOfModifiers rest))
    (hTag : AllStored stored (targetsBelow false rest base))
    (hBase : AllStored stored base.stores) :
    Preserves property (declareFunction name functionWords params rest base) := by
  have hGiven : AllStored stored (storesOfParams (params.getD [])) := by
    cases params with
    | none => exact nofun
    | some params => exact hParams
  refine (preserves_typeOver hBears 0 rest base hRest hTag hBase).bind fun result => ?_
  refine (preserves_describeType _ _).bind fun description => ?_
  refine (preserves_describedParams hBears _ hGiven).bind fun described => ?_
  split
  · exact .throw _
  · exact preserves_defineFunction hBears _ _ _ _ hName

theorem preserves_visitBase (base : Base)
    (hBase : AllStored stored base.stores) : Preserves property (visitBase base) := by
  cases base with
  | words names => exact .pure _
  | record kind tag members key =>
    exact (preserves_tagOf tag key).bind fun _ => preserves_defineRecord hBears kind _ members hBase
  | enumeration tag values key =>
    exact (preserves_tagOf tag key).bind fun _ => preserves_defineEnum hBears _ values hBase

/- The name of a declaration is stored only if it is that of a function. -/
theorem preserves_visitType (name : Option String)
    (functionWords : Option (List String)) (isPointer : Bool) (modifiers : List Modifier)
    (base : Base) (hName : hasFunction modifiers = true → stored (.value (name.getD "None")))
    (hModifiers : AllStored stored (storesOfModifiers modifiers))
    (hTag : AllStored stored (targetsBelow isPointer modifiers base))
    (hBase : AllStored stored base.stores) :
    Preserves property (visitType name functionWords modifiers base) := by
  induction modifiers generalizing isPointer with
  | nil => exact preserves_visitBase hBears base hBase
  | cons modifier rest ih =>
    cases modifier with
    | function params =>
      rw [storesOfModifiers, AllStored, forall_mem_append] at hModifiers
      exact preserves_declareFunction hBears name functionWords params rest base (hName rfl)
        hModifiers.1 hModifiers.2 hTag hBase
    | pointer =>
      exact ih true hName hModifiers hTag
    | array size =>
      rw [storesOfModifiers, AllStored, forall_mem_append] at hModifiers
      exact ih false hName hModifiers.2 hTag

theorem preserves_visit {name : Option String} (type : TypeExpr)
    (hType : AllStored stored type.stores)
    (hName : hasFunction type.modifiers = true → stored (.value (name.getD "None"))) :
    Preserves property (visitType name words type.modifiers type.base) := by
  rw [TypeExpr.stores_eq, AllStored, forall_mem_append, forall_mem_append] at hType
  exact preserves_visitType hBears name words false _ _ hName hType.1 hType.2.1 hType.2.2

/- A variable is exported only from a library that has it. -/
theorem property_exportVariable (type : Value) (hExport : BearsExport property name)
    (hWork : property work) (hLibraries : ∀ library ∈ libraries, library ∈ work.iface.libraries) :
    property (exec (exportVariable name type libraries) work).2 := by
  induction libraries with
  | nil => exact hWork
  | cons library rest ih =>
    rw [forall_mem_cons] at hLibraries
    rw [exportVariable, exec_bind, exec_tryCatch]
    rcases exec_variableAt_cases work type library name with
      ⟨fixed, object, hType, hSymbol, hExec⟩ | ⟨fault, hExec⟩
    · rw [exec_bind_of_ok _ hExec]
      exact hExport type library hLibraries.1 hSymbol
        (hBears.types _ (TypeTable.heads_fix _ _) hWork)
    · rw [exec_bind_of_error _ hExec]
      cases fault with
      | badValue => exact ih hLibraries.2
      | _ => exact hWork

theorem preserves_declare (decl : Decl) (hStored : AllStored stored decl.stores)
    (hExport : ∀ name ∈ decl.exports, BearsExport property name) :
    Preserves property (declare decl) := by
  unfold declare
  by_cases hStatic : decl.storage.contains "static" = true
  · rw [if_pos hStatic]
    exact .pure _
  · rw [if_neg hStatic]
    rw [Decl.stores, if_neg hStatic, AllStored, forall_mem_append] at hStored
    dsimp only
    split
    · rename_i hVariable
      refine (preserves_typeOf hBears decl.type hStored.2).bind fun value => ?_
      intro work hWork
      refine property_exportVariable hBears value (hExport decl.label ?_) hWork fun _ hMem => hMem
      rw [Decl.exports, Decl.isExported, hVariable, Bool.eq_false_iff.mpr hStatic]
      exact mem_singleton_self _
    · rename_i hVariable
      refine preserves_visit hBears decl.type hStored.2 fun hFunction => hStored.1 _ ?_
      rw [Decl.functionLabel, hFunction, Bool.eq_false_iff.mpr hVariable]
      exact mem_singleton_self _

/- What holds once the type is read holds when its name has got it. -/
theorem property_declareType (hName : stored (.value decl.label))
    (hType : AllStored stored decl.type.stores)
    (hRead : property (exec (typeOf decl.type) work).2) :
    property (exec (declareType decl) work).2 := by
  refine Preserves.property_bind hRead fun value => ?_
  dsimp only
  split
  · split_ifs
    · exact hBears.setItem _ hName
    · refine (preserves_visit hBears decl.type hType fun _ => hName).bind fun _ => ?_
      exact (preserves_typeOf hBears decl.type hType).bind fun _ => hBears.setItem _ hName
  · exact hBears.setItem _ hName

theorem preserves_declareDefined (decl : Decl) (hStored : AllStored stored decl.stores)
    (hExport : ∀ name ∈ decl.exports, BearsExport property name) :
    Preserves property (declareDefined decl) := by
  have hDeclare := preserves_declare hBears decl hStored hExport
  unfold declareDefined
  split
  · exact .pure _
  · refine (hBears.item? _).bind fun found => ?_
    cases found with
    | none => exact hDeclare
    | some value =>
      dsimp only
      split
      · exact .pure _
      · exact hDeclare

/- An item keeps a property that bears the names it stores and exports. -/
theorem preserves_addItem (item : Item) (hStored : AllStored stored item.stores)
    (hExport : ∀ name ∈ item.exports, BearsExport property name) :
    Preserves property (addItem item) := by
  cases item with
  | declaration decl =>
    exact preserves_declare hBears decl hStored hExport
  | typeName decl =>
    rw [Item.stores, AllStored, forall_mem_cons] at hStored
    exact fun work hWork => property_declareType hBears hStored.1 hStored.2
      (preserves_typeOf hBears decl.type hStored.2 work hWork)
  | function decl =>
    exact preserves_declareDefined hBears decl hStored hExport

theorem preserves_addItems (items : List Item)
    (hStored : AllStored stored (items.flatMap Item.stores))
    (hExport : ∀ name ∈ items.flatMap Item.exports, BearsExport property name) :
    Preserves property (items.forM addItem) := by
  refine .forM fun item hItem => ?_
  refine preserves_addItem hBears item ?_ ?_
  · exact fun name hName => hStored name (mem_flatMap_of_mem hItem hName)
  · exact fun name hName => hExport name (mem_flatMap_of_mem hItem hName)

end

end Workspace

end CHeader
