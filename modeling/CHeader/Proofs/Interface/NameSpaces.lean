import CHeader.Proofs.Interface.Built
import CHeader.Proofs.Interface.Frame

/-
  Tags and ordinary names.

  Tags and ordinary names are kept apart, and what a name of either kind stands for stays, whatever
  is declared under the same spelling in the other name space. A name of a type is looked up among
  all of them, in a fixed order, so it resolves to what it stands for exactly if nothing of that
  spelling comes before it.

  Main declarations:
    * `Workspace.bears_of_iface`
    * `Workspace.Resolves`
    * `Workspace.resolves_in_order`
-/

namespace CHeader

open Declaration List Step Work Macro

namespace Workspace

variable {name : String} {work : Workspace}

-- Properties of the interface

/- A value is stored as the entry of a name that is not exported. -/
theorem exec_setItem_of_unexported (hName : name ∉ Interface.partNames)
    (hFree : work.iface.exported? name = none) (value : Value) :
    exec (setItem name value) work = (.ok (), { work with
        iface := { work.iface with
            entries := assign name value work.iface.entries } }) := by
  unfold setItem
  rw [exec_bind_of_ok _ (exec_exportedObject?_of_unexported _ hFree)]
  dsimp only
  rw [setPlain_of_not_part hName, exec_modifyIface]

/- What depends on no more of the heap than which records
  there are bears what is stored, if it bears a new entry. -/
theorem property_setItem (property : Workspace → Prop) (hHeap : ∀ {work : Workspace} (heap : Heap),
    heap.types.heads = work.heap.types.heads →
      property work → property { work with heap := heap }) (hName : name ∉ Interface.partNames)
    (value : Value) (hWork : property work)
    (hEntry : work.iface.exported? name = none → property { work with
        iface := { work.iface with
            entries := assign name value work.iface.entries } }) :
    property (exec (setItem name value) work).2 := by
  have hStep : ∀ {α : Type} {step : OnHeap α}, OnHeap.Calm step →
      Preserves property (onHeap step) := by
    intro α step hCalm next hNext
    rw [exec_onHeap]
    exact hHeap _ (congrArg _ (hCalm _)) hNext
  cases hExported : work.iface.exported? name with
  | none =>
    rw [exec_setItem_of_unexported hName hExported]
    exact hEntry hExported
  | some found =>
    obtain ⟨type, library⟩ := found
    unfold setItem exportedObject?
    rw [exec_bind, exec_bind, exec_iface]
    dsimp only
    rw [hExported]
    rw [exec_bind]
    rcases exec_variableAt_cases work type library name with
      ⟨_, object, _, _, hExec⟩ | ⟨fault, hExec⟩
    · rw [hExec]
      refine Preserves.bind (hStep (OnHeap.calm_reference _))
        (fun _ => hStep (OnHeap.calm_assign _ _ _)) _ ?_
      exact hHeap _ (TypeTable.heads_fix _ _) hWork
    · rw [hExec]
      exact hWork

structure Holding (held : Interface → Prop) (work : Workspace) : Prop where
  iface : held work.iface
  given : ∀ given ∈ work.givenNames, IsMadeUp given.2

/-
  A property of the interface bears what the building steps
  do if it bears a new tag and a new entry.
-/
theorem bears_of_iface {stored : Store → Prop} {held : Interface → Prop}
    (hMadeUp : ∀ name, IsMadeUp name → stored (.value name)) (hMissing : stored (.value "None"))
    (hParts : ∀ store, stored store → store.name ∉ Interface.partNames)
    (hTagged : ∀ {iface : Interface} kind tag (type : CType),
        held iface → held (withTable iface kind ((iface.table kind).put tag (.type type))))
    (hEnum : ∀ {iface : Interface} tag, held iface → held { iface with
        enums := some ((iface.enums.getD []).put tag (.type (.scalar .int))) })
    (hValue : ∀ {iface : Interface} {name} (value : Value),
        stored (.value name) → iface.exported? name = none → held iface → held { iface with
            entries := assign name value iface.entries })
    (hTarget : ∀ {work : Workspace} {tag}, stored (.target tag) →
        exec (typeNamed true (some tag)) work = (.ok (.text ""), work) →
          work.iface.exported? tag = none → held work.iface → held { work.iface with
              entries := assign tag .none work.iface.entries }) :
    Bears stored (Holding held) := by
  have hSetTagged : ∀ kind tag (type : CType), Preserves (Holding held)
      (setTagged kind tag (.type type)) := by
    intro kind tag type
    refine (preserves_tagged kind).bind_traced fun before table work hTable hWork => ?_
    obtain ⟨rfl, rfl⟩ := eq_of_tagged hTable
    have hNext := hTagged kind tag type hWork.iface
    cases kind <;> exact ⟨hNext, hWork.given⟩
  have hNew := preserves_newTagged (fun _ hWork => ⟨hWork.iface, hWork.given⟩) hSetTagged
  refine
    { types := fun _ _ hWork => ⟨hWork.iface, hWork.given⟩
      log := fun _ hWork => ⟨hWork.iface, hWork.given⟩
      entered := hNew.1
      replaced := fun kind name _ => hNew.2 kind name _
      enumTag := ?_
      nameKey := ?_
      givenStored := fun hWork given hGiven => hMadeUp given.2 (hWork.given given hGiven)
      missing := hMissing
      setItem := ?_
      target := ?_ }
  · intro tag work hWork
    unfold setEnum enums
    rw [exec_bind, exec_bind, exec_iface]
    dsimp only
    cases hTable : work.iface.enums with
    | none => exact hWork
    | some table =>
      have hNext := hEnum tag hWork.iface
      rw [hTable] at hNext
      exact ⟨hNext, hWork.given⟩
  · refine preserves_nameKey (fun _ hWork => ⟨hWork.iface, hWork.given⟩) ?_
    intro work key name hName hWork
    refine ⟨hWork.iface, ?_⟩
    rw [forall_mem_append, forall_mem_singleton]
    exact ⟨hWork.given, hName⟩
  · exact fun value hName work hWork =>
      property_setItem (Holding held) (fun _ _ hNext => ⟨hNext.iface, hNext.given⟩)
        (hParts _ hName) value hWork fun hFree =>
          ⟨hValue value hName hFree hWork.iface, hWork.given⟩
  · exact fun hTag hUnknown hWork =>
      property_setItem (Holding held) (fun _ _ hNext => ⟨hNext.iface, hNext.given⟩)
        (hParts _ hTag) .none hWork fun hFree =>
          ⟨hTarget hTag hUnknown hFree hWork.iface, hWork.given⟩

-- What names stand for

theorem IsMadeUp.not_part (hName : IsMadeUp name) : name ∉ Interface.partNames := by
  obtain ⟨count, rfl⟩ := hName
  exact madeUp_not_part count

/- A name that a program may declare: no word of the language
  and none that is kept for something else. -/
structure Declarable (name : String) : Prop where
  word : name ∉ ["signed", "unsigned", "long", "int", "_Complex"]
  builtin : builtinType? name = none
  part : name ∉ Interface.partNames
  missing : name ≠ "None"
  madeUp : ¬IsMadeUp name

structure Bound (name : String) (value? : Option Value) (iface : Interface) : Prop where
  entry : ∀ value ∈ value?, lookup iface.entries name = some value
  unexported : iface.exported? name = none
  tags : ∀ kind, (iface.table kind).find? (some name) ≠ some (.text "")

def Elsewhere (name : String) (value? : Option Value) : Store → Prop
| .value other =>
    (value?.isSome → other ≠ name) ∧ other ∉ Interface.partNames
| .target tag => tag ∉ Interface.partNames

section

variable {name : String}

variable {value? : Option Value}
variable {items : List Item}

theorem bears_bound (hName : Declarable name) (hTold : ∀ value ∈ value?, value ≠ .text "") :
    Bears (Elsewhere name value?) (Holding (Bound name value?)) := by
  refine bears_of_iface ?_ ?_ ?_ ?_ ?_ ?_ ?_
  · intro other hOther
    refine ⟨?_, hOther.not_part⟩
    rintro _ rfl
    exact hName.madeUp hOther
  · exact ⟨fun _ => hName.missing.symm, by decide⟩
  · rintro (other | tag) hStored
    · exact hStored.2
    · exact hStored
  · intro iface kind tag type hBound
    refine ⟨?_, ?_, ?_⟩
    · rw [entries_withTable]
      exact hBound.entry
    · rw [Interface.exported?, exported_withTable]
      exact hBound.unexported
    · intro other
      rw [table_withTable]
      split_ifs with hKind
      · rw [TagTable.find?_put]
        split_ifs
        · nofun
        · exact hBound.tags kind
      · exact hBound.tags other
  · exact fun tag hBound => ⟨hBound.entry, hBound.unexported, hBound.tags⟩
  · intro iface other value hOther _ hBound
    refine ⟨?_, hBound.unexported, hBound.tags⟩
    intro kept hKept
    rw [lookup_assign, if_neg (hOther.1 (Option.isSome_of_mem hKept))]
    exact hBound.entry kept hKept
  · intro work tag hTag hUnknown _ hBound
    refine ⟨?_, hBound.unexported, hBound.tags⟩
    intro kept hKept
    have hNe : tag ≠ name := by
      rintro rfl
      have hPlain : work.iface.plain? tag = some kept := by
        rw [Interface.plain?_of_not_part _ hName.part]
        exact hBound.entry kept hKept
      rcases exec_typeNamed_cases hUnknown with ⟨_, hBuiltin | ⟨kind, hFind⟩ | hNone⟩ | ⟨_, hItem⟩
      · rw [hName.builtin] at hBuiltin
        cases hBuiltin
      · exact hBound.tags kind hFind
      · rw [hPlain] at hNone
        cases hNone
      · rcases exec_item_cases hItem with
          ⟨_, hObject⟩ | ⟨_, _, hText⟩
        · cases hObject
        · rw [hPlain] at hText
          exact hTold kept hKept (Option.some.inj hText)
    rw [lookup_assign, if_neg hNe]
    exact hBound.entry kept hKept

theorem bearsExport_bound (hOther : other ≠ name) :
    BearsExport (Holding (Bound name value?)) other := by
  intro work type library _ _ hWork
  refine ⟨⟨hWork.iface.entry, ?_, hWork.iface.tags⟩, hWork.given⟩
  rw [Interface.exported?, lookup_assign, if_neg hOther]
  exact hWork.iface.unexported

/- Whether items mention no part of an interface by its
  name. The parts have names that C does not allow. -/
def NoPart (items : List Item) : Prop := AllFit (fun _ _ _ => True) (mentionsOfItems items)

instance decidableFits (mention : Mention) : Decidable (Fits (fun _ _ _ => True) mention) :=
  match mention with
  | .name text =>
      inferInstanceAs (Decidable (text ∉ Interface.partNames))
  | .body _ _ _ => .isTrue trivial

instance decidableNoPart (items : List Item) : Decidable (NoPart items) :=
  inferInstanceAs (Decidable (∀ mention ∈ mentionsOfItems items, Fits (fun _ _ _ => True) mention))

theorem noPart_append : NoPart (items ++ others) ↔ NoPart items ∧ NoPart others := by
  rw [NoPart, mentionsOfItems, flatMap_append]
  exact allFit_append

theorem NoPart.of_store (hParts : NoPart items) (hStore : store ∈ items.flatMap Item.stores) :
    store.name ∉ Interface.partNames := by
  obtain ⟨item, hItem, hMem⟩ := mem_flatMap.mp hStore
  exact hParts (.name store.name) (mem_flatMap_of_mem hItem (item.covers store hMem))

/- A name keeps its value while items are added that declare it at most as a tag. -/
theorem preserves_bound (hName : Declarable name) (hTold : ∀ value ∈ value?, value ≠ .text "")
    (hParts : NoPart items) (hStored : value?.isSome → .value name ∉ items.flatMap Item.stores)
    (hExports : name ∉ items.flatMap Item.exports) :
    Preserves (Holding (Bound name value?)) (items.forM addItem) := by
  refine preserves_addItems (bears_bound hName hTold) items ?_ ?_
  · intro store hStore
    have hPart := hParts.of_store hStore
    cases store with
    | value other =>
      refine ⟨?_, hPart⟩
      rintro hSome rfl
      exact hStored hSome hStore
    | target tag => exact hPart
  · intro other hOther
    refine bearsExport_bound ?_
    rintro rfl
    exact hExports hOther

/- A name of a type has the value that its type expression has. -/
theorem bound_of_declareType (hName : Declarable decl.label)
    (hFirst : Holding (Bound decl.label none) first) (hParts : NoPart [.typeName decl])
    (hExec : exec (declareType decl) first = (.ok (), work)) :
    ∃ value before after, exec (typeOf decl.type) before = (.ok value, after) ∧
        Holding (Bound decl.label (some value)) work := by
  have hBears : Bears (Elsewhere decl.label none) (Holding (Bound decl.label none)) :=
    bears_bound hName nofun
  have hType : AllStored (Elsewhere decl.label none) decl.type.stores := by
    intro store hStore
    have hPart : store.name ∉ Interface.partNames := hParts.of_store (mem_append_left _
        (mem_cons_of_mem _ hStore))
    cases store with
    | value other => exact ⟨nofun, hPart⟩
    | target tag => exact hPart
  -- The last step stores the value of the name.
  have hStored : ∀ {value : Value} {next : Workspace}, Holding (Bound decl.label none) next →
      exec (setItem decl.label value) next = (.ok (), work) →
        Holding (Bound decl.label (some value)) work := by
    intro value next hNext hSet
    rw [exec_setItem_of_unexported hName.part hNext.iface.unexported] at hSet
    cases hSet
    refine ⟨⟨?_, hNext.iface.unexported, hNext.iface.tags⟩, hNext.given⟩
    rintro _ ⟨⟩
    rw [lookup_assign, if_pos rfl]
  obtain ⟨value, next, hValue, hRest⟩ := exec_bind_eq_ok hExec
  have hNext := preserves_typeOf hBears decl.type hType first hFirst
  rw [hValue] at hNext
  dsimp only at hRest
  split at hRest
  · split_ifs at hRest
    · exact ⟨_, first, next, hValue, hStored hNext hRest⟩
    · obtain ⟨_, third, hVisit, hTail⟩ := exec_bind_eq_ok hRest
      obtain ⟨again, fourth, hAgain, hSet⟩ := exec_bind_eq_ok hTail
      have hThird := @preserves_visit _ _ hBears none decl.name _ hType
        (fun _ => ⟨nofun, hName.part⟩) next hNext
      rw [hVisit] at hThird
      have hFourth := preserves_typeOf hBears decl.type hType third hThird
      rw [hAgain] at hFourth
      exact ⟨again, third, fourth, hAgain, hStored hFourth hSet⟩
  · exact ⟨value, first, next, hValue, hStored hNext hRest⟩

/- Whether an enumeration has a tag. -/
def EnumTagged (name : String) (iface : Interface) : Prop :=
  (iface.enums.getD []).find? (some name) = some (.type (.scalar .int))

theorem bears_enumTagged : Bears (fun store => store.name ∉ Interface.partNames)
    (Holding (EnumTagged name)) := by
  refine bears_of_iface (fun _ => IsMadeUp.not_part) (by decide) (fun _ hPart => hPart) ?_ ?_
    (fun _ _ _ hTag => hTag) (fun _ _ _ hTag => hTag)
  · intro iface kind tag type hTag
    rw [EnumTagged, enums_withTable]
    exact hTag
  · intro iface tag hTag
    rw [EnumTagged, Option.getD_some, TagTable.find?_put]
    split_ifs
    · rfl
    · exact hTag

theorem bears_given : Bears (fun store => store.name ∉ Interface.partNames)
    (Holding (fun _ => True)) :=
  bears_of_iface (fun _ => IsMadeUp.not_part) (by decide)
    (fun _ hPart => hPart) (fun _ _ _ _ => trivial)
    (fun _ _ => trivial) (fun _ _ _ _ => trivial)
    (fun _ _ _ _ => trivial)

end

-- The order of look-up

/- Whether a base means a value, with nothing else done. -/
def Resolves (work : Workspace) (base : Base) (value : Value) : Prop :=
  exec (typeOfBase base) work = (.ok value, work)

def recordUnder (work : Workspace) (name : String) : Option Value :=
  ((work.iface.table .struct).find? (some name)).or ((work.iface.table .union).find? (some name))

section

variable {bodies : Bodies} {work : Workspace} {name : String}

variable {value : Value} {number : Nat}

/- Records come first, then names, then enumerations. -/
theorem HasTables.exec_typeNamed (hTables : HasTables work) (hBuiltin : builtinType? name = none) :
    exec (typeNamed true (some name)) work =
      match work.recordUnder name with
      | some value => (.ok value, work)
      | none =>
        if (work.iface.plain? name).isSome then
          exec (Work.item name) work
        else
          (.ok (((work.iface.enums.getD []).find? (some name)).getD (.text "")), work) := by
  have hStructs : exec Work.structs work = (.ok (work.iface.table .struct), work) :=
    hTables.exec_tagged .struct
  have hUnions : exec Work.unions work = (.ok (work.iface.table .union), work) :=
    hTables.exec_tagged .union
  unfold typeNamed recordUnder
  rw [Option.bind_some, hBuiltin]
  simp only [Bool.not_true, Bool.false_eq_true, if_false]
  rw [exec_bind_of_ok _ hStructs]
  cases (work.iface.table .struct).find? (some name) with
  | some value => rfl
  | none =>
    rw [exec_bind_of_ok _ hUnions]
    cases (work.iface.table .union).find? (some name) with
    | some value => rfl
    | none =>
      have hThere : exec (hasItem name) work = (.ok (work.iface.plain? name).isSome, work) :=
        rfl
      rw [exec_bind_of_ok _ hThere]
      split_ifs
      · rfl
      · rw [exec_bind_of_ok _ hTables.exec_enums]
        rfl

theorem exec_item?_of_unexported (hFree : work.iface.exported? name = none)
    (hPlain : work.iface.plain? name = some value) :
    exec (item? name) work = (.ok (some value), work) := by
  unfold item?
  rw [exec_bind_of_ok _ (exec_exportedObject?_of_unexported _ hFree)]
  dsimp only
  rw [exec_bind_of_ok _ (exec_iface work), hPlain]
  rfl

theorem exec_item_of_unexported (hFree : work.iface.exported? name = none)
    (hPlain : work.iface.plain? name = some value) : exec (item name) work = (.ok value, work) := by
  unfold item
  rw [exec_bind_of_ok _ (exec_item?_of_unexported hFree hPlain)]
  rfl

theorem typeOfBase_name (hName : Declarable name) : typeOfBase (.words [name]) =
    typeNamed true (some name) := by
  have hWord := hName.word
  simp only [mem_cons, not_mem_nil, or_false, not_or] at hWord
  obtain ⟨hSigned, hUnsigned, hLong, hInt, hComplex⟩ := hWord
  rw [typeOfBase]
  simp [orderedWords, Text.joinWith, Ne.symm hSigned,
    Ne.symm hUnsigned, hLong, Ne.symm hComplex, hSigned, hUnsigned, hInt, hComplex]

theorem exec_typeOfBase_record (hTables : HasTables work)
    (hEntered : work.Entered kind (some name) number) (members : Option (List Decl)) (key : Nat) :
    exec (typeOfBase (.record kind (some name) members key)) work =
      exec (typeNamed true (some name)) work := by
  have hTagOf : exec (Work.tagOf (some name) key) work = (.ok (some name), work) := rfl
  rw [typeOfBase, exec_bind_of_ok _ hTagOf]
  cases members with
  | none => rfl
  | some members =>
    rw [exec_bind_of_ok _ (hTables.exec_tagged kind), hEntered]
    rfl

theorem typeOfBase_enumeration (values : Option (List Enumerator)) (key : Nat) :
    exec (typeOfBase (.enumeration (some name) values key)) work =
      exec (typeNamed true (some name)) work := by
  rw [typeOfBase]
  rfl

/- A name resolves to its value unless it is the tag of another record. -/
theorem resolves_name_iff (hTables : HasTables work) (hName : Declarable name)
    (hBound : Bound name (some value) work.iface) :
    work.Resolves (.words [name]) value ↔ ∀ other ∈ work.recordUnder name, other = value := by
  have hPlain : work.iface.plain? name = some value := by
    rw [Interface.plain?_of_not_part _ hName.part]
    exact hBound.entry value rfl
  rw [Resolves, typeOfBase_name hName, hTables.exec_typeNamed hName.builtin]
  cases work.recordUnder name with
  | some other =>
    simp
  | none =>
    rw [hPlain]
    simp [exec_item_of_unexported hBound.unexported hPlain]

theorem resolves_struct (hTables : HasTables work) (hName : Declarable name)
    (hEntered : work.Entered .struct (some name) number)
    (members : Option (List Decl)) (key : Nat) :
    work.Resolves (.record .struct (some name) members key) (.type (.record number)) := by
  rw [Resolves, exec_typeOfBase_record hTables hEntered,
    hTables.exec_typeNamed hName.builtin, recordUnder, hEntered]
  rfl

/- The tag of a union resolves to its record unless it is that of a structure. -/
theorem resolves_union_iff (hSound : Sound bodies work) (hName : Declarable name)
    (hEntered : work.Entered .union (some name) number) (members : Option (List Decl)) (key : Nat) :
    work.Resolves (.record .union (some name) members key) (.type (.record number)) ↔
      (work.iface.table .struct).find? (some name) = none := by
  have hTables := hSound.hasTables
  rw [Resolves, exec_typeOfBase_record hTables hEntered,
    hTables.exec_typeNamed hName.builtin, recordUnder, hEntered]
  cases hStruct : (work.iface.table .struct).find? (some name) with
  | none => simp
  | some value =>
    simp only [Option.some_or, Prod.mk.injEq, and_true, Except.ok.injEq, reduceCtorEq, iff_false]
    rintro rfl
    obtain ⟨record, hTag⟩ := hSound.tag_of_entered hEntered
    obtain ⟨other, hOther⟩ := hSound.tag_of_entered hStruct
    have hSame := hTag.record?.symm.trans hOther.record?
    cases hSame
    cases hTag.kind_eq.symm.trans hOther.kind_eq

/- Only records stand under tags of records. -/
theorem Sound.recordUnder_eq (hSound : Sound bodies work) (hUnder : value ∈ work.recordUnder name) :
    ∃ number, value = .type (.record number) := by
  rcases Option.or_eq_some_iff.mp hUnder with
    hStruct | ⟨_, hUnion⟩
  · obtain ⟨number, hValue, _⟩ := hSound.meant_of_find? hStruct
    exact ⟨number, hValue⟩
  · obtain ⟨number, hValue, _⟩ := hSound.meant_of_find? hUnion
    exact ⟨number, hValue⟩

/- The tag of an enumeration resolves to its type unless it
  is the tag of a record or stands for something else. -/
theorem resolves_enum_iff (hSound : Sound bodies work) (hName : Declarable name)
    (hEnum : EnumTagged name work.iface) (values : Option (List Enumerator)) (key : Nat) :
    work.Resolves (.enumeration (some name) values key) (.type (.scalar .int)) ↔
      work.recordUnder name = none ∧ (work.iface.plain? name = none ∨
          work.iface.exported? name = none ∧ work.iface.plain? name =
              some (.type (.scalar .int))) := by
  rw [Resolves, typeOfBase_enumeration, hSound.hasTables.exec_typeNamed hName.builtin]
  cases hUnder : work.recordUnder name with
  | some value =>
    obtain ⟨number, rfl⟩ := hSound.recordUnder_eq hUnder
    simp
  | none =>
    rw [hEnum]
    cases hPlain : work.iface.plain? name with
    | none => simp
    | some value =>
      simp only [true_and, reduceCtorEq, false_or, Option.some.injEq]
      constructor
      · intro hItem
        rcases exec_item_cases hItem with ⟨_, hObject⟩ | ⟨_, hFree, hValue⟩
        · cases hObject
        · rw [hPlain] at hValue
          exact ⟨hFree, Option.some.inj hValue⟩
      · rintro ⟨hFree, rfl⟩
        exact exec_item_of_unexported hFree hPlain

end

/-
  What a name resolves to at every point after it was declared, whatever is declared later in the
  other name space. A name of a type resolves to its type unless it is the tag of another structure
  or union, the tag of a structure always resolves to its record, that of a union unless it is that
  of a structure, and that of an enumeration unless it is the tag of a structure or union or names
  another type.
-/
theorem resolves_in_order
    {start work later : Workspace}
    {libraries : List String}
    {items rest : List Item}
    {name : String}
    (hName : Declarable name)
    (hTypes : start.heap.types = {})
    (hGiven : ∀ given ∈ start.givenNames, IsMadeUp given.2)
    (hParts : NoPart (items ++ rest))
    (hItems :
      exec
          (do
            Work.modifyIface (fun _ => { libraries := libraries })
            items.forM Work.addItem) start =
        (.ok (), work))
    (hRest :
      exec (rest.forM Work.addItem) work = (.ok (), later)) :
    (∀ earlier decl,
      items = earlier ++ [.typeName decl] →
      decl.label = name →
      name ∉ (items ++ rest).flatMap Item.exports →
      .value name ∉ rest.flatMap Item.stores →
        ∃ value before after,
          exec (Work.typeOf decl.type) before =
              (.ok value, after) ∧
            work.iface.plain? name = some value ∧
            (value ≠ .text "" →
              (later.Resolves (.words [name]) value ↔
                ∀ other ∈ later.recordUnder name,
                  other = value))) ∧
      (∀ number members key,
        work.Entered .struct (some name) number →
          later.Resolves
            (.record .struct (some name) members key)
            (.type (.record number))) ∧
      (∀ number members key,
        work.Entered .union (some name) number →
          (later.Resolves
              (.record .union (some name) members key)
              (.type (.record number)) ↔
            (later.iface.table .struct).find? (some name) =
              none)) ∧
      (∀ values key,
        EnumTagged name work.iface →
          (later.Resolves
              (.enumeration (some name) values key)
              (.type (.scalar .int)) ↔
            later.recordUnder name = none ∧
              (later.iface.plain? name = none ∨
                later.iface.exported? name = none ∧
                  later.iface.plain? name =
                    some (.type (.scalar .int))))) := by
  rw [exec_bind_of_ok _ (exec_modifyIface _ _)] at hItems
  have hBoth := noPart_append.mp hParts
  have hNamed : start.NamedApart := fun given hMem => (hGiven given hMem).not_part
  have hWork := (leads_addItems (extends_empty hTypes hNamed libraries) hBoth.1).ok hItems
  have hLater := (leads_addItems hWork.1.stays hBoth.2).ok hRest
  have hSound := hLater.1.sound
  have hTables := hSound.hasTables
  refine ⟨?_, ?_, ?_, ?_⟩
  · rintro earlier decl rfl rfl hExports hStores
    rw [List.flatMap_append, List.flatMap_append, List.mem_append, List.mem_append, not_or, not_or]
      at hExports
    have hParted := noPart_append.mp hBoth.1
    rw [List.forM_eq_forM, List.forM_append] at hItems
    obtain ⟨_, first, hEarlier, hTypedef⟩ := exec_bind_eq_ok hItems
    rw [← List.forM_eq_forM] at hEarlier
    obtain ⟨_, next, hDeclare, hDone⟩ := exec_bind_eq_ok hTypedef
    cases hDone
    have hEmpty : Holding (Bound decl.label none)
          { start with iface := { libraries := libraries } } :=
      ⟨⟨nofun, rfl, by rintro (_ | _) <;> nofun⟩, hGiven⟩
    have hKept : Preserves (Holding (Bound decl.label none)) (earlier.forM Work.addItem) := by
      refine preserves_bound hName ?_ hParted.1 ?_ hExports.1.1 <;> nofun
    have hFirst := hKept _ hEmpty
    rw [hEarlier] at hFirst
    obtain ⟨value, before, after, hValue, hBound⟩ :=
      bound_of_declareType hName hFirst hParted.2 hDeclare
    refine ⟨value, before, after, hValue, ?_, ?_⟩
    · rw [Interface.plain?_of_not_part _ hName.part]
      exact hBound.iface.entry value rfl
    · intro hTold
      have hLast := preserves_bound hName (by rintro _ ⟨⟩; exact hTold)
          hBoth.2 (fun _ => hStores) hExports.2 work hBound
      rw [hRest] at hLast
      exact resolves_name_iff hTables hName hLast.iface
  · intro number members key hEntered
    exact resolves_struct hTables hName (hLater.1.grows.tags _ _ _ hEntered) members key
  · intro number members key hEntered
    exact resolves_union_iff hSound hName (hLater.1.grows.tags _ _ _ hEntered) members key
  · intro values key hEnum
    have hFirst := preserves_addItems bears_given items (fun _ hStore => hBoth.1.of_store hStore)
        (fun _ _ _ _ _ _ _ hNext => ⟨trivial, hNext.given⟩)
        { start with iface := { libraries := libraries } }
        ⟨trivial, hGiven⟩
    rw [hItems] at hFirst
    have hLast := preserves_addItems bears_enumTagged rest (fun _ hStore => hBoth.2.of_store hStore)
        (fun _ _ _ _ _ _ _ hNext =>
          ⟨hNext.iface, hNext.given⟩)
        work ⟨hEnum, hFirst.given⟩
    rw [hRest] at hLast
    exact resolves_enum_iff hSound hName hLast.iface values key

-- An enumeration and a type of one spelling

/- An enumeration `enum T { A }` and the name of a type `typedef int T`. -/
def twiceItems : List Item :=
  [.declaration (.mk none [] [] (.mk [] (.enumeration (some "T") (some [.mk "A" none]) 1) true)
      none 0),
   .typeName (.mk (some "T") ["typedef"] [] (.mk [] (.words ["int"]) false) none 2)]

/- A structure `struct U { T m; }` after them. -/
def twiceRest : List Item :=
  [.declaration (.mk none [] [] (.mk [] (.record .struct (some "U") (some [.mk (some "m") [] []
      (.mk [] (.words ["T"]) false) none 4]) 5)
        true)
      none 3)]

def twiceWork : Workspace :=
  (exec (do
      modifyIface (fun _ => { libraries := [] })
      twiceItems.forM addItem) {}).2

def twiceLater : Workspace := (exec (twiceRest.forM addItem) twiceWork).2

/- Whether a value is the type of whole numbers. -/
def isIntType : Value → Bool
| .type (.scalar .int) => true
| _ => false

theorem eq_some_int {value? : Option Value} (hInt : value?.any isIntType = true) :
    value? = some (.type (.scalar .int)) := by
  cases value? with
  | none => cases hInt
  | some value =>
    unfold isIntType at hInt
    rw [Option.any_some] at hInt
    split at hInt
    · rfl
    · cases hInt

/- What the steps give, evaluated at once. -/
theorem runs_twice : (exec (do
    modifyIface (fun _ => { libraries := [] })
    twiceItems.forM addItem)
        ({} : Workspace)).1.toOption = some () ∧
      (exec (twiceRest.forM addItem) twiceWork).1.toOption = some () ∧
      ((twiceWork.iface.enums.getD []).find? (some "T")).any isIntType = true ∧
      (twiceWork.iface.plain? "T").any isIntType = true ∧
      (twiceLater.recordUnder "T").isNone = true ∧
      (twiceLater.iface.plain? "T").any isIntType = true ∧
      (twiceLater.iface.exported? "T").isNone = true := by
  decide +kernel

theorem declarable_twice : Declarable "T" where
  word := by decide
  builtin := by simp [builtinType?, builtinTypes, Macro.lookup]
  part := by decide
  missing := by decide
  madeUp := by
    rintro ⟨count, hMade⟩
    have hFirst := congrArg (fun s => s.toList.head?) hMade
    simp at hFirst

theorem noPart_twice : NoPart (twiceItems ++ twiceRest) := by
  decide +kernel

theorem resolves_in_order_twice :
    exec (twiceRest.forM Work.addItem) twiceWork =
        (.ok (), twiceLater) ∧
      twiceLater.Resolves (.words ["T"])
        (.type (.scalar .int)) ∧
      twiceLater.Resolves (.enumeration (some "T") none 6)
        (.type (.scalar .int)) := by
  obtain ⟨hItems, hRest, hEnum, hBound, hRecord, hPlain, hExported⟩ := runs_twice
  have hWork : exec (do
            Work.modifyIface (fun _ => { libraries := [] })
            twiceItems.forM Work.addItem) {} =
        (.ok (), twiceWork) :=
    exec_eq_of_toOption hItems
  have hLater : exec (twiceRest.forM Work.addItem) twiceWork = (.ok (), twiceLater) :=
    exec_eq_of_toOption hRest
  rw [Option.isNone_iff_eq_none] at hRecord hExported
  obtain ⟨hName, _, _, hTag⟩ := resolves_in_order declarable_twice rfl
      (List.forall_mem_nil _) noPart_twice hWork hLater
  obtain ⟨value, _, _, _, hValue, hResolves⟩ :=
    hName (twiceItems.take 1) _ rfl rfl (by decide) (by decide)
  rw [eq_some_int hBound] at hValue
  cases hValue
  refine ⟨hLater, ?_, ?_⟩
  · refine (hResolves nofun).mpr ?_
    rw [hRecord]
    exact nofun
  · refine (hTag none 6 (eq_some_int hEnum)).mpr ?_
    exact ⟨hRecord, .inr ⟨hExported, eq_some_int hPlain⟩⟩

end Workspace

end CHeader
