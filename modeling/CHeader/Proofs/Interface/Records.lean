import CHeader.Proofs.Interface.NameSpaces

/-
  Records and their tags.

  Each record that declarations make is filed under the tag it is made for. The tables only grow: a
  record stays under its tag and stands under no other, also where a declaration fails. A definition
  without a tag gets a name of its own when it is read as a type; where it is only visited, it is
  filed under the missing tag.

  Main declarations:
    * `Workspace.Filed`
    * `Workspace.bears_filing`
    * `Workspace.addItems_files_records`
-/

namespace CHeader

open Declaration Step Work List

variable {tag : Option String} {more : Tags}

-- Tables by the order of records

/- The kinds and tags that records are made for, in the order in which they are made. -/
abbrev Tags := List (RecordKind × Option String)

namespace Tags

variable {value : Value}

def table (tags : Tags) (kind : RecordKind) : TagTable :=
  tags.zipIdx.filterMap fun made =>
    if made.1.1 = kind then
      some (made.1.2, .type (.record made.2))
    else none

variable {tags : Tags} {kind : RecordKind}

theorem table_concat (other : RecordKind) (tag : Option String) :
    table (tags ++ [(other, tag)]) kind = if other = kind then
        tags.table kind ++ [(tag, .type (.record tags.length))]
      else tags.table kind := by
  unfold table
  rw [zipIdx_append]
  by_cases hKind : other = kind
  · simp [hKind]
  · simp [hKind]

theorem mem_table_iff :
    (tag, value) ∈ tags.table kind ↔ ∃ number, tags[number]? = some (kind, tag) ∧
        value = .type (.record number) := by
  simp only [table, mem_filterMap, Prod.exists, mk_mem_zipIdx_iff_getElem?]
  constructor
  · rintro ⟨other, key, number, hMade, hEntry⟩
    split_ifs at hEntry with hKind
    cases hEntry
    exact ⟨number, hKind ▸ hMade, rfl⟩
  · rintro ⟨number, hMade, rfl⟩
    exact ⟨kind, tag, number, hMade, if_pos rfl⟩

theorem nodup_table (hOnce : tags.Nodup) : ((tags.table kind).map Prod.fst).Nodup := by
  induction tags using List.reverseRecOn with
  | nil => exact nodup_nil
  | append_singleton tags made ih =>
    obtain ⟨other, tag⟩ := made
    rw [← concat_eq_append, nodup_concat] at hOnce
    rw [table_concat]
    split_ifs with hKind
    · rw [map_append, nodup_append]
      refine ⟨ih hOnce.2, nodup_singleton _, ?_⟩
      rintro old hOld last hLast rfl
      cases mem_singleton.mp hLast
      obtain ⟨⟨_, value⟩, hEntry, rfl⟩ := mem_map.mp hOld
      obtain ⟨number, hMade, _⟩ := mem_table_iff.mp hEntry
      exact hOnce.1 (hKind ▸ mem_of_getElem? hMade)
    · exact ih hOnce.2

theorem find?_table_iff (hOnce : tags.Nodup) :
    (tags.table kind).find? tag = some value ↔ ∃ number, tags[number]? = some (kind, tag) ∧
        value = .type (.record number) := by
  rw [← mem_table_iff]
  exact ⟨TagTable.mem_of_find?, TagTable.find?_of_mem (nodup_table hOnce)⟩

theorem table_prefix (hPrefix : tags <+: more) : tags.table kind <+: more.table kind := by
  obtain ⟨rest, rfl⟩ := hPrefix
  unfold table
  rw [zipIdx_append, filterMap_append]
  exact prefix_append _ _

end Tags

namespace Workspace

variable {tags : Tags} {work : Workspace} {given : List (Nat × String)} {kind : RecordKind}
variable {next : Workspace} {name : String} {key : Nat}

-- Filed records

/- Whether each record stands under the tag it was made for, and there is nothing else under tags. -/
structure Filed (tags : Tags) (work : Workspace) : Prop where
  once : tags.Nodup
  heads : work.heap.types.heads = tags.map fun made => (made.1, made.2.getD "None")
  hasTables : HasTables work
  tables : ∀ kind, work.iface.table kind = tags.table kind

namespace Filed

variable {tags : Tags} {work : Workspace} {kind : RecordKind} {tag : Option String}

variable {number : Nat}

variable (hFiled : Filed tags work)
include hFiled

theorem entered_iff : work.Entered kind tag number ↔ tags[number]? = some (kind, tag) := by
  unfold Entered
  rw [hFiled.tables, Tags.find?_table_iff hFiled.once]
  constructor
  · rintro ⟨other, hMade, hSame⟩
    cases hSame
    exact hMade
  · exact fun hMade => ⟨number, hMade, rfl⟩

theorem find?_eq_none_iff : (work.iface.table kind).find? tag = none ↔ (kind, tag) ∉ tags := by
  rw [hFiled.tables, Option.eq_none_iff_forall_ne_some]
  constructor
  · intro hNone hMem
    obtain ⟨number, hMade⟩ := mem_iff_getElem?.mp hMem
    exact hNone _ ((Tags.find?_table_iff hFiled.once).mpr ⟨number, hMade, rfl⟩)
  · intro hNew value hFind
    obtain ⟨number, hMade, _⟩ := (Tags.find?_table_iff hFiled.once).mp hFind
    exact hNew (mem_of_getElem? hMade)

theorem exists_tag {record : Record} (hRecord : work.heap.types.record? number = some record) :
    ∃ tag, tags[number]? = some (record.kind, tag) ∧ record.name = tag.getD "None" := by
  have hHead := work.heap.types.getElem?_heads number
  rw [hRecord, hFiled.heads, getElem?_map] at hHead
  obtain ⟨⟨kind, tag⟩, hMade, hSame⟩ := Option.map_eq_some_iff.mp hHead
  obtain ⟨rfl, hName⟩ := Prod.mk.inj hSame
  exact ⟨tag, hMade, hName.symm⟩

theorem exists_record (hMade : tags[number]? = some (kind, tag)) :
    ∃ record, work.heap.types.record? number = some record ∧
        record.kind = kind ∧ record.name = tag.getD "None" := by
  have hHead := work.heap.types.getElem?_heads number
  rw [hFiled.heads, getElem?_map, hMade] at hHead
  obtain ⟨record, hRecord, hSame⟩ := Option.map_eq_some_iff.mp hHead.symm
  obtain ⟨hKind, hName⟩ := Prod.mk.inj hSame
  exact ⟨record, hRecord, hKind, hName⟩

theorem enter (hNew : (kind, tag) ∉ tags) : Filed (tags ++ [(kind, tag)])
    (work.enter kind tag (tag.getD "None")) := by
  have hLength : work.heap.types.records.length = tags.length := by
    rw [← TypeTable.length_heads, hFiled.heads, length_map]
  have hAny := TagTable.find?_eq_none_iff.mp (hFiled.find?_eq_none_iff.mpr hNew)
  refine ⟨?_, ?_, ?_, ?_⟩
  · rw [← concat_eq_append, nodup_concat]
    exact ⟨hNew, hFiled.once⟩
  · rw [map_append, ← hFiled.heads]
    exact TypeTable.heads_add _ _ _
  · cases kind with
    | struct =>
      exact ⟨rfl, hFiled.hasTables.unions, hFiled.hasTables.enums⟩
    | union =>
      exact ⟨hFiled.hasTables.structs, rfl, hFiled.hasTables.enums⟩
  · intro other
    rw [table_enter, TagTable.put_of_not_any hAny, hLength,
      Tags.table_concat, hFiled.tables, hFiled.tables]
    split_ifs with hKind
    · rw [hKind]
    · rfl

/- Records are filed under the same tags while the tables and
  the kinds and names of the records stay. -/
theorem of_same (hHeads : next.heap.types.heads = work.heap.types.heads)
    (hStructs : next.iface.structs = work.iface.structs)
    (hUnions : next.iface.unions = work.iface.unions)
    (hEnums : next.iface.enums.isSome) : Filed tags next := by
  refine ⟨hFiled.once, hHeads.trans hFiled.heads, ?_, ?_⟩
  · exact ⟨hStructs ▸ hFiled.hasTables.structs, hUnions ▸ hFiled.hasTables.unions, hEnums⟩
  · intro kind
    rw [← hFiled.tables]
    cases kind with
    | struct => exact congrArg (·.getD []) hStructs
    | union => exact congrArg (·.getD []) hUnions

end Filed

/- A name that stands for nothing is no tag of a record. -/
theorem Filed.not_mem_of_unknown (hFiled : Filed tags work)
    (hUnknown : exec (typeNamed true (some name)) work =
        (.ok (.text ""), work)) (kind : RecordKind) : (kind, some name) ∉ tags := by
  have hTold : ∀ kind value, (work.iface.table kind).find? (some name) =
      some value → value ≠ .text "" := by
    rintro kind value hFind rfl
    rw [hFiled.tables, Tags.find?_table_iff hFiled.once] at hFind
    obtain ⟨_, _, hText⟩ := hFind
    cases hText
  have hNone : ∀ kind, (work.iface.table kind).find? (some name) = none := by
    unfold typeNamed at hUnknown
    split at hUnknown
    · rename_i value hBuiltin
      cases hUnknown
      rcases builtinType?_cases hBuiltin with hText | ⟨_, hText⟩
      · cases hText
      · cases hText
    · simp only [Bool.not_true, Bool.false_eq_true, if_false] at hUnknown
      have hStructs : exec structs work = (.ok (work.iface.table .struct), work) :=
        hFiled.hasTables.exec_tagged .struct
      have hUnions : exec unions work = (.ok (work.iface.table .union), work) :=
        hFiled.hasTables.exec_tagged .union
      rw [exec_bind_of_ok _ hStructs] at hUnknown
      split at hUnknown
      · rename_i value hStruct
        cases hUnknown
        exact absurd rfl (hTold .struct _ hStruct)
      · rename_i hStruct
        rw [exec_bind_of_ok _ hUnions] at hUnknown
        split at hUnknown
        · rename_i value hUnion
          cases hUnknown
          exact absurd rfl (hTold .union _ hUnion)
        · rename_i hUnion
          rintro (_ | _)
          · exact hStruct
          · exact hUnion
  exact hFiled.find?_eq_none_iff.mp (hNone kind)

-- Names that were made up

theorem madeUp_inj {first second : Nat} (hSame : "__include_anon" ++ toString first ++ "__" =
    "__include_anon" ++ toString second ++ "__") : first = second := by
  rw [String.append_left_inj, String.append_right_inj] at hSame
  exact Nat.repr_inj.mp hSame

/- Whether the names that were given bear different numbers that were counted. -/
structure Counted (work : Workspace) : Prop where
  made : ∀ given ∈ work.givenNames, ∃ count ≤ work.madeUp,
      given.2 = "__include_anon" ++ toString count ++ "__"
  once : (work.givenNames.map Prod.snd).Nodup

namespace Counted

variable {work : Workspace}

theorem isMadeUp (hCounted : Counted work)
    {given : Nat × String} (hGiven : given ∈ work.givenNames) : IsMadeUp given.2 := by
  obtain ⟨count, _, hName⟩ := hCounted.made given hGiven
  exact ⟨count, hName⟩

theorem nameKey (hCounted : Counted work) (key : Nat) :
    Counted (exec (Work.nameKey key) work).2 := by
  have hMade : ∀ given ∈ (exec (Work.nameKey key) work).2.givenNames,
      given ∈ work.givenNames ∨ given.2 =
          "__include_anon" ++ toString (work.madeUp + 1) ++ "__" := by
    intro given hGiven
    refine (mem_append.mp hGiven).imp id fun hLast => ?_
    rw [mem_singleton.mp hLast]
  refine ⟨?_, ?_⟩
  · intro given hGiven
    rcases hMade given hGiven with hOld | hNew
    · obtain ⟨count, hCount, hName⟩ := hCounted.made given hOld
      exact ⟨count, hCount.trans (Nat.le_succ _), hName⟩
    · exact ⟨work.madeUp + 1, le_refl _, hNew⟩
  · change ((work.givenNames ++ [(key, _)]).map Prod.snd).Nodup
    rw [map_append, nodup_append]
    refine ⟨hCounted.once, nodup_singleton _, ?_⟩
    rintro name hOld last hLast rfl
    obtain ⟨given, hGiven, rfl⟩ := mem_map.mp hOld
    obtain ⟨count, hCount, hName⟩ := hCounted.made given hGiven
    have hSame := hName.symm.trans (mem_singleton.mp hLast)
    have hNumber : count = work.madeUp + 1 := madeUp_inj hSame
    omega

theorem tagOf_inj (hCounted : Counted work) (hFirst : work.tagOf none key = some name)
    (hSecond : work.tagOf none other = some name) : key = other := by
  obtain ⟨first, hFind, rfl⟩ := Option.map_eq_some_iff.mp hFirst
  obtain ⟨second, hOther, hName⟩ := Option.map_eq_some_iff.mp hSecond
  have hSame := inj_on_of_nodup_map hCounted.once (mem_of_find?_eq_some hFind)
      (mem_of_find?_eq_some hOther) hName.symm
  have hKey := find?_some hFind
  have hOtherKey := find?_some hOther
  rw [decide_eq_true_eq] at hKey hOtherKey
  rw [← hKey, ← hOtherKey, hSame]

end Counted

-- Filing while an interface is built

/- Whether records are filed, those that were made before under the same tags, and names that were
  made up are kept. -/
structure Filing (tags : Tags) (given : List (Nat × String)) (work : Workspace) : Prop where
  filed : ∃ more, tags <+: more ∧ Filed more work
  given : given <+: work.givenNames
  counted : Counted work

theorem Filing.of_same (hFiling : Filing tags given work)
    (hHeads : next.heap.types.heads = work.heap.types.heads)
    (hStructs : next.iface.structs = work.iface.structs)
    (hUnions : next.iface.unions = work.iface.unions)
    (hEnums : work.iface.enums.isSome → next.iface.enums.isSome)
    (hMadeUp : next.madeUp = work.madeUp) (hGiven : next.givenNames = work.givenNames) :
    Filing tags given next := by
  obtain ⟨more, hPrefix, hFiled⟩ := hFiling.filed
  refine ⟨⟨more, hPrefix, ?_⟩, ?_, ?_⟩
  · exact hFiled.of_same hHeads hStructs hUnions (hEnums hFiled.hasTables.enums)
  · exact hGiven ▸ hFiling.given
  · refine ⟨?_, ?_⟩
    · rw [hGiven, hMadeUp]
      exact hFiling.counted.made
    · rw [hGiven]
      exact hFiling.counted.once

theorem Filing.enter (hFiling : Filing tags given work) (hPrefix : tags <+: more)
    (hFiled : Filed more work) (hNew : (kind, tag) ∉ more) :
    Filing tags given (work.enter kind tag (tag.getD "None")) :=
  ⟨⟨_, hPrefix.trans (prefix_append _ _),
    hFiled.enter hNew⟩, hFiling.given, hFiling.counted.made, hFiling.counted.once⟩

abbrev Apart (store : Store) : Prop := store.name ∉ Interface.partNames

/- All that building an interface does files records. -/
theorem bears_filing (tags : Tags) (given : List (Nat × String)) :
    Bears Apart (Filing tags given) where
  types _ hHeads hFiling := hFiling.of_same hHeads rfl rfl id rfl rfl
  log _ hFiling := hFiling.of_same rfl rfl rfl id rfl rfl
  entered kind tag work hFiling := by
    obtain ⟨more, hPrefix, hFiled⟩ := hFiling.filed
    rw [hFiled.hasTables.exec_enterRecord]
    split_ifs with hFind
    · exact hFiling.enter hPrefix hFiled (hFiled.find?_eq_none_iff.mp hFind)
    · exact hFiling
  replaced kind name hUnknown hFiling := by
    obtain ⟨more, hPrefix, hFiled⟩ := hFiling.filed
    rw [hFiled.hasTables.exec_replaceRecord]
    exact hFiling.enter hPrefix hFiled (hFiled.not_mem_of_unknown hUnknown kind)
  enumTag tag := by
    refine preserves_enums.bind fun table work hFiling => ?_
    exact hFiling.of_same rfl rfl rfl (fun _ => rfl) rfl rfl
  nameKey key work hFiling := by
    obtain ⟨more, hPrefix, hFiled⟩ := hFiling.filed
    refine ⟨⟨more, hPrefix, ?_⟩, ?_, hFiling.counted.nameKey key⟩
    · exact hFiled.of_same rfl rfl rfl hFiled.hasTables.enums
    · exact hFiling.given.trans (prefix_append _ _)
  givenStored hFiling given hGiven := (hFiling.counted.isMadeUp hGiven).not_part
  missing := by decide
  setItem value hName work hFiling := property_setItem (Filing tags given) (fun _ hHeads hNext =>
      hNext.of_same hHeads rfl rfl id rfl rfl)
      hName value hFiling
      fun _ => hFiling.of_same rfl rfl rfl id rfl rfl
  target hTag _ hFiling := property_setItem (Filing tags given) (fun _ hHeads hNext =>
      hNext.of_same hHeads rfl rfl id rfl rfl)
      hTag .none hFiling
      fun _ => hFiling.of_same rfl rfl rfl id rfl rfl

theorem bearsExport_filing (tags : Tags) (given : List (Nat × String)) (name : String) :
    BearsExport (Filing tags given) name :=
  fun _ _ _ _ hFiling => hFiling.of_same rfl rfl rfl id rfl rfl

theorem Filing.entered (hFiling : Filing tags given work) (hMade : (kind, tag) ∈ tags) :
    ∃ number, work.Entered kind tag number := by
  obtain ⟨more, hPrefix, hFiled⟩ := hFiling.filed
  obtain ⟨number, hNumber⟩ := mem_iff_getElem?.mp (hPrefix.subset hMade)
  exact ⟨number, hFiled.entered_iff.mpr hNumber⟩

-- Definitions without a tag

def Naming (kind : RecordKind) (key : Nat) (work : Workspace) : Prop :=
  ∃ tags given name, Filing tags given work ∧ (kind, some name) ∈ tags ∧
      work.tagOf none key = some name

theorem Naming.of_filing (hNaming : Naming kind key work)
    (hNext : ∀ tags given, Filing tags given work → Filing tags given next) :
    Naming kind key next := by
  obtain ⟨tags, given, name, hFiling, hMade, hName⟩ := hNaming
  have hLater := hNext tags work.givenNames ⟨hFiling.filed, prefix_refl _, hFiling.counted⟩
  exact ⟨tags, work.givenNames, name, hLater, hMade, tagOf_mono hLater.given hName⟩

theorem bears_naming (kind : RecordKind) (key : Nat) : Bears Apart (Naming kind key) where
  types types hHeads hNaming := hNaming.of_filing fun tags given =>
      (bears_filing tags given).types types hHeads
  log log hNaming := hNaming.of_filing fun tags given => (bears_filing tags given).log log
  entered other tag _ hNaming := hNaming.of_filing fun tags given =>
      (bears_filing tags given).entered other tag _
  replaced other _ hUnknown hNaming := hNaming.of_filing fun tags given =>
      (bears_filing tags given).replaced other hUnknown
  enumTag tag _ hNaming := hNaming.of_filing fun tags given =>
      (bears_filing tags given).enumTag tag _
  nameKey other _ hNaming := hNaming.of_filing fun tags given =>
      (bears_filing tags given).nameKey other _
  givenStored := by
    rintro work ⟨_, _, _, hFiling, _⟩ given hGiven
    exact (bears_filing _ _).givenStored hFiling given hGiven
  missing := by decide
  setItem value hName _ hNaming := hNaming.of_filing fun tags given =>
      (bears_filing tags given).setItem value hName _
  target hTag hUnknown hNaming := hNaming.of_filing fun tags given =>
      (bears_filing tags given).target hTag hUnknown

theorem bearsExport_naming (kind : RecordKind) (key : Nat)
    (name : String) : BearsExport (Naming kind key) name :=
  fun type library hLibrary hSymbol hNaming =>
    hNaming.of_filing fun tags given =>
      bearsExport_filing tags given name type library hLibrary hSymbol

section

variable {kind : RecordKind} {key : Nat} {work next : Workspace}

variable {members : List Decl} {value : Value} {modifiers : List Modifier} {decl : Decl}
variable {α : Type} {step : Work α} {result : Except Fault α}

theorem Filing.of_exec (hFiling : Filing tags given work)
    (hStep : Preserves (Filing tags given) step) (hExec : exec step work = (result, next)) :
    Filing tags given next := by
  have hNext := hStep work hFiling
  rwa [hExec] at hNext

theorem Filing.made_of_find? (hFiling : Filing tags given work)
    (hFind : (work.iface.table kind).find? tag ≠ none) :
    ∃ more, (kind, tag) ∈ more ∧ Filing more given work := by
  obtain ⟨more, _, hFiled⟩ := hFiling.filed
  refine ⟨more, ?_, ⟨more, prefix_refl _, hFiled⟩, hFiling.given, hFiling.counted⟩
  by_contra hNew
  exact hFind (hFiled.find?_eq_none_iff.mpr hNew)

/- A definition files a record under its tag. -/
theorem made_of_defineRecord {members : Option (List Decl)}
    (hFiling : Filing tags given work) (hMembers : AllStored Apart (storesOfDecls? members))
    (hExec : exec (defineRecord kind tag members) work = (.ok (), next)) :
    ∃ more, (kind, tag) ∈ more ∧ Filing more given next := by
  have hNext := hFiling.of_exec (preserves_defineRecord (bears_filing tags given) kind tag
      members hMembers) hExec
  cases members with
  | none =>
    rw [defineRecord.eq_def] at hExec
    obtain ⟨_, mid, hEnter, hRest⟩ := exec_bind_eq_ok hExec
    cases kind with
    | union => cases hRest
    | struct =>
      cases hRest
      refine hNext.made_of_find? ?_
      obtain ⟨_, _, hFiled⟩ := hFiling.filed
      rw [hFiled.hasTables.exec_enterRecord] at hEnter
      cases hEnter
      split_ifs with hFind
      · rw [table_enter, if_pos rfl, TagTable.find?_put, if_pos rfl]
        nofun
      · exact hFind
  | some members =>
    -- The record is found under its tag after its members
    -- were read, and what follows files no other.
    rw [defineRecord_some] at hExec
    obtain ⟨_, mid, hEnter, hExec⟩ := exec_bind_eq_ok hExec
    obtain ⟨read, last, hRead, hExec⟩ := exec_bind_eq_ok hExec
    obtain ⟨number, final, hNumber, hExec⟩ := exec_bind_eq_ok hExec
    have hBears := bears_filing tags given
    have hLast := (hFiling.of_exec (hBears.entered kind tag)
        hEnter).of_exec (preserves_writtenMembers hBears kind members hMembers) hRead
    unfold recordNumber at hNumber
    obtain ⟨_, _, hLastFiled⟩ := hLast.filed
    rw [exec_bind_of_ok _ (hLastFiled.hasTables.exec_tagged kind)] at hNumber
    split at hNumber
    · rename_i found hFind
      cases hNumber
      obtain ⟨more, hMade, hMore⟩ := hLast.made_of_find? (by rw [hFind]; nofun)
      have hBears := bears_filing more given
      refine ⟨more, hMade, hMore.of_exec ?_ hExec⟩
      exact (hBears.setWrittenMembers _ _).bind fun _ =>
        hBears.modifyTypes fun types => types.heads_describe _ _
    · cases hNumber
    · cases hNumber

theorem Naming.of_exec (hNaming : Naming kind key work) (hStep : Preserves (Naming kind key) step)
    (hExec : exec step work = (result, next)) : Naming kind key next := by
  have hNext := hStep work hNaming
  rwa [hExec] at hNext

/- A definition without a tag that is read as a type gets a name. -/
theorem naming_of_typeOfBase (hFiling : Filing [] [] work)
    (hMembers : AllStored Apart (storesOfDecls members))
    (hExec : exec (typeOfBase (.record kind none (some members) key))
        work = (.ok value, next)) : Naming kind key next := by
  have hNamed : ∀ name, Preserves (Naming kind key) (typeNamed true (some name)) :=
    fun name => (bears_naming kind key).typeNamed (some name)
  have hDefine : ∀ {name} {mid last : Workspace}, Filing [] [] mid →
      mid.tagOf none key = some name → exec (defineRecord kind (some name)
          (some members)) mid = (.ok (), last) →
          Naming kind key last := by
    intro name mid last hMid hName hExec
    have hMid : Filing [] mid.givenNames mid := ⟨hMid.filed, prefix_refl _, hMid.counted⟩
    have hBody : AllStored Apart (storesOfDecls? (some members)) := hMembers
    obtain ⟨more, hMade, hMore⟩ := made_of_defineRecord hMid hBody hExec
    exact ⟨more, _, name, hMore, hMade, tagOf_mono hMore.given hName⟩
  rw [typeOfBase] at hExec
  obtain ⟨name?, first, hName, hRest⟩ := exec_bind_eq_ok hExec
  rw [exec_tagOf] at hName
  obtain ⟨hTag, rfl⟩ := Prod.mk.inj hName
  cases hOld : work.tagOf none key with
  | none =>
    rw [hOld] at hTag
    cases hTag
    obtain ⟨name, named, hKey, hRest⟩ := exec_bind_eq_ok hRest
    obtain ⟨_, last, hDefined, hLast⟩ := exec_bind_eq_ok hRest
    have hFirst := hFiling.of_exec ((bears_filing [] []).nameKey key) hKey
    exact (hDefine hFirst (tagOf_of_nameKey hOld hKey) hDefined).of_exec (hNamed name) hLast
  | some name =>
    rw [hOld] at hTag
    cases hTag
    obtain ⟨_, _, hFiled⟩ := hFiling.filed
    rw [exec_bind_of_ok _ (hFiled.hasTables.exec_tagged kind)] at hRest
    split at hRest
    · obtain ⟨_, last, hDefined, hLast⟩ := exec_bind_eq_ok hRest
      exact (hDefine hFiling hOld hDefined).of_exec (hNamed name) hLast
    · rename_i hFind
      rw [Option.isNone_iff_eq_none] at hFind
      obtain ⟨more, hMade, hMore⟩ := hFiling.made_of_find? hFind
      have hNaming : Naming kind key work := ⟨more, [], name, hMore, hMade, hOld⟩
      exact hNaming.of_exec (hNamed name) hRest

/- So does one that modifiers stand over. -/
theorem naming_of_typeOver (count : Nat) (hFiling : Filing [] [] work)
    (hModifiers : AllStored Apart (storesOfModifiers modifiers))
    (hMembers : AllStored Apart (storesOfDecls members))
    (hExec : exec (typeOver count modifiers (.record kind none (some members) key)) work =
        (.ok value, next)) : Naming kind key next := by
  have hBears := bears_naming kind key
  induction modifiers generalizing count work next value with
  | nil =>
    rw [typeOver] at hExec
    obtain ⟨found, mid, hBase, hPointers⟩ := exec_bind_eq_ok hExec
    have hMid := naming_of_typeOfBase hFiling hMembers hBase
    have hNext : Naming kind key (exec (addPointers count
        (some (.record kind none (some members) key)) found) mid).2 := by
      refine hBears.addPointers count hMid ?_
      rintro _ rfl
      exact unknownTag_of_typeOfBase _ _ _ _ hBase
    rwa [hPointers] at hNext
  | cons modifier rest ih =>
    cases modifier with
    | pointer =>
      rw [typeOver] at hExec
      exact ih (count + 1) hFiling hModifiers hExec
    | array size =>
      rw [typeOver] at hExec
      rw [storesOfModifiers, AllStored, forall_mem_append] at hModifiers
      obtain ⟨length, first, hSize, hExec⟩ := exec_bind_eq_ok hExec
      obtain ⟨item, second, hItem, hExec⟩ := exec_bind_eq_ok hExec
      have hFirst := hFiling.of_exec (preserves_sizeOfArray (bears_filing [] []) size
          hModifiers.1) hSize
      refine (ih 0 hFirst hModifiers.2 hItem).of_exec ?_ hExec
      exact (hBears.times length item).bind fun value _ hWork =>
          hBears.addPointers count hWork fun _ _ => trivial
    | function params =>
      rw [typeOver] at hExec
      rw [storesOfModifiers, AllStored, forall_mem_append] at hModifiers
      obtain ⟨result, first, hResult, hExec⟩ := exec_bind_eq_ok hExec
      refine (ih 0 hFiling hModifiers.2 hResult).of_exec ?_ hExec
      split
      · exact .pure _
      · refine (preserves_paramTypes hBears params hModifiers.1).bind fun types => ?_
        exact (Preserves.lift _).bind fun type _ hWork =>
          hBears.addPointers (count - 1) hWork fun _ _ => trivial

-- Items

def readsType (decl : Decl) : Bool := isVariable decl.type || hasFunction decl.type.modifiers

def AsksType (item : Item) (decl : Decl) : Prop :=
  item = .typeName decl ∨ item = .declaration decl ∧ ¬decl.storage.contains "static" = true ∧
      readsType decl = true

def VisitsBase (item : Item) (decl : Decl) : Prop :=
  item = .declaration decl ∧ ¬decl.storage.contains "static" = true ∧ readsType decl = false

theorem naming_of_visitType {name : Option String} (hFunction : hasFunction modifiers = true)
    (hName : Apart (.value (name.getD "None")))
    (hFiling : Filing [] [] work) (hModifiers : AllStored Apart (storesOfModifiers modifiers))
    (hMembers : AllStored Apart (storesOfDecls members))
    (hExec : exec (visitType name words modifiers (.record kind none (some members) key)) work =
        (.ok (), next)) : Naming kind key next := by
  have hBears := bears_naming kind key
  induction modifiers with
  | nil => cases hFunction
  | cons modifier rest ih =>
    cases modifier with
    | pointer =>
      exact ih hFunction hModifiers hExec
    | array size =>
      rw [storesOfModifiers, AllStored, forall_mem_append] at hModifiers
      exact ih hFunction hModifiers.2 hExec
    | function params =>
      rw [storesOfModifiers, AllStored, forall_mem_append] at hModifiers
      have hParams : AllStored Apart (storesOfParams (params.getD [])) := by
        cases params with
        | none => exact nofun
        | some params => exact hModifiers.1
      obtain ⟨result, mid, hResult, hExec⟩ := exec_bind_eq_ok hExec
      refine (naming_of_typeOver 0 hFiling hModifiers.2 hMembers hResult).of_exec ?_ hExec
      refine (preserves_describeType _ _).bind fun _ => ?_
      refine (preserves_describedParams hBears _ hParams).bind fun described => ?_
      split
      · exact .throw _
      · exact preserves_defineFunction hBears _ _ _ _ hName

/- Modifiers that are none of a function are passed over. -/
theorem visitType_of_no_function (name : Option String) (words : Option (List String))
    (hFunction : hasFunction modifiers = false) (base : Base) :
    visitType name words modifiers base = visitBase base := by
  induction modifiers with
  | nil => rfl
  | cons modifier rest ih =>
    cases modifier with
    | function params => cases hFunction
    | pointer => exact ih hFunction
    | array size => exact ih hFunction

/- A type expression over a definition without a tag. -/
theorem naming_of_typeOf (hBase : type.base = .record kind none (some members) key)
    (hType : AllStored Apart type.stores) (hFiling : Filing [] [] work)
    (hExec : exec (typeOf type) work = (.ok value, next)) : Naming kind key next := by
  cases type with
  | mk modifiers base bare =>
    cases hBase
    rw [typeOf] at hExec
    rw [TypeExpr.stores, AllStored, forall_mem_append, forall_mem_append] at hType
    exact naming_of_typeOver 0 hFiling hType.1 hType.2.2 hExec

section

variable (hBase : decl.type.base = .record kind none (some members) key)
include hBase

theorem naming_of_declare
    (hStatic : ¬decl.storage.contains "static" = true) (hReads : readsType decl = true)
    (hStored : AllStored Apart decl.stores) (hFiling : Filing [] [] work)
    (hExec : exec (declare decl) work = (.ok (), next)) : Naming kind key next := by
  have hBears := bears_naming kind key
  rw [Decl.stores, if_neg hStatic, AllStored, forall_mem_append] at hStored
  unfold declare at hExec
  rw [if_neg hStatic] at hExec
  dsimp only at hExec
  split at hExec
  · obtain ⟨value, mid, hValue, hExec⟩ := exec_bind_eq_ok hExec
    refine (naming_of_typeOf hBase hStored.2 hFiling hValue).of_exec ?_ hExec
    exact fun last hLast =>
      property_exportVariable hBears value (bearsExport_naming kind key _) hLast fun _ hMem => hMem
  · rename_i hVariable
    have hType := hStored.2
    rw [TypeExpr.stores_eq, hBase] at hType
    have hAll := forall_mem_append.mp hType
    have hBelow := forall_mem_append.mp hAll.2
    rw [readsType, Bool.eq_false_iff.mpr hVariable, Bool.false_or] at hReads
    rw [hBase] at hExec
    refine naming_of_visitType hReads ?_ hFiling hAll.1 hBelow.2 hExec
    refine hStored.1 _ ?_
    rw [Decl.functionLabel, hReads, Bool.eq_false_iff.mpr hVariable]
    exact mem_singleton_self _

theorem naming_of_declareType
    (hName : Apart (.value decl.label)) (hType : AllStored Apart decl.type.stores)
    (hFiling : Filing [] [] work) (hExec : exec (declareType decl) work = (.ok (), next)) :
    Naming kind key next := by
  obtain ⟨value, mid, hValue, -⟩ := exec_bind_eq_ok hExec
  have hRead := naming_of_typeOf hBase hType hFiling hValue
  have hNaming := property_declareType (bears_naming kind key) hName hType (by rwa [hValue])
  rwa [hExec] at hNaming

/- A definition without a tag that is only visited is filed under the missing tag. -/
theorem entered_of_declare
    (hStatic : ¬decl.storage.contains "static" = true) (hReads : readsType decl = false)
    (hStored : AllStored Apart decl.stores) (hFiling : Filing tags given work)
    (hNew : work.tagOf none key = none) (hExec : exec (declare decl) work = (.ok (), next)) :
    ∃ more, (kind, none) ∈ more ∧ Filing more given next := by
  rw [Decl.stores, if_neg hStatic, AllStored,
    forall_mem_append, TypeExpr.stores_eq, hBase] at hStored
  have hAll := forall_mem_append.mp hStored.2
  have hBelow := forall_mem_append.mp hAll.2
  rw [readsType, Bool.or_eq_false_iff] at hReads
  unfold declare at hExec
  rw [if_neg hStatic] at hExec
  dsimp only at hExec
  rw [hReads.1, hBase, visitType_of_no_function _ _ hReads.2] at hExec
  rw [if_neg Bool.false_ne_true, visitBase,
    exec_bind_of_ok _ (exec_tagOf work none key), hNew] at hExec
  exact made_of_defineRecord hFiling hBelow.2 hExec

end

theorem naming_of_addItem {item : Item} (hAsks : AsksType item decl)
    (hBase : decl.type.base = .record kind none (some members) key)
    (hStored : AllStored Apart item.stores) (hFiling : Filing [] [] work)
    (hExec : exec (addItem item) work = (.ok (), next)) : Naming kind key next := by
  rcases hAsks with rfl | ⟨rfl, hStatic, hReads⟩
  · rw [Item.stores, AllStored, forall_mem_cons] at hStored
    exact naming_of_declareType hBase hStored.1 hStored.2 hFiling hExec
  · exact naming_of_declare hBase hStatic hReads hStored hFiling hExec

theorem Naming.named (hNaming : Naming kind key work) : ∃ name number,
    IsMadeUp name ∧ work.tagOf none key = some name ∧ work.Entered kind (some name) number := by
  obtain ⟨tags, given, name, hFiling, hMade, hName⟩ := hNaming
  obtain ⟨number, hEntered⟩ := hFiling.entered hMade
  refine ⟨name, number, ?_, hName, hEntered⟩
  obtain ⟨given, hFind, rfl⟩ := Option.map_eq_some_iff.mp hName
  exact hFiling.counted.isMadeUp (mem_of_find?_eq_some hFind)

end

-- Runs

theorem filing_empty {start : Workspace} (hTypes : start.heap.types = {})
    (hGiven : start.givenNames = []) (libraries : List String) :
    Filing [] [] { start with iface := { libraries := libraries } } := by
  refine ⟨⟨[], prefix_refl _, nodup_nil, ?_, ⟨rfl, rfl, rfl⟩, ?_⟩, nil_prefix, ?_, ?_⟩
  · rw [hTypes]
    rfl
  · rintro (_ | _) <;> rfl
  · rw [hGiven]
    exact forall_mem_nil _
  · rw [hGiven]
    exact nodup_nil

theorem exec_forM_append {earlier rest : List Item}
    (hEarlier : exec (earlier.forM addItem) work = (.ok (), mid)) :
    exec ((earlier ++ rest).forM addItem) work = exec (rest.forM addItem) mid := by
  rw [forM_eq_forM, forM_append]
  exact exec_bind_of_ok _ hEarlier

theorem preserves_filing (hParts : NoPart items) (tags : Tags) (given : List (Nat × String)) :
    Preserves (Filing tags given) (items.forM addItem) :=
  preserves_addItems (bears_filing tags given) items (fun _ hStore => hParts.of_store hStore)
    fun name _ => bearsExport_filing tags given name

/-
  Records are never replaced. However a run over declarations ends, each record that it made stands
  under exactly one tag, the one of its kind and name, and each tag stands for one such record;
  tables and made-up names only grow, and after every item that succeeded all types lead to records
  under tags. Definitions without a tag that have names have different ones. Those whose type is
  asked for have one; a definition that is only visited and has none yet is filed under the missing
  tag.
-/
theorem addItems_files_records
    {start work : Workspace}
    {libraries : List String}
    {items : List Item}
    {result : Except Fault Unit}
    (hTypes : start.heap.types = {})
    (hGiven : start.givenNames = [])
    (hParts : NoPart items)
    (hItems :
      exec
          (do
            Work.modifyIface (fun _ => { libraries := libraries })
            items.forM Work.addItem) start =
        (result, work)) :
    (∀ number record,
      work.heap.types.record? number = some record →
        ∃ tag,
          record.name = tag.getD "None" ∧
            ∀ kind other,
              work.Entered kind other number ↔
                kind = record.kind ∧ other = tag) ∧
      (∀ kind,
        ((work.iface.table kind).map Prod.fst).Nodup ∧
          ∀ tag value, (tag, value) ∈ work.iface.table kind →
            ∃ number record,
              value = .type (.record number) ∧
                work.heap.types.record? number = some record ∧
                record.kind = kind ∧
                record.name = tag.getD "None") ∧
      (∀ key other name,
        work.tagOf none key = some name →
        work.tagOf none other = some name → key = other) ∧
      ∀ earlier rest mid,
        items = earlier ++ rest →
        exec
            (do
              Work.modifyIface
                (fun _ => { libraries := libraries })
              earlier.forM Work.addItem) start =
          (.ok (), mid) →
          Sound (fun _ _ _ => True) mid ∧
            (∀ kind,
              mid.iface.table kind <+: work.iface.table kind) ∧
            mid.givenNames <+: work.givenNames ∧
            ∀ item more next decl kind members key,
              rest = item :: more →
              exec (Work.addItem item) mid = (.ok (), next) →
              decl.type.base =
                  .record kind none (some members) key →
                (AsksType item decl →
                  ∃ name number,
                    IsMadeUp name ∧
                      work.tagOf none key = some name ∧
                      work.Entered kind (some name) number) ∧
                  (VisitsBase item decl →
                    mid.tagOf none key = none →
                      ∃ number,
                        work.Entered kind none number) := by
  rw [exec_bind_of_ok _ (exec_modifyIface _ _)] at hItems
  have hFirst := filing_empty hTypes hGiven libraries
  have hWork := hFirst.of_exec (preserves_filing hParts [] []) hItems
  obtain ⟨tags, _, hFiled⟩ := hWork.filed
  refine ⟨?_, ?_, ?_, ?_⟩
  · intro number record hRecord
    obtain ⟨tag, hMade, hName⟩ := hFiled.exists_tag hRecord
    refine ⟨tag, hName, fun kind other => ?_⟩
    rw [hFiled.entered_iff, hMade, Option.some.injEq, Prod.mk.injEq]
    exact and_congr eq_comm eq_comm
  · intro kind
    rw [hFiled.tables]
    refine ⟨Tags.nodup_table hFiled.once, ?_⟩
    intro tag value hEntry
    obtain ⟨number, hMade, hValue⟩ := Tags.mem_table_iff.mp hEntry
    obtain ⟨record, hRecord, hKind, hName⟩ := hFiled.exists_record hMade
    exact ⟨number, record, hValue, hRecord, hKind, hName⟩
  · exact fun key other name hKey hOther =>
      hWork.counted.tagOf_inj hKey hOther
  · rintro earlier rest mid rfl hEarlier
    obtain ⟨hBefore, hAfter⟩ := noPart_append.mp hParts
    rw [exec_bind_of_ok _ (exec_modifyIface _ _)] at hEarlier
    rw [exec_forM_append hEarlier] at hItems
    have hMid := hFirst.of_exec (preserves_filing hBefore [] []) hEarlier
    have hNamed : start.NamedApart := by
      intro given hMem
      rw [hGiven] at hMem
      cases hMem
    have hSound := (leads_addItems (extends_empty hTypes hNamed libraries) hBefore).ok hEarlier
    obtain ⟨old, _, hOld⟩ := hMid.filed
    have hKept : Filing old mid.givenNames mid :=
      ⟨⟨old, List.prefix_refl _, hOld⟩, List.prefix_refl _, hMid.counted⟩
    have hLater := hKept.of_exec (preserves_filing hAfter _ _) hItems
    refine ⟨hSound.1.sound, ?_, hLater.given, ?_⟩
    · intro kind
      obtain ⟨all, hPrefix, hAll⟩ := hLater.filed
      rw [hOld.tables, hAll.tables]
      exact Tags.table_prefix hPrefix
    · rintro item more next decl kind members key rfl hItem hBase
      rw [List.forM, exec_bind_of_ok _ hItem] at hItems
      have hStored : AllStored Apart item.stores := by
        intro store hStore
        exact hAfter.of_store (List.mem_flatMap_of_mem List.mem_cons_self hStore)
      have hMore : NoPart more := (noPart_append.mp (List.singleton_append ▸ hAfter)).2
      refine ⟨fun hAsks => ?_, ?_⟩
      · have hNaming := naming_of_addItem hAsks hBase hStored hMid hItem
        refine (hNaming.of_filing fun tags given hNext => ?_).named
        exact hNext.of_exec (preserves_filing hMore _ _) hItems
      · rintro ⟨rfl, hStatic, hReads⟩ hNew
        obtain ⟨made, hMade, hNext⟩ := entered_of_declare hBase hStatic hReads hStored hMid
            hNew hItem
        exact (hNext.of_exec (preserves_filing hMore _ _) hItems).entered hMade

-- A pointer and a variable without tags

/- A pointer `struct { int x; } *p`. -/
def untaggedPointer : Decl :=
  .mk (some "p") [] [] (.mk [.pointer] (.record .struct none (some
      [.mk (some "x") [] [] (.mk [] (.words ["int"]) false) none 1]) 2)
      false)
    none 0

/- A variable `struct { int x; } v`. -/
def untaggedVariable : Decl :=
  .mk (some "v") [] [] (.mk [] (.record .struct none (some
      [.mk (some "x") [] [] (.mk [] (.words ["int"]) false) none 4]) 5)
      false)
    none 3

def untaggedAfter (items : List Item) : Workspace :=
  (exec (do
      modifyIface (fun _ => { libraries := [] })
      items.forM addItem) {}).2

def untaggedItems : List Item := [.declaration untaggedPointer, .declaration untaggedVariable]

theorem runs_untagged : (exec (do
    modifyIface (fun _ => { libraries := [] })
    untaggedItems.forM addItem)
        ({} : Workspace)).1.toOption = some () ∧
      (exec (do
          modifyIface (fun _ => { libraries := [] })
          (untaggedItems.take 1).forM addItem)
        ({} : Workspace)).1.toOption = some () ∧
      (exec (addItem (.declaration untaggedPointer)) (untaggedAfter [])).1.toOption = some () ∧
      (exec (addItem (.declaration untaggedVariable))
        (untaggedAfter (untaggedItems.take 1))).1.toOption = some () := by
  decide +kernel

theorem noPart_untagged : NoPart untaggedItems := by
  decide +kernel

/- The structure of the pointer is filed under the missing
  tag, that of the variable under a name of its own. -/
theorem addItems_files_records_untagged :
    exec
        (do
          Work.modifyIface (fun _ => { libraries := [] })
          untaggedItems.forM Work.addItem) {} =
        (.ok (), untaggedAfter untaggedItems) ∧
      (∃ number,
        (untaggedAfter untaggedItems).Entered .struct none
          number) ∧
      ∃ name number,
        IsMadeUp name ∧
          (untaggedAfter untaggedItems).tagOf none 5 =
            some name ∧
          (untaggedAfter untaggedItems).Entered .struct
            (some name) number := by
  obtain ⟨hItems, hFirst, hPointer, hVariable⟩ := runs_untagged
  have hWork : exec (do
            Work.modifyIface (fun _ => { libraries := [] })
            untaggedItems.forM Work.addItem) {} =
        (.ok (), untaggedAfter untaggedItems) :=
    exec_eq_of_toOption hItems
  obtain ⟨_, _, _, hRuns⟩ := addItems_files_records rfl rfl noPart_untagged hWork
  obtain ⟨_, _, _, hStart⟩ := hRuns [] untaggedItems (untaggedAfter []) rfl rfl
  obtain ⟨_, _, _, hLast⟩ := hRuns (untaggedItems.take 1) (untaggedItems.drop 1)
      (untaggedAfter (untaggedItems.take 1)) rfl
      (exec_eq_of_toOption hFirst)
  refine ⟨hWork, ?_, ?_⟩
  · exact (hStart _ _ _ untaggedPointer _ _ _ rfl (exec_eq_of_toOption hPointer) rfl).2
        ⟨rfl, by decide, by decide⟩ rfl
  · exact (hLast _ _ _ untaggedVariable _ _ _ rfl (exec_eq_of_toOption hVariable) rfl).1
        (.inr ⟨rfl, by decide, by decide⟩)

end Workspace

end CHeader
