import CHeader.Proofs.Interface.Steps

/-
  Types by name and the members of records, in sound interfaces.

  What a name or type expression means is sound. A pointer to a record that is not known enters the
  record, and a record gets the members of its body.

  Main declarations:
    * `Workspace.leads_typeNamed`
    * `Workspace.leads_times`
    * `Workspace.leads_addPointers`
-/

namespace CHeader

open Declaration List Step Work TypeTable

namespace Workspace

section

variable {bodies : Bodies} {work : Workspace}

variable {value : Value} {type : CType} {kind : RecordKind} {tag : Option String} {number : Nat}
variable {decls : List Decl} {descriptions : List String}
variable {name : String} {pointer : Value} {base : Option Base} {params : List Value}
variable {members : List Member} {read : List WrittenMember}

-- Types by name

/- The words of the language mean scalars or nothing. -/
theorem builtinType?_cases (hBuiltin : builtinType? words = some value) :
    value = .none ∨ ∃ kind, value = .type (.scalar kind) := by
  have hAll : ∀ entry ∈ builtinTypes, entry.2 = .none ∨ ∃ kind, entry.2 = .type (.scalar kind) := by
    simp [builtinTypes]
  exact hAll _ (Macro.mem_of_lookup hBuiltin)

theorem meant_none : work.Meant .none := ⟨trivial, fun _ hText => (nomatch hText)⟩

theorem meant_type (hOver : type.Over work.Known) : work.Meant (.type type) :=
  ⟨hOver, fun _ hText => (nomatch hText)⟩

theorem Sound.meant_of_find? (hSound : Sound bodies work)
    (hFind : (work.iface.table kind).find? tag = some value) :
    ∃ number, value = .type (.record number) ∧ work.Entered kind tag number := by
  obtain ⟨number, record, hTag⟩ := hSound.tags kind tag value hFind
  have hValue := hTag.value_eq
  subst hValue
  exact ⟨number, rfl, hFind⟩

theorem meant_of_entered (hEntered : work.Entered kind tag number) :
    work.Meant (.type (.record number)) :=
  meant_type (.record ⟨kind, tag, hEntered⟩)

/- What a name means as a type. Where it means nothing it is no tag of a record. -/
theorem leads_typeNamed (hWork : Extends bodies work work) (hName : name ∉ Interface.partNames) :
    Leads bodies (typeNamed true (some name)) work (fun value next =>
        HeapOnly work next ∧ next.Meant value ∧ (value = .text "" → ∀ kind,
            (next.iface.table kind).find? (some name) = none)) := by
  have hSound := hWork.sound
  unfold typeNamed
  split
  · rename_i value hBuiltin
    rcases builtinType?_cases hBuiltin with rfl | ⟨kind, rfl⟩
    · exact .pure hWork ⟨.refl work, meant_none, by simp⟩
    · exact .pure hWork ⟨.refl work, meant_type (.scalar kind), by simp⟩
  · refine .bind_read hWork (hSound.hasTables.exec_tagged .struct) ?_
    cases hStruct : (work.iface.table .struct).find? (some name) with
    | some value =>
      obtain ⟨number, rfl, hEntered⟩ := hSound.meant_of_find? hStruct
      exact .pure hWork ⟨.refl work, meant_of_entered hEntered, by simp⟩
    | none =>
      refine .bind_read hWork (hSound.hasTables.exec_tagged .union) ?_
      cases hUnion : (work.iface.table .union).find? (some name) with
      | some value =>
        obtain ⟨number, rfl, hEntered⟩ := hSound.meant_of_find? hUnion
        exact .pure hWork ⟨.refl work, meant_of_entered hEntered, by simp⟩
      | none =>
        have hTables : ∀ kind, (work.iface.table kind).find? (some name) = none := by
          rintro (_ | _)
          · exact hStruct
          · exact hUnion
        refine .bind_read hWork rfl ?_
        split
        · refine (leads_item hWork name).mono ?_
          rintro value next hNext ⟨hOnly, hItem⟩
          refine ⟨hOnly, (hItem hName).1, fun _ kind => ?_⟩
          rw [hOnly.iface]
          exact hTables kind
        · refine .bind_read hWork hSound.hasTables.exec_enums ?_
          refine .pure hWork ⟨.refl work, ?_, fun _ => hTables⟩
          cases hEnum : (work.iface.enums.getD []).find? (some name) with
          | none =>
            exact ⟨trivial, fun _ hText => by
              cases hText
              rfl⟩
          | some value =>
            have hType := hSound.enumTypes _ (TagTable.mem_of_find? hEnum)
            subst hType
            exact meant_type (.scalar .int)

theorem leads_typeNamed_of_entered (hWork : Extends bodies work work)
    (hName : name ∉ Interface.partNames) (hEntered : work.Entered kind (some name) number) :
    Leads bodies (typeNamed true (some name)) work (fun value next =>
        next.Meant value ∧ value ≠ .text "") := by
  refine (leads_typeNamed hWork hName).mono ?_
  rintro value next hNext ⟨_, hMeant, hNothing⟩
  refine ⟨hMeant, fun hEmpty => ?_⟩
  have hLater := hNext.grows.tags _ _ _ hEntered
  unfold Entered at hLater
  rw [hNothing hEmpty kind] at hLater
  cases hLater

-- Pointers and arrays

theorem meant_pointerTo (hValue : work.Meant value) (hText : value ≠ .text "")
    (hPointer : pointerTo value = .ok pointer) :
    ∃ type, pointer = .type type ∧ type.Over work.Known := by
  cases value with
  | none =>
    cases hPointer
    exact ⟨_, rfl, .scalar _⟩
  | text text =>
    exact absurd (congrArg _ (hValue.2 text rfl)) hText
  | type type =>
    cases type with
    | ellipsis => cases hPointer
    | _ =>
      cases hPointer
      exact ⟨_, rfl, .pointer nofun hValue.1⟩
  | _ => cases hPointer

theorem meant_pointerOrText (hValue : work.Meant value) (hText : value ≠ .text "")
    (hPointer : pointerOrText value = .ok pointer) :
    ∃ type, pointer = .type type ∧ type.Over work.Known := by
  unfold pointerOrText at hPointer
  split at hPointer
  · cases hPointer
    exact ⟨_, rfl, .scalar _⟩
  · exact meant_pointerTo hValue hText hPointer

theorem meant_pointers {count : Nat} (hOver : type.Over work.Known)
    (hPointers : pointers pointerTo count (.type type) = .ok value) :
    ∃ pointer, value = .type pointer ∧ pointer.Over work.Known := by
  induction count generalizing type with
  | zero =>
    cases hPointers
    exact ⟨type, rfl, hOver⟩
  | succ count ih =>
    rw [pointers, Fault.bind_eq_ok_iff] at hPointers
    obtain ⟨first, hFirst, hRest⟩ := hPointers
    obtain ⟨pointer, rfl, hPointer⟩ := meant_pointerTo (meant_type hOver) nofun hFirst
    exact ih hPointer hRest

/- Whether a base that means nothing may be pointed to: the tag of a record is not known, and that
  of an enumeration names no part. -/
def Unknown (work : Workspace) : Option Base → Prop
| some (.record _ tag _ key) =>
    ∃ name, work.tagOf tag key = some name ∧ ∀ kind,
        (work.iface.table kind).find? (some name) = none
| some (.enumeration tag _ key) =>
    (work.tagOf tag key).getD "None" ∉ Interface.partNames
| _ => True

/- What is pointed to without a meaning gets one: a record is entered, and the tag of an enumeration
  stands for nothing. -/
theorem leads_unknownTarget (hWork : Extends bodies work work) (hUnknown : work.Unknown base) :
    Leads bodies (unknownTarget base) work (fun value next =>
        next.Meant value ∧ value ≠ .text "") := by
  unfold unknownTarget
  split
  · obtain ⟨name, hTag, hNew⟩ := hUnknown
    refine .bind_read hWork (exec_tagOf work _ _) ?_
    rw [hTag]
    refine (leads_replaceRecord hWork (hNew _)).mono ?_
    rintro _ next _ ⟨number, rfl, hEntered⟩
    exact ⟨meant_of_entered hEntered, nofun⟩
  · refine .bind_read hWork (exec_tagOf work _ _) ?_
    refine (leads_setItem hWork hUnknown meant_none).bind ?_
    intro _ next hNext hSet
    refine (leads_item hNext.stays _).mono ?_
    rintro value last _ ⟨hOnly, hItem⟩
    obtain ⟨hMeant, hStands⟩ := hItem hUnknown
    refine ⟨hMeant, ?_⟩
    rcases hStands with ⟨object, rfl⟩ | ⟨hPlain, hLookup⟩
    · nofun
    · rw [hOnly.iface] at hPlain hLookup
      rw [hSet hPlain] at hLookup
      cases hLookup
      nofun
  · exact .throw hWork

theorem leads_addPointers (hWork : Extends bodies work work) (count : Nat)
    (hValue : work.Meant value) (hUnknown : value = .text "" → work.Unknown base) :
    Leads bodies (addPointers count base value) work (fun pointer next => next.Meant pointer) := by
  unfold addPointers
  cases count with
  | zero => exact .pure hWork hValue
  | succ more =>
    have hThen : ∀ target next, Extends bodies next next →
        next.Meant target → target ≠ .text "" → Leads bodies (lift (do
            pointers pointerTo more (← pointerOrText target)))
            next (fun pointer last => last.Meant pointer) := by
      intro target next hNext hMeant hTold
      refine .lift hNext fun pointer hPointer => ?_
      rw [Fault.bind_eq_ok_iff] at hPointer
      obtain ⟨first, hFirst, hRest⟩ := hPointer
      obtain ⟨type, rfl, hOver⟩ := meant_pointerOrText hMeant hTold hFirst
      obtain ⟨_, rfl, hLast⟩ := meant_pointers hOver hRest
      exact meant_type hLast
    dsimp only
    split
    · refine (leads_unknownTarget hWork (hUnknown rfl)).bind ?_
      rintro target next hNext ⟨hMeant, hTold⟩
      exact hThen target next hNext.stays hMeant hTold
    · rename_i hTold
      exact hThen value work hWork hValue hTold

/- Making an array keeps a workspace sound. -/
theorem Extends.array (hWork : Extends bodies work work) (item : CType) (count : Nat) :
    Extends bodies work { work with
        heap := { work.heap with
            types := (work.heap.types.makeArray item count).1 } } := by
  refine hWork.of_types rfl rfl hWork.named (hWork.sound.types.makeArray item count)
    (grows_makeArray item count) ?_
  intro number record other hRecord hOther
  rw [record?_makeArray, hRecord] at hOther
  cases hOther
  rfl

/- What is no type is repeated to a number or the empty text. -/
theorem meant_repeated {count : Int} {repeated : Value} (hValue : work.Meant value)
    (hRepeated : Value.binary .mul (.int count) value = .ok repeated) : work.Meant repeated := by
  cases value with
  | int n =>
    cases hRepeated
    exact ⟨trivial, fun _ hText => (nomatch hText)⟩
  | text text =>
    obtain rfl := hValue.2 text rfl
    change ((Expr.BinaryOp.repeated "" count).map Expr.Operand.text
        >>= fun operand => pure (Value.ofOperand operand)) = .ok repeated at hRepeated
    rw [Fault.bind_eq_ok_iff] at hRepeated
    obtain ⟨operand, hOperand, hRepeated⟩ := hRepeated
    obtain ⟨text, hText, rfl⟩ := Fault.map_eq_ok_iff.1 hOperand
    cases hRepeated
    unfold Expr.BinaryOp.repeated at hText
    split at hText
    · cases hText
    · cases hText
      exact ⟨trivial, fun _ hEq => by
        cases hEq
        rfl⟩
  | real x =>
    change (OnHeap.realOf (.int count) >>= fun left =>
        OnHeap.realOf (.real x) >>= fun right => RealNumber.apply .mul left right) =
        .ok repeated at hRepeated
    rw [Fault.bind_eq_ok_iff] at hRepeated
    obtain ⟨left, _, hProduct⟩ := hRepeated
    cases hProduct
    exact ⟨trivial, fun _ hText => (nomatch hText)⟩
  | bool | bytes | list | tuple | table | library => exact hValue.1.elim
  | _ => cases hRepeated

theorem leads_times (hWork : Extends bodies work work) (count : Int) (hValue : work.Meant value) :
    Leads bodies (onHeap (OnHeap.times count value)) work
      (fun repeated next => next.Meant repeated) := by
  have hExec := exec_onHeap work (OnHeap.times count value)
  by_cases hType : ∃ type, value = .type type
  · obtain ⟨type, rfl⟩ := hType
    rcases hTimes : exec (OnHeap.times count (.type type)) work.heap with ⟨fault | repeated, heap⟩
    · rw [hTimes, OnHeap.exec_times_eq_error hTimes] at hExec
      exact .of_exec_error hExec fun _ => hWork
    · obtain ⟨hTold, rfl, rfl⟩ := OnHeap.exec_times_eq_ok hTimes
      rw [hTimes] at hExec
      have hNext := hWork.array type count.toNat
      refine .of_exec_ok hExec hNext (meant_type ?_)
      exact .array hTold (hValue.1.mono hNext.grows) _
  · have hNone : ∀ type, value ≠ .type type := fun type hEq => hType ⟨type, hEq⟩
    rw [OnHeap.exec_times_of_ne count hNone] at hExec
    cases hRepeated : Value.binary .mul (.int count) value with
    | error fault =>
      rw [hRepeated] at hExec
      exact .of_exec_error hExec fun _ => hWork
    | ok repeated =>
      rw [hRepeated] at hExec
      exact .of_exec_ok hExec hWork (meant_repeated hValue hRepeated)

/- Parameters make a function type iff all are types. -/
theorem mapM_type_eq_ok_iff {types : List CType} : params.mapM (fun param =>
    (match param with
    | .type type => .ok type
    | _ => .error Fault.wrongKind : Except Fault CType)) =
        .ok types ↔ params = types.map .type := by
  induction params generalizing types with
  | nil =>
    constructor
    · rintro ⟨⟩
      rfl
    · intro hNil
      rw [map_eq_nil_iff.1 hNil.symm]
      rfl
  | cons param params ih =>
    rw [mapM_cons, Fault.bind_eq_ok_iff]
    constructor
    · rintro ⟨type, hType, hRest⟩
      rw [Fault.bind_eq_ok_iff] at hRest
      obtain ⟨rest, hMap, hPure⟩ := hRest
      cases hPure
      split at hType
      · cases hType
        rw [map_cons, ih.1 hMap]
      · cases hType
    · intro hParams
      cases types with
      | nil => cases hParams
      | cons type types =>
        obtain ⟨rfl, hRest⟩ := cons.inj hParams
        refine ⟨type, rfl, ?_⟩
        rw [ih.2 hRest]
        rfl

/- A function type is made of types, and of a type or nothing as its result. -/
theorem functionType_eq_ok_iff : functionType result params = .ok type ↔
    ∃ resultType paramTypes, result = Value.ofResult resultType ∧ params = paramTypes.map .type ∧
        type = .function resultType paramTypes := by
  have hParams : ∀ resultType, (do
      let types ← params.mapM (fun param =>
        match param with
        | .type type => .ok type
        | _ => .error Fault.wrongKind)
      return CType.function resultType types : Except Fault CType) = .ok type ↔
      ∃ paramTypes, params = paramTypes.map .type ∧ type = .function resultType paramTypes := by
    intro resultType
    rw [Fault.bind_eq_ok_iff]
    refine exists_congr fun types => ?_
    rw [mapM_type_eq_ok_iff]
    refine and_congr_right fun _ => ?_
    exact ⟨fun h => (Except.ok.inj h).symm, fun h => h ▸ rfl⟩
  unfold functionType
  constructor
  · intro hType
    split at hType
    · obtain ⟨paramTypes, hMap, hEq⟩ := (hParams none).1 hType
      exact ⟨none, paramTypes, rfl, hMap, hEq⟩
    · rename_i t
      obtain ⟨paramTypes, hMap, hEq⟩ := (hParams (some t)).1 hType
      exact ⟨some t, paramTypes, rfl, hMap, hEq⟩
    · cases hType
  · rintro ⟨resultType, paramTypes, rfl, hMap, hEq⟩
    cases resultType with
    | none => exact (hParams none).2 ⟨paramTypes, hMap, hEq⟩
    | some t => exact (hParams (some t)).2 ⟨paramTypes, hMap, hEq⟩

theorem over_functionType {params : List CType} (hResult : work.Meant (Value.ofResult result))
    (hParams : ∀ param ∈ params.map Value.type, work.Meant param) :
    CType.Over work.Known (.function result params) := by
  refine .function ?_ ?_
  · rintro type rfl
    exact hResult.1
  · intro param hParam
    exact (hParams _ (mem_map_of_mem hParam)).1

-- Members

/- Whether a member that is not yet part of a record is as a declaration writes it. -/
structure ReadAs (work : Workspace) (decl : Decl) (written : WrittenMember) (description : String) :
    Prop where
  name : ∀ name, decl.name = some name → written.name = some name
  type : ∀ type, written.type = .type type → type.Over work.Known ∧
      ∃ before after, exec (typeOf decl.type) before = (.ok (.type type), after) ∧
          after.Grows work
  bits : decl.bits.mapM widthOf = .ok written.bits
  described : ∀ text, decl.type.base.description? = some text → description = text

/- Whether members that are not yet part of a record are those that a body declares, in order. -/
inductive ReadAll (work : Workspace) : List Decl → List WrittenMember → List String → Prop where
  | nil : ReadAll work [] [] []
  | cons {decl : Decl} {written : WrittenMember} {description : String} {decls : List Decl}
      {rest : List WrittenMember}
      {descriptions : List String}
      (hFirst : work.ReadAs decl written description)
      (hRest : ReadAll work decls rest descriptions) :
      ReadAll work (decl :: decls) (written :: rest) (description :: descriptions)

/- Members with names and types are those that were written. -/
theorem ReadAll.written {written : List WrittenMember}
    (hRead : ReadAll work decls written descriptions)
    (hMembers : written.map memberOf? = members.map some) :
    Written work decls members descriptions ∧ ∀ member ∈ members, member.type.Over work.Known := by
  induction hRead generalizing members with
  | nil =>
    cases members with
    | nil => exact ⟨.nil, nofun⟩
    | cons => cases hMembers
  | @cons decl first description decls rest descriptions hFirst hRest ih =>
      cases members with
      | nil => cases hMembers
      | cons member members =>
        obtain ⟨hHead, hTail⟩ := cons.inj hMembers
        obtain ⟨hWritten, hOver⟩ := ih hTail
        unfold memberOf? at hHead
        split at hHead
        · rename_i name type hName hType
          cases hHead
          obtain ⟨hTypeOver, hMeaning⟩ := hFirst.type type hType
          refine ⟨.cons ⟨?_, hMeaning, hFirst.bits, hFirst.described⟩ hWritten, ?_⟩
          · intro other hOther
            have hSame := hFirst.name other hOther
            rw [hName] at hSame
            exact Option.some.inj hSame
          · exact forall_mem_cons.2 ⟨hTypeOver, hOver⟩
        · cases hHead

/- If as many members are valid as are written, all are. -/
theorem eq_map_some_of_length {α : Type} {items : List (Option α)}
    (hLength : ((items.takeWhile Option.isSome).filterMap id).length = items.length) :
    items = ((items.takeWhile Option.isSome).filterMap id).map some := by
  induction items with
  | nil => rfl
  | cons item items ih =>
    cases item with
    | none => simp at hLength
    | some a =>
      simp only [Option.isSome_some, takeWhile_cons, if_true, filterMap_cons, id_eq,
        length_cons, Nat.add_right_cancel_iff] at hLength ⊢
      exact congrArg (some a :: ·) (ih hLength)

/- A record may get the members of a body that its tag may have. -/
theorem Extends.install (hWork : Extends bodies work work)
    (hEntered : work.Entered kind tag number) (hBody : bodies kind written decls)
    (hTag : written = tag ∨ written = none) (hWritten : Written work decls members descriptions)
    (hOver : ∀ member ∈ members, member.type.Over work.Known)
    (hOk : (work.heap.types.setMembers number members).2 = .ok ()) :
    Extends bodies work { work with
        heap := { work.heap with
            types := work.heap.types.installed number members descriptions } } := by
  have hSound := hWork.sound
  obtain ⟨record, hSoundTag⟩ := hSound.tag_of_entered hEntered
  have hRecord := hSoundTag.record?
  have hNext := record?_installed hRecord hOk descriptions
  have hAllowed := ((setMembers_eq_ok_iff hRecord).1 hOk).2.1
  have hGrows : work.Grows { work with
      heap := { work.heap with
          types := work.heap.types.installed number members descriptions } } :=
    ⟨rfl, rfl, hSound.types.grows_installed hRecord hOk descriptions, fun _ _ _ hOld => hOld⟩
  refine ⟨hGrows, Renews.sound ?_ hSound, hWork.textless, hWork.named⟩
  refine ⟨hGrows, hSound.types.installed hRecord hOk descriptions,
    hSound.structs, hSound.unions, hSound.enums, ?_,
    hSound.tagsOnce, hSound.tagsApart, hSound.enumTypes,
    hSound.enumsOnce, fun _ hEntry => .inl hEntry, hSound.entriesOnce, fun _ hEntry => .inl hEntry,
    hSound.exportedOnce⟩
  intro other key value hFind
  obtain ⟨found, old, hOld⟩ := hSound.tags other key value hFind
  by_cases hSame : number = found
  · -- Only one tag stands for the record.
    subst hSame
    have hValue := hOld.value_eq
    subst hValue
    cases hRecord.symm.trans hOld.record?
    have hKind : other = kind := hOld.kind_eq.symm.trans hSoundTag.kind_eq
    subst hKind
    have hKey := hSound.tagsApart _ _ _ _ hFind hEntered
    subst hKey
    refine .inr ⟨number, _, rfl, hNext, hSoundTag.kind_eq, hSoundTag.name_eq, ?_, ?_⟩
    · exact .inr ⟨written, decls, hBody, hTag, members,
        descriptions, rfl, rfl, hWritten.mono hGrows⟩
    · intro others hOthers member hMember
      cases hOthers
      exact ⟨hAllowed member hMember, (hOver member hMember).mono hGrows.known⟩
  · refine .inl ⟨hFind, ?_⟩
    intro other before after hEq hBefore hAfter
    cases hOld.value_eq.symm.trans hEq
    rcases record?_installed_of_ne hRecord hOk descriptions hSame with hKept | hFixed
    · cases hBefore.symm.trans (hKept.symm.trans hAfter)
      rfl
    · rw [hBefore, Option.map_some] at hFixed
      cases hFixed.symm.trans hAfter
      rfl

/- Members are refused unless all of them have names and
  types, but not for want of a name of the interface. -/
theorem exec_setWrittenMembers_of_length (work : Workspace) (number : Nat)
    (hLength : ¬ (((read.map memberOf?).takeWhile
        Option.isSome).filterMap id).length = read.length) :
    ∃ fault next, exec (setWrittenMembers number read) work =
        (.error fault, next) ∧ fault ≠ .missingName := by
  unfold setWrittenMembers
  rw [if_neg hLength, exec_bind_of_ok _ (exec_types work)]
  split
  · exact ⟨.missingPart, work, rfl, nofun⟩
  · rw [exec_bind_of_ok _ (exec_modifyTypes work _), exec_bind_of_ok _ (exec_types _)]
    have hCheck := checkMembers_ne_missing (work.heap.types.modify number (fun record =>
        { record with
          members := some (((read.map memberOf?).takeWhile Option.isSome).filterMap id) }))
        (((read.map memberOf?).takeWhile Option.isSome).filterMap id)
    rw [exec_bind, exec_lift]
    split
    · exact ⟨.wrongKind, _, rfl, nofun⟩
    · rename_i fault next hEq
      obtain ⟨hFault, rfl⟩ := Prod.mk.inj hEq
      refine ⟨fault, _, rfl, ?_⟩
      rintro rfl
      exact hCheck hFault

theorem leads_install (hWork : Extends bodies work work) {written : Option String}
    (hEntered : work.Entered kind tag number) (hBody : bodies kind written decls)
    (hTag : written = tag ∨ written = none) (hRead : ReadAll work decls read descriptions) :
    Leads bodies (do
        setWrittenMembers number read
        modifyTypes (·.describe number descriptions)) work
      (fun _ next =>
        ∃ record, next.Entered kind tag number ∧ next.heap.types.record? number = some record ∧
            next.HasBody record decls) := by
  by_cases hLength : (((read.map memberOf?).takeWhile
      Option.isSome).filterMap id).length = read.length
  · unfold setWrittenMembers
    rw [if_pos hLength]
    rw [← length_map (f := memberOf?)] at hLength
    have hMembers := eq_map_some_of_length hLength
    generalize (((read.map memberOf?).takeWhile
        Option.isSome).filterMap id) = members at hMembers ⊢
    obtain ⟨hWritten, hOver⟩ := hRead.written hMembers
    have hExec := exec_setMembers work number members
    cases hResult : (work.heap.types.setMembers number members).2 with
    | error fault =>
      rw [hResult] at hExec
      refine .of_exec_error (exec_bind_of_error _ hExec) ?_
      rintro rfl
      exact absurd hResult setMembers_ne_missing
    | ok done =>
      rw [hResult] at hExec
      have hNext := hWork.install hEntered hBody hTag hWritten hOver hResult
      obtain ⟨record, hSoundTag⟩ := hWork.sound.tag_of_entered hEntered
      refine .of_exec_ok ((exec_bind_of_ok _ hExec).trans (exec_modifyTypes _ _))
        hNext ⟨_, hEntered, record?_installed hSoundTag.record? hResult
            descriptions, members, descriptions, rfl, rfl,
          hWritten.mono hNext.grows⟩
  · obtain ⟨fault, next, hExec, hFault⟩ := exec_setWrittenMembers_of_length work number hLength
    exact .of_exec_error (exec_bind_of_error _ hExec) fun hMissing => absurd hMissing hFault

end

end Workspace

end CHeader
