import CHeader.CType.Layout
import CHeader.Proofs.CType.Basic
import CHeader.Proofs.Fault

/-
  Laws of tables of types.

  A table of types only ever grows: records keep their kind and name, and a record that has got its
  members stays as it is. A table is sound if the records with members are fixed and nothing without
  members has a size.

  Main declarations:
    * `TypeTable.Fixes`
    * `TypeTable.Grows`
    * `TypeTable.Sound`
-/

namespace CHeader

open List

variable {number other : Nat} {record : Record} {first second third : TypeTable}

namespace TypeTable

-- Records by number

section

variable (table : TypeTable)

theorem record?_modify (number other : Nat) (change : Record → Record) :
    (table.modify number change).record? other =
      if number = other then (table.record? other).map change
      else table.record? other := by
  unfold modify record?
  by_cases hSame : number = other
  · simp [hSame]
  · simp [hSame]

theorem record_of_record? {table : TypeTable} (hRecord : table.record? number = some record) :
    table.record number = record := by
  unfold TypeTable.record
  rw [hRecord, Option.getD_some]

theorem record?_add (kind : RecordKind) (name : String) (number : Nat) :
    (table.add kind name).1.record? number =
      if number = table.records.length then some { kind := kind, name := name }
      else table.record? number := by
  unfold add record?
  rw [List.getElem?_append]
  by_cases hLt : number < table.records.length
  · rw [if_pos hLt, if_neg (Nat.ne_of_lt hLt)]
  · by_cases hEq : number = table.records.length
    · simp [hEq]
    · have hNone : [({ kind := kind, name := name } : Record)][
          number - table.records.length]? = none := by
        rw [List.getElem?_eq_none_iff, length_singleton]
        omega
      have hOld : table.records[number]? = none := by
        rw [List.getElem?_eq_none_iff]
        omega
      rw [if_neg hLt, if_neg hEq, hNone, hOld]

theorem record?_length : table.record? table.records.length = none := by
  unfold record?
  rw [List.getElem?_eq_none_iff]

end

/- Extents depend on the extents of records and of recorded arrays only. -/
theorem extent_congr (hArrays : first.arrays = second.arrays)
    (hRecords : ∀ number, (first.record number).extent =
        (second.record number).extent) (type : CType) : first.extent type = second.extent type := by
  induction type with
  | array item count ih =>
    rw [extent, extent, hArrays, ih]
  | record number =>
    rw [extent, extent, hRecords]
  | _ => rfl

-- Fixing

/- Whether two tables differ at most in which records are fixed, and all that were fixed still are. -/
structure Fixes (before after : TypeTable) : Prop where
  arrays : after.arrays = before.arrays
  records : ∀ number, after.record? number = before.record? number ∨
      after.record? number = (before.record? number).map
          (fun record => { record with isFixed := true })

namespace Fixes

theorem refl (table : TypeTable) : Fixes table table := ⟨rfl, fun _ => .inl rfl⟩

theorem trans (hFirst : Fixes first second) (hSecond : Fixes second third) : Fixes first third where
  arrays := hSecond.arrays.trans hFirst.arrays
  records number := by
    rcases hSecond.records number with hThen | hThen
    · rw [hThen]
      exact hFirst.records number
    · right
      rw [hThen]
      rcases hFirst.records number with hStart | hStart
      · rw [hStart]
      · rw [hStart, Option.map_map]
        rfl

variable {before after : TypeTable}

theorem record?_eq_some (hFixes : Fixes before after)
    (hRecord : before.record? number = some record) :
    after.record? number = some record ∨ after.record? number =
        some { record with isFixed := true } := by
  rcases hFixes.records number with hSame | hFixed
  · exact .inl (hSame.trans hRecord)
  · right
    rw [hFixed, hRecord, Option.map_some]

theorem record_extent (hFixes : Fixes before after) (number : Nat) :
    (after.record number).extent = (before.record number).extent := by
  unfold record
  rcases hFixes.records number with hSame | hFixed
  · rw [hSame]
  · rw [hFixed]
    cases before.record? number <;> rfl

theorem extent (hFixes : Fixes before after) (type : CType) :
    after.extent type = before.extent type :=
  extent_congr hFixes.arrays hFixes.record_extent type

end Fixes

theorem fixes_fix (table : TypeTable) (type : CType) : Fixes table (table.fix type) := by
  cases type with
  | record number =>
    refine ⟨rfl, fun other => ?_⟩
    rw [fix, record?_modify]
    by_cases hSame : number = other
    · exact .inr (if_pos hSame)
    · exact .inl (if_neg hSame)
  | _ => exact Fixes.refl table

-- Members that are accepted

end TypeTable

def Member.Allowed (member : Member) : Prop :=
  member.type ≠ .ellipsis ∧ TypeTable.checkBits {} member.type member.bits = .ok ()

namespace TypeTable

variable {members : List Member}

section

variable (table : TypeTable)

/- Whether a width is allowed does not depend on the table. -/
theorem checkBits_eq (type : CType) (bits : Option Nat) :
    table.checkBits type bits = checkBits {} type bits := by
  cases bits with
  | none => rfl
  | some bits => cases type <;> rfl

theorem checkMembers_cons (member : Member)
    (rest : List Member) (hType : member.type ≠ .ellipsis) : table.checkMembers (member :: rest) =
      match (table.fix member.type).checkBits member.type member.bits with
      | .error fault => (table.fix member.type, .error fault)
      | .ok () => (table.fix member.type).checkMembers rest := by
  obtain ⟨name, type, bits⟩ := member
  cases type with
  | ellipsis => exact absurd rfl hType
  | _ => rfl

/- Members are accepted iff each of them is allowed. -/
theorem checkMembers_eq_ok_iff (members : List Member) :
    (table.checkMembers members).2 = .ok () ↔ ∀ member ∈ members, member.Allowed := by
  induction members generalizing table with
  | nil => simp [checkMembers]
  | cons member rest ih =>
    rw [forall_mem_cons]
    by_cases hType : member.type = .ellipsis
    · have hError : (table.checkMembers (member :: rest)).2 = .error .wrongKind := by
        rw [checkMembers, hType]
      rw [hError]
      exact ⟨fun h => (nomatch h), fun h => absurd hType h.1.1⟩
    · rw [checkMembers_cons table member rest hType, checkBits_eq]
      cases hBits : checkBits {} member.type member.bits with
      | error fault =>
        refine ⟨fun h => (nomatch h), fun h => ?_⟩
        rw [h.1.2] at hBits
        cases hBits
      | ok =>
        rw [ih]
        exact ⟨fun h => ⟨⟨hType, hBits⟩, h⟩, fun h => h.2⟩

/- No width is refused for want of a name. -/
theorem checkBits_ne_missing (type : CType) (bits : Option Nat) :
    table.checkBits type bits ≠ .error .missingName := by
  unfold checkBits
  split
  · nofun
  · split
    · split
      · nofun
      · split
        · nofun
        · split <;> nofun
    · nofun

/- No members are refused for want of a name. -/
theorem checkMembers_ne_missing (members : List Member) :
    (table.checkMembers members).2 ≠ .error .missingName := by
  induction members generalizing table with
  | nil => nofun
  | cons member rest ih =>
    by_cases hType : member.type = .ellipsis
    · rw [checkMembers, hType]
      nofun
    · rw [checkMembers_cons table member rest hType]
      split
      · rename_i fault hBits
        intro hMissing
        cases hMissing
        exact checkBits_ne_missing _ _ _ hBits
      · exact ih _

/- What holds of a table and is kept by fixing the types of members holds after checking them. -/
theorem checkMembers_induction {motive : TypeTable → Prop} (hStart : motive table)
    (hFix : ∀ table, ∀ member ∈ members, motive table → motive (table.fix member.type)) :
    motive (table.checkMembers members).1 := by
  induction members generalizing table with
  | nil => exact hStart
  | cons member rest ih =>
    obtain ⟨hMember, hRest⟩ := forall_mem_cons.1 fun member hMember table =>
      hFix table member hMember
    rw [checkMembers]
    split
    · exact hStart
    · dsimp only
      split
      · exact hMember table hStart
      · exact ih _ (hMember table hStart) fun table member hMember => hRest member hMember table

/- Checking members fixes records and does nothing else. -/
theorem fixes_checkMembers (members : List Member) : Fixes table (table.checkMembers members).1 :=
  table.checkMembers_induction (.refl table) fun _ member _ hFixes =>
    hFixes.trans (fixes_fix _ member.type)

/- Checking members leaves a record alone that is the type of none of them. -/
theorem record?_checkMembers (hOther : ∀ member ∈ members, member.type ≠ .record number) :
    (table.checkMembers members).1.record? number = table.record? number := by
  refine table.checkMembers_induction (motive := (record? · number = _)) rfl ?_
  intro now member hMember hSame
  cases hKind : member.type with
  | record other =>
    have hNumber : other ≠ number := fun hNumber => hOther member hMember (hNumber ▸ hKind)
    rw [fix, record?_modify, if_neg hNumber, hSame]
  | _ => exact hSame

/- A record that is the type of a member is fixed when the members are accepted. -/
theorem record?_checkMembers_of_mem (hAllowed : ∀ member ∈ members, member.Allowed)
    (hMember : member ∈ members) (hType : member.type = .record number)
    (hRecord : table.record? number = some record) :
    (table.checkMembers members).1.record? number = some { record with isFixed := true } := by
  induction members generalizing table record with
  | nil => cases hMember
  | cons first rest ih =>
    obtain ⟨hFirst, hRest⟩ := forall_mem_cons.1 hAllowed
    rw [checkMembers_cons table first rest hFirst.1, checkBits_eq, hFirst.2]
    rcases mem_cons.1 hMember with rfl | hLater
    · have hFix : (table.fix member.type).record? number =
          some { record with isFixed := true } := by
        rw [hType, fix, record?_modify, if_pos rfl, hRecord, Option.map_some]
      exact (fixes_checkMembers _ rest).record?_eq_some hFix
          |>.elim id id
    · rcases (fixes_fix table first.type).record?_eq_some hRecord with hSame | hFixed
      · exact ih (table.fix first.type) hRest hLater hSame
      · have hLast := ih (table.fix first.type) hRest hLater hFixed
        exact hLast

end

-- Giving a record its members

section

variable (table : TypeTable) {number : Nat} {record : Record} {members : List Member}

abbrev enter (table : TypeTable) (number : Nat) (members : List Member) : TypeTable :=
  table.modify number (fun record => { record with members := some members })

def noted (table : TypeTable) (number : Nat) (members : List Member) : TypeTable :=
  ((table.modify number (fun record =>
      { record with members := some members })).checkMembers members).1

theorem extent_noted (type : CType) :
    (table.noted number members).extent type = table.extent type := by
  unfold noted
  rw [(fixes_checkMembers _ members).extent]
  refine extent_congr ?_ ?_ type
  · rfl
  · intro other
    unfold record
    rw [record?_modify]
    by_cases hSame : number = other
    · rw [if_pos hSame]
      cases table.record? other <;> rfl
    · rw [if_neg hSame]

theorem record?_noted_of_ne (hOther : number ≠ other) :
    (table.noted number members).record? other = table.record? other ∨
      (table.noted number members).record? other = (table.record? other).map
          (fun record => { record with isFixed := true }) := by
  have hRecords := (fixes_checkMembers (table.enter number members) members).records other
  rwa [record?_modify, if_neg hOther] at hRecords

def measured (table : TypeTable) (kind : RecordKind) (members : List Member) :
    Extent × List Place :=
  Layout.ofMembers kind (members.map (fun member => (table.extent member.type, member.bits)))

variable {table}

variable (hRecord : table.record? number = some record)
include hRecord

/- A record in which its members were noted, and whether it is fixed by checking them. -/
theorem record?_noted (hAllowed : ∀ member ∈ members, member.Allowed) :
    (table.noted number members).record? number = some { record with
        members := some members,
        isFixed := record.isFixed || members.any (fun member =>
            member.type == .record number) } := by
  have hStart : (table.enter number members).record? number =
      some { record with members := some members } := by
    rw [record?_modify, if_pos rfl, hRecord, Option.map_some]
  unfold noted
  by_cases hOwn : ∃ member ∈ members, member.type = .record number
  · obtain ⟨member, hMember, hType⟩ := hOwn
    have hAny : members.any (fun member => member.type == .record number) = true :=
      any_eq_true.2 ⟨member, hMember, (CType.beq_record_iff _ _).2 hType⟩
    rw [record?_checkMembers_of_mem _ hAllowed hMember hType hStart, hAny, Bool.or_true]
  · have hOther : ∀ member ∈ members, member.type ≠ .record number :=
      fun member hMember hType => hOwn ⟨member, hMember, hType⟩
    have hAny : members.any (fun member => member.type == .record number) = false :=
      any_eq_false.2 fun member hMember hType =>
          hOther member hMember ((CType.beq_record_iff _ _).1 hType)
    rw [record?_checkMembers _ hOther, hStart, hAny, Bool.or_false]

/- Members that are accepted are noted and measured. -/
theorem setMembers_of_allowed
    (hFree : record.isFixed = false) (hAllowed : ∀ member ∈ members, member.Allowed) :
    table.setMembers number members = ((table.noted number members).modify number (fun noted =>
        { noted with
          extent := (table.measured record.kind members).1,
          places := (table.measured record.kind members).2,
          isFixed := true }),
        if members.any (fun member => member.type == .record number)
        then .error .missingPart
        else .ok ()) := by
  have hOk := (checkMembers_eq_ok_iff (table.enter number members) members).2 hAllowed
  have hNoted := record_of_record? (record?_noted hRecord hAllowed)
  have hExtents : members.map (fun member =>
      ((table.noted number members).extent member.type, member.bits)) =
        members.map (fun member => (table.extent member.type, member.bits)) :=
    map_congr_left fun member _ => by rw [extent_noted]
  unfold setMembers
  rw [record_of_record? hRecord, hFree]
  simp only [Bool.false_eq_true, if_false]
  rcases hCheck : (table.enter number members).checkMembers members with ⟨checked, fault | ⟨⟩⟩
  · rw [hCheck] at hOk
    cases hOk
  · have hChecked : checked = table.noted number members := by
      unfold noted
      rw [hCheck]
    subst hChecked
    dsimp only
    rw [hExtents, hNoted, hFree, Bool.false_or]
    split <;> rfl

/- Members are accepted iff the record is not fixed, each of
  them is allowed, and none of them is the record itself. -/
theorem setMembers_eq_ok_iff : (table.setMembers number members).2 = .ok () ↔
    record.isFixed = false ∧ (∀ member ∈ members, member.Allowed) ∧
      ∀ member ∈ members, member.type ≠ .record number := by
  cases hFixed : record.isFixed with
  | true =>
    have hError : (table.setMembers number members).2 = .error .missingPart := by
      unfold setMembers
      rw [record_of_record? hRecord, hFixed]
      rfl
    simp [hError]
  | false =>
    by_cases hAllowed : ∀ member ∈ members, member.Allowed
    · rw [setMembers_of_allowed hRecord hFixed hAllowed]
      have hOwn : members.any (fun member => member.type == .record number) = false ↔
          ∀ member ∈ members, member.type ≠ .record number := by
        rw [any_eq_false]
        exact forall₂_congr fun member _ => not_congr (CType.beq_record_iff _ _)
      rw [← hOwn]
      cases members.any (fun member => member.type == .record number) with
      | true => simp
      | false => simpa using hAllowed
    · have hError : ∃ fault, (table.setMembers number members).2 = .error fault := by
        unfold setMembers
        rw [record_of_record? hRecord, hFixed]
        simp only
        rcases hCheck : (table.enter number members).checkMembers members with ⟨checked, fault | ⟨⟩⟩
        · exact ⟨fault, rfl⟩
        · refine absurd ?_ hAllowed
          rw [← checkMembers_eq_ok_iff, hCheck]
      obtain ⟨fault, hFault⟩ := hError
      rw [hFault]
      exact ⟨fun h => (nomatch h), fun h => absurd h.2.1 hAllowed⟩

omit hRecord in
theorem setMembers_ne_missing : (table.setMembers number members).2 ≠ .error .missingName := by
  unfold setMembers
  dsimp only
  split
  · nofun
  · split
    · rename_i checked fault hCheck
      intro hMissing
      cases hMissing
      exact checkMembers_ne_missing _ _ (congrArg Prod.snd hCheck)
    · split <;> nofun

end

-- Growth

end TypeTable

structure Record.Grows (before after : Record) : Prop where
  kind : after.kind = before.kind
  name : after.name = before.name
  done : before.members.isSome → after = before

namespace Record.Grows

theorem refl (record : Record) : Grows record record := ⟨rfl, rfl, fun _ => rfl⟩

theorem trans {first second third : Record} (hFirst : Grows first second)
    (hSecond : Grows second third) : Grows first third where
  kind := hSecond.kind.trans hFirst.kind
  name := hSecond.name.trans hFirst.name
  done hMembers := by
    have hSame := hFirst.done hMembers
    subst hSame
    exact hSecond.done hMembers

end Record.Grows

/- Whether a record with members is fixed, and has no size or descriptions without them. -/
def Record.Sound (record : Record) : Prop :=
  (record.members.isSome → record.isFixed = true) ∧
    (record.members = none → record.extent = {} ∧ record.descriptions = none)

namespace TypeTable

/- Whether a table has become another one. -/
def Grows (before after : TypeTable) : Prop :=
  ∀ number record, before.record? number = some record →
    ∃ next, after.record? number = some next ∧ record.Grows next

namespace Grows

theorem refl (table : TypeTable) : Grows table table :=
  fun _ record hRecord => ⟨record, hRecord, .refl record⟩

theorem trans (hFirst : Grows first second) (hSecond : Grows second third) : Grows first third := by
  intro number record hRecord
  obtain ⟨next, hNext, hGrows⟩ := hFirst number record hRecord
  obtain ⟨last, hLast, hThen⟩ := hSecond number next hNext
  exact ⟨last, hLast, hGrows.trans hThen⟩

end Grows

/- Whether the records with members are fixed and nothing
  without members has a size or descriptions. -/
structure Sound (table : TypeTable) : Prop where
  fixed : ∀ number record, table.record? number = some record →
      record.members.isSome → record.isFixed = true
  blank : ∀ number record, table.record? number = some record → record.members = none →
      record.extent = {} ∧ record.descriptions = none
  arrays : ∀ entry ∈ table.arrays, entry.2 = {}

namespace Sound

variable {table before after : TypeTable}

theorem of_records (hRecords : ∀ number record, table.record? number = some record → record.Sound)
    (hArrays : ∀ entry ∈ table.arrays, entry.2 = {}) : table.Sound where
  fixed number record hRecord := (hRecords number record hRecord).1
  blank number record hRecord := (hRecords number record hRecord).2
  arrays := hArrays

theorem empty : Sound {} := of_records (fun number record hRecord => by simp [record?] at hRecord)
    fun entry hEntry => by cases hEntry

theorem record_sound (hSound : table.Sound) (hRecord : table.record? number = some record) :
    record.Sound :=
  ⟨hSound.fixed number record hRecord, hSound.blank number record hRecord⟩

-- What keeps a table sound

section

variable (hSound : before.Sound) (hKept : after.record? number = before.record? number ∨
    after.record? number = (before.record? number).map
      (fun record => { record with isFixed := true }))
include hSound hKept

theorem grows_kept (hRecord : before.record? number = some record) :
    ∃ next, after.record? number = some next ∧ record.Grows next := by
  rcases hKept with hSame | hFixed
  · exact ⟨record, hSame.trans hRecord, .refl record⟩
  · rw [hRecord, Option.map_some] at hFixed
    refine ⟨_, hFixed, rfl, rfl, fun hMembers => ?_⟩
    have hAlready := hSound.fixed number record hRecord hMembers
    cases record
    cases hAlready
    rfl

theorem record_kept (hRecord : after.record? number = some record) : record.Sound := by
  rcases hKept with hSame | hFixed
  · exact hSound.record_sound (hSame ▸ hRecord)
  · rw [hFixed, Option.map_eq_some_iff] at hRecord
    obtain ⟨old, hOld, rfl⟩ := hRecord
    exact ⟨fun _ => rfl, (hSound.record_sound hOld).2⟩

end

end Sound

section

variable {before after : TypeTable} (hFixes : Fixes before after) (hSound : before.Sound)
include hFixes hSound

theorem Fixes.grows : before.Grows after :=
  fun number _ => hSound.grows_kept (hFixes.records number)

theorem Fixes.sound : after.Sound :=
  .of_records (fun number _ => hSound.record_kept (hFixes.records number))
    (hFixes.arrays ▸ hSound.arrays)

end

section

variable {table : TypeTable}

theorem record?_add_of_some (kind : RecordKind) (name : String)
    (hRecord : table.record? number = some record) :
    (table.add kind name).1.record? number = some record := by
  rw [record?_add, if_neg, hRecord]
  rintro rfl
  rw [record?_length] at hRecord
  cases hRecord

theorem grows_add (kind : RecordKind) (name : String) : table.Grows (table.add kind name).1 :=
  fun _ record hRecord => ⟨record, record?_add_of_some kind name hRecord, .refl record⟩

theorem Sound.add (hSound : table.Sound) (kind : RecordKind)
    (name : String) : (table.add kind name).1.Sound := by
  refine .of_records (fun number record hRecord => ?_) hSound.arrays
  rw [record?_add] at hRecord
  split at hRecord
  · cases hRecord
    exact ⟨nofun, fun _ => ⟨rfl, rfl⟩⟩
  · exact hSound.record_sound hRecord

/- What may still change its size has none yet. -/
theorem Sound.extent_of_isOpen (hSound : table.Sound)
    {type : CType} (hOpen : table.isOpen type = true) : table.extent type = {} := by
  induction type with
  | record number =>
    rw [extent]
    cases hRecord : table.record? number with
    | none =>
      unfold record
      rw [hRecord]
      rfl
    | some record =>
      have hMembers : record.members = none := by
        rw [isOpen, record_of_record? hRecord] at hOpen
        exact Option.isNone_iff_eq_none.1 hOpen
      rw [record_of_record? hRecord]
      exact (hSound.blank number record hRecord hMembers).1
  | array item count ih =>
    rw [isOpen, Bool.and_eq_true] at hOpen
    have hItem := ih hOpen.2
    have hNew : table.arrays.find? (fun entry => entry.1 == .array item count) = none := by
      have hAny := hOpen.1
      rw [Bool.not_eq_true', any_eq_false] at hAny
      exact List.find?_eq_none.2 hAny
    rw [extent, hNew, hItem]
    rfl
  | _ => cases hOpen

theorem record?_makeArray (item : CType) (count number : Nat) :
    (table.makeArray item count).1.record? number = table.record? number := by
  unfold makeArray
  dsimp only
  split <;> rfl

theorem makeArray_snd (item : CType) (count : Nat) :
    (table.makeArray item count).2 = .array item count := by
  unfold makeArray
  dsimp only
  split <;> rfl

theorem grows_makeArray (item : CType) (count : Nat) : table.Grows (table.makeArray item count).1 :=
  fun number record hRecord =>
    ⟨record, (record?_makeArray item count number).trans hRecord, .refl record⟩

theorem Sound.makeArray (hSound : table.Sound) (item : CType)
    (count : Nat) : (table.makeArray item count).1.Sound := by
  refine .of_records (fun number record hRecord =>
    hSound.record_sound ((record?_makeArray item count number).symm.trans hRecord)) ?_
  unfold TypeTable.makeArray
  dsimp only
  split
  · rename_i hOpen
    intro entry hEntry
    rcases mem_append.1 hEntry with hOld | hNew
    · exact hSound.arrays entry hOld
    · rw [mem_singleton.1 hNew]
      exact hSound.extent_of_isOpen hOpen
  · exact hSound.arrays

variable {number : Nat} {record : Record} {members : List Member}

def installed (table : TypeTable) (number : Nat) (members : List Member)
    (descriptions : List String) : TypeTable :=
  ((table.setMembers number members).1).describe number descriptions

section

variable (hRecord : table.record? number = some record)
  (hOk : (table.setMembers number members).2 = .ok ()) (descriptions : List String)
include hRecord hOk

theorem record?_installed : (table.installed number members descriptions).record? number = some
    { record with
      members := some members,
      descriptions := some descriptions,
      extent := (table.measured record.kind members).1,
      places := (table.measured record.kind members).2,
      isFixed := true } := by
  obtain ⟨hFree, hAllowed, _⟩ := (setMembers_eq_ok_iff hRecord).1 hOk
  rw [installed, setMembers_of_allowed hRecord hFree hAllowed, describe, record?_modify, if_pos rfl,
    record?_modify, if_pos rfl, record?_noted hRecord hAllowed, Option.map_some, Option.map_some]

/- Other records may be fixed when a record gets its members. -/
theorem record?_installed_of_ne (hOther : number ≠ other) :
    (table.installed number members descriptions).record? other = table.record? other ∨
      (table.installed number members descriptions).record? other = (table.record? other).map
          (fun record => { record with isFixed := true }) := by
  obtain ⟨hFree, hAllowed, _⟩ := (setMembers_eq_ok_iff hRecord).1 hOk
  rw [installed, setMembers_of_allowed hRecord hFree hAllowed, describe, record?_modify,
    if_neg hOther, record?_modify, if_neg hOther]
  exact record?_noted_of_ne table hOther

end

section

variable (hSound : table.Sound) (hRecord : table.record? number = some record)
  (hOk : (table.setMembers number members).2 = .ok ()) (descriptions : List String)
include hSound hRecord hOk

theorem Sound.grows_installed : table.Grows (table.installed number members descriptions) := by
  intro other old hOld
  by_cases hSame : number = other
  · subst hSame
    cases hRecord.symm.trans hOld
    refine ⟨_, record?_installed hRecord hOk descriptions, rfl, rfl, fun hMembers => ?_⟩
    -- A record with members is fixed, so it gets no others.
    have hFixed := hSound.fixed number record hRecord hMembers
    rw [((setMembers_eq_ok_iff hRecord).1 hOk).1] at hFixed
    cases hFixed
  · exact hSound.grows_kept (record?_installed_of_ne hRecord hOk descriptions hSame) hOld

theorem Sound.installed : (table.installed number members descriptions).Sound := by
  refine .of_records (fun other next hNext => ?_) ?_
  · by_cases hSame : number = other
    · subst hSame
      rw [record?_installed hRecord hOk] at hNext
      cases hNext
      exact ⟨fun _ => rfl, nofun⟩
    · exact hSound.record_kept (record?_installed_of_ne hRecord hOk descriptions hSame) hNext
  · obtain ⟨hFree, hAllowed, _⟩ := (setMembers_eq_ok_iff hRecord).1 hOk
    have hArrays : (table.installed number members descriptions).arrays = table.arrays := by
      rw [TypeTable.installed, setMembers_of_allowed hRecord hFree hAllowed]
      exact (fixes_checkMembers _ members).arrays
    exact hArrays ▸ hSound.arrays

end

end

-- Kinds and names

/- The kinds and names of the records that exist, in the order in which they were made. -/
def heads (table : TypeTable) : List (RecordKind × String) :=
  table.records.map fun record => (record.kind, record.name)

section

variable (table : TypeTable)

theorem heads_add (kind : RecordKind) (name : String) :
    (table.add kind name).1.heads = table.heads ++ [(kind, name)] := by
  simp [heads, add]

theorem length_heads : table.heads.length = table.records.length := length_map _

variable (number : Nat)

theorem getElem?_heads : table.heads[number]? = (table.record? number).map
    (fun record => (record.kind, record.name)) :=
  List.getElem?_map

/- A change to a record that leaves its kind and name. -/
theorem heads_modify {change : Record → Record}
    (hKind : ∀ record, (change record).kind = record.kind)
    (hName : ∀ record, (change record).name = record.name) :
    (table.modify number change).heads = table.heads := by
  apply ext_getElem?
  intro other
  rw [getElem?_heads, getElem?_heads, record?_modify]
  split_ifs
  · rw [Option.map_map]
    congr 1
    funext record
    simp [hKind, hName]
  · rfl

theorem heads_fix (type : CType) : (table.fix type).heads = table.heads := by
  cases type with
  | record number =>
    exact heads_modify table number (fun _ => rfl) (fun _ => rfl)
  | _ => rfl

theorem heads_makeArray (item : CType) (count : Nat) :
    (table.makeArray item count).1.heads = table.heads := by
  unfold makeArray
  dsimp only
  split_ifs <;> rfl

theorem heads_describe (descriptions : List String) :
    (table.describe number descriptions).heads = table.heads :=
  heads_modify table number (fun _ => rfl) (fun _ => rfl)

theorem heads_checkMembers (members : List Member) :
    (table.checkMembers members).1.heads = table.heads :=
  table.checkMembers_induction (motive := (heads · = _)) rfl fun now _ _ hSame =>
    (heads_fix now _).trans hSame

theorem heads_setMembers (members : List Member) :
    (table.setMembers number members).1.heads = table.heads := by
  have hNoted : (table.enter number members).heads = table.heads :=
    heads_modify table number (fun _ => rfl) (fun _ => rfl)
  have hChecked := heads_checkMembers (table.enter number members) members
  unfold setMembers
  dsimp only
  split_ifs
  · exact hNoted
  · split
    · rename_i hExec
      rw [hExec] at hChecked
      exact hChecked.trans hNoted
    · rename_i hExec
      rw [hExec] at hChecked
      split_ifs
      all_goals
        refine (heads_modify _ number ?_ ?_).trans (hChecked.trans hNoted) <;>
        exact fun _ => rfl

end

end TypeTable

end CHeader
