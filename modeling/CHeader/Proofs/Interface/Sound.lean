import CHeader.Interface.Build
import CHeader.Proofs.CType.Table
import CHeader.Proofs.Declaration.Mention
import CHeader.Proofs.Interface.Tables
import CHeader.Proofs.Step

/-
  Sound interfaces.

  In a sound interface every tag stands for a record of its kind and name. A record is opaque, or
  its members are those of a body, in order: each bears the name, width and description it is
  written with, and the type that its type expression meant when it was read. All types lead to
  records under tags.

  Main declarations:
    * `Workspace.Entered`
    * `Workspace.Grows`
    * `Workspace.HasBody`
-/

namespace CHeader

open Declaration Step

-- Records under tags

namespace Workspace

def Entered (work : Workspace) (kind : RecordKind) (tag : Option String) (number : Nat) : Prop :=
  (work.iface.table kind).find? tag = some (.type (.record number))

/- Whether a record stands under any tag. -/
def Known (work : Workspace) (number : Nat) : Prop := ∃ kind tag, work.Entered kind tag number

def libraryFor (work : Workspace) (symbol : String) : Option String :=
  work.iface.libraries.find? (work.hasSymbol symbol)

-- Growth

/- Whether a workspace has become another one by steps that enter and complete records. -/
structure Grows (before after : Workspace) : Prop where
  libraries : after.iface.libraries = before.iface.libraries
  loaded : after.loaded = before.loaded
  types : before.heap.types.Grows after.heap.types
  tags : ∀ kind tag number, before.Entered kind tag number → after.Entered kind tag number

namespace Grows

variable {first second third : Workspace}

theorem refl (work : Workspace) : Grows work work :=
  ⟨rfl, rfl, .refl _, fun _ _ _ hEntered => hEntered⟩

theorem trans (hFirst : Grows first second) (hSecond : Grows second third) : Grows first third where
  libraries := hSecond.libraries.trans hFirst.libraries
  loaded := hSecond.loaded.trans hFirst.loaded
  types := hFirst.types.trans hSecond.types
  tags kind tag number hEntered := hSecond.tags kind tag number
      (hFirst.tags kind tag number hEntered)

theorem known (hGrows : Grows first second) (number : Nat)
    (hKnown : first.Known number) : second.Known number := by
  obtain ⟨kind, tag, hEntered⟩ := hKnown
  exact ⟨kind, tag, hGrows.tags kind tag number hEntered⟩

theorem libraryFor (hGrows : Grows first second) (symbol : String) :
    second.libraryFor symbol = first.libraryFor symbol := by
  unfold Workspace.libraryFor hasSymbol address?
  rw [hGrows.libraries, hGrows.loaded]

end Grows

-- Members as written

end Workspace

/- How the base of a type is described, if it is not by a name that is made up. -/
def Declaration.Base.description? : Base → Option String
| .words names => some (Text.joinWith " " names)
| .record _ tag _ _ => tag
| .enumeration tag _ _ => tag

namespace Workspace

variable {before after : Workspace} {bodies : Bodies}
variable {record : Record} {value : Value} {kind : RecordKind} {tag : Option String} {number : Nat}
variable {next : Workspace}

/- Whether a member with a description is as a declaration writes it. Its type is what the type
  expression meant in a workspace that has become the one at hand. -/
structure MemberOf (work : Workspace) (decl : Decl) (member : Member) (description : String) :
    Prop where
  name : ∀ name, decl.name = some name → member.name = name
  type : ∃ before after, exec (Work.typeOf decl.type) before = (.ok (.type member.type), after) ∧
      after.Grows work
  bits : decl.bits.mapM Work.widthOf = .ok member.bits
  described : ∀ text, decl.type.base.description? = some text → description = text

theorem MemberOf.mono (hGrows : before.Grows after)
    (hMember : before.MemberOf decl member description) :
    after.MemberOf decl member description where
  name := hMember.name
  type := by
    obtain ⟨start, stop, hExec, hStop⟩ := hMember.type
    exact ⟨start, stop, hExec, hStop.trans hGrows⟩
  bits := hMember.bits
  described := hMember.described

/- Whether members with descriptions are those that a body declares, in order. -/
inductive Written (work : Workspace) : List Decl → List Member → List String → Prop where
  | nil : Written work [] [] []
  | cons {decl : Decl} {member : Member} {description : String} {decls : List Decl}
      {members : List Member}
      {descriptions : List String}
      (hFirst : work.MemberOf decl member description)
      (hRest : Written work decls members descriptions) :
      Written work (decl :: decls) (member :: members) (description :: descriptions)

namespace Written

variable {work : Workspace} {decls : List Decl} {members : List Member} {descriptions : List String}

theorem mono (hGrows : work.Grows after) (hWritten : Written work decls members descriptions) :
    Written after decls members descriptions := by
  induction hWritten with
  | nil => exact .nil
  | cons hFirst _ ih => exact .cons (hFirst.mono hGrows) ih

end Written

def HasBody (work : Workspace) (record : Record) (decls : List Decl) : Prop :=
  ∃ members descriptions, record.members = some members ∧ record.descriptions = some descriptions ∧
      Written work decls members descriptions

theorem HasBody.mono (hGrows : before.Grows after) (hBody : before.HasBody record decls) :
    after.HasBody record decls := by
  obtain ⟨members, descriptions, hMembers, hDescriptions, hWritten⟩ := hBody
  exact ⟨members, descriptions, hMembers, hDescriptions, hWritten.mono hGrows⟩

-- Sound values

/- Whether a function is bound as its declaration binds it. -/
structure SoundFunction (work : Workspace) (function : Function) : Prop where
  library : work.libraryFor function.symbol = some function.library
  result : ∀ type, function.result = some type → type.Over work.Known
  params : ∀ param ∈ function.params, param.Over work.Known
  descriptions : function.descriptions.length = function.params.length + 1
  convention : function.convention = commonConvention
  fixedParams : function.fixedParams = Work.beforeEllipsis? function.params
  accepted : function.accepted = function.params

theorem SoundFunction.mono (hGrows : before.Grows after) (hSound : before.SoundFunction function) :
    after.SoundFunction function where
  library := (hGrows.libraryFor _).trans hSound.library
  result type hType := (hSound.result type hType).mono hGrows.known
  params param hParam := (hSound.params param hParam).mono hGrows.known
  descriptions := hSound.descriptions
  convention := hSound.convention
  fixedParams := hSound.fixedParams
  accepted := hSound.accepted

/- Whether a value may stand under a name. -/
def SoundValue (work : Workspace) : Value → Prop
| .none | .int _ | .real _ | .text _ | .object _ => True
| .type type => type.Over work.Known
| .function function => work.SoundFunction function
| _ => False

theorem SoundValue.mono (hGrows : before.Grows after) (hSound : before.SoundValue value) :
    after.SoundValue value := by
  cases value with
  | type type => exact CType.Over.mono hGrows.known hSound
  | function function => exact SoundFunction.mono hGrows hSound
  | _ => exact hSound

-- Sound workspaces

/- The bodies that declarations may have, with the tag in front of each. -/
abbrev Bodies := RecordKind → Option String → List Decl → Prop

/- Whether a record is opaque or has a body that its tag may have. A body without a tag may stand
  under any tag, which is then made up. -/
def Filled (work : Workspace) (bodies : Bodies) (kind : RecordKind) (tag : Option String)
    (record : Record) : Prop :=
  record.members = none ∨ ∃ written decls, bodies kind written decls ∧
      (written = tag ∨ written = none) ∧
      work.HasBody record decls

/- What a sound interface has under a tag. -/
structure SoundTag (work : Workspace) (bodies : Bodies) (kind : RecordKind) (tag : Option String)
    (value : Value) (number : Nat) (record : Record) : Prop where
  value_eq : value = .type (.record number)
  record? : work.heap.types.record? number = some record
  kind_eq : record.kind = kind
  name_eq : record.name = tag.getD "None"
  filled : work.Filled bodies kind tag record
  members : ∀ members, record.members = some members →
      ∀ member ∈ members, member.Allowed ∧ member.type.Over work.Known

/- Whether an interface and its types are in order. -/
structure Sound (bodies : Bodies) (work : Workspace) : Prop where
  types : work.heap.types.Sound
  structs : work.iface.structs.isSome
  unions : work.iface.unions.isSome
  enums : work.iface.enums.isSome
  tags : ∀ kind tag value, (work.iface.table kind).find? tag = some value → ∃ number record,
      work.SoundTag bodies kind tag value number record
  tagsOnce : ∀ kind, ((work.iface.table kind).map Prod.fst).Nodup
  tagsApart : ∀ kind tag other number, work.Entered kind tag number →
      work.Entered kind other number → tag = other
  enumTypes : ∀ entry ∈ work.iface.enums.getD [], entry.2 = .type (.scalar .int)
  enumsOnce : ((work.iface.enums.getD []).map Prod.fst).Nodup
  entries : ∀ entry ∈ work.iface.entries, entry.1 ∉ Interface.partNames ∧ work.SoundValue entry.2
  entriesOnce : (work.iface.entries.map Prod.fst).Nodup
  exported : ∀ entry ∈ work.iface.exported,
      entry.1 ∉ Interface.partNames ∧ entry.2.2 ∈ work.iface.libraries ∧
        ∃ type, entry.2.1 = .type type ∧ type.Over work.Known
  exportedOnce : (work.iface.exported.map Prod.fst).Nodup

namespace Sound

variable {bodies : Bodies} {work : Workspace}

theorem tag_of_entered (hSound : Sound bodies work) (hEntered : work.Entered kind tag number) :
    ∃ record, work.SoundTag bodies kind tag (.type (.record number)) number record := by
  obtain ⟨other, record, hTag⟩ := hSound.tags kind tag _ hEntered
  cases hTag.value_eq
  exact ⟨record, hTag⟩

end Sound

/- A tag keeps what it has while its record does. -/
theorem SoundTag.mono (hGrows : before.Grows after)
    (hTag : before.SoundTag bodies kind tag value number record)
    (hKept : ∀ next, after.heap.types.record? number = some next → next.members = record.members) :
    ∃ next, after.SoundTag bodies kind tag value number next := by
  obtain ⟨next, hNext, hRecord⟩ := hGrows.types number record hTag.record?
  have hMembers := hKept next hNext
  refine ⟨next, hTag.value_eq, hNext, hRecord.kind.trans hTag.kind_eq,
    hRecord.name.trans hTag.name_eq, ?_, ?_⟩
  · rcases hTag.filled with hOpaque | hBody
    · exact .inl (hMembers.trans hOpaque)
    · obtain ⟨written, decls, hAllowed, hWritten, hHas⟩ := hBody
      have hSome : record.members.isSome := by
        obtain ⟨members, _, hMembers, _⟩ := hHas
        exact Option.isSome_of_mem hMembers
      have hSame : next = record := hRecord.done hSome
      subst hSame
      exact .inr ⟨written, decls, hAllowed, hWritten, hHas.mono hGrows⟩
  · intro members hSome member hMember
    obtain ⟨hAllowed, hOver⟩ := hTag.members members (hMembers ▸ hSome) member hMember
    exact ⟨hAllowed, hOver.mono hGrows.known⟩

/- What a workspace must have to be sound after a sound one: all that is new in it. -/
structure Renews (bodies : Bodies) (before after : Workspace) : Prop where
  grows : before.Grows after
  types : after.heap.types.Sound
  structs : after.iface.structs.isSome
  unions : after.iface.unions.isSome
  enums : after.iface.enums.isSome
  tags : ∀ kind tag value, (after.iface.table kind).find? tag = some value →
      ((before.iface.table kind).find? tag = some value ∧
        ∀ number record next, value = .type (.record number) →
          before.heap.types.record? number = some record →
          after.heap.types.record? number = some next → next.members = record.members) ∨
      ∃ number record, after.SoundTag bodies kind tag value number record
  tagsOnce : ∀ kind, ((after.iface.table kind).map Prod.fst).Nodup
  tagsApart : ∀ kind tag other number, after.Entered kind tag number →
      after.Entered kind other number → tag = other
  enumTypes : ∀ entry ∈ after.iface.enums.getD [], entry.2 = .type (.scalar .int)
  enumsOnce : ((after.iface.enums.getD []).map Prod.fst).Nodup
  entries : ∀ entry ∈ after.iface.entries,
      entry ∈ before.iface.entries ∨ entry.1 ∉ Interface.partNames ∧ after.SoundValue entry.2
  entriesOnce : (after.iface.entries.map Prod.fst).Nodup
  exported : ∀ entry ∈ after.iface.exported,
      entry ∈ before.iface.exported ∨ entry.1 ∉ Interface.partNames ∧
          entry.2.2 ∈ after.iface.libraries ∧
          ∃ type, entry.2.1 = .type type ∧ type.Over after.Known
  exportedOnce : (after.iface.exported.map Prod.fst).Nodup

/- A sound workspace with sound news is sound. -/
theorem Renews.sound (hRenews : Renews bodies before after)
    (hSound : Sound bodies before) : Sound bodies after where
  types := hRenews.types
  structs := hRenews.structs
  unions := hRenews.unions
  enums := hRenews.enums
  tags kind tag value hFind := by
    rcases hRenews.tags kind tag value hFind with ⟨hOld, hKept⟩ | hNew
    · obtain ⟨number, record, hTag⟩ := hSound.tags kind tag value hOld
      have hNext := hTag.mono hRenews.grows fun next hNext =>
          hKept number record next hTag.value_eq hTag.record? hNext
      exact ⟨number, hNext⟩
    · exact hNew
  tagsOnce := hRenews.tagsOnce
  tagsApart := hRenews.tagsApart
  enumTypes := hRenews.enumTypes
  enumsOnce := hRenews.enumsOnce
  entries entry hEntry := by
    rcases hRenews.entries entry hEntry with hOld | hNew
    · obtain ⟨hName, hValue⟩ := hSound.entries entry hOld
      exact ⟨hName, hValue.mono hRenews.grows⟩
    · exact hNew
  entriesOnce := hRenews.entriesOnce
  exported entry hEntry := by
    rcases hRenews.exported entry hEntry with hOld | hNew
    · obtain ⟨hName, hLibrary, type, hType, hOver⟩ := hSound.exported entry hOld
      exact ⟨hName, hRenews.grows.libraries ▸ hLibrary, type, hType, hOver.mono hRenews.grows.known⟩
    · exact hNew
  exportedOnce := hRenews.exportedOnce

theorem Sound.of_types (hWork : Sound bodies work)
    (hIface : next.iface = work.iface) (hLoaded : next.loaded = work.loaded)
    (hSound : next.heap.types.Sound) (hGrows : work.heap.types.Grows next.heap.types)
    (hKept : ∀ number record other, work.heap.types.record? number = some record →
        next.heap.types.record? number = some other → other.members = record.members) :
    work.Grows next ∧ Sound bodies next := by
  have hNext : work.Grows next := by
    refine ⟨by rw [hIface], hLoaded, hGrows, ?_⟩
    intro kind tag number hEntered
    unfold Entered
    rw [hIface]
    exact hEntered
  have hRenews : Renews bodies work next := by
    refine ⟨hNext, hSound, ?_, ?_, ?_, ?_, ?_, ?_, ?_, ?_, ?_, ?_, ?_, ?_⟩
    all_goals try unfold Entered
    all_goals rw [hIface]
    · exact hWork.structs
    · exact hWork.unions
    · exact hWork.enums
    · intro kind tag value hFind
      exact .inl ⟨hFind, fun number record other _ => hKept number record other⟩
    · exact hWork.tagsOnce
    · exact hWork.tagsApart
    · exact hWork.enumTypes
    · exact hWork.enumsOnce
    · exact fun entry hEntry => .inl hEntry
    · exact hWork.entriesOnce
    · exact fun entry hEntry => .inl hEntry
    · exact hWork.exportedOnce
  exact ⟨hNext, hRenews.sound hWork⟩

-- Steps along sound workspaces

/- Whether all texts that names stand for are empty. While declarations are read, a name without a
  meaning is an empty text and no other texts occur. -/
def Textless (work : Workspace) : Prop :=
  ∀ entry ∈ work.iface.entries, ∀ text, entry.2 = .text text → text = ""

/- Whether no name that was made up is that of a part. -/
def NamedApart (work : Workspace) : Prop := ∀ given ∈ work.givenNames, given.2 ∉ Interface.partNames

/- Whether a sound workspace comes about from another one. -/
structure Extends (bodies : Bodies) (before after : Workspace) : Prop where
  grows : before.Grows after
  sound : Sound bodies after
  textless : after.Textless
  named : after.NamedApart

namespace Extends

variable {bodies : Bodies}

variable {work : Workspace}

theorem refl (hSound : Sound bodies work) (hTextless : work.Textless) (hNamed : work.NamedApart) :
    Extends bodies work work :=
  ⟨.refl work, hSound, hTextless, hNamed⟩

theorem stays (hExtends : Extends bodies before after) : Extends bodies after after :=
  refl hExtends.sound hExtends.textless hExtends.named

theorem trans (hFirst : Extends bodies first second) (hSecond : Extends bodies second third) :
    Extends bodies first third :=
  ⟨hFirst.grows.trans hSecond.grows, hSecond.sound, hSecond.textless, hSecond.named⟩

theorem of_types (hWork : Extends bodies work work) (hIface : next.iface = work.iface)
    (hLoaded : next.loaded = work.loaded) (hNamed : next.NamedApart)
    (hSound : next.heap.types.Sound) (hGrows : work.heap.types.Grows next.heap.types)
    (hKept : ∀ number record other, work.heap.types.record? number = some record →
        next.heap.types.record? number = some other → other.members = record.members) :
    Extends bodies work next := by
  obtain ⟨hNext, hLater⟩ := hWork.sound.of_types hIface hLoaded hSound hGrows hKept
  refine ⟨hNext, hLater, ?_, hNamed⟩
  unfold Textless
  rw [hIface]
  exact hWork.textless

/- What is neither interface nor type nor library may change at will. -/
theorem of_same (hWork : Extends bodies work work) (hIface : next.iface = work.iface)
    (hTypes : next.heap.types = work.heap.types) (hLoaded : next.loaded = work.loaded)
    (hNamed : next.NamedApart) : Extends bodies work next := by
  refine hWork.of_types hIface hLoaded hNamed ?_ ?_ ?_
  · exact hTypes ▸ hWork.sound.types
  · exact hTypes ▸ .refl _
  · intro number record other hRecord hOther
    rw [hTypes, hRecord] at hOther
    cases hOther
    rfl

end Extends

end Workspace

end CHeader
