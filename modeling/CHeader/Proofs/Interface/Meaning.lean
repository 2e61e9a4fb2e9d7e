import CHeader.Proofs.Interface.Naming

/-
  Type expressions keep an interface sound.

  Finding the meaning of a type expression leads from a sound interface to sound ones, whatever it
  defines on the way, as long as no name in it is that of a part of interfaces.

  Main declarations:
    * `Workspace.AllFit`
    * `Workspace.leads_typeOver`
    * `Workspace.leads_defineRecord`
-/

namespace CHeader

open Declaration List Step Work

namespace Workspace

-- Mentions that fit

def Fits (bodies : Bodies) : Mention → Prop
| .name text => text ∉ Interface.partNames
| .body kind tag members => bodies kind tag members

def AllFit (bodies : Bodies) (mentions : List Mention) : Prop :=
  ∀ mention ∈ mentions, Fits bodies mention

section

variable {bodies : Bodies}

theorem allFit_append : AllFit bodies (first ++ second) ↔
    AllFit bodies first ∧ AllFit bodies second :=
  forall_mem_append

theorem allFit_cons : AllFit bodies (mention :: rest) ↔ Fits bodies mention ∧ AllFit bodies rest :=
  forall_mem_cons

end

-- Small steps

section

variable {bodies : Bodies} {work : Workspace}

theorem leads_orPointer {post : Value → Workspace → Prop} (hStep : Leads bodies step work post) :
    Leads bodies (orPointer step) work (fun _ _ => True) := by
  have hExec : exec (orPointer step) work = _ := exec_tryCatch work step _
  rcases hResult : exec step work with ⟨fault | value, next⟩
  · rw [hResult] at hExec
    dsimp only at hExec
    split at hExec
    · have hNext := hStep.missing hResult
      refine .of_exec_ok hExec (hNext.trans (hNext.stays.of_same rfl rfl rfl ?_)) trivial
      exact hNext.named
    · rename_i hOther
      exact .of_exec_error hExec fun hMissing => absurd hMissing hOther
  · rw [hResult] at hExec
    exact .of_exec_ok hExec (hStep.ok hResult).1 trivial

section

variable (hWork : Extends bodies work work)
include hWork

theorem leads_valueOfOperand (expr : Declaration.Expr) :
    Leads bodies (valueOfOperand expr) work (fun _ _ => True) := by
  unfold valueOfOperand
  split
  · refine .bind_read hWork (exec_iface work) ?_
    split
    · exact .pure hWork trivial
    · exact .throw hWork
  · exact .lift hWork fun _ _ => trivial
  · exact .throw hWork

theorem leads_applyFront (op : String) (value : Value) :
    Leads bodies (applyFront op value) work (fun _ _ => True) := by
  unfold applyFront
  split
  · exact .lift hWork fun _ _ => trivial
  · exact .lift hWork fun _ _ => trivial
  · exact .lift hWork fun _ _ => trivial
  · refine (leads_calm hWork fun heap => ?_).bind ?_
    · rw [OnHeap.exec_sizeOfValue_snd]
    · intro _ next hNext _
      exact .pure hNext.stays trivial
  · exact .throw hWork

theorem leads_truth (value : Value) :
    Leads bodies (onHeap (OnHeap.truth value)) work (fun _ _ => True) :=
  (leads_calm hWork fun _ => rfl).mono fun _ _ _ _ => trivial

theorem leads_describeBase (base : Base) :
    Leads bodies (describeBase base) work (fun description next =>
        next = work ∧ ∀ text, base.description? = some text → description = text) := by
  unfold describeBase
  split
  · refine .pure hWork ⟨rfl, ?_⟩
    rintro text ⟨⟩
    rfl
  · refine .bind_read hWork (exec_tagOf work _ _) ?_
    refine .pure hWork ⟨rfl, ?_⟩
    rintro text rfl
    rfl
  · refine .bind_read hWork (exec_tagOf work _ _) ?_
    refine .pure hWork ⟨rfl, ?_⟩
    rintro text rfl
    rfl

theorem leads_describeType (modifiers : List Modifier)
    (base : Base) : Leads bodies (describeType modifiers base) work (fun _ _ => True) := by
  refine (leads_describeBase hWork base).bind ?_
  intro _ next hNext _
  exact .pure hNext.stays trivial

/- A tag that fits or is made up is no part. -/
theorem Extends.tagOf_not_part {tag : Option String}
    (hTag : AllFit bodies (mentionTag tag)) (key : Nat) :
    ∀ name, work.tagOf tag key = some name → name ∉ Interface.partNames := by
  intro name hName
  cases tag with
  | some text =>
    cases hName
    exact hTag (.name name) mem_cons_self
  | none =>
    obtain ⟨given, hGiven, rfl⟩ := Option.map_eq_some_iff.1 hName
    exact hWork.named given (mem_of_find?_eq_some hGiven)

/- An enumeration that means nothing may be pointed to. -/
theorem Extends.unknown_enumeration {tag : Option String}
    (hTag : AllFit bodies (mentionTag tag)) (values : Option (List Enumerator)) (key : Nat) :
    work.Unknown (some (.enumeration tag values key)) := by
  change (work.tagOf tag key).getD "None" ∉ _
  cases hName : work.tagOf tag key with
  | none => decide
  | some name => exact hWork.tagOf_not_part hTag key name hName

end

theorem meant_add (hAdd : Value.binary .add (.int position) offset = .ok value) :
    work.Meant value := by
  have hNumber : (∃ n, value = .int n) ∨ ∃ x, value = .real x := by
    cases offset with
    | int | bool =>
      cases hAdd
      exact .inl ⟨_, rfl⟩
    | real x =>
      change (OnHeap.realOf (.int position) >>= fun left =>
          OnHeap.realOf (.real x) >>= fun right => RealNumber.apply .add left right) =
          .ok value at hAdd
      rw [Fault.bind_eq_ok_iff] at hAdd
      obtain ⟨left, _, hSum⟩ := hAdd
      cases hSum
      exact .inr ⟨_, rfl⟩
    | _ => cases hAdd
  rcases hNumber with ⟨n, rfl⟩ | ⟨x, rfl⟩
  · exact ⟨trivial, nofun⟩
  · exact ⟨trivial, nofun⟩

end

/- A name that is given is kept. -/
theorem leads_readName (hWork : Extends bodies work work) (kind : RecordKind)
    (name : Option String) (key : Nat) :
    Leads bodies (readName kind name key) work (fun read _ =>
        ∀ given, name = some given → read = some given) := by
  cases name with
  | some name => exact .pure hWork fun _ hSame => hSame
  | none =>
    cases kind with
    | union => exact .pure hWork fun _ hSame => hSame
    | struct =>
      refine .bind_read hWork (exec_tagOf work none key) ?_
      cases hTag : work.tagOf none key with
      | some name => exact .pure hWork nofun
      | none =>
        refine (leads_nameKey hWork hTag).bind ?_
        intro name next hNext _
        exact .pure hNext.stays nofun

-- Meaning

def BaseMeant (base : Base) (value : Value) (next : Workspace) : Prop :=
  next.Meant value ∧ (value = .text "" → next.Unknown (some base))

def Defined (kind : RecordKind) (tag : Option String) (members : Option (List Decl))
    (next : Workspace) : Prop :=
  ∃ number record, next.Entered kind tag number ∧ next.heap.types.record? number = some record ∧
      ∀ decls, members = some decls → next.HasBody record decls

mutual

theorem leads_typeOver (hWork : Extends bodies work work) (count : Nat)
    (modifiers : List Modifier) (base : Base)
    (hModifiers : AllFit bodies (mentionsOfModifiers modifiers))
    (hBase : AllFit bodies base.mentions) : Leads bodies (typeOver count modifiers base) work
      (fun value next => next.Meant value) := by
  match modifiers, hModifiers with
  | [], _ =>
    rw [typeOver]
    refine (leads_typeOfBase hWork base hBase).bind ?_
    rintro value next hNext ⟨hMeant, hUnknown⟩
    exact leads_addPointers hNext.stays count hMeant hUnknown
  | .pointer :: rest, hRest =>
    rw [typeOver]
    exact leads_typeOver hWork (count + 1) rest base hRest hBase
  | .array size :: rest, hBoth =>
    rw [typeOver]
    obtain ⟨hSize, hRest⟩ := allFit_append.1 hBoth
    refine (leads_sizeOfArray hWork size hSize).bind ?_
    intro length next hNext _
    refine (leads_typeOver hNext.stays 0 rest base hRest hBase).bind ?_
    intro item last hLast hItem
    refine (leads_times hLast.stays length hItem).bind ?_
    intro value final hFinal hValue
    exact leads_addPointers hFinal.stays count hValue fun _ => trivial
  | .function params :: rest, hBoth =>
    rw [typeOver]
    obtain ⟨hParams, hRest⟩ := allFit_append.1 hBoth
    refine (leads_typeOver hWork 0 rest base hRest hBase).bind ?_
    intro result next hNext hResult
    split
    · exact .pure hNext.stays hResult
    · refine (leads_paramTypes hNext.stays params hParams).bind ?_
      intro types last hLast hTypes
      have hFunction : Leads bodies (lift (functionType result types)) last
          (fun type final => type.Over final.Known) := by
        refine .lift hLast.stays fun type hType => ?_
        obtain ⟨result, params, rfl, rfl, rfl⟩ := functionType_eq_ok_iff.1 hType
        exact over_functionType (hResult.mono hLast.grows) hTypes
      refine hFunction.bind ?_
      intro type final hFinal hOver
      exact leads_addPointers hFinal.stays (count - 1) (meant_type hOver) fun _ => trivial
termination_by sizeOf modifiers + sizeOf base

theorem leads_typeOf (hWork : Extends bodies work work) (type : TypeExpr)
    (hType : AllFit bodies type.mentions) :
    Leads bodies (typeOf type) work (fun value next => next.Meant value) := by
  match type, hType with
  | .mk modifiers base bare, hBoth =>
    rw [typeOf]
    obtain ⟨hModifiers, hBase⟩ := allFit_append.1 hBoth
    exact leads_typeOver hWork 0 modifiers base hModifiers hBase
termination_by sizeOf type

theorem leads_typeOfBase (hWork : Extends bodies work work) (base : Base)
    (hBase : AllFit bodies base.mentions) :
    Leads bodies (typeOfBase base) work (BaseMeant base) := by
  match base, hBase with
  | .words names, hWords =>
    rw [typeOfBase]
    have hName : nameOfWords names ∉ Interface.partNames :=
      hWords (.name (nameOfWords names)) mem_cons_self
    refine (leads_typeNamed hWork hName).bind ?_
    rintro value next hNext ⟨_, hMeant, _⟩
    split
    · refine (leads_times hNext.stays 2 hMeant).mono ?_
      intro _ _ _ hValue
      exact ⟨hValue, fun _ => trivial⟩
    · exact .pure hNext.stays ⟨hMeant, fun _ => trivial⟩
  | .record kind tag members key, hBoth =>
    obtain ⟨hTag, hBody⟩ := allFit_append.1 hBoth
    have hKnown : ∀ {name next number}, Extends bodies next next → name ∉ Interface.partNames →
        next.Entered kind (some name) number → Leads bodies (typeNamed true (some name)) next
          (BaseMeant (.record kind tag members key)) :=
      fun hNext hPlain hEntered =>
        (leads_typeNamed_of_entered hNext hPlain hEntered).mono fun _ _ _ hBoth =>
          ⟨hBoth.1, fun hEmpty => absurd hEmpty hBoth.2⟩
    rw [typeOfBase]
    refine .bind_read hWork (exec_tagOf work tag key) ?_
    cases hName : work.tagOf tag key with
    | none =>
      cases tag with
      | some name => cases hName
      | none =>
        refine (leads_nameKey hWork hName).bind ?_
        rintro name next hNext ⟨_, hPlain⟩
        refine (leads_defineRecord hNext.stays kind
          (some name) none members hBody (.inr rfl)).bind ?_
        rintro _ last hLast ⟨number, _, hEntered, _⟩
        exact hKnown hLast.stays hPlain hEntered
    | some name =>
      have hPlain := hWork.tagOf_not_part hTag key name hName
      have hDefine := leads_defineRecord hWork kind (some name) tag members hBody
      match members, hDefine with
      | none, _ =>
        refine (leads_typeNamed hWork hPlain).mono ?_
        rintro value next hNext ⟨hOnly, hMeant, hNothing⟩
        exact ⟨hMeant, fun hEmpty => ⟨name, (hOnly.tagOf tag key).trans hName, hNothing hEmpty⟩⟩
      | some decls, hDefine =>
        have hWritten : tag = some name ∨ tag = none := by
          cases tag with
          | none => exact .inr rfl
          | some text => exact .inl hName
        refine .bind_read hWork (hWork.sound.hasTables.exec_tagged kind) ?_
        split
        · refine (hDefine hWritten).bind ?_
          rintro _ last hLast ⟨number, _, hEntered, _⟩
          exact hKnown hLast.stays hPlain hEntered
        · rename_i hOld
          obtain ⟨found, hFind⟩ := Option.ne_none_iff_exists'.1
              (mt Option.isNone_iff_eq_none.2 hOld)
          obtain ⟨number, rfl, hEntered⟩ := hWork.sound.meant_of_find? hFind
          exact hKnown hWork hPlain hEntered
  | .enumeration tag values key, hBoth =>
    rw [typeOfBase]
    obtain ⟨hTag, hValues⟩ := allFit_append.1 hBoth
    refine .bind_read hWork (exec_tagOf work tag key) ?_
    cases hName : work.tagOf tag key with
    | some name =>
      have hPlain := hWork.tagOf_not_part hTag key name hName
      refine (leads_typeNamed hWork hPlain).mono ?_
      rintro value next hNext ⟨_, hMeant, _⟩
      exact ⟨hMeant, fun _ => hNext.stays.unknown_enumeration hTag values key⟩
    | none =>
      cases tag with
      | some name => cases hName
      | none =>
        refine (leads_nameKey hWork hName).bind ?_
        rintro name next hNext ⟨_, hPlain⟩
        refine (leads_defineEnum hNext.stays (some name) values hValues).bind ?_
        intro _ last hLast _
        refine (leads_typeNamed hLast.stays hPlain).mono ?_
        rintro value final hFinal ⟨_, hMeant, _⟩
        exact ⟨hMeant, fun _ => hFinal.stays.unknown_enumeration hTag values key⟩
termination_by sizeOf base

theorem leads_defineRecord (hWork : Extends bodies work work) (kind : RecordKind)
    (tag written : Option String) (members : Option (List Decl))
    (hMembers : AllFit bodies (mentionsOfBody kind written members))
    (hTag : written = tag ∨ written = none) : Leads bodies (defineRecord kind tag members) work
      (fun _ next => Defined kind tag members next) := by
  match members, hMembers with
  | none, _ =>
    cases kind with
    | struct =>
      rw [defineRecord]
      refine (leads_enterRecord hWork .struct tag).bind ?_
      rintro _ next hNext ⟨number, hEntered⟩
      obtain ⟨record, hSoundTag⟩ := hNext.sound.tag_of_entered hEntered
      exact .pure hNext.stays ⟨number, record, hEntered, hSoundTag.record?, nofun⟩
    | union =>
      rw [defineRecord]
      refine (leads_enterRecord hWork .union tag).bind ?_
      intro _ next hNext _
      exact .throw hNext.stays
  | some decls, hBody =>
    obtain ⟨hHas, hDecls⟩ := allFit_cons.1 hBody
    rw [defineRecord_some]
    refine (leads_enterRecord hWork kind tag).bind ?_
    rintro _ next hNext ⟨number, hEntered⟩
    refine (leads_writtenMembers hNext.stays kind decls hDecls).bind ?_
    rintro ⟨read, descriptions⟩ last hLast hRead
    have hLater := hLast.grows.tags _ _ _ hEntered
    refine .bind_read hLast.stays (hLast.sound.hasTables.exec_recordNumber hLater) ?_
    refine (leads_install hLast.stays hLater hHas hTag hRead).mono ?_
    rintro _ final _ ⟨record, hFinal, hRecord, hBody⟩
    refine ⟨number, record, hFinal, hRecord, ?_⟩
    rintro _ ⟨⟩
    exact hBody
termination_by sizeOf members

theorem leads_writtenMembers (hWork : Extends bodies work work) (kind : RecordKind)
    (decls : List Decl) (hDecls : AllFit bodies (mentionsOfDecls decls)) :
    Leads bodies (writtenMembers kind decls) work (fun read next =>
        ReadAll next decls read.1 read.2) := by
  match decls, hDecls with
  | [], _ =>
    rw [writtenMembers]
    exact .pure hWork .nil
  | .mk name storage functionWords type bits key :: rest, hBoth =>
      obtain ⟨hFirst, hRest⟩ := allFit_append.1 hBoth
      obtain ⟨hType, _⟩ := allFit_append.1 hFirst
      rw [writtenMembers_cons]
      have hValue : Leads bodies (typeOfDecl (.mk name storage functionWords type bits key)) work
          (fun value next =>
          ∀ written, value = .type written → written.Over next.Known ∧ ∃ before after,
              exec (typeOf type) before = (.ok (.type written), after) ∧
                after.Grows next) := by
        rw [typeOfDecl]
        split
        · exact .pure hWork nofun
        · refine (leads_typeOf hWork type hType).traced.mono ?_
          rintro _ next _ ⟨hExec, hMeant⟩ written rfl
          exact ⟨hMeant.1, work, next, hExec, .refl next⟩
      refine hValue.bind ?_
      intro value first hFirst hValue
      refine (leads_readName hFirst.stays kind name key).bind ?_
      intro given second hSecond hGiven
      have hWidth : Leads bodies (lift (bits.mapM widthOf)) second (fun width next =>
          next = second ∧ bits.mapM widthOf = .ok width) :=
        .lift hSecond.stays fun _ hBits => ⟨rfl, hBits⟩
      refine hWidth.bind ?_
      rintro width _ hThird ⟨rfl, hBits⟩
      refine (leads_describeBase hThird type.base).bind ?_
      rintro description _ _ ⟨rfl, hDescription⟩
      refine (leads_writtenMembers hThird kind rest hRest).bind ?_
      rintro ⟨written, descriptions⟩ last hLast hWritten
      refine .pure hLast.stays (.cons ?_ hWritten)
      have hGrows := hSecond.grows.trans hLast.grows
      exact {
        name := hGiven
        type := by
          intro written hSame
          obtain ⟨hOver, before, after, hExec, hAfter⟩ := hValue written hSame
          exact ⟨hOver.mono hGrows.known, before, after, hExec, hAfter.trans hGrows⟩
        bits := hBits
        described := hDescription }
termination_by sizeOf decls

theorem leads_defineEnum (hWork : Extends bodies work work) (tag : Option String)
    (values : Option (List Enumerator)) (hValues : AllFit bodies (mentionsOfValues? values)) :
    Leads bodies (defineEnum tag values) work (fun _ _ => True) := by
  match values, hValues with
  | none, _ =>
    rw [defineEnum]
    refine (leads_setEnum hWork tag).bind ?_
    intro _ next hNext _
    exact .throw hNext.stays
  | some values, hValues =>
    rw [defineEnum]
    refine (leads_setEnum hWork tag).bind ?_
    intro _ next hNext _
    exact leads_defineEnumerators hNext.stays 0 (.int 0) values hValues
termination_by sizeOf values

theorem leads_defineEnumerators (hWork : Extends bodies work work) (position : Nat)
    (offset : Value) (values : List Enumerator)
    (hValues : AllFit bodies (mentionsOfValues values)) :
    Leads bodies (defineEnumerators position offset values) work (fun _ _ => True) := by
  have hThen : ∀ name rest offset next, sizeOf rest < sizeOf values → name ∉ Interface.partNames →
      AllFit bodies (mentionsOfValues rest) →
      Extends bodies next next → Leads bodies (do
          let value ← lift (Value.binary .add (.int position) offset)
          setItem name value
          defineEnumerators (position + 1) offset rest)
          next (fun _ _ => True) := by
    intro name rest offset next hLess hName hRest hNext
    have hValue : Leads bodies (lift (Value.binary .add (.int position) offset))
        next (fun value last => last.Meant value) :=
      .lift hNext fun _ hAdd => meant_add hAdd
    refine hValue.bind ?_
    intro value last hLast hMeant
    refine (leads_setItem hLast.stays hName hMeant).bind ?_
    intro _ final hFinal _
    exact leads_defineEnumerators hFinal.stays _ _ rest hRest
  match values, hValues with
  | [], _ =>
    rw [defineEnumerators]
    exact .pure hWork trivial
  | .mk name none :: rest, hBoth =>
    obtain ⟨hFirst, hRest⟩ := allFit_append.1 hBoth
    obtain ⟨hName, _⟩ := allFit_cons.1 hFirst
    rw [defineEnumerators]
    exact .bind_read hWork rfl (hThen name rest offset work (by simp) hName hRest hWork)
  | .mk name (some expr) :: rest, hBoth =>
    obtain ⟨hFirst, hRest⟩ := allFit_append.1 hBoth
    obtain ⟨hName, hExpr⟩ := allFit_cons.1 hFirst
    rw [defineEnumerators]
    refine (leads_calculate hWork expr hExpr).bind ?_
    intro value next hNext _
    have hOffset : Leads bodies (lift (Value.binary .sub value (.int position)))
        next (fun _ _ => True) :=
      .lift hNext.stays fun _ _ => trivial
    refine hOffset.bind ?_
    intro offset last hLast _
    exact hThen name rest offset last (by simp) hName hRest hLast.stays
termination_by sizeOf values

theorem leads_paramTypes (hWork : Extends bodies work work) (params : Option (List Param))
    (hParams : AllFit bodies (mentionsOfParams? params)) :
    Leads bodies (paramTypes params) work (fun types next => ∀ type ∈ types, next.Meant type) := by
  match params, hParams with
  | none, _ =>
    rw [paramTypes]
    exact .pure hWork nofun
  | some params, hParams =>
    rw [paramTypes]
    refine (leads_describedParams hWork params hParams).bind ?_
    intro described next hNext hDescribed
    refine .pure hNext.stays ?_
    intro type hType
    obtain ⟨param, hParam, rfl⟩ := mem_map.1 hType
    exact hDescribed param hParam
termination_by sizeOf params

theorem leads_describedParams (hWork : Extends bodies work work) (params : List Param)
    (hParams : AllFit bodies (mentionsOfParams params)) :
    Leads bodies (describedParams params) work (fun described next =>
        ∀ param ∈ described, next.Meant param.1) := by
  match params, hParams with
  | [], _ =>
    rw [describedParams]
    exact .pure hWork nofun
  | .ellipsis :: rest, _ =>
    rw [describedParams]
    refine .pure hWork ?_
    intro param hParam
    rw [mem_singleton.1 hParam]
    exact meant_type .ellipsis
  | .untyped name :: rest, hRest =>
    rw [describedParams]
    exact leads_describedParams hWork rest hRest
  | .typed name type :: rest, hBoth =>
    obtain ⟨hType, hRest⟩ := allFit_append.1 hBoth
    rw [describedParams]
    refine (leads_typeOf hWork type hType).bind ?_
    intro first next hNext _
    refine (leads_truth hNext.stays first).bind ?_
    intro isType last hLast _
    have hThen : ∀ described next, Extends bodies next next →
        (∀ param ∈ described, next.Meant param.1) → Leads bodies (do
            return described ++ (← describedParams rest))
            next (fun described next => ∀ param ∈ described, next.Meant param.1) := by
      intro described start hStart hDescribed
      refine (leads_describedParams hStart rest hRest).bind ?_
      intro others final hFinal hOthers
      refine .pure hFinal.stays ?_
      intro param hParam
      rcases mem_append.1 hParam with hOld | hNew
      · exact (hDescribed param hOld).mono hFinal.grows
      · exact hOthers param hNew
    split
    · refine (leads_typeOf hLast.stays type hType).bind ?_
      intro value final hFinal hValue
      refine (leads_describeType hFinal.stays _ _).bind ?_
      intro description end_ hEnd _
      refine .bind_read hEnd.stays rfl ?_
      refine hThen _ end_ hEnd.stays ?_
      intro param hParam
      rw [mem_singleton.1 hParam]
      exact hValue.mono hEnd.grows
    · refine .bind_read hLast.stays rfl ?_
      exact hThen [] last hLast.stays nofun
termination_by sizeOf params

theorem leads_sizeOfArray (hWork : Extends bodies work work) (size : Option Declaration.Expr)
    (hSize : AllFit bodies (mentionsOfExpr? size)) :
    Leads bodies (sizeOfArray size) work (fun _ _ => True) := by
  match size, hSize with
  | none, _ =>
    rw [sizeOfArray]
    exact .pure hWork trivial
  | some expr, hExpr =>
    rw [sizeOfArray]
    refine (leads_calculate hWork expr hExpr).bind ?_
    intro value next hNext _
    exact .lift hNext.stays fun _ _ => trivial
termination_by sizeOf size

theorem leads_calculate (hWork : Extends bodies work work) (expr : Declaration.Expr)
    (hExpr : AllFit bodies expr.mentions) :
    Leads bodies (calculate expr) work (fun _ _ => True) := by
  match expr, hExpr with
  | .binary op left right, hBoth =>
    obtain ⟨hLeft, hRight⟩ := allFit_append.1 hBoth
    rw [calculate]
    refine (leads_calculate hWork left hLeft).bind ?_
    intro first next hNext _
    refine (leads_calculate hNext.stays right hRight).bind ?_
    intro second last hLast _
    split
    · exact .lift hLast.stays fun _ _ => trivial
    · exact .throw hLast.stays
  | .unary op operand, _ =>
    rw [calculate]
    split
    · exact .throw hWork
    · refine (leads_orPointer (leads_valueOfOperand hWork operand)).bind ?_
      intro value next hNext _
      exact leads_applyFront hNext.stays op value
  | .sizeofType type, hType =>
    rw [calculate]
    refine (leads_orPointer (leads_typeOf hWork type hType)).bind ?_
    intro value next hNext _
    exact leads_applyFront hNext.stays "sizeof" value
  | .conditional test yes no, hAll =>
    obtain ⟨hBoth, hNo⟩ := allFit_append.1 hAll
    obtain ⟨hTest, hYes⟩ := allFit_append.1 hBoth
    rw [calculate]
    refine (leads_calculate hWork test hTest).bind ?_
    intro value next hNext _
    refine (leads_truth hNext.stays value).bind ?_
    intro isTrue last hLast _
    split
    · exact leads_calculate hLast.stays yes hYes
    · exact leads_calculate hLast.stays no hNo
  | .name text, _ =>
    rw [calculate]
    exact (leads_item hWork text).mono fun _ _ _ _ => trivial
  | .constant kind text, _ =>
    rw [calculate]
    exact .lift hWork fun _ _ => trivial
  | .unvalued kind, _ =>
    rw [calculate]
    exact .throw hWork
termination_by sizeOf expr

end

end Workspace

end CHeader
