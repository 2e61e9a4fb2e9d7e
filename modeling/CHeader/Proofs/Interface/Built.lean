import CHeader.Interface.Include
import CHeader.Proofs.Interface.Meaning

/-
  Declarations keep an interface sound.

  Adding an item of a text leads from a sound interface to
  sound ones, and so do all items of a text.

  Main declarations:
    * `Workspace.leads_visitType`
    * `Workspace.leads_addItem`
-/

namespace CHeader

open Declaration List Step Work

namespace Workspace

section

variable {bodies : Bodies} {work : Workspace}

variable {name : String} {base : Base} {decl : Decl} {next : Workspace}

-- Functions

theorem exec_libraryWith? (work : Workspace) (symbol : String) (libraries : List String) :
    exec (libraryWith? symbol libraries) work =
      (.ok (libraries.find? (work.hasSymbol symbol)), work) := by
  induction libraries with
  | nil => rfl
  | cons library rest ih =>
    rw [libraryWith?, List.find?_cons]
    cases hHas : work.hasSymbol symbol library with
    | true =>
      exact (congrArg (exec · work) (if_pos hHas)).trans rfl
    | false =>
      have hNot : ¬ work.hasSymbol symbol library = true := by
        rw [hHas]
        nofun
      exact (congrArg (exec · work) (if_neg hNot)).trans ih

section

variable (hWork : Extends bodies work work)
include hWork

theorem leads_defineFunction (hName : name ∉ Interface.partNames) (hResult : work.Meant result)
    {params : List Value} (hParams : ∀ param ∈ params, work.Meant param)
    (hConvention : convention = foreignConvention ∨ convention = commonConvention)
    {descriptions : List String} (hDescriptions : descriptions.length = params.length + 1) :
    Leads bodies (defineFunction name result params convention
        descriptions) work (fun _ _ => True) := by
  unfold defineFunction
  split
  · exact .throw hWork
  · rename_i hOwn
    have hType : Leads bodies (lift (functionType result params)) work (fun type next =>
        next = work ∧ functionType result params = .ok type) :=
      .lift hWork fun _ hType => ⟨rfl, hType⟩
    refine hType.bind ?_
    rintro _ _ _ ⟨rfl, hMade⟩
    obtain ⟨resultType, paramTypes, rfl, rfl, rfl⟩ := functionType_eq_ok_iff.1 hMade
    refine .bind_read hWork (exec_iface _) ?_
    refine .bind_read hWork (exec_libraryWith? _ _ _) ?_
    split
    · refine .of_exec_ok (exec_report _ _ _) (hWork.of_same rfl rfl rfl hWork.named) trivial
    · rename_i library hLibrary
      have hFunction : ∀ (function : Function) text,
          Value.function function = .text text → text = "" :=
        fun _ _ hText => nomatch hText
      refine (leads_setItem hWork hName ⟨?_, hFunction _⟩).mono fun _ _ _ _ => trivial
      obtain ⟨hResultOver, hParamsOver⟩ : (∀ type, resultType = some type →
          type.Over _) ∧ ∀ param ∈ paramTypes, param.Over _ := by
        cases over_functionType hResult hParams with
        | function hFirst hSecond => exact ⟨hFirst, hSecond⟩
      exact {
        library := hLibrary
        result := hResultOver
        params := hParamsOver
        descriptions := by
          rw [hDescriptions, length_map]
        convention := hConvention.resolve_left hOwn
        fixedParams := rfl
        accepted := rfl }

theorem leads_declareFunction {name : Option String}
    (hName : name.getD "None" ∉ Interface.partNames) (functionWords : Option (List String))
    {params : Option (List Param)} (hParams : AllFit bodies (mentionsOfParams? params))
    {rest : List Modifier} (hRest : AllFit bodies (mentionsOfModifiers rest))
    (hBase : AllFit bodies base.mentions) :
    Leads bodies (declareFunction name functionWords params rest base) work (fun _ _ => True) := by
  refine (leads_typeOver hWork 0 rest base hRest hBase).bind ?_
  intro result first hFirst hResult
  refine (leads_describeType hFirst.stays rest base).bind ?_
  intro description second hSecond _
  have hGiven : AllFit bodies (mentionsOfParams (params.getD [])) := by
    cases params with
    | none =>
      exact forall_mem_nil _
    | some params =>
      exact hParams
  refine (leads_describedParams hSecond.stays _ hGiven).bind ?_
  intro described third hThird hDescribed
  cases functionWords with
  | none => exact .throw hThird.stays
  | some words =>
    refine leads_defineFunction hThird.stays hName
      (hResult.mono (hSecond.grows.trans hThird.grows)) ?_ ?_ ?_
    · intro param hParam
      obtain ⟨pair, hPair, rfl⟩ := mem_map.1 hParam
      exact hDescribed pair hPair
    · split
      · exact .inl rfl
      · exact .inr rfl
    · rw [length_cons, length_map, length_map]

-- Definitions

omit hWork in
theorem allFit_type {type : TypeExpr} : AllFit bodies type.mentions ↔
    AllFit bodies (mentionsOfModifiers type.modifiers) ∧ AllFit bodies type.base.mentions := by
  obtain ⟨modifiers, base, bare⟩ := type
  exact allFit_append

/- A record that is defined stands under its tag. -/
theorem leads_visitBase (hBase : AllFit bodies base.mentions) :
    Leads bodies (visitBase base) work (fun _ next =>
        ∀ kind tag members key, base = .record kind tag members key →
            Defined kind (work.tagOf tag key) members next) := by
  cases base with
  | words names => exact .pure hWork nofun
  | record kind tag members key =>
    obtain ⟨hTag, hBody⟩ := allFit_append.1 hBase
    refine .bind_read hWork (exec_tagOf work tag key) ?_
    refine (leads_defineRecord hWork kind (work.tagOf tag key) tag members hBody ?_).mono ?_
    · cases tag with
      | none => exact .inr rfl
      | some name => exact .inl rfl
    · rintro _ next _ hDefined _ _ _ _ ⟨⟩
      exact hDefined
  | enumeration tag values key =>
    obtain ⟨hTag, hValues⟩ := allFit_append.1 hBase
    refine .bind_read hWork (exec_tagOf work tag key) ?_
    exact (leads_defineEnum hWork _ values hValues).mono fun _ _ _ _ => nofun

theorem leads_visitType {name : Option String} (hName : name.getD "None" ∉ Interface.partNames)
    (functionWords : Option (List String))
    (hModifiers : AllFit bodies (mentionsOfModifiers modifiers))
    (hBase : AllFit bodies base.mentions) :
    Leads bodies (visitType name functionWords modifiers base) work (fun _ _ => True) := by
  induction modifiers with
  | nil =>
    exact (leads_visitBase hWork hBase).mono fun _ _ _ _ => trivial
  | cons modifier rest ih =>
    cases modifier with
    | pointer =>
      exact ih hModifiers
    | array size =>
      exact ih (allFit_append.1 hModifiers).2
    | function params =>
      obtain ⟨hParams, hRest⟩ := allFit_append.1 hModifiers
      exact leads_declareFunction hWork hName functionWords hParams hRest hBase

theorem leads_exportVariable (hName : name ∉ Interface.partNames) (hValue : work.Meant value)
    (hLibraries : ∀ library ∈ libraries, library ∈ work.iface.libraries) :
    Leads bodies (exportVariable name value libraries) work (fun _ _ => True) := by
  induction libraries with
  | nil => exact .pure hWork trivial
  | cons library rest ih =>
    have hRest := ih fun other hOther => hLibraries other (mem_cons_of_mem _ hOther)
    rcases exec_variableAt_cases work value library name with
      ⟨type, object, rfl, _, hExec⟩ | ⟨fault, hExec⟩
    · refine .bind_ok (by
        rw [exec_tryCatch, exec_bind_of_ok _ hExec]
        rfl) (hWork.fix type) ?_
      rw [if_pos rfl]
      have hNext := hWork.fix type
      refine .of_exec_ok (exec_modifyIface _ _) (hNext.stays.exportedName hName ?_ ?_) trivial
      · exact hLibraries library mem_cons_self
      · exact hValue.1.mono hNext.grows
    · by_cases hBad : fault = .badValue
      · subst hBad
        refine .bind_read hWork (by
          rw [exec_tryCatch, exec_bind_of_error _ hExec]
          rfl) ?_
        exact hRest
      · refine .of_exec_error (exec_bind_of_error _ (by
          rw [exec_tryCatch, exec_bind_of_error _ hExec]
          dsimp only
          split
          · exact absurd rfl hBad
          · rfl)) fun _ => hWork

-- Items

theorem leads_declare (hDecl : AllFit bodies decl.mentions) :
    Leads bodies (declare decl) work (fun _ _ => True) := by
  obtain ⟨hName, hType⟩ := allFit_cons.1 hDecl
  unfold declare
  dsimp only
  split
  · exact .pure hWork trivial
  · split
    · refine (leads_typeOf hWork decl.type hType).bind ?_
      intro value next hNext hValue
      refine .bind_read hNext.stays (exec_iface next) ?_
      exact leads_exportVariable hNext.stays hName hValue fun _ hLibrary => hLibrary
    · obtain ⟨hModifiers, hBase⟩ := allFit_type.1 hType
      exact leads_visitType hWork hName _ hModifiers hBase

theorem leads_declareType (hDecl : AllFit bodies decl.mentions) :
    Leads bodies (declareType decl) work (fun _ _ => True) := by
  obtain ⟨hName, hType⟩ := allFit_cons.1 hDecl
  unfold declareType
  dsimp only
  refine (leads_typeOf hWork decl.type hType).bind ?_
  intro value next hNext hValue
  have hSet : ∀ value next, Extends bodies next next → next.Meant value → Leads bodies
      (setItem (decl.name.getD "None") value) next
      (fun _ _ => True) := by
    intro value next hNext hValue
    exact (leads_setItem hNext hName hValue).mono fun _ _ _ _ => trivial
  obtain ⟨hModifiers, hBase⟩ := allFit_type.1 hType
  split
  · generalize (decl.type.modifiers.isEmpty && _) = isPlain
    cases isPlain with
    | true => exact hSet _ next hNext.stays hValue
    | false =>
      refine (leads_visitType hNext.stays hName none hModifiers hBase).bind ?_
      intro _ last hLast _
      refine (leads_typeOf hLast.stays decl.type hType).bind ?_
      intro value final hFinal hValue
      exact hSet value final hFinal.stays hValue
  · exact hSet value next hNext.stays hValue

theorem leads_declareDefined (hDecl : AllFit bodies decl.mentions) :
    Leads bodies (declareDefined decl) work (fun _ _ => True) := by
  unfold declareDefined
  split
  · exact .pure hWork trivial
  · refine (leads_item? hWork _).bind ?_
    intro found next hNext _
    split
    · split
      · exact .pure hNext.stays trivial
      · exact leads_declare hNext.stays hDecl
    · exact leads_declare hNext.stays hDecl

theorem leads_addItem {item : Item} (hItem : AllFit bodies item.mentions) :
    Leads bodies (addItem item) work (fun _ _ => True) := by
  cases item with
  | declaration decl => exact leads_declare hWork hItem
  | typeName decl => exact leads_declareType hWork hItem
  | function decl => exact leads_declareDefined hWork hItem

theorem leads_addItems (hItems : AllFit bodies (mentionsOfItems items)) :
    Leads bodies (items.forM addItem) work (fun _ _ => True) := by
  refine .forM hWork fun item hItem next hNext => ?_
  refine leads_addItem hNext.stays fun mention hMention => ?_
  exact hItems mention (mem_flatMap.2 ⟨item, hItem, hMention⟩)

end

-- Whole interfaces

theorem sound_empty {before : Workspace} (hTypes : before.heap.types = {})
    (libraries : List String) :
    Sound bodies { before with
        iface := { libraries := libraries } } where
  types := by
    rw [hTypes]
    exact .empty
  structs := rfl
  unions := rfl
  enums := rfl
  tags kind tag value hFind := by
    cases kind <;> cases hFind
  tagsOnce kind := by
    cases kind <;> exact nodup_nil
  tagsApart kind tag other number hTag := by
    cases kind <;> cases hTag
  enumTypes := nofun
  enumsOnce := nodup_nil
  entries := nofun
  entriesOnce := nodup_nil
  exported := nofun
  exportedOnce := nodup_nil

theorem extends_empty {before : Workspace} (hTypes : before.heap.types = {})
    (hNamed : before.NamedApart) (libraries : List String) :
    Extends bodies { before with iface := { libraries := libraries } }
      { before with iface := { libraries := libraries } } :=
  .refl (sound_empty hTypes libraries) nofun hNamed

end

end Workspace

end CHeader
