import CHeader.Proofs.Interface.Declarators
import CHeader.Proofs.Interface.NameSpaces

/-
  The library that a declared name is bound to.

  A function and a variable are looked for in one library after the other, each in a loop of its
  own. Both are bound to the first library that has a symbol of their name, and a declaration whose
  symbol no library has leaves the interface as it is.

  Main declarations:
    * `Workspace.declared?`
    * `Interface.Binds`
    * `Workspace.exec_declare_first`
-/

namespace CHeader

open Declaration List Step Work

-- Declared symbols

/- What a symbol is declared as; void is the result that is not there. -/
inductive Declared where
  | function (result : Option CType) (params : List CType)
  | variable (type : CType)

/- Whether a name is bound to the symbol of its name in a library. -/
def Interface.Binds (iface : Interface) (name library : String) : Declared → Prop
| .function result params =>
    ∃ f : Function, iface.plain? name = some (.function f) ∧ f.library = library ∧
      f.symbol = name ∧ f.result = result ∧ f.params = params
| .variable type => iface.exported? name = some (.type type, library)

/- Whether nothing but the binding of a name may have changed. -/
def Interface.KeepsOthers (before after : Interface) (name : String) : Prop :=
  ∀ other ≠ name, after.exported? other = before.exported? other ∧
    (other ≠ exportedName → after.plain? other = before.plain? other)

namespace Workspace

variable {work : Workspace} {readings : Readings} {name : String}

/- What a declaration that is looked for in libraries declares, where its type is known. -/
def declared? (readings : Readings) (table : TypeTable) (type : TypeExpr) : Option Declared :=
  match type.modifiers with
  | .function params :: rest => do
      return .function (← meaning readings table rest type.base)
        (← paramMeanings readings table params)
  | modifiers =>
      if isVariable type then
        (meaning readings table modifiers type.base).join.map .variable
      else none

/- The outcome of looking for a symbol in the libraries of a workspace. -/
def BoundFirst (work next : Workspace) (name : String) (declared : Declared) : Prop :=
  work.iface.KeepsOthers next.iface name ∧
    match work.iface.libraries.find? (work.hasSymbol name) with
    | some library => next.iface.Binds name library declared
    | none => next.iface = work.iface

-- Functions

theorem exec_defineFunction_first (hName : name ∉ Interface.partNames)
    (hFree : work.iface.exported? name = none) (result : Option CType) (params : List CType)
    {convention : String} (hConvention : convention ≠ foreignConvention) (texts : List String) :
    ∃ next, exec (defineFunction name (.ofResult result) (params.map .type) convention texts) work =
        (.ok (), next) ∧ work.BoundFirst next name (.function result params) := by
  have hType : functionType (.ofResult result) (params.map .type) = .ok (.function result params) :=
    functionType_eq_ok_iff.2 ⟨result, params, rfl, rfl, rfl⟩
  unfold defineFunction BoundFirst
  rw [if_neg hConvention, hType]
  dsimp only
  rw [exec_bind_of_ok _ (exec_lift work _), exec_bind_of_ok _ (exec_iface work),
    exec_bind_of_ok _ (exec_libraryWith? work name _)]
  cases work.iface.libraries.find? (work.hasSymbol name) with
  | none => exact ⟨_, rfl, fun other _ => ⟨rfl, fun _ => rfl⟩, rfl⟩
  | some library =>
    refine ⟨_, exec_setItem_of_unexported hName hFree _, fun other hOther => ⟨rfl, fun _ => ?_⟩,
      _, (Interface.plain?_of_not_part _ hName).trans
        ((Macro.lookup_assign _ _ _ _).trans (if_pos rfl)), rfl, rfl, rfl, rfl⟩
    simp only [Interface.plain?, Interface.exportedTable, Macro.lookup_assign, if_neg hOther.symm]

/- By the meanings of its result and parameters. -/
theorem exec_declareFunction_first (hHold : readings.Hold work) (hName : name ∉ Interface.partNames)
    (hFree : work.iface.exported? name = none) {words : List String}
    (hWords : foreignConvention ∉ words) {params : Option (List Param)} {types : List CType}
    (hResult : meaning readings work.heap.types rest base = some result)
    (hParams : paramMeanings readings work.heap.types params = some types) :
    ∃ next, exec (declareFunction name words params rest base) work = (.ok (), next) ∧
      work.BoundFirst next name (.function result types) := by
  obtain ⟨text, hText⟩ := exec_describeType rest base work
  obtain ⟨described, hDescribed, hSame⟩ : ∃ described,
      exec (describedParams (params.getD [])) work = (.ok described, work) ∧
        described.map Prod.fst = types.map .type := by
    refine exec_describedParams_meaning hHold (params.getD []) types ?_
    cases params with
    | none =>
      rw [paramMeanings.eq_def] at hParams ⊢
      exact hParams
    | some params => exact hParams
  unfold declareFunction
  rw [exec_bind_of_ok _ (exec_typeOver_meaning hHold 0 rest base result hResult).2,
    exec_bind_of_ok _ hText, exec_bind_of_ok _ hDescribed]
  dsimp only
  rw [hSame, if_neg (by simpa using hWords)]
  exact exec_defineFunction_first hName hFree result types (by decide) _

-- Variables

theorem exec_exportVariable_first (work : Workspace) (name : String) {type : CType}
    (hType : type ≠ .ellipsis) (libraries : List String) :
    ∃ next, exec (exportVariable name (.type type) libraries) work = (.ok (), next) ∧
      match libraries.find? (work.hasSymbol name) with
      | some library => next.iface = { work.iface with
          exported := Macro.assign name (.type type, library) work.iface.exported }
      | none => next = work := by
  induction libraries with
  | nil => exact ⟨work, rfl, rfl⟩
  | cons library rest ih =>
    have hAt := exec_variableAt work hType library name
    rw [exportVariable, exec_bind, exec_tryCatch, find?_cons]
    cases hAddress : work.address? library name with
    | none =>
      rw [hAddress] at hAt
      rw [exec_bind_of_error _ hAt, show work.hasSymbol name library = false from
        congrArg Option.isSome hAddress]
      exact ih
    | some address =>
      rw [hAddress] at hAt
      rw [exec_bind_of_ok _ hAt, show work.hasSymbol name library = true from
        congrArg Option.isSome hAddress]
      exact ⟨_, rfl, rfl⟩

theorem exported_boundFirst {next : Workspace}
    (hBound : match work.iface.libraries.find? (work.hasSymbol name) with
      | some library => next.iface = { work.iface with
          exported := Macro.assign name (.type type, library) work.iface.exported }
      | none => next = work) : work.BoundFirst next name (.variable type) := by
  unfold BoundFirst Interface.Binds Interface.KeepsOthers
  cases hFind : work.iface.libraries.find? (work.hasSymbol name) with
  | none =>
    rw [hFind] at hBound
    cases hBound
    exact ⟨fun _ _ => ⟨rfl, fun _ => rfl⟩, rfl⟩
  | some library =>
    rw [hFind] at hBound
    dsimp only at hBound ⊢
    rw [hBound]
    refine ⟨fun other hOther => ⟨?_, fun hPart => ?_⟩, ?_⟩
    · rw [Interface.exported?, Macro.lookup_assign, if_neg hOther.symm]
      rfl
    · unfold Interface.plain?
      rw [if_neg hPart, if_neg hPart]
    · rw [Interface.exported?, Macro.lookup_assign, if_pos rfl]

-- Declarations

/-
  A function or a variable whose type is known is bound to the first library that has a symbol of
  its name. If no library has one, the interface stays as it is, and other names always do.
-/
theorem exec_declare_first
    (hHold : readings.Hold work)
    (hName : name ∉ Interface.partNames)
    {storage words : List String}
    (hStatic : "static" ∉ storage)
    (hWords : foreignConvention ∉ words)
    {type : TypeExpr}
    {declared : Declared}
    (hDeclared : declared? readings work.heap.types type = some declared)
    (hFree : ∀ result params, declared = .function result params →
      work.iface.exported? name = none)
    (bits : Option Declaration.Expr)
    (key : Nat) :
    ∃ next, exec (declare (.mk name storage words type bits key)) work = (.ok (), next) ∧
      work.BoundFirst next name declared := by
  rcases type with ⟨modifiers, base, bare⟩
  have hShown : ¬(Decl.mk name storage words (.mk modifiers base bare) bits key).storage.contains
      "static" = true := by simpa [Decl.storage] using hStatic
  unfold declare
  rw [if_neg hShown]
  dsimp only [Decl.type]
  unfold declared? at hDeclared
  dsimp only [TypeExpr.modifiers, TypeExpr.base] at hDeclared
  split at hDeclared
  · simp only [Option.bind_eq_bind, Option.bind_eq_some_iff] at hDeclared
    obtain ⟨result, hResult, types, hTypes, hSame⟩ := hDeclared
    cases hSame
    exact exec_declareFunction_first hHold hName (hFree _ _ rfl) hWords hResult hTypes
  · split_ifs at hDeclared with hVariable
    obtain ⟨type, hType, rfl⟩ := Option.map_eq_some_iff.1 hDeclared
    rw [Option.join_eq_some_iff] at hType
    have hTold := (exec_typeOver_meaning hHold 0 modifiers base _ hType).1
    obtain ⟨next, hNext, hBound⟩ := exec_exportVariable_first work name
      (fun hSame => hTold (congrArg some hSame)) work.iface.libraries
    refine ⟨next, ?_, exported_boundFirst hBound⟩
    rw [if_pos hVariable, exec_bind_of_ok _ (exec_typeOf_meaning hHold hType bare)]
    exact hNext

/- Two libraries have the symbol, and another one that comes before them has not. -/
def linked : Workspace :=
  { (default : Workspace) with
    loaded := ["b", "c"].map fun name => { name := name, file := name, symbols := [("f", 64)] },
    iface := { libraries := ["a", "b", "c"] } }

theorem exec_declare_first_second : ∃ next f,
    exec (declare (.mk "f" ["extern"] [] (.mk (sampleModifiers.drop 2) (.words ["char"]) false)
        none 0)) linked = (.ok (), next) ∧
      next.iface.plain? "f" = some (.function f) ∧ f.library = "b" := by
  have hDeclared : declared? sampleReadings linked.heap.types
      (.mk (sampleModifiers.drop 2) (.words ["char"]) false) = some (.function
        (some (.scalar .charPointer)) [.scalar .char, .scalar .voidPointer, .ellipsis]) := by
    simp [declared?, sampleModifiers, sampleReadings, meaning, paramMeanings, pointed,
      TypeExpr.modifiers, TypeExpr.base]
  have hName : "f" ∉ Interface.partNames := by decide
  obtain ⟨next, hExec, -, f, hPlain, hLibrary, -⟩ := exec_declare_first (sampleReadings_hold linked)
    hName (by decide : "static" ∉ ["extern"]) not_mem_nil hDeclared (fun _ _ _ => rfl) none 0
  exact ⟨next, f, hExec, hPlain, hLibrary⟩

end Workspace

end CHeader
