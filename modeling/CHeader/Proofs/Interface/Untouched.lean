import CHeader.Interface.Include
import CHeader.Proofs.Interface.Frame
import CHeader.Proofs.Source.Files

/-
  The libraries are left alone while an interface is built.

  A value that is stored under the name of an exported variable is written to the library. So memory
  is the same after a header is interpreted, whether that succeeds or fails, if no variable that a
  library has shares its name with what is stored: names of types, functions and enumerators, tags
  that pointers lead to, made-up names, and the macros that are left at the end.

  Main declarations:
    * `Workspace.Untouched`
    * `Workspace.StoredBy`
    * `Workspace.interpret_keeps_memory`
-/

namespace CHeader

open Declaration List Step Work

namespace Workspace

variable {session : Source.Session}
variable {name : String} {values : List (String × Expr.Operand)} {entry : String × Macro.Meaning}
variable {table : Macro.Table} {after : Source.Session} {work : Workspace} {items : List Item}

-- Memory that is not written to

/- Whether memory and the loaded libraries are as at the
  start, and no name that is stored under is exported. -/
structure Untouched (stored : String → Prop) (start : Workspace) (libraries : List String)
    (work : Workspace) : Prop where
  memory : work.heap.memory = start.heap.memory
  loaded : work.loaded = start.loaded
  libraries : work.iface.libraries = libraries
  unexported : ∀ name, stored name → work.iface.exported? name = none
  given : ∀ given ∈ work.givenNames, stored given.2

section

variable {stored : String → Prop} {start : Workspace} {libraries : List String}

/- A name that is not exported is stored in the interface alone. -/
theorem Untouched.setItem (value : Value) (hName : stored name) :
    Preserves (Untouched stored start libraries) (Work.setItem name value) := by
  intro work hWork
  unfold Work.setItem
  rw [exec_bind_of_ok _ (exec_exportedObject?_of_unexported _ (hWork.unexported name hName))]
  unfold setPlain
  dsimp only
  split <;> exact ⟨hWork.memory, hWork.loaded, hWork.libraries, hWork.unexported, hWork.given⟩

theorem bears_untouched (hMissing : stored "None") (hMadeUp : ∀ name, IsMadeUp name → stored name) :
    Bears (fun store => stored store.name) (Untouched stored start libraries) := by
  have hTypes : ∀ {work : Workspace} (types : TypeTable), Untouched stored start libraries work →
      Untouched stored start libraries { work with
          heap := { work.heap with types := types } } :=
    fun _ hWork => ⟨hWork.memory, hWork.loaded, hWork.libraries, hWork.unexported, hWork.given⟩
  have hTagged : ∀ kind tag (type : CType), Preserves (Untouched stored start libraries)
      (setTagged kind tag (.type type)) := by
    intro kind tag type
    refine (preserves_tagged kind).bind fun table => ?_
    intro work hWork
    cases kind <;> exact ⟨hWork.memory, hWork.loaded, hWork.libraries,
        hWork.unexported, hWork.given⟩
  have hNew := preserves_newTagged hTypes hTagged
  refine
    { types := fun _ _ hWork => hTypes _ hWork
      log := fun _ hWork =>
        ⟨hWork.memory, hWork.loaded, hWork.libraries, hWork.unexported, hWork.given⟩
      entered := hNew.1
      replaced := fun kind name _ => hNew.2 kind name _
      enumTag := ?_
      nameKey := ?_
      givenStored := fun hWork => hWork.given
      missing := hMissing
      setItem := fun value hName => Untouched.setItem value hName
      target := fun hTag _ hWork => Untouched.setItem .none hTag _ hWork }
  · intro tag
    refine preserves_enums.bind fun table => ?_
    intro work hWork
    exact ⟨hWork.memory, hWork.loaded, hWork.libraries, hWork.unexported, hWork.given⟩
  · refine preserves_nameKey (fun _ hWork =>
      ⟨hWork.memory, hWork.loaded, hWork.libraries, hWork.unexported, hWork.given⟩) ?_
    intro work key name hName hWork
    refine ⟨hWork.memory, hWork.loaded, hWork.libraries, hWork.unexported, ?_⟩
    rw [forall_mem_append, forall_mem_singleton]
    exact ⟨hWork.given, hMadeUp name hName⟩

/- A name that nothing is stored under may be exported. -/
theorem bearsExport_untouched (hName : ∀ library ∈ libraries,
    start.hasSymbol name library = true → ¬stored name) :
    BearsExport (Untouched stored start libraries) name := by
  intro work type library hLibrary hSymbol hWork
  rw [hasSymbol, address?, hWork.loaded] at hSymbol
  rw [hWork.libraries] at hLibrary
  refine ⟨hWork.memory, hWork.loaded, hWork.libraries, ?_, hWork.given⟩
  intro other hOther
  have hNe : name ≠ other := by
    rintro rfl
    exact hName library hLibrary hSymbol hOther
  rw [Interface.exported?, Macro.lookup_assign, if_neg hNe]
  exact hWork.unexported other hOther

end

-- Values of macros

theorem names_macroValuesFrom {listed : String → Prop} (names : List (String × Macro.Meaning))
    (hNames : ∀ entry ∈ names, Macro.Table.isHidden entry.1 = false → listed entry.1)
    {result : List (String × Expr.Operand)} (hValues : ∀ value ∈ values, listed value.1)
    {next : Source.Session}
    (hExec : Source.exec (Source.macroValuesFrom limit values names) session = (.ok result, next)) :
    ∀ value ∈ result, listed value.1 := by
  induction names generalizing values session with
  | nil =>
    cases hExec
    exact hValues
  | cons entry rest ih =>
    rw [forall_mem_cons] at hNames
    rw [Source.macroValuesFrom] at hExec
    split at hExec
    · exact ih hNames.2 hValues hExec
    · rename_i hOpen
      obtain ⟨value, _, _, hRest⟩ := (Source.exec_bind_eq_ok session).mp hExec
      refine ih hNames.2 ?_ hRest
      intro other hOther
      rcases Macro.mem_assign hOther with rfl | hOld
      · exact hNames.1 (Bool.eq_false_iff.mpr hOpen)
      · exact hValues other hOld

theorem names_foldl_erase (hidden : List String) (table : Macro.Table)
    (hEntry : entry ∈ (hidden.foldl (fun table name => table.erase name) table).names) :
    entry ∈ table.names := by
  induction hidden generalizing table with
  | nil => exact hEntry
  | cons name rest ih =>
    exact mem_of_mem_filter (ih (table.erase name) hEntry)

theorem contains_of_mem_names (hEntry : entry ∈ table.names) : table.contains entry.1 = true := by
  unfold Macro.Table.contains Macro.Table.find?
  generalize table.names = names at hEntry ⊢
  induction names with
  | nil => cases hEntry
  | cons first rest ih =>
    rw [Macro.lookup]
    split_ifs with hFirst
    · rfl
    · rcases mem_cons.mp hEntry with rfl | hRest
      · exact absurd rfl hFirst
      · exact ih hRest

-- Steps of the preprocessor

theorem exec_onSession {α : Type} (session : Source.Session)
    (step : Source.Run α) (work : Workspace) :
    exec (onSession session step) work =
      ((Source.exec step { session with log := [] }).1.map (fun value =>
          (value, (Source.exec step { session with log := [] }).2)),
        { work with
          log := work.log ++ (Source.exec step { session with log := [] }).2.log }) := by
  have hRun : Id.run (StateT.run (ExceptT.run step) { session with log := [] }) =
      Source.exec step { session with log := [] } := rfl
  unfold onSession
  rw [hRun]
  generalize Source.exec step { session with log := [] } = outcome
  rcases outcome with ⟨fault | value, after⟩ <;> rfl

def SameButLog (start work : Workspace) : Prop := ∃ log, work = { start with log := log }

theorem preserves_report (start : Workspace) (level : Source.Level) (message : String) :
    Preserves (SameButLog start) (report level message) := by
  rintro _ ⟨log, rfl⟩
  exact ⟨_, rfl⟩

theorem preserves_preprocessed (limit : Nat) (start : Workspace) (session : Source.Session)
    (name : String) (path : List String) (encoding : Option String) :
    Preserves (SameButLog start) (preprocessed limit session name path encoding) := by
  refine Preserves.bind ?_ fun _ => .pure _
  rintro _ ⟨log, rfl⟩
  rw [exec_onSession]
  exact ⟨_, rfl⟩

/- A header is preprocessed to the text of its pieces. -/
theorem exec_preprocessed_of_run (work : Workspace) (hRun : Source.exec (do
    removingMacros.forM Source.defineMacro
    Source.preprocess limit name (withBundled session.world.bundledDir path) encoding)
        { session with
          table := sizeMacros.foldl (fun table (name, text) =>
              table.setText name text) session.table,
          log := [] } = (.ok pieces, after)) :
    exec (preprocessed limit session name path encoding) work = (.ok (Text.concat pieces, after),
        { work with log := work.log ++ after.log }) := by
  unfold preprocessed
  rw [exec_bind, exec_onSession, hRun]
  rfl

theorem preserves_removeReserved (start : Workspace) (session : Source.Session) :
    Preserves (SameButLog start) (removeReserved session) := by
  refine Preserves.bind (.forM ?_) fun _ => .pure _
  exact fun name _ => preserves_report start _ _

/- What is left of the macros were macros before. -/
theorem names_removeReserved {next : Workspace}
    (hExec : exec (removeReserved session) work = (.ok after, next)) :
    ∀ entry ∈ after.table.names, entry ∈ session.table.names := by
  obtain ⟨_, _, _, hPure⟩ := exec_bind_eq_ok hExec
  cases hPure
  exact fun entry => names_foldl_erase _ session.table

-- Headers

def StoredBy (items : List Item) (table : Macro.Table) (name : String) : Prop :=
  name ∈ (items.flatMap Item.stores).map Store.name ∨ name = "None" ∨ IsMadeUp name ∨
    table.contains name = true ∧ Macro.Table.isHidden name = false

/- Whether none of the variables that items export from
  libraries has a name that a value is stored under. -/
def ExportsApart (items : List Item) (table : Macro.Table) (libraries : List String)
    (work : Workspace) : Prop :=
  ∀ name ∈ items.flatMap Item.exports, ∀ library ∈ libraries,
      work.hasSymbol name library = true → ¬StoredBy items table name

theorem Bears.addMacros {stored : Store → Prop} {property : Workspace → Prop}
    (hBears : Bears stored property) (hValues : ∀ value ∈ values, stored (.value value.1)) :
    Preserves property (Work.addMacros values) := by
  refine .forM fun value hValue => ?_
  refine (preserves_hasItem _).bind fun isThere => ?_
  split_ifs
  · exact hBears.setItem _ (hValues value hValue)
  · exact .pure _

theorem untouched_addAll (limit : Nat) {start : Workspace} (hWork : SameButLog start work)
    (hGiven : ∀ given ∈ start.givenNames, IsMadeUp given.2)
    (hTable : ∀ entry ∈ session.table.names, entry ∈ table.names)
    (hApart : ExportsApart items table libraries start) :
    Untouched (StoredBy items table) start libraries (exec (do
        modifyIface (fun _ => { libraries := libraries })
        items.forM addItem
        let (values, _) ← onSession session (Source.macroValues limit)
        addMacros values) work).2 := by
  have hBears : Bears (fun store => StoredBy items table store.name)
      (Untouched (StoredBy items table) start libraries) :=
    bears_untouched (.inr (.inl rfl)) fun _ hName => .inr (.inr (.inl hName))
  obtain ⟨log, rfl⟩ := hWork
  have hFirst : Untouched (StoredBy items table) start libraries
      { start with
        log := log, iface := { libraries := libraries } } :=
    ⟨rfl, rfl, rfl, fun _ _ => rfl, fun given hMem => .inr (.inr (.inl (hGiven given hMem)))⟩
  have hItems := preserves_addItems hBears items (fun _ hStore => .inl (mem_map_of_mem hStore))
      (fun name hName => bearsExport_untouched (hApart name hName))
  refine hItems.bind ?_ _ hFirst
  intro _ next hNext
  rw [exec_bind, exec_onSession]
  have hLogged := hBears.log (next.log ++ (Source.exec (Source.macroValues limit)
      { session with log := [] }).2.log) hNext
  rcases hValues : Source.exec (Source.macroValues limit) { session with log := [] }
    with ⟨fault | values, after⟩
  · rw [hValues] at hLogged
    exact hLogged
  · rw [hValues] at hLogged
    refine hBears.addMacros ?_ _ hLogged
    refine names_macroValuesFrom session.table.names ?_ (forall_mem_nil _) hValues
    intro entry hEntry hOpen
    exact .inr (.inr (.inr ⟨contains_of_mem_names (hTable entry hEntry), hOpen⟩))

/-
  Interpreting a header writes nothing to the libraries, whether it succeeds or fails and whatever
  parser reads it, if no variable that they have is declared under a name that also has a value in
  the header: not even that of a macro that is left at the end.
-/
theorem interpret_keeps_memory
    (limit : Nat)
    (session : Source.Session)
    (parse : Declaration.Parser)
    (name : String)
    (path : List String)
    (encoding : Option String)
    (libraries : List String)
    (work : Workspace)
    (hGiven : ∀ given ∈ work.givenNames, IsMadeUp given.2)
    (hApart :
      ∀ text after next items,
        exec
            (Work.preprocessed limit session name path encoding)
            work = (.ok (text, after), next) →
          parse text = .ok items →
            ExportsApart items after.table libraries work) :
    (exec
        (Work.interpret limit session parse name path encoding
          libraries)
        work).2.heap.memory = work.heap.memory ∧
      (exec
        (Work.interpret limit session parse name path encoding
          libraries)
        work).2.loaded = work.loaded := by
  have hSame : ∀ next, SameButLog work next → next.heap.memory = work.heap.memory ∧
          next.loaded = work.loaded := by
    rintro _ ⟨log, rfl⟩
    exact ⟨rfl, rfl⟩
  have hStart : SameButLog work work := ⟨work.log, rfl⟩
  have hFirst := preserves_preprocessed limit work session name path encoding work hStart
  unfold Work.interpret
  rw [exec_bind]
  rcases hText : exec (Work.preprocessed limit session name path encoding) work
    with ⟨fault | ⟨text, after⟩, next⟩
  · rw [hText] at hFirst
    exact hSame next hFirst
  · rw [hText] at hFirst
    have hSecond := preserves_removeReserved work after next hFirst
    dsimp only
    rw [exec_bind]
    rcases hReserved : exec (Work.removeReserved after) next with ⟨fault | left, third⟩
    · rw [hReserved] at hSecond
      exact hSame third hSecond
    · rw [hReserved] at hSecond
      dsimp only
      rw [exec_bind, exec_lift]
      rcases hItems : parse text with fault | items
      · exact hSame third hSecond
      · have hAll := untouched_addAll limit hSecond hGiven
            (names_removeReserved hReserved)
            (hApart text after next items hText hItems)
        exact ⟨hAll.memory, hAll.loaded⟩

-- A header that declares a variable

/- A parser for one header, in which `x` is declared. -/
def variableParser : Declaration.Parser := fun _ =>
  .ok [.declaration (.mk (some "x") ["extern"] [] (.mk [] (.words ["int"]) false) none 0)]

/- A session with the header, and the sizes of types. -/
def variableSession : Source.Session :=
  { world := { tree := { files := [(["d", "m.h"], Source.asciiBytes "extern int x;\n")] } },
    table := sizeMacros.foldl (fun table (name, text) => table.setText name text) {} }

def leftSession : Source.Session :=
  (Source.exec (do
    removingMacros.forM Source.defineMacro
    Source.preprocess 2 "m.h" ["/d", "/include"] none) variableSession).2

theorem preprocess_variable : Source.exec (do
    removingMacros.forM Source.defineMacro
    Source.preprocess 2 "m.h" ["/d", "/include"] none)
        variableSession =
      (.ok ["extern int x;\n"], leftSession) := by
  decide +kernel

def variableWork : Workspace :=
  { heap := { memory := { byte := fun _ => 42 } },
    loaded := [{
      name := "lib", file := "/lib", symbols := [("x", 16)] }] }

theorem preprocessed_variable : exec (preprocessed 2
    { world := variableSession.world } "m.h" ["/d"] none)
        variableWork =
      (.ok (Text.concat ["extern int x;\n"], leftSession), { variableWork with
          log := variableWork.log ++ leftSession.log }) :=
  exec_preprocessed_of_run variableWork preprocess_variable

/- The variable is declared, and nothing is stored under its name. -/
theorem exportsApart_variable (hItems : variableParser text = .ok items) :
    ExportsApart items leftSession.table ["lib"] variableWork := by
  cases hItems
  have hMacro : leftSession.table.contains "x" = false := by
    decide +kernel
  intro name hName library _ _ hStored
  rw [show name = "x" from mem_singleton.mp hName] at hStored
  rcases hStored with
    hStored | hNone | ⟨count, hMade⟩ | hTable
  · cases hStored
  · exact absurd hNone (by decide)
  · have hFirst := congrArg (fun s => s.toList.head?) hMade
    simp at hFirst
  · rw [hMacro] at hTable
    exact absurd hTable.1 Bool.false_ne_true

/- The library has the variable, and its value stays. -/
theorem interpret_keeps_memory_variable :
    variableWork.hasSymbol "x" "lib" = true ∧
      exec
          (Work.preprocessed 2
            { world := variableSession.world } "m.h" ["/d"]
            none) variableWork =
        (.ok (Text.concat ["extern int x;\n"], leftSession),
          { variableWork with
            log := variableWork.log ++ leftSession.log }) ∧
      (exec
          (Work.interpret 2 { world := variableSession.world }
            variableParser "m.h" ["/d"] none ["lib"])
          variableWork).2.heap.memory =
        variableWork.heap.memory := by
  refine ⟨by decide, preprocessed_variable, ?_⟩
  refine (interpret_keeps_memory _ _ _ _ _ _ _ variableWork
    (List.forall_mem_nil _) ?_).1
  intro text after next items hText hItems
  rw [preprocessed_variable, Prod.mk.injEq, Except.ok.injEq,
    Prod.mk.injEq] at hText
  obtain ⟨⟨rfl, rfl⟩, _⟩ := hText
  exact exportsApart_variable hItems

end Workspace

end CHeader
