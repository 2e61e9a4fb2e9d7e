import CHeader.Interface.Names
import CHeader.Proofs.Fault

/-
  Steps in a workspace.

  Main declarations:
    * `Step.exec_onHeap`
    * `Step.exec_variableAt`
-/

namespace CHeader

open Work

def Workspace.hasSymbol (work : Workspace) (symbol library : String) : Bool :=
  (work.address? library symbol).isSome

namespace Step

-- Steps in a workspace

section

variable {α : Type} (work : Workspace)

@[simp] theorem exec_lift (result : Except Fault α) : exec (lift result) work = (result, work) := by
  cases result <;> rfl

/- A step on the heap leaves the rest of the workspace. -/
@[simp] theorem exec_onHeap (step : OnHeap α) : exec (onHeap step) work = ((exec step work.heap).1,
    { work with heap := (exec step work.heap).2 }) := by
  exact exec_lift _ _

@[simp] theorem exec_report (level : Source.Level) (message : String) :
    exec (report level message) work = (.ok (),
        { work with log := work.log ++ [⟨level, message⟩] }) :=
  rfl

@[simp] theorem exec_iface : exec Work.iface work = (.ok work.iface, work) := rfl

@[simp] theorem exec_modifyIface (change : Interface → Interface) :
    exec (modifyIface change) work = (.ok (), { work with iface := change work.iface }) := rfl

theorem exec_exportedObject?_of_unexported (hFree : work.iface.exported? name = none) :
    exec (exportedObject? name) work = (.ok none, work) := by
  unfold exportedObject?
  rw [exec_bind_of_ok _ (exec_iface work), hFree]
  rfl

@[simp] theorem exec_types : exec Work.types work = (.ok work.heap.types, work) := rfl

@[simp] theorem exec_modifyTypes (change : TypeTable → TypeTable) :
    exec (modifyTypes change) work = (.ok (), { work with
        heap := { work.heap with
            types := change work.heap.types } }) := rfl

@[simp] theorem exec_newRecord (kind : RecordKind) (name : String) :
    exec (newRecord kind name) work = (.ok (.record work.heap.types.records.length), { work with
        heap := { work.heap with
            types := (work.heap.types.add kind name).1 } }) :=
  rfl

/- Members are noted in the table whether or not they are accepted. -/
@[simp] theorem exec_setMembers (number : Nat) (members : List Member) :
    exec (setMembers number members) work =
      ((work.heap.types.setMembers number members).2, { work with
          heap := { work.heap with
              types := (work.heap.types.setMembers number members).1 } }) := by
  exact exec_lift _ _

/- A variable is an object of its type where its library has it. -/
theorem exec_variableAt (hType : type ≠ .ellipsis) (library symbol : String) :
    exec (variableAt (.type type) library symbol) work = match work.address? library symbol with
      | none => (.error .badValue, work)
      | some address => (.ok ⟨type, address⟩, { work with
          heap := { work.heap with types := work.heap.types.fix type } }) := by
  have hAddress : exec (symbolAddress? library symbol) work =
      (.ok (work.address? library symbol), work) := rfl
  unfold variableAt
  split
  · rename_i hSame
    exact absurd (Value.type.inj hSame) hType
  · rename_i hSame
    cases hSame
    rw [exec_bind_of_ok _ hAddress]
    cases work.address? library symbol <;> rfl
  · rename_i hNot
    exact absurd rfl (hNot type)

/- A variable is found if its library has it, and reading one that is not found changes nothing. -/
theorem exec_variableAt_cases (value : Value) (library symbol : String) :
    (∃ type object, value = .type type ∧ work.hasSymbol symbol library = true ∧
        exec (variableAt value library symbol) work = (.ok object, { work with
            heap := { work.heap with
                types := work.heap.types.fix type } })) ∨
      ∃ fault, exec (variableAt value library symbol) work = (.error fault, work) := by
  by_cases hValue : ∃ type, value = .type type ∧ type ≠ .ellipsis
  · obtain ⟨type, rfl, hType⟩ := hValue
    rw [exec_variableAt work hType]
    cases hAddress : work.address? library symbol with
    | none => exact .inr ⟨_, rfl⟩
    | some address => exact .inl ⟨type, _, rfl, congrArg Option.isSome hAddress, rfl⟩
  · unfold variableAt
    split
    · exact .inr ⟨_, rfl⟩
    · rename_i type hTold
      exact absurd ⟨type, rfl, hTold⟩ hValue
    · exact .inr ⟨_, rfl⟩

end

end Step

end CHeader
