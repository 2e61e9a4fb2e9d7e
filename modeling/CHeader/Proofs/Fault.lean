import Mathlib
import CHeader.Fault

/-
  Laws of computations that may fail.

  A step also has a state: it takes one to a result or a fault and to the state it leaves. Its laws
  carry it through its parts.

  Main declarations:
    * `Fault.map_eq_ok_iff`
    * `Fault.bind_eq_ok_iff`
    * `Step.exec`
    * `Step.exec_bind`
    * `Step.exec_tryCatch`
-/

namespace CHeader

namespace Fault

variable {α β : Type}
variable {f : α → β} {result : Except Fault α} {b : β}

@[simp] theorem ok_bind (a : α) (f : α → Except Fault β) : (Except.ok a >>= f) = f a := rfl

@[simp] theorem error_bind (fault : Fault) (f : α → Except Fault β) :
    (Except.error fault >>= f) = Except.error fault := rfl

@[simp] theorem ok_map (f : α → β) (a : α) : (Except.ok a : Except Fault α).map f = .ok (f a) := rfl

@[simp] theorem error_map (f : α → β) (fault : Fault) :
    (Except.error fault : Except Fault α).map f = .error fault := rfl

@[simp] theorem pure_eq_ok (a : α) : (pure a : Except Fault α) = .ok a := rfl

theorem map_eq_error_iff : result.map f = .error fault ↔ result = .error fault := by
  cases result <;> simp

theorem map_eq_ok_iff : result.map f = .ok b ↔ ∃ a, result = .ok a ∧ f a = b := by
  cases result <;> simp

theorem bind_eq_ok_iff {f : α → Except Fault β} :
    (result >>= f) = .ok b ↔ ∃ a, result = .ok a ∧ f a = .ok b := by
  cases result <;> simp

end Fault

namespace Step

-- Results and states

def exec {σ α : Type} (step : ExceptT Fault (StateM σ) α) (state : σ) : Except Fault α × σ :=
  Id.run (StateT.run (ExceptT.run step) state)

section

variable {σ α β : Type} (state : σ)
variable {a : α} {first : ExceptT Fault (StateM σ) α} {next : σ}

@[simp] theorem exec_pure (a : α) : exec (pure a) state = (.ok a, state) := rfl

@[simp] theorem exec_throw (fault : Fault) : exec (throw fault : ExceptT Fault (StateM σ) α) state =
    (.error fault, state) := rfl

@[simp] theorem exec_get : exec (get : ExceptT Fault (StateM σ) σ) state = (.ok state, state) := rfl

@[simp] theorem exec_set (next : σ) : exec (set next : ExceptT Fault (StateM σ) PUnit) state =
    (.ok (), next) := rfl

@[simp] theorem exec_modify (change : σ → σ) : exec (modify change : ExceptT Fault (StateM σ) PUnit)
    state = (.ok (), change state) := rfl

/- A step goes on with the state that its first part leaves, unless that part fails. -/
theorem exec_bind (first : ExceptT Fault (StateM σ) α) (rest : α → ExceptT Fault (StateM σ) β) :
    exec (first >>= rest) state = match exec first state with
      | (.ok a, next) => exec (rest a) next
      | (.error fault, next) => (.error fault, next) := by
  unfold exec
  rw [ExceptT.run_bind, StateT.run_bind]
  rcases hRun : first.run.run state with ⟨_ | a, next⟩ <;>
    simp <;> rfl

variable {state}

theorem exec_eq_of_toOption (hResult : (exec step state).1.toOption = some a) :
    exec step state = (.ok a, (exec step state).2) := by
  generalize exec step state = outcome at hResult ⊢
  rcases outcome with ⟨fault | b, final⟩
  · cases hResult
  · cases hResult
    rfl

theorem exec_bind_of_ok (rest : α → ExceptT Fault (StateM σ) β)
    (hFirst : exec first state = (.ok a, next)) :
    exec (first >>= rest) state = exec (rest a) next := by
  rw [exec_bind, hFirst]

theorem exec_bind_of_error (rest : α → ExceptT Fault (StateM σ) β)
    (hFirst : exec first state = (.error fault, next)) :
    exec (first >>= rest) state = (.error fault, next) := by
  rw [exec_bind, hFirst]

theorem exec_bind_eq_ok (hBoth : exec (first >>= rest) state = (.ok b, last)) :
    ∃ a next, exec first state = (.ok a, next) ∧ exec (rest a) next = (.ok b, last) := by
  rw [exec_bind] at hBoth
  rcases hFirst : exec first state with ⟨fault | a, next⟩
  · simp [hFirst] at hBoth
  · rw [hFirst] at hBoth
    exact ⟨a, next, rfl, hBoth⟩

variable (state)

theorem exec_tryCatch (step : ExceptT Fault (StateM σ) α)
    (handler : Fault → ExceptT Fault (StateM σ) α) :
    exec (tryCatch step handler) state = match exec step state with
      | (.ok a, next) => (.ok a, next)
      | (.error fault, next) => exec (handler fault) next := by
  unfold exec
  rw [ExceptT.run_tryCatch, StateT.run_bind]
  rcases hRun : step.run.run state with ⟨_ | a, next⟩ <;>
    simp <;> rfl

end

end Step

end CHeader
