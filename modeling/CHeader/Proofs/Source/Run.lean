import CHeader.Proofs.Fault
import CHeader.Source.Session

/-
  Runs are steps with a session.

  Main declarations:
    * `Source.exec_bind_eq_ok`
    * `Source.Spares`
-/

namespace CHeader

namespace Source

export Step (exec exec_bind exec_eq_of_toOption exec_get exec_modify exec_pure exec_throw
  exec_tryCatch)

section

variable {α β : Type} (session : Session)

theorem exec_bind_of_error (rest : α → Run β) (hFirst : (exec first session).1 = .error fault) :
    (exec (first >>= rest) session).1 = .error fault := by
  rw [exec_bind]
  rcases hExec : exec first session with ⟨_ | a, next⟩
  · rw [hExec] at hFirst
    exact congrArg Except.error (Except.error.inj hFirst)
  · rw [hExec] at hFirst
    cases hFirst

theorem exec_bind_eq_ok :
    exec (first >>= rest) session = (.ok b, final) ↔ ∃ a next, exec first session = (.ok a, next) ∧
        exec (rest a) next = (.ok b, final) := by
  rw [exec_bind]
  rcases exec first session with ⟨_ | a, next⟩ <;> simp

theorem exec_bind_eq_error :
    exec (first >>= rest) session = (.error fault, final) ↔
      exec first session = (.error fault, final) ∨ ∃ a next, exec first session = (.ok a, next) ∧
          exec (rest a) next = (.error fault, final) := by
  rw [exec_bind]
  rcases exec first session with ⟨_ | a, next⟩ <;> simp

@[simp] theorem exec_map (f : α → β) (run : Run α) : exec (f <$> run) session =
    ((exec run session).1.map f, (exec run session).2) := by
  unfold exec
  rw [ExceptT.run_map, StateT.run_map]
  rcases run.run.run session with ⟨_ | a, next⟩ <;> rfl

@[simp] theorem exec_getTable : exec getTable session = (.ok session.table, session) := rfl

theorem exec_bind_getTable (rest : Macro.Table → Run β) :
    exec (getTable >>= rest) session = exec (rest session.table) session := rfl

@[simp] theorem exec_modifyTable (f : Macro.Table → Macro.Table) : exec (modifyTable f) session =
    (.ok (), { session with table := f session.table }) :=
  rfl

@[simp] theorem exec_lift (result : Except Fault α) :
    exec (lift result) session = (result, session) := by
  cases result <;> rfl

end

-- Parts of the session that are left alone

def Spares {α γ : Type} (part : Session → γ) (run : Run α) : Prop :=
  ∀ session, part (exec run session).2 = part session

section

variable {α γ : Type} {part : Session → γ}

theorem Spares.pure (a : α) : Spares part (pure a : Run α) := fun _ => rfl

theorem Spares.throw (fault : Fault) : Spares part (throw fault : Run α) := fun _ => rfl

theorem Spares.get : Spares part (get : Run Session) := fun _ => rfl

theorem Spares.getTable : Spares part getTable := fun _ => rfl

theorem Spares.modify (hPart : ∀ session, part (f session) = part session) :
    Spares part (modify f : Run Unit) := hPart

theorem Spares.bind (hFirst : Spares part first) (hRest : ∀ a, Spares part (rest a)) :
    Spares part (first >>= rest) := by
  intro session
  have hBefore := hFirst session
  rw [exec_bind]
  rcases hExec : exec first session with ⟨fault | a, next⟩
  · rw [hExec] at hBefore
    exact hBefore
  · rw [hExec] at hBefore
    exact (hRest a next).trans hBefore

theorem Spares.lift (result : Except Fault α) : Spares part (lift result) := by
  intro session
  rw [exec_lift]

theorem Spares.of_table (hTable : Spares Session.table run) (view : Macro.Table → γ) :
    Spares (fun session => view session.table) run :=
  fun session => congrArg view (hTable session)

/- What is left alone up to a step that does not fail is as before whenever the whole fails. -/
theorem Spares.bind_of_error (hFirst : Spares part first)
    (hRest : ∀ a session fault next, exec (rest a) session = (.error fault, next) →
        part next = part session) (hExec : exec (first >>= rest) session = (.error fault, next)) :
    part next = part session := by
  have hBefore := hFirst session
  rw [exec_bind_eq_error] at hExec
  rcases hExec with hFault | ⟨a, middle, hMiddle, hFault⟩
  · rw [hFault] at hBefore
    exact hBefore
  · rw [hMiddle] at hBefore
    exact (hRest a middle fault next hFault).trans hBefore

end

end Source

end CHeader
