import TreeFlow.Machine.Step

/-!
# Operations of the machine, taken apart

An operation in sequence with another runs the first one, and the second one in the world that the
first leaves. Reading an operand leaves the world alone.
-/

namespace TreeFlow

variable {α β : Type}

/-! ### Outcomes -/

theorem exists_of_bind_ok {ε : Type} {x : Except ε α} {next : α → Except ε β} {b : β}
    (h : (x >>= next) = .ok b) : ∃ a, x = .ok a ∧ next a = .ok b := by
  cases x with
  | error e => cases h
  | ok a => exact ⟨a, rfl, h⟩

theorem toOption_ok_bind (a : α) (next : α → Option β) :
    ((.ok a : Except RunError α).toOption >>= next) = next a := rfl

/-! ### Operations -/

namespace Exec

@[simp] theorem run_pure (a : α) (w : World) : run (pure a) w = (.ok a, w) := rfl

@[simp] theorem run_throw (e : RunError) (w : World) : run (throw e : Exec α) w = (.error e, w) :=
  rfl

theorem run_bind (m : Exec α) (next : α → Exec β) (w : World) :
    run (m >>= next) w =
      match run m w with
      | (.ok a, w) => run (next a) w
      | (.error e, w) => (.error e, w) := by
  simp only [run, bind, ExceptT.bind, ExceptT.mk, StateT.bind]
  rcases m w with ⟨_ | _, _⟩ <;> rfl

@[simp] theorem run_get (w : World) : run (get : Exec World) w = (.ok w, w) := rfl

@[simp] theorem run_modify (f : World → World) (w : World) :
    run (modify f : Exec Unit) w = (.ok (), f w) := rfl

@[simp] theorem run_query (f : World → Except RunError α) (w : World) :
    run (World.query f) w = (f w, w) := rfl

@[simp] theorem run_liftM (x : Except RunError α) (w : World) :
    run (liftM x : Exec α) w = (x, w) := by
  cases x <;> rfl

/-- What succeeds as a whole succeeds in each of its parts. -/
theorem run_bind_ok {m : Exec α} {next : α → Exec β} {w w' : World} {b : β}
    (h : run (m >>= next) w = (.ok b, w')) :
    ∃ a w₁, run m w = (.ok a, w₁) ∧ run (next a) w₁ = (.ok b, w') := by
  rw [run_bind] at h
  split at h
  · next a w₁ hm => exact ⟨a, w₁, hm, h⟩
  · exact absurd (congrArg Prod.fst h) (by simp)

theorem run_guard {c : Prop} [Decidable c] {e : RunError} {next : Exec α} {w : World} :
    run (if c then MonadExcept.throw e >>= fun _ : PUnit => next else next) w =
      if c then (.error e, w) else run next w := by
  split <;> rfl

theorem run_guard_ok {c : Prop} [Decidable c] {e : RunError} {next : Exec α} {w w' : World} {a : α}
    (h : run (if c then MonadExcept.throw e >>= fun _ : PUnit => next else next) w =
      (.ok a, w')) : ¬ c ∧ run next w = (.ok a, w') := by
  split at h
  · obtain ⟨_, _, h, -⟩ := run_bind_ok h
    exact absurd (congrArg Prod.fst h) (by simp)
  · next hc => exact ⟨hc, h⟩

end Exec

namespace Machine

variable (p : Program) (a : Activation) (op : Operand) (w : World)

@[simp] theorem run_value : Exec.run (value p a op) w = (operand p w.globals a op, w) := rfl

end Machine

end TreeFlow
