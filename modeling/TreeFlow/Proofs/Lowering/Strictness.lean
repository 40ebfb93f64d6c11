import TreeFlow.Proofs.Lowering.Body
import TreeFlow.Proofs.Lowering.Spanning
import TreeFlow.Proofs.Machine.Strict

/-!
# Every value is computed before it is used

The machine fails when an instruction reads a value that was not computed yet, or when a phi has none
for the edge that control came along. Nothing checks this while a body is lowered; it holds because of
the way bodies are lowered (`functionBody_strict`): whatever was reported, in the finished function
every value is computed before it is used, and so the machine never fails there for want of one.
-/

namespace TreeFlow.Lower

theorem Runs.ends {α : Type} {m : Lower α} {env : Env} {s : State} {P : State → Prop}
    (h : Runs m env s (fun _ t => P t) P) : Ends m env s P := by
  unfold Runs at h
  unfold Ends
  rcases hm : m env s with ⟨_ | _ | _, t⟩ <;> simp_all

/-- A step that is known to yield something comes to a state with the property. -/
theorem Ends.exists_done {α : Type} {m : Lower α} {env : Env} {s : State} {P : State → Prop}
    (h : Ends m env s P) (hdone : (m env s).1.isDone) : ∃ a t, m env s = (.done a, t) ∧ P t := by
  unfold Ends at h
  rcases hm : m env s with ⟨a | _ | _, t⟩
  · rw [hm] at h
    exact ⟨a, t, rfl, h⟩
  · simp [hm, Outcome.isDone] at hdone
  · simp [hm, Outcome.isDone] at hdone

/-- A step leaves behind the strict function `id`, in which no program misses a value. -/
def LeavesStrict (id : FuncId) (t : State) : Prop :=
  ∃ f, t.builder.mod.function? id = some f ∧ f.IsStrict ∧ Machine.NeverMisses id f

theorem Finishes.leavesStrict {id : FuncId} {t : State} (h : Finishes id t) : LeavesStrict id t := by
  obtain ⟨f, hid, hf⟩ := h
  exact ⟨f, hid, hf.toIsStrict, Machine.neverMisses hf⟩

/-- **Every body that is lowered with no open loops and no pending labels becomes a function in which
each value is computed before it is used,** whatever was reported on the way. The state before has to be
sound, as the initial one is and as every statement keeps it. -/
theorem functionBody_strict :
    (∀ config, (State.initial config).IsSound) ∧
    (∀ depth id env s, s.IsSound → Ends (statementTo depth id) env s State.IsSound) ∧
    ∀ env s depth id f result ps body line, s.IsSound → s.loops = [] → s.pending = [] →
      s.builder.mod.function? id = some f → f.isDeclaration →
      Ends (functionBody (statementTo depth) id result ps body line) env s (LeavesStrict id) := by
  refine ⟨State.isSound_initial, fun depth id env s hs => ?_, ?_⟩
  · exact (steady_statementTo depth id env s).imp fun _ ht => ht.sound hs
  · intro env s depth id f result ps body line hs hloops hpending hf hdeclaration
    exact (runs_functionBody depth result ps body hs hloops hpending hf hdeclaration).ends.imp
      fun _ h => h.leavesStrict

/-- The tree of `return true ? 1 : 0;`. -/
def choosingTree : Tree where
  exprs := #[⟨.bool true, 1⟩, ⟨.integer 1, 1⟩, ⟨.integer 0, 1⟩, ⟨.conditional ⟨0⟩ ⟨1⟩ ⟨2⟩, 1⟩]
  stmts := #[⟨.ret (some ⟨3⟩), 1⟩]

/-- The state in which only the function `choose` is declared. -/
def choosingStart : State :=
  (withBuilder (·.declareFunction "choose" ⟨.word, [], false⟩ .external) ⟨choosingTree, {}⟩
    (State.initial {})).2

theorem functionBody_strict_choosing : ∃ u t,
    functionBody (statementTo 1) ⟨0⟩ .word [] ⟨0⟩ 1 ⟨choosingTree, {}⟩ choosingStart = (.done u, t) ∧
      LeavesStrict ⟨0⟩ t := by
  have hsound : choosingStart.IsSound :=
    (Steady.addFunction "choose" ⟨.word, [], false⟩ .external ⟨choosingTree, {}⟩
      (State.initial {})).sound (State.isSound_initial {})
  exact (functionBody_strict.2.2 ⟨choosingTree, {}⟩ choosingStart 1 ⟨0⟩ _ .word [] ⟨0⟩ 1 hsound rfl rfl
    rfl rfl).exists_done (by decide +kernel)

end TreeFlow.Lower
