import TreeFlow.Lower.Basic
import Mathlib.Order.Defs.Unbundled

/-!
# Reasoning about lowering

A step of lowering is judged by two conditions on the state behind it: one for the case that it yields
something, one for the case that it fails (`Lower.Runs`). A step that is stuck has no state behind it
that matters, but it must not be stuck because a jump leads to a block that is not there.

Most of what is proved of lowering has one shape. A state is looked at together with what is not in
it, such as the parents of blocks; such a pair is a place. A step leads from a place to another one
that is related to it, whether it fails or not, and what it yields is described at the new place
(`Lower.Yields`). The relation is reflexive and transitive, so such statements compose with the
steps.
-/

namespace TreeFlow.Lower

variable {α β : Type} {env : Env} {s : State}

/-! ### What becomes of a step -/

/-- A step from a state on satisfies one condition where it yields something and another one where
it fails, and it never comes upon a missing block. -/
@[irreducible]
def Runs (m : Lower α) (env : Env) (s : State) (done : α → State → Prop)
    (failed : State → Prop) : Prop :=
  match m env s with
  | (.done a, s) => done a s
  | (.failed, s) => failed s
  | (.stuck why, _) => ∀ id, why ≠ .missingBlock id

namespace Runs

variable {m : Lower α} {next : α → Lower β} {done done' : α → State → Prop}
  {failed failed' : State → Prop}

theorem of_done {a : α} {t : State} (h : m env s = (.done a, t)) (hdone : done a t) :
    Runs m env s done failed := by
  rw [Runs, h]
  exact hdone

theorem of_failed {t : State} (h : m env s = (.failed, t)) (hfailed : failed t) :
    Runs m env s done failed := by
  rw [Runs, h]
  exact hfailed

theorem of_stuck {why : Stuck} {t : State} (h : m env s = (.stuck why, t))
    (hwhy : ∀ id, why ≠ .missingBlock id) : Runs m env s done failed := by
  rw [Runs, h]
  exact hwhy

theorem of_eq {n : Lower α} (heq : m env s = n env s) (h : Runs n env s done failed) :
    Runs m env s done failed := by
  unfold Runs at h ⊢
  rwa [heq]

theorem imp (h : Runs m env s done failed) (hdone : ∀ a t, done a t → done' a t)
    (hfailed : ∀ t, failed t → failed' t) : Runs m env s done' failed' := by
  unfold Runs at h ⊢
  split <;> simp_all

/-- What a step comes to is what it is known to come to. -/
theorem with_eq (h : Runs m env s done failed) :
    Runs m env s (fun a t => m env s = (.done a, t) ∧ done a t) fun t => m env s = (.failed, t) ∧ failed t := by
  unfold Runs at h ⊢
  rcases hm : m env s with ⟨_ | _ | _, t⟩ <;> simp_all

theorem bind {done : β → State → Prop}
    (h : Runs m env s (fun a t => Runs (next a) env t done failed) failed) :
    Runs (m >>= next) env s done failed := by
  show Runs (Lower.bind m next) env s done failed
  unfold Runs Lower.bind
  unfold Runs at h
  rcases hm : m env s with ⟨_ | _ | _, t⟩ <;> simp_all

/-- A step whose outcome is known is followed by the rest. -/
theorem bind_of_done {done : β → State → Prop} {a : α} {t : State} (hm : m env s = (.done a, t))
    (h : Runs (next a) env t done failed) : Runs (m >>= next) env s done failed :=
  bind (of_done hm h)

theorem pure {a : α} (h : done a s) : Runs (Pure.pure a) env s done failed := of_done rfl h

theorem fail (h : failed s) : Runs (Lower.fail : Lower α) env s done failed := of_failed rfl h

theorem attempt {done : Option α → State → Prop}
    (h : Runs m env s (fun a t => done (some a) t) fun t => done none t) :
    Runs (Lower.attempt m) env s done failed := by
  unfold Runs Lower.attempt
  unfold Runs at h
  rcases hm : m env s with ⟨_ | _ | _, t⟩ <;> simp_all

theorem ignoring {done : Unit → State → Prop} (h : Runs m env s (fun _ t => done () t) (done ())) :
    Runs (Lower.ignoring m) env s done failed :=
  bind (attempt (h.imp (fun _ _ h => pure h) fun _ h => pure h))

theorem withLvalue {on : Bool}
    (h : Runs m env { s with lvalue := on } (fun a t => done a { t with lvalue := s.lvalue })
      fun t => failed { t with lvalue := s.lvalue }) :
    Runs (Lower.withLvalue on m) env s done failed := by
  unfold Runs Lower.withLvalue
  unfold Runs at h
  rcases hm : m env { s with lvalue := on } with ⟨_ | _ | _, t⟩ <;> simp_all

theorem probe
    (h : Runs m env { s with builder := s.builder.snapshot.2 }
      (fun a t => done a { t with
        builder := t.builder.restore s.builder.snapshot.1 .types, lvalue := s.lvalue })
      fun t => failed { t with
        builder := t.builder.restore s.builder.snapshot.1 .types, lvalue := s.lvalue }) :
    Runs (Lower.probe m) env s done failed := by
  unfold Runs Lower.probe
  unfold Runs at h
  rcases hm : m env { s with builder := s.builder.snapshot.2 } with ⟨_ | _ | _, t⟩ <;> simp_all

theorem localScope {opened : ScopeStack} (hopen : s.scopes.openLocal = .ok opened)
    (h : Runs m env { s with scopes := opened }
      (fun a t => ∃ scopes, t.scopes.closeLocal = .ok scopes ∧ done a { t with scopes })
      fun t => ∃ scopes, t.scopes.closeLocal = .ok scopes ∧ failed { t with scopes }) :
    Runs (Lower.localScope m) env s done failed := by
  unfold Runs at h ⊢
  simp only [Lower.localScope, hopen]
  rcases hm : m env { s with scopes := opened } with ⟨_ | _ | _, t⟩
  · rw [hm] at h
    obtain ⟨scopes, hclose, hdone⟩ := h
    simpa only [hclose] using hdone
  · rw [hm] at h
    obtain ⟨scopes, hclose, hfailed⟩ := h
    simpa only [hclose] using hfailed
  · rw [hm] at h
    dsimp only
    cases t.scopes.closeLocal <;> exact h

theorem inNamespace {name : String}
    (h : Runs m env { s with scopes := s.scopes.pushNamespace name }
      (fun a t => done a { t with scopes := t.scopes.popNamespace name })
      fun t => failed { t with scopes := t.scopes.popNamespace name }) :
    Runs (Lower.inNamespace name m) env s done failed := by
  unfold Runs Lower.inNamespace
  unfold Runs at h
  rcases hm : m env { s with scopes := s.scopes.pushNamespace name } with ⟨_ | _ | _, t⟩ <;>
    simp_all

end Runs

/-- The builder does what is asked. -/
theorem emit_of_ok {line : Nat} {m : Build α} {a : α} {b : Builder} (h : m s.builder = .ok (a, b)) :
    emit line m env s = (.done a, { s with builder := b }) := by
  simp only [emit, h]

/-! ### From place to place -/

section Yields

variable {σ : Type} {view : σ → State} {R : σ → σ → Prop}

/-- From a place on, a step leads to a related place. There, what it yields satisfies the condition. -/
def Yields (view : σ → State) (R : σ → σ → Prop) (env : Env) (x : σ) (m : Lower α)
    (post : α → σ → Prop) : Prop :=
  Runs m env (view x) (fun a s => ∃ y, view y = s ∧ R x y ∧ post a y)
    fun s => ∃ y, view y = s ∧ R x y

variable {x : σ} {m : Lower α} {next : α → Lower β} {post : α → σ → Prop}
  {post' : β → σ → Prop}

namespace Yields

/-- A condition on the state behind a step is one on the place behind it. -/
theorem of_runs {done : α → State → Prop} {failed : State → Prop}
    (h : Runs m env (view x) done failed)
    (hdone : ∀ a s, done a s → ∃ y, view y = s ∧ R x y ∧ post a y)
    (hfailed : ∀ s, failed s → ∃ y, view y = s ∧ R x y) : Yields view R env x m post :=
  h.imp hdone hfailed

theorem imp {post' : α → σ → Prop} (h : Yields view R env x m post)
    (himp : ∀ a y, R x y → post a y → post' a y) : Yields view R env x m post' :=
  Runs.imp h (fun a _ ⟨y, hy, hxy, ha⟩ => ⟨y, hy, hxy, himp a y hxy ha⟩) fun _ h => h

/-- A step from a place that was led to leads on from where that way began. -/
theorem after [IsTrans σ R] {y : σ} (hxy : R x y) (h : Yields view R env y m post) :
    Runs m env (view y) (fun a s => ∃ z, view z = s ∧ R x z ∧ post a z)
      fun s => ∃ z, view z = s ∧ R x z := by
  refine Runs.imp h ?_ ?_
  · rintro a _ ⟨z, rfl, hyz, ha⟩
    exact ⟨z, rfl, IsTrans.trans _ _ _ hxy hyz, ha⟩
  · rintro _ ⟨z, rfl, hyz⟩
    exact ⟨z, rfl, IsTrans.trans _ _ _ hxy hyz⟩

/-- What is known of a step that is carried out is known of it where it stands. -/
theorem bind [IsTrans σ R] (h : Yields view R env x m post)
    (hnext : ∀ a y, R x y → post a y → Yields view R env y (next a) post') :
    Yields view R env x (m >>= next) post' := by
  refine Runs.bind (Runs.imp h ?_ fun _ h => h)
  rintro a _ ⟨y, rfl, hxy, ha⟩
  exact after hxy (hnext a y hxy ha)

/-- A step that is tried yields something or nothing. -/
theorem attempt (h : Yields view R env x m post) :
    Yields view R env x (Lower.attempt m) fun o y => ∀ a, o = some a → post a y := by
  refine Runs.attempt (Runs.imp h ?_ ?_)
  · rintro a _ ⟨y, rfl, hxy, ha⟩
    exact ⟨y, rfl, hxy, fun _ heq => Option.some.inj heq ▸ ha⟩
  · rintro _ ⟨y, rfl, hxy⟩
    exact ⟨y, rfl, hxy, fun _ heq => nomatch heq⟩

theorem ignoring (h : Yields view R env x m post) :
    Yields view R env x (Lower.ignoring m) fun _ _ => True :=
  Runs.ignoring (Runs.imp h (fun _ _ ⟨y, hy, hxy, _⟩ => ⟨y, hy, hxy, trivial⟩)
    fun _ ⟨y, hy, hxy⟩ => ⟨y, hy, hxy, trivial⟩)

theorem halt {why : Stuck} (hwhy : ∀ id, why ≠ .missingBlock id) :
    Yields view R env x (Lower.halt why) post := Runs.of_stuck rfl hwhy

theorem endless : Yields view R env x (Lower.halt .endless) post := halt fun _ heq => nomatch heq

theorem pure [Std.Refl R] {a : α} (h : post a x) : Yields view R env x (Pure.pure a) post :=
  Runs.pure ⟨x, rfl, Std.Refl.refl x, h⟩

theorem fail [Std.Refl R] : Yields view R env x Lower.fail post :=
  Runs.fail ⟨x, rfl, Std.Refl.refl x⟩

/-- What is known of a step is known of another one that does the same there. -/
theorem of_eq {n : Lower α} (h : Yields view R env x n post)
    (heq : m env (view x) = n env (view x)) : Yields view R env x m post := Runs.of_eq heq h

/-! Steps that only look at something stay where they are. -/

theorem bind_read {f : State → α} (h : Yields view R env x (next (f (view x))) post') :
    Yields view R env x (Lower.read f >>= next) post' := Runs.bind_of_done rfl h

theorem bind_env {next : Env → Lower β} (h : Yields view R env x (next env) post') :
    Yields view R env x (Lower.env >>= next) post' := Runs.bind_of_done rfl h

theorem bind_present {h : Handle} {o : Option α}
    (hnext : ∀ a, o = some a → Yields view R env x (next a) post') :
    Yields view R env x (Lower.present h o >>= next) post' := by
  cases o with
  | none => exact Runs.of_stuck rfl fun _ heq => nomatch heq
  | some a => exact Runs.bind_of_done rfl (hnext a rfl)

theorem bind_expr {id : ExprId} {next : Expr → Lower β}
    (h : ∀ e, env.tree.expr? id = some e → Yields view R env x (next e) post') :
    Yields view R env x (Lower.expr id >>= next) post' :=
  .of_eq (bind_present (h := .expr id) h) rfl

theorem bind_stmt {id : StmtId} {next : Stmt → Lower β}
    (h : ∀ e, env.tree.stmt? id = some e → Yields view R env x (next e) post') :
    Yields view R env x (Lower.stmt id >>= next) post' :=
  .of_eq (bind_present (h := .stmt id) h) rfl

theorem bind_spec {id : SpecId} {next : Spec → Lower β}
    (h : ∀ e, env.tree.spec? id = some e → Yields view R env x (next e) post') :
    Yields view R env x (Lower.spec id >>= next) post' :=
  .of_eq (bind_present (h := .spec id) h) rfl

theorem bind_declarator {id : DeclaratorId} {next : Declarator → Lower β}
    (h : ∀ e, env.tree.declarator? id = some e → Yields view R env x (next e) post') :
    Yields view R env x (Lower.declarator id >>= next) post' :=
  .of_eq (bind_present (h := .declarator id) h) rfl

end Yields

end Yields

end TreeFlow.Lower
