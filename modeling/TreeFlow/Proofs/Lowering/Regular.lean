import TreeFlow.Proofs.Lowering.Steady
import TreeFlow.Proofs.Tree.Children

/-!
# How steps are put together

Every step of lowering is put together from a few basic steps, which look at the state, change it, report
a problem or emit code, by a few ways to combine them. A step that is put together so is regular
(`Lower.Regular`). What holds of all regular steps is proved by induction on how they are put together,
and so without a look at any single rule of lowering.

A step may be known to be **loud**: it fails only after it has reported an error. A step that fails
without a report is silent; whoever tries it then has to report something of its own.

Steps that follow the handles of a tree come upon handles out of range, or go on for ever, if the tree
is not well made. What is assumed of handles, and for which reasons a step may be stuck then, is a
parameter of the judgement (`Lower.Footing`).
-/

namespace TreeFlow.Lower

variable {α β : Type}

/-- One step after another, and that after a third. -/
theorem bind_bind {γ : Type} (m : Lower α) (f : α → Lower β) (g : β → Lower γ) :
    m >>= f >>= g = m >>= fun a => f a >>= g := by
  funext env s
  show Lower.bind (Lower.bind m f) g env s = Lower.bind m (fun a => Lower.bind (f a) g) env s
  unfold Lower.bind
  rcases m env s with ⟨_ | _ | _, t⟩ <;> rfl

/-! ### Footings -/

/-- What is assumed of the handles of a tree, and why the walk may be stuck then. -/
structure Footing (env : Env) where
  /-- The walk may be stuck for this reason. -/
  Allows : Stuck → Prop
  /-- The walk may descend from a handle so many nodes deep. -/
  Bears : Nat → Handle → Prop
  missingBlock : ∀ id, Allows (.missingBlock id)
  bottomless : ∀ key, Allows (.bottomless key)
  endless : ∀ {h}, Bears 0 h → Allows .endless
  dangling : ∀ {d h}, Bears d h → ¬h.InRange env.tree → Allows (.dangling h)
  /-- A child of the same sort is one level further down. -/
  child : ∀ {d h c}, Bears (d + 1) h → c ∈ env.tree.children h → c.isStmt = h.isStmt → Bears d c
  /-- What a statement is made of is entered anew. -/
  part : ∀ {d h c}, Bears (d + 1) h → c ∈ env.tree.children h → h.isStmt → ¬c.isStmt →
    Bears env.tree.exprDepth c
  /-- A handle may be kept, and be entered anew later. -/
  anew : ∀ {d h}, Bears d h → ¬h.isStmt → Bears env.tree.exprDepth h
  top : ∀ {id}, id ∈ env.tree.externs ++ env.tree.root → Bears env.tree.stmtDepth (.stmt id)
  /-- Steps may look at the loops around and at the labels that are pending, and may change them. -/
  Jumps : Prop

/-- Nothing is assumed, and the walk may be stuck for any reason. -/
def Footing.loose (env : Env) : Footing env where
  Allows _ := True
  Bears _ _ := True
  missingBlock _ := trivial
  bottomless _ := trivial
  endless _ := trivial
  dangling _ _ := trivial
  child _ _ _ := trivial
  part _ _ _ _ := trivial
  anew _ _ := trivial
  top _ := trivial
  Jumps := True

/-- Nothing is assumed of handles, and no step has to do with jumps. -/
def Footing.apart (env : Env) : Footing env := { loose env with Jumps := False }

namespace Footing

variable {env : Env} (F : Footing env) {d : Nat}

/-- A child of anything but a statement is one level further down. -/
theorem bears_child {h c : Handle} (hh : h.isStmt = false) (hd : F.Bears (d + 1) h)
    (hc : c ∈ env.tree.children h) : F.Bears d c :=
  F.child hd hc ((Tree.not_isStmt_of_mem_children hh hc).trans hh.symm)

theorem bears_of_expr {id : ExprId} {e : Expr} (he : env.tree.expr? id = some e)
    (hd : F.Bears (d + 1) (.expr id)) : ∀ c ∈ e.kind.handles, F.Bears d c := fun c hc =>
  F.bears_child rfl hd (by rwa [Tree.children_expr he])

theorem bears_of_spec {id : SpecId} {s : Spec} (hs : env.tree.spec? id = some s)
    (hd : F.Bears (d + 1) (.spec id)) : ∀ c ∈ s.kind.handles, F.Bears d c := fun c hc =>
  F.bears_child rfl hd (by rwa [Tree.children_spec hs])

theorem bears_of_declarator {id : DeclaratorId} {n : Declarator}
    (hn : env.tree.declarator? id = some n) (hd : F.Bears (d + 1) (.declarator id)) :
    ∀ c ∈ n.kind.handles, F.Bears d c := fun c hc =>
  F.bears_child rfl hd (by rwa [Tree.children_declarator hn])

/-- The children of a statement: statements one level further down, all else entered anew. -/
theorem bears_of_stmt {id : StmtId} {s : Stmt} (hs : env.tree.stmt? id = some s)
    (hd : F.Bears (d + 1) (.stmt id)) :
    (∀ id, .stmt id ∈ s.kind.handles → F.Bears d (.stmt id)) ∧
      ∀ c ∈ s.kind.handles, c.isStmt = false → F.Bears env.tree.exprDepth c := by
  rw [← Tree.children_stmt hs]
  exact ⟨fun id hid => F.child hd hid rfl, fun c hc h => F.part hd hc rfl (by simp [h])⟩

end Footing

/-! ### The judgement -/

/-- What most steps neither look at nor change: the diagnostics, the loops around, and the labels that are
pending. -/
structure Surroundings where
  diags : DiagnosticQueue
  loops : List LoopTargets
  pending : List PendingLabel

/-- The state in other surroundings. -/
def State.within (s : State) (x : Surroundings) : State :=
  { s with diags := x.diags, loops := x.loops, pending := x.pending }

/-- The state with other diagnostics queued. -/
def State.withDiags (s : State) (q : DiagnosticQueue) : State := { s with diags := q }

/-- The state with other loops around and other labels pending. -/
def State.withJumps (s : State) (loops : List LoopTargets) (pending : List PendingLabel) : State :=
  { s with loops, pending }

@[simp] theorem State.diags_withDiags (s : State) (q : DiagnosticQueue) : (s.withDiags q).diags = q := rfl

@[simp] theorem State.withDiags_diags (s : State) : s.withDiags s.diags = s := rfl

@[simp] theorem State.withDiags_withDiags (s : State) (q q' : DiagnosticQueue) :
    (s.withDiags q).withDiags q' = s.withDiags q' := rfl

/-- A change of the state does not look at the diagnostics, and leaves them as they are. -/
def State.SparesDiags (change : State → State) : Prop :=
  ∀ s q, change (s.withDiags q) = (change s).withDiags q

theorem State.SparesDiags.diags_eq {change : State → State} (h : State.SparesDiags change) (s : State) :
    (change s).diags = s.diags := by
  simpa using congrArg State.diags (h s s.diags)

/-- A change of the state does not look at the surroundings, and leaves them as they are. -/
def State.Spares (change : State → State) : Prop := ∀ s x, change (s.within x) = (change s).within x

namespace State.Spares

variable {change : State → State} (h : State.Spares change) (s : State)
include h

theorem eq_within : change s = (change s).within ⟨s.diags, s.loops, s.pending⟩ :=
  h s ⟨s.diags, s.loops, s.pending⟩

theorem loops_eq : (change s).loops = s.loops := by rw [h.eq_within s]; rfl

theorem pending_eq : (change s).pending = s.pending := by rw [h.eq_within s]; rfl

theorem diags_eq : (change s).diags = s.diags := by rw [h.eq_within s]; rfl

theorem sparesDiags : State.SparesDiags change := fun s q => by
  have hchange : change (s.withDiags q) = (change s).within ⟨q, s.loops, s.pending⟩ :=
    h s ⟨q, s.loops, s.pending⟩
  rw [hchange, ← h.loops_eq s, ← h.pending_eq s]
  rfl

theorem withJumps (loops : List LoopTargets) (pending : List PendingLabel) :
    change (s.withJumps loops pending) = (change s).withJumps loops pending := by
  have hchange : change (s.withJumps loops pending) = (change s).within ⟨s.diags, loops, pending⟩ :=
    h s ⟨s.diags, loops, pending⟩
  rw [hchange, ← h.diags_eq s]
  rfl

end State.Spares

/-! ### Steps that commute with a change of the state -/

/-- It makes no difference to a step whether the state is changed before it or after it. -/
def Commutes (env : Env) (change : State → State) (m : Lower α) (s : State) : Prop :=
  m env (change s) = ((m env s).1, change (m env s).2)

namespace Commutes

variable {env : Env} {change : State → State} {m : Lower α} {s : State}

theorem bind {next : α → Lower β} (hm : Commutes env change m s)
    (hnext : ∀ a t, m env s = (.done a, t) → Commutes env change (next a) t) :
    Commutes env change (m >>= next) s := by
  show Lower.bind m next env _ = ((Lower.bind m next env s).1, change (Lower.bind m next env s).2)
  unfold Commutes at hm
  rcases hrun : m env s with ⟨a | _ | _, t⟩ <;> rw [hrun] at hm
  · simp only [Lower.bind, hm, hrun]
    exact hnext a t hrun
  · simp only [Lower.bind, hm, hrun]
  · simp only [Lower.bind, hm, hrun]

theorem attempt (hm : Commutes env change m s) : Commutes env change (Lower.attempt m) s := by
  unfold Commutes at hm ⊢
  rcases hrun : m env s with ⟨a | _ | _, t⟩ <;> rw [hrun] at hm <;> simp only [Lower.attempt, hm, hrun]

/-- A change that has nothing to do with the scopes commutes with a step in a scope of its own. -/
theorem localScope (hset : ∀ (t : State) scopes, { change t with scopes } = change { t with scopes })
    (hscopes : ∀ t, (change t).scopes = t.scopes)
    (hreport : ∀ kind t, Commutes env change (Lower.report kind 0) t)
    (hm : ∀ scopes, Commutes env change m { s with scopes }) : Commutes env change (Lower.localScope m) s := by
  unfold Commutes
  simp only [Lower.localScope, hscopes, hset]
  cases s.scopes.openLocal with
  | error => exact hm s.scopes
  | ok opened =>
    have hrun : m env (change { s with scopes := opened }) = _ := hm opened
    simp only [hrun, hscopes]
    cases (m env { s with scopes := opened }).2.scopes.closeLocal with
    | ok scopes => simp only [hset]
    | error fault =>
      have hreport : Lower.report (.internal fault.message) 0 env
        (change (m env { s with scopes := opened }).2) = _ := hreport _ _
      simp only [hreport]

end Commutes

/-! ### Steps -/

/-- A step yields something from some state on. -/
def Produces (env : Env) (m : Lower α) (a : α) : Prop := ∃ s t, m env s = (.done a, t)

namespace Produces

variable {env : Env} {a : α} {b : β}

theorem of_pure {a' : α} (h : Produces env (Pure.pure a : Lower α) a') : a = a' := by
  obtain ⟨s, t, h⟩ := h
  exact Outcome.done.inj (congrArg Prod.fst h)

theorem not_halt {why : Stuck} : ¬Produces env (Lower.halt why) a := by
  rintro ⟨s, t, h⟩
  exact nomatch congrArg Prod.fst h

theorem not_failWith {kind : DiagnosticKind} {line : Nat} :
    ¬Produces env (Lower.failWith kind line) a := by
  rintro ⟨s, t, h⟩
  exact nomatch congrArg Prod.fst h

/-- What two steps yield is yielded by the second one, after what the first one yielded. -/
theorem of_bind {m : Lower α} {next : α → Lower β} (h : Produces env (m >>= next) b) :
    ∃ a, Produces env m a ∧ Produces env (next a) b := by
  obtain ⟨s, t, h⟩ := h
  change Lower.bind m next env s = _ at h
  unfold Lower.bind at h
  rcases hm : m env s with ⟨a | _ | _, u⟩
  · rw [hm] at h
    exact ⟨a, ⟨s, u, hm⟩, u, t, h⟩
  · simp [hm] at h
  · simp [hm] at h

theorem of_declarator {id : DeclaratorId} {n : Declarator}
    (h : Produces env (Lower.declarator id) n) : env.tree.declarator? id = some n := by
  obtain ⟨s, t, h⟩ := h
  change Lower.present (.declarator id) (env.tree.declarator? id) env s = _ at h
  cases hn : env.tree.declarator? id with
  | none =>
    rw [hn] at h
    exact nomatch congrArg Prod.fst h
  | some a =>
    rw [hn] at h
    exact congrArg some (Outcome.done.inj (congrArg Prod.fst h))

end Produces

/-- A step is put together from the basic ones; if it is loud, it fails only after it has reported an
error. -/
inductive Regular {env : Env} (F : Footing env) : {α : Type} → (loud : Bool) → Lower α → Prop
  /-- It looks at the state and changes it, but for the surroundings. -/
  | quiet {α : Type} {loud : Bool} {m : Lower α} (value : State → α) (change : State → State)
      (hm : ∀ s, m env s = (.done (value s), change s))
      (hvalue : ∀ s x, value (s.within x) = value s) (hchange : State.Spares change) : Regular F loud m
  /-- It looks at the state and changes it, the loops and the pending labels, too. -/
  | jumps {α : Type} {loud : Bool} {m : Lower α} (h : F.Jumps) (value : State → α)
      (change : State → State) (hm : ∀ s, m env s = (.done (value s), change s))
      (hvalue : ∀ s q, value (s.withDiags q) = value s) (hchange : State.SparesDiags change) :
      Regular F loud m
  | fail {α : Type} : Regular F false (Lower.fail : Lower α)
  | halt {α : Type} {loud : Bool} {why : Stuck} (h : F.Allows why) :
      Regular F loud (Lower.halt why : Lower α)
  | report {loud : Bool} (kind : DiagnosticKind) (line : Nat) : Regular F loud (Lower.report kind line)
  | failWith {α : Type} {loud : Bool} {kind : DiagnosticKind} (line : Nat)
      (h : loud → kind.severity = .error) : Regular F loud (Lower.failWith kind line : Lower α)
  | emit {α : Type} {loud : Bool} (line : Nat) (m : Build α) : Regular F loud (Lower.emit line m)
  | bindProduced {α β : Type} {loud : Bool} {m : Lower α} {next : α → Lower β} (hm : Regular F loud m)
      (hnext : ∀ a, Produces env m a → Regular F loud (next a)) : Regular F loud (m >>= next)
  | attempt {α : Type} {loud : Bool} {m : Lower α} (hm : Regular F false m) :
      Regular F loud (Lower.attempt m)
  /-- Once a loud step has failed, no more has to be reported. -/
  | bindTried {α β : Type} {loud : Bool} {m : Lower α} {next : Option α → Lower β}
      (hm : Regular F true m) (hsome : ∀ a, Regular F loud (next (some a)))
      (hnone : Regular F false (next none)) : Regular F loud (Lower.attempt m >>= next)
  /-- The state is changed before a step and after it, but for the surroundings. -/
  | between {α : Type} {loud : Bool} {m n : Lower α} (before : State → State)
      (after : State → State → State)
      (hn : ∀ s, n env s = ((m env (before s)).1, after s (m env (before s)).2))
      (hbefore : State.Spares before) (hafter : ∀ s, State.Spares (after s))
      (hsame : ∀ s x, after (s.within x) = after s)
      (hm : Regular F loud m) : Regular F loud n
  | localScope {α : Type} {loud : Bool} {m : Lower α} (hm : Regular F loud m) :
      Regular F loud (Lower.localScope m)
  /-- What is reported while an initializer is tried may be taken back. -/
  | constantInitializer {loud : Bool} {ty : Ty} {init : ExprId} {line : Nat}
      (h : Regular F false (initializerValue ty init line)) :
      Regular F loud (Lower.constantInitializer ty init line)
  | ofEq {α : Type} {loud : Bool} {m n : Lower α} (heq : ∀ s, m env s = n env s)
      (hn : Regular F loud n) : Regular F loud m
  | silent {α : Type} {m : Lower α} (hm : Regular F true m) : Regular F false m

namespace Regular

variable {env : Env} {F : Footing env} {loud : Bool} {m : Lower α} {next : α → Lower β}

/-! ### Basic steps -/

@[grind ←] theorem pure (a : α) : Regular F loud (Pure.pure a : Lower α) :=
  .quiet (fun _ => a) id (fun _ => rfl) (fun _ _ => rfl) fun _ _ => rfl

@[grind ←] theorem askEnv : Regular F loud Lower.env :=
  .quiet (fun _ => env) id (fun _ => rfl) (fun _ _ => rfl) fun _ _ => rfl

theorem read {f : State → α} (hf : ∀ s x, f (s.within x) = f s) : Regular F loud (Lower.read f) :=
  .quiet f id (fun _ => rfl) hf fun _ _ => rfl

theorem update {f : State → State} (hf : State.Spares f) : Regular F loud (Lower.update f) :=
  .quiet (fun _ => ()) f (fun _ => rfl) (fun _ _ => rfl) hf

theorem readJumps {f : State → α} (h : F.Jumps) (hf : ∀ s q, f (s.withDiags q) = f s) :
    Regular F loud (Lower.read f) :=
  .jumps h f id (fun _ => rfl) hf fun _ _ => rfl

theorem updateJumps {f : State → State} (h : F.Jumps) (hf : State.SparesDiags f) :
    Regular F loud (Lower.update f) :=
  .jumps h (fun _ => ()) f (fun _ => rfl) (fun _ _ => rfl) hf

@[grind ←] theorem updateScopes (f : ScopeStack → ScopeStack) :
    Regular F loud (Lower.updateScopes f) := .update fun _ _ => rfl

@[grind ←] theorem updateBuilder (f : Builder → Builder) :
    Regular F loud (Lower.updateBuilder f) := .update fun _ _ => rfl

@[grind ←] theorem withBuilder (f : Builder → α × Builder) : Regular F loud (Lower.withBuilder f) :=
  .quiet (fun s => (f s.builder).1) (fun s => { s with builder := (f s.builder).2 })
    (fun _ => rfl) (fun _ _ => rfl) fun _ _ => rfl

@[grind ←] theorem withTypes (f : TypeTable → α × TypeTable) : Regular F loud (Lower.withTypes f) :=
  .withBuilder _

@[grind ←] theorem types : Regular F loud Lower.types := .read fun _ _ => rfl

@[grind ←] theorem currentBlock : Regular F loud Lower.currentBlock := .read fun _ _ => rfl

@[grind ←] theorem setBlock (b : BlockId) : Regular F loud (Lower.setBlock b) := .updateBuilder _

/-! ### Combinations -/

@[grind ←] theorem bind (hm : Regular F loud m) (hnext : ∀ a, Regular F loud (next a)) :
    Regular F loud (m >>= next) := .bindProduced hm fun a _ => hnext a

/-- It does not matter how bad the problem is if the step may be silent. -/
theorem complain (kind : DiagnosticKind) (line : Nat) :
    Regular F false (Lower.failWith kind line : Lower α) := .failWith line fun h => nomatch h

@[grind ←] theorem ignoring (hm : Regular F false m) : Regular F loud (Lower.ignoring m) :=
  .bind (.attempt hm) fun _ => .pure _

@[grind ←] theorem discard (hm : Regular F loud m) : Regular F loud (Functor.discard m) :=
  .bind hm fun _ => .pure _

@[grind ←] theorem describe (ty : Ty) : Regular F loud (Lower.describe ty) :=
  .bind .types fun _ => .pure _

@[grind ←] theorem withLvalue (on : Bool) (hm : Regular F loud m) :
    Regular F loud (Lower.withLvalue on m) :=
  .between (fun s => { s with lvalue := on }) (fun s t => { t with lvalue := s.lvalue })
    (fun _ => rfl) (fun _ _ => rfl) (fun _ _ _ => rfl) (fun _ _ => rfl) hm

@[grind ←] theorem inNamespace (name : String) (hm : Regular F loud m) :
    Regular F loud (Lower.inNamespace name m) :=
  .between (fun s => { s with scopes := s.scopes.pushNamespace name })
    (fun _ t => { t with scopes := t.scopes.popNamespace name })
    (fun _ => rfl) (fun _ _ => rfl) (fun _ _ _ => rfl) (fun _ _ => rfl) hm

@[grind ←] theorem probe (hm : Regular F loud m) : Regular F loud (Lower.probe m) :=
  .between (fun s => { s with builder := s.builder.snapshot.2 })
    (fun s t => { t with
      builder := t.builder.restore s.builder.snapshot.1 .types, lvalue := s.lvalue })
    (fun _ => rfl) (fun _ _ => rfl) (fun _ _ _ => rfl) (fun _ _ => rfl) hm

attribute [grind ←] fail halt report failWith emit attempt bindTried localScope


/-! ### Nodes

A node that is looked up is there, or its handle is out of range. -/

theorem bindPresent {h : Handle} {d : Nat} {o : Option α} (hbears : F.Bears d h)
    (hrange : o = none → ¬h.InRange env.tree) (hnext : ∀ a, o = some a → Regular F loud (next a)) :
    Regular F loud (Lower.present h o >>= next) := by
  cases o with
  | none =>
    exact .bindProduced (.halt (F.dangling hbears (hrange rfl))) fun _ h => absurd h Produces.not_halt
  | some a => exact .ofEq (n := next a) (fun _ => rfl) (hnext a rfl)

theorem bindExpr {id : ExprId} {d : Nat} {next : Expr → Lower β} (hid : F.Bears d (.expr id))
    (hnext : ∀ e, env.tree.expr? id = some e → Regular F loud (next e)) :
    Regular F loud (Lower.expr id >>= next) :=
  .ofEq (n := Lower.present (.expr id) (env.tree.expr? id) >>= next) (fun _ => rfl)
    (bindPresent hid (by simp [Tree.expr?, Handle.InRange]) hnext)

theorem bindStmt {id : StmtId} {d : Nat} {next : Stmt → Lower β} (hid : F.Bears d (.stmt id))
    (hnext : ∀ e, env.tree.stmt? id = some e → Regular F loud (next e)) :
    Regular F loud (Lower.stmt id >>= next) :=
  .ofEq (n := Lower.present (.stmt id) (env.tree.stmt? id) >>= next) (fun _ => rfl)
    (bindPresent hid (by simp [Tree.stmt?, Handle.InRange]) hnext)

theorem bindSpec {id : SpecId} {d : Nat} {next : Spec → Lower β} (hid : F.Bears d (.spec id))
    (hnext : ∀ e, env.tree.spec? id = some e → Regular F loud (next e)) :
    Regular F loud (Lower.spec id >>= next) :=
  .ofEq (n := Lower.present (.spec id) (env.tree.spec? id) >>= next) (fun _ => rfl)
    (bindPresent hid (by simp [Tree.spec?, Handle.InRange]) hnext)

theorem bindDeclarator {id : DeclaratorId} {d : Nat} {next : Declarator → Lower β}
    (hid : F.Bears d (.declarator id))
    (hnext : ∀ e, env.tree.declarator? id = some e → Regular F loud (next e)) :
    Regular F loud (Lower.declarator id >>= next) :=
  .ofEq (n := Lower.present (.declarator id) (env.tree.declarator? id) >>= next) (fun _ => rfl)
    (bindPresent hid (by simp [Tree.declarator?, Handle.InRange]) hnext)

end Regular

end TreeFlow.Lower
