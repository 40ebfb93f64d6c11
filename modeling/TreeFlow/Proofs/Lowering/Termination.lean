import TreeFlow.Proofs.Lowering.RegularStatement
import TreeFlow.Proofs.Tree.Cycles

/-!
# Lowering ends

The walk over a tree follows the handles in it. Validation finds every handle that is out of range, but not
those that form a cycle, on which the walk never ends (`compile_cyclic`). Where no handle that can be reached
leads back to itself, no chain of handles is as long as the walk may go deep, and the walk always ends
(`compile_ends`).
-/

namespace TreeFlow

namespace Lower

variable {α β : Type} {env : Env}

/-! ### Why a regular step is stuck -/

/-- A step is stuck for an allowed reason only. -/
def Footing.Supports (F : Footing env) (m : Lower α) : Prop :=
  ∀ s why, (m env s).1 = .stuck why → F.Allows why

namespace Footing.Supports

variable {F : Footing env} {m : Lower α}

theorem of_ne_stuck (h : ∀ s why, (m env s).1 ≠ .stuck why) : F.Supports m :=
  fun s why hstuck => absurd hstuck (h s why)

theorem bind {next : α → Lower β} (hm : F.Supports m)
    (hnext : ∀ a, Produces env m a → F.Supports (next a)) : F.Supports (m >>= next) := by
  intro s why h
  change (Lower.bind m next env s).1 = _ at h
  unfold Lower.bind at h
  rcases hrun : m env s with ⟨a | _ | _, u⟩ <;> rw [hrun] at h
  · exact hnext a ⟨s, u, hrun⟩ u why h
  · exact nomatch h
  · exact hm s why (by rw [hrun, Outcome.stuck.inj h])

theorem attempt (hm : F.Supports m) : F.Supports (Lower.attempt m) := by
  intro s why h
  unfold Lower.attempt at h
  rcases hrun : m env s with ⟨a | _ | _, u⟩ <;> rw [hrun] at h
  · exact nomatch h
  · exact nomatch h
  · exact hm s why (by rw [hrun, Outcome.stuck.inj h])

theorem emit (line : Nat) (m : Build α) : F.Supports (Lower.emit line m) := by
  intro s why h
  unfold Lower.emit at h
  rcases hrun : m s.builder with fault | ⟨a, b⟩ <;> rw [hrun] at h
  · cases fault with
    | missingBlock id => exact Outcome.stuck.inj h ▸ F.missingBlock id
    | _ => exact nomatch h
  · exact nomatch h

theorem localScope (hm : F.Supports m) : F.Supports (Lower.localScope m) := by
  intro s why h
  unfold Lower.localScope at h
  split at h
  · exact hm s why h
  · next opened _ =>
    refine hm { s with scopes := opened } why ?_
    dsimp only at h
    split at h <;> exact h

theorem constantInitializer {ty : Ty} {init : ExprId} {line : Nat}
    (h : F.Supports (initializerValue ty init line)) :
    F.Supports (Lower.constantInitializer ty init line) := by
  intro s why hstuck
  rcases hrun : initializerValue ty init line env { s with builder := s.builder.snapshot.2 } with
    ⟨op | _ | _, u⟩ <;> simp only [Lower.constantInitializer, hrun] at hstuck
  · cases hconst : op.const? <;> simp [hconst] at hstuck
  · exact nomatch hstuck
  · exact h _ why (by rw [hrun, Outcome.stuck.inj hstuck])

end Footing.Supports

theorem Regular.supports {F : Footing env} {loud : Bool} {m : Lower α} (h : Regular F loud m) :
    F.Supports m := by
  induction h with
  | quiet value change hm hvalue hchange =>
    refine .of_ne_stuck fun s why => ?_
    rw [hm]
    exact nofun
  | jumps _ value change hm hvalue hchange =>
    refine .of_ne_stuck fun s why => ?_
    rw [hm]
    exact nofun
  | fail => exact .of_ne_stuck fun _ _ => nofun
  | halt hwhy => exact fun s why h => Outcome.stuck.inj h ▸ hwhy
  | report kind line => exact .of_ne_stuck fun _ _ => nofun
  | failWith line _ => exact .of_ne_stuck fun _ _ => nofun
  | emit line m => exact .emit line m
  | bindProduced hm hnext ihm ihnext => exact ihm.bind ihnext
  | attempt hm ih => exact ih.attempt
  | bindTried hm hsome hnone ihm ihsome ihnone =>
    refine ihm.attempt.bind fun o _ => ?_
    cases o with
    | none => exact ihnone
    | some a => exact ihsome a
  | between before after hn hbefore hafter hsame hm ih =>
    intro s why h
    rw [hn] at h
    exact ih (before s) why h
  | localScope hm ih => exact ih.localScope
  | constantInitializer h ih => exact .constantInitializer ih
  | ofEq heq hn ih =>
    intro s why h
    rw [heq] at h
    exact ih s why h
  | silent hm ih => exact ih

/-! ### Units -/

section Units

variable {F : Footing env} (hjumps : F.Jumps) {σ : Type} (hook : DiagnosticHook σ)
include hjumps

theorem supports_declarations (acc : σ) {ids : List StmtId}
    (hids : ∀ id ∈ ids, F.Bears env.tree.stmtDepth (.stmt id)) :
    F.Supports (declarations hook ids acc) := by
  induction ids generalizing acc with
  | nil => exact .of_ne_stuck fun _ _ => nofun
  | cons id rest ih =>
    have hrest := fun acc => ih acc fun id hid => hids id (List.mem_cons_of_mem _ hid)
    have hsteps : ∀ (f : State → State), F.Supports (update f) := fun f => .of_ne_stuck fun _ _ => nofun
    refine (regular_global hjumps (hids id List.mem_cons_self)).supports.bind fun _ _ => ?_
    refine .bind (.of_ne_stuck fun _ _ => nofun) fun queue _ => .bind (hsteps _) fun _ _ => ?_
    refine .bind (.of_ne_stuck fun _ _ => nofun) fun env _ => ?_
    split
    · exact .of_ne_stuck fun _ _ => nofun
    · exact hrest _

theorem supports_completeUnit (start : σ) : F.Supports (completeUnit hook start) := by
  have hdeclarations : F.Supports (declarations hook (env.tree.externs ++ env.tree.root) start) :=
    supports_declarations hjumps hook start fun id hid => F.top hid
  have hfinish : Regular F false (ignoring finishStartup) := .ignoring regular_finishStartup
  exact .bind hdeclarations fun acc _ => .bind hfinish.supports fun _ _ =>
    .of_ne_stuck fun _ _ => nofun

end Units

/-! ### Steps that are stuck -/

theorem bind_stuck {m : Lower α} {next : α → Lower β} {s : State} {why : Stuck}
    (h : (m env s).1 = .stuck why) : ((m >>= next) env s).1 = .stuck why := by
  show (Lower.bind m next env s).1 = _
  unfold Lower.bind
  rcases hrun : m env s with ⟨_ | _ | _, t⟩ <;> simp_all

theorem attempt_stuck {m : Lower α} {s : State} {why : Stuck} (h : (m env s).1 = .stuck why) :
    (Lower.attempt m env s).1 = .stuck why := by
  unfold Lower.attempt
  rcases hrun : m env s with ⟨_ | _ | _, t⟩ <;> simp_all

/-! ### Trees without cycles -/

/-- Why the walk over a tree is stuck, but for the two reasons that have to do with its handles. -/
def Stuck.IsElsewhere (why : Stuck) : Prop := why ≠ .endless ∧ ∀ h, why ≠ .dangling h

/-- A handle bears a walk if, with the handles that the walk has come along, there are not more of its
sort left than the walk may go on. -/
def Bears (t : Tree) (d : Nat) (h : Handle) : Prop :=
  ∃ path, t.Trail path h ∧ (∀ a ∈ path, a.isStmt = h.isStmt) ∧
    (t.population h.isStmt).length ≤ path.length + d

section Bears

variable {t : Tree} {d : Nat} {h c : Handle}

theorem bears_start (hvalid : t.validate = .ok ()) (hreach : t.Reaches h)
    (hd : (t.population h.isStmt).length ≤ d) : Bears t d h :=
  ⟨[], .start hvalid hreach, by simp, by simpa using hd⟩

theorem Bears.inRange (hb : Bears t d h) : h.InRange t := by
  obtain ⟨path, htrail, -⟩ := hb
  exact htrail.inRange h List.mem_cons_self

theorem Bears.reaches (hb : Bears t d h) : t.Reaches h := by
  obtain ⟨path, htrail, -⟩ := hb
  exact htrail.reached

theorem Bears.pos (hb : Bears t d h) : 0 < d := by
  obtain ⟨path, htrail, hsort, hlength⟩ := hb
  have hmem : ∀ a ∈ h :: path, a ∈ t.population h.isStmt := fun a ha => by
    have hsame : a.isStmt = h.isStmt := (List.mem_cons.1 ha).elim (fun heq => by rw [heq]) (hsort a)
    exact hsame ▸ Tree.mem_population (htrail.inRange a ha)
  have hlt := htrail.length_lt hmem
  omega

theorem Bears.child (hvalid : t.validate = .ok ()) (hacyclic : t.IsAcyclic) (hb : Bears t (d + 1) h)
    (hc : c ∈ t.children h) (hsort : c.isStmt = h.isStmt) : Bears t d c := by
  obtain ⟨path, htrail, hpath, hlength⟩ := hb
  refine ⟨h :: path, htrail.step hvalid hacyclic hc, fun a ha => ?_, ?_⟩
  · rcases List.mem_cons.1 ha with rfl | ha
    · exact hsort.symm
    · exact (hpath a ha).trans hsort.symm
  · rw [hsort, List.length_cons]
    omega

end Bears

/-- The walk may go as deep as there are handles. -/
theorem length_population_le_exprDepth (t : Tree) : (t.population false).length ≤ t.exprDepth := by
  rw [Tree.length_population_others, Tree.exprDepth]
  calc t.exprSize ≤ 2 * (t.exprSize + 1) := by omega
    _ ≤ 2 * (t.exprSize + 1) * (t.specs.size + 1) := Nat.le_mul_of_pos_right _ (Nat.succ_pos _)

/-- In a tree without cycles a walk is not stuck because of the handles in it. -/
def Footing.ofAcyclic (env : Env) (hvalid : env.tree.validate = .ok ()) (hacyclic : env.tree.IsAcyclic) :
    Footing env where
  Allows := Stuck.IsElsewhere
  Bears := Lower.Bears env.tree
  missingBlock _ := ⟨nofun, fun _ => nofun⟩
  bottomless _ := ⟨nofun, fun _ => nofun⟩
  endless h := absurd h.pos (Nat.lt_irrefl 0)
  dangling h hrange := absurd h.inRange hrange
  child h hc hsort := h.child hvalid hacyclic hc hsort
  part h hc _ hother := by
    refine bears_start hvalid (h.reaches.child hc) ?_
    rw [Bool.not_eq_true] at hother
    rw [hother]
    exact length_population_le_exprDepth _
  anew h hother := by
    refine bears_start hvalid h.reaches ?_
    rw [Bool.not_eq_true] at hother
    rw [hother]
    exact length_population_le_exprDepth _
  top hid := by
    refine bears_start hvalid ⟨_, hid, .refl⟩ ?_
    show (env.tree.population true).length ≤ env.tree.stmtDepth
    rw [Tree.length_population_stmts, Tree.stmtDepth]
    omega
  Jumps := True

end Lower

namespace Tree

/-- The tree of `int x = 1 + 2;`. -/
def summingTree : Tree where
  exprs := #[⟨.integer 1, 1⟩, ⟨.integer 2, 1⟩, ⟨.binary .add ⟨0⟩ ⟨1⟩, 1⟩]
  specs := #[⟨.named "int", 1⟩]
  declarators := #[⟨.identifier "x", 1⟩, ⟨.init ⟨0⟩ ⟨2⟩, 1⟩]
  stmts := #[⟨.variable ⟨.normal, ⟨0⟩, [⟨1⟩]⟩, 1⟩]
  root := [⟨0⟩]

/-- The tree of a block that contains itself. -/
def cyclicTree : Tree where
  stmts := #[⟨.block [⟨0⟩], 1⟩]
  root := [⟨0⟩]

/-- However deep the walk may go, it goes as deep. -/
theorem statementTo_cyclic (depth : Nat) (s : Lower.State) :
    (Lower.statementTo depth ⟨0⟩ ⟨cyclicTree, {}⟩ s).1 = .stuck .endless := by
  induction depth generalizing s with
  | zero => rfl
  | succ depth ih =>
    have hbody : ∀ s, ((Lower.statementTo depth ⟨0⟩ >>= fun _ => pure ()) ⟨cyclicTree, {}⟩ s).1 =
        .stuck .endless := fun s => Lower.bind_stuck (ih s)
    refine Lower.bind_stuck (Lower.attempt_stuck ?_)
    show (Lower.localScope (Lower.statementTo depth ⟨0⟩ >>= fun _ => pure ()) ⟨cyclicTree, {}⟩ s).1 = _
    unfold Lower.localScope
    split
    · exact hbody s
    · dsimp only
      split <;> exact hbody _

end Tree

end TreeFlow
