import TreeFlow.Proofs.Lowering.Regions
import TreeFlow.Proofs.Lowering.RegularStatement

/-!
# A failed attempt leaves no trace

The initializer of a global is first tried as a constant. To see whether it is one, it has to be lowered:
it may call functions, bring string literals along, define aggregates where it asks for their size, look
at other expressions in attempts of its own, and report errors. Three things are put back when it is not a
constant, each by itself: the builder from its snapshot, the scopes from a copy, and the queue of
diagnostics, which is cut back to the length that it had. Together they put back all of the state
(`constantInitializer_none`).

For the queue, the number of errors must be right again, too. It is, since every step only ever adds to
the queue, each error with its count (`Regular.gains`). Of the builder it is known what a snapshot brings
back (`Builder.restore_eq`), and the rest of the state stays as it is while an expression is lowered
(`State.Peeks`, `Moded`).
-/

namespace TreeFlow

/-! ### Queues -/

namespace DiagnosticQueue

variable (q : DiagnosticQueue) (ds es : List Diagnostic)

/-- The queue with more diagnostics behind those that are there. -/
def extend : DiagnosticQueue := ⟨q.items ++ ds.toArray, q.errors + ds.countP (·.isError)⟩

@[simp] theorem extend_nil : q.extend [] = q := by simp [extend]

theorem extend_extend : (q.extend ds).extend es = q.extend (ds ++ es) := by
  simp [extend, Array.append_assoc, Nat.add_assoc]

theorem push_eq_extend (d : Diagnostic) : q.push d = q.extend [d] := by
  cases h : d.isError <;> simp [push, extend, h]

/-- What was added can be taken back. -/
theorem truncate_extend : (q.extend ds).truncate q.size = q := by
  simp [truncate, extend, size]

end DiagnosticQueue

namespace Lower

variable {α β : Type} {env : Env} {loud : Bool} {m : Lower α} {s t u : State}

/-! ### Steps only add to the queue -/

/-- From one state to another, the queue was only added to. -/
def State.Gains (s t : State) : Prop := ∃ ds, t.diags = s.diags.extend ds

namespace State.Gains

theorem of_diags (h : t.diags = s.diags) : s.Gains t := ⟨[], by rw [h, DiagnosticQueue.extend_nil]⟩

theorem refl (s : State) : s.Gains s := .of_diags rfl

theorem trans (hst : s.Gains t) (htu : t.Gains u) : s.Gains u := by
  obtain ⟨ds, hds⟩ := hst
  obtain ⟨es, hes⟩ := htu
  exact ⟨ds ++ es, by rw [hes, hds, DiagnosticQueue.extend_extend]⟩

theorem report (kind : DiagnosticKind) (line : Nat) : s.Gains (Lower.report kind line env s).2 :=
  ⟨[_], s.diags.push_eq_extend _⟩

/-- Cut back to its old length, the queue is the old one. -/
theorem truncate_eq (h : s.Gains t) : t.diags.truncate s.diags.size = s.diags := by
  obtain ⟨ds, hds⟩ := h
  rw [hds, DiagnosticQueue.truncate_extend]

end State.Gains

/-- A step only adds to the queue, whatever becomes of it. -/
def Gains (env : Env) (m : Lower α) : Prop := ∀ s : State, s.Gains (m env s).2

namespace Gains

theorem bind {next : α → Lower β} (hm : Gains env m) (hnext : ∀ a, Produces env m a → Gains env (next a)) :
    Gains env (m >>= next) := by
  intro s
  show s.Gains (Lower.bind m next env s).2
  have hs := hm s
  unfold Lower.bind
  rcases hrun : m env s with ⟨a | _ | _, t⟩ <;> rw [hrun] at hs
  · exact hs.trans (hnext a ⟨s, t, hrun⟩ t)
  · exact hs
  · exact hs

theorem attempt (hm : Gains env m) : Gains env (Lower.attempt m) := by
  intro s
  have hs := hm s
  unfold Lower.attempt
  rcases hrun : m env s with ⟨_ | _ | _, t⟩ <;> rw [hrun] at hs <;> exact hs

theorem emit (line : Nat) (b : Build α) : Gains env (Lower.emit line b) := by
  intro s
  unfold Lower.emit
  rcases b s.builder with fault | _
  · cases fault with
    | missingBlock => exact .refl s
    | _ => exact .report _ line
  · exact .of_diags rfl

theorem localScope (hm : Gains env m) : Gains env (Lower.localScope m) := by
  intro s
  unfold Lower.localScope
  split
  · exact hm s
  · next opened _ =>
    have hs : s.Gains (m env { s with scopes := opened }).2 := hm { s with scopes := opened }
    dsimp only
    split
    · exact hs.trans (.of_diags rfl)
    · exact hs.trans (.report _ _)

theorem constantInitializer {ty : Ty} {init : ExprId} {line : Nat}
    (h : Gains env (initializerValue ty init line)) : Gains env (Lower.constantInitializer ty init line) := by
  intro s
  have hs : s.Gains (initializerValue ty init line env { s with builder := s.builder.snapshot.2 }).2 :=
    h { s with builder := s.builder.snapshot.2 }
  rcases hrun : initializerValue ty init line env { s with builder := s.builder.snapshot.2 } with
    ⟨op | _ | _, t⟩ <;> rw [hrun] at hs <;> simp only [Lower.constantInitializer, hrun]
  · cases op.const? with
    | none => exact .of_diags hs.truncate_eq
    | some c => exact hs.trans (.of_diags rfl)
  · exact .of_diags hs.truncate_eq
  · exact hs

end Gains

/-- **A regular step only adds to the queue**, each error with its count. -/
theorem Regular.gains {F : Footing env} (h : Regular F loud m) : Gains env m := by
  induction h with
  | quiet value change hm hvalue hchange =>
    intro s
    rw [hm]
    exact .of_diags (hchange.diags_eq s)
  | jumps _ value change hm hvalue hchange =>
    intro s
    rw [hm]
    exact .of_diags (hchange.diags_eq s)
  | fail => exact .refl
  | halt => exact .refl
  | report kind line => exact fun s => .report kind line
  | failWith line _ => exact fun s => .report _ line
  | emit line b => exact .emit line b
  | bindProduced _ _ ihm ihnext => exact ihm.bind ihnext
  | attempt _ ih => exact ih.attempt
  | bindTried _ _ _ ihm ihsome ihnone =>
    refine ihm.attempt.bind fun o _ => ?_
    cases o with
    | none => exact ihnone
    | some a => exact ihsome a
  | between before after hn hbefore hafter _ _ ih =>
    intro s
    have hbetween : s.Gains _ := .trans (.of_diags (hbefore.diags_eq s)) (ih (before s))
    rw [hn]
    exact hbetween.trans (.of_diags ((hafter s).diags_eq _))
  | localScope _ ih => exact ih.localScope
  | constantInitializer _ ih => exact .constantInitializer ih
  | ofEq heq _ ih =>
    intro s
    rw [heq]
    exact ih s
  | silent _ ih => exact ih

/-! ### Attempts -/

section Attempts

variable {ty : Ty} {init : ExprId} {line : Nat}

/-- The mode is the same once an initializer was lowered. -/
theorem moded_initializerValue : Moded (initializerValue ty init line) := by
  have hvalue : Moded (rvalue init) := fun env s =>
    Moded.of_sprouting (brings_subRvalue (sprouting_descentTo env.tree.exprDepth) init) env s
  refine .bind hvalue fun v => ?_
  split
  · exact .fail
  · exact Moded.of_sprouting (brings_convert v ty line)

theorem gains_initializerValue : Gains env (initializerValue ty init line) :=
  (regular_initializerValue (F := .loose env) ty line trivial).gains

/-- All that an attempt did is undone when the builder, the scopes and the queue are put back. -/
theorem undone_eq (hpeeks : State.Peeks { s with builder := s.builder.snapshot.2 } t)
    (hgains : s.Gains t) (hmode : t.lvalue = s.lvalue) :
    { t with
      builder := t.builder.restore s.builder.snapshot.1 .nothing
      scopes := s.scopes
      diags := t.diags.truncate s.diags.size } = s := by
  have hbuilder : t.builder.restore s.builder.snapshot.1 .nothing = s.builder :=
    Builder.restore_eq hpeeks.mod .nothing
  have hfunc : t.func = s.func := hpeeks.func
  have hloops : t.loops = s.loops := hpeeks.loops
  have hpending : t.pending = s.pending := hpeeks.pending
  have hstartup : t.startup = s.startup := hpeeks.startup
  rw [hbuilder, hgains.truncate_eq, hmode, hfunc, hloops, hpending, hstartup]

/-- **A failed attempt leaves no trace.** If an initializer does not come to a constant of the type of the
variable, whatever it is and wherever it is tried, then the state is the very one from before: the module
with its functions, globals, aggregates and startup order, the cursor, all names, the mode, the queue of
diagnostics with its count of errors, and what the place in the tree determines. -/
theorem constantInitializer_none (h : constantInitializer ty init line env s = (.done none, t)) : t = s := by
  have hpeeks := calm_initializerValue ty init line env { s with builder := s.builder.snapshot.2 }
  have hgains : s.Gains (initializerValue ty init line env { s with builder := s.builder.snapshot.2 }).2 :=
    gains_initializerValue { s with builder := s.builder.snapshot.2 }
  have hmode := @moded_initializerValue ty init line env { s with builder := s.builder.snapshot.2 }
  unfold constantInitializer at h
  unfold Ends at hpeeks
  dsimp only at h
  rcases hrun : initializerValue ty init line env { s with builder := s.builder.snapshot.2 } with
    ⟨op | _ | _, u⟩ <;> rw [hrun] at h hpeeks hgains hmode
  · have hmode : u.lvalue = s.lvalue := hmode.1 op u rfl
    dsimp only at h
    cases hconst : op.const? with
    | none =>
      rw [hconst] at h
      exact (Prod.mk.inj h).2.symm.trans (undone_eq hpeeks hgains hmode)
    | some c =>
      rw [hconst] at h
      cases h
  · exact (Prod.mk.inj h).2.symm.trans (undone_eq hpeeks hgains (hmode.2 u rfl))
  · cases h

/-- An initializer that cannot be lowered at all does not come to a constant. -/
theorem constantInitializer_of_not_isDone
    (hvalue : ¬(initializerValue ty init line env { s with builder := s.builder.snapshot.2 }).1.isDone)
    (hdone : (constantInitializer ty init line env s).1.isDone) :
    constantInitializer ty init line env s = (.done none, (constantInitializer ty init line env s).2) := by
  unfold constantInitializer at hdone ⊢
  dsimp only at hdone ⊢
  rcases hrun : initializerValue ty init line env { s with builder := s.builder.snapshot.2 } with ⟨_ | _ | _, u⟩
  · exact absurd (by rw [hrun]; rfl) hvalue
  · rfl
  · rw [hrun] at hdone
    exact absurd hdone Bool.false_ne_true

end Attempts

/-- The tree of `int x = (sizeof(struct S { int y; }), "ab", nope);`. -/
def hopelessTree : Tree where
  exprs := #[⟨.sizeOf ⟨1⟩, 1⟩, ⟨.str "ab", 1⟩, ⟨.identifier "nope", 1⟩, ⟨.comma ⟨1⟩ ⟨2⟩, 1⟩, ⟨.comma ⟨0⟩ ⟨3⟩, 1⟩]
  specs := #[⟨.named "int", 1⟩, ⟨.struct ⟨some "S", some [⟨.normal, ⟨0⟩, [⟨0⟩]⟩]⟩, 1⟩]
  declarators := #[⟨.identifier "y", 1⟩, ⟨.identifier "x", 1⟩, ⟨.init ⟨1⟩ ⟨4⟩, 1⟩]
  stmts := #[⟨.variable ⟨.normal, ⟨0⟩, [⟨2⟩]⟩, 1⟩]
  root := [⟨0⟩]

/-- The attempt defines a struct, adds a global for the text and queues an error, and all of it is gone. -/
theorem constantInitializer_none_hopeless :
    let env : Env := ⟨hopelessTree, {}⟩
    let s : State := { State.initial {} with lvalue := true }
    let u := (initializerValue .word ⟨4⟩ 1 env { s with builder := s.builder.snapshot.2 }).2
    (u.builder.mod.types.isDefined "struct.S" ∧ u.builder.mod.globals.size = 1 ∧ u.diags.hasErrors) ∧
      ∃ t, constantInitializer .word ⟨4⟩ 1 env s = (.done none, t) ∧ t = s := by
  have hdid : let u := (initializerValue .word ⟨4⟩ 1 ⟨hopelessTree, {}⟩
        { State.initial {} with lvalue := true, builder := (State.initial {}).builder.snapshot.2 }).2
      u.builder.mod.types.isDefined "struct.S" ∧ u.builder.mod.globals.size = 1 ∧ u.diags.hasErrors := by
    decide +kernel
  have hvalue : ¬(initializerValue .word ⟨4⟩ 1 ⟨hopelessTree, {}⟩
      { State.initial {} with lvalue := true, builder := (State.initial {}).builder.snapshot.2 }).1.isDone := by
    decide +kernel
  have hdone : (constantInitializer .word ⟨4⟩ 1 ⟨hopelessTree, {}⟩
      { State.initial {} with lvalue := true }).1.isDone := by decide +kernel
  have hrun := constantInitializer_of_not_isDone hvalue hdone
  exact ⟨hdid, _, hrun, constantInitializer_none hrun⟩

end Lower

end TreeFlow
