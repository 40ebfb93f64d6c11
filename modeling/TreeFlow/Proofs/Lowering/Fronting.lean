import TreeFlow.Proofs.Graph.Fronted
import TreeFlow.Proofs.Lowering.Spanning
import TreeFlow.Proofs.Lowering.Written

/-!
# Expressions keep stack slots at the front

Wherever an expression is lowered, and whether it can be or not, the slots of all functions stand at their fronts
behind it if they did before (`fronting_descentTo`). An instruction more goes behind the slots and a slot to their
end. The operators that choose between blocks only send control to blocks that they made in a function with a
body, and so never back to its first block.
-/

namespace TreeFlow.Lower

variable {α β : Type} {env : Env} {s t : State} {line : Nat}

/-! ### Judgement -/

/-- If the slots stand at the front in the first state, they do in the second one. -/
def State.StaysFronted (s t : State) : Prop := s.builder.IsFronted → t.builder.IsFronted

/-- A step keeps the slots at the front, whatever becomes of it. -/
abbrev Fronting (m : Lower α) : Prop := Brings State.StaysFronted State.StaysFronted m

instance : Composes State.StaysFronted State.StaysFronted where
  of_same h hs := hs.of_same h.func h.functions
  fails_of_same h hs := hs.of_same h.func h.functions
  trans h h' hs := h' (h hs)
  fails h h' hs := h' (h hs)
  bracket := id
  fails_bracket := id

/-- What fails in the builder leaves it as it was. -/
theorem builder_of_emit_failed {m : Build α} (h : emit line m env s = (.failed, t)) : t.builder = s.builder := by
  unfold emit at h
  split at h
  · cases h
  · cases h
  · obtain ⟨-, rfl⟩ := Prod.mk.inj h
    rfl

/-- A step of the builder keeps the slots at the front if it does so wherever it yields something. -/
theorem Fronting.emit {m : Build α}
    (hm : ∀ b a b', b.IsFronted → m b = .ok (a, b') → b'.IsFronted) : Fronting (emit line m) := fun _ _ =>
  ⟨fun _ _ ht hs => hm _ _ _ hs (Leaves.of_emit ht), fun _ ht hs => builder_of_emit_failed ht ▸ hs⟩

instance : Emits State.StaysFronted State.StaysFronted where
  emit _ _ hm := Fronting.emit fun _ _ _ hb hrun => hb.takes (hm _ _ _ hrun)
  weaken := id
  composes := inferInstance

namespace Fronting

@[grind ←] theorem setBlock (b : BlockId) : Fronting (Lower.setBlock b) := fun _ _ =>
  ⟨fun _ _ ht hs => (Prod.mk.inj ht).2 ▸ hs.of_same rfl rfl, fun _ ht => (by cases ht)⟩

@[grind ←] theorem currentBlock : Fronting Lower.currentBlock := .read _

theorem terminate {term : Terminator} (h : .first ∉ term.successors) :
    Fronting (Lower.emit line (Build.terminate term)) := .emit fun _ _ _ hb hrun => hb.terminate h hrun

theorem predecessors (c : BlockId) : Fronting (Lower.emit line (Build.predecessors c)) :=
  .emit fun _ _ _ hb hrun => by
    obtain ⟨⟨id, f⟩, _, hfunction, hrest⟩ := Build.exists_of_bind hrun
    obtain ⟨rfl, -, -⟩ := Build.Steady.function_ok hfunction
    cases hrest
    exact hb

/-- A new block is not the first one, whatever it is used for. -/
theorem bind_newBlock {next : BlockId → Lower β} (hnext : ∀ b, b ≠ .first → Fronting (next b)) :
    Fronting (Lower.emit line Build.newBlock >>= next) := fun env s => by
  refine ⟨fun b u hu hs => ?_, fun u hu hs => ?_⟩
  · obtain ⟨c, t, ht, hu⟩ := bind_eq_done hu
    obtain ⟨hc, hfronted⟩ := hs.newBlock (Leaves.of_emit ht)
    exact (hnext c hc).of_eq_done hu hfronted
  · rcases bind_eq_failed hu with hu | ⟨c, t, ht, hu⟩
    · exact builder_of_emit_failed hu ▸ hs
    · obtain ⟨hc, hfronted⟩ := hs.newBlock (Leaves.of_emit ht)
      exact (hnext c hc env t).2 u hu hfronted

@[grind ←] theorem goto {b : BlockId} (hb : b ≠ .first) : Fronting (Lower.emit line (Build.goto b)) :=
  .terminate (by simpa [Terminator.successors] using hb.symm)

@[grind ←] theorem branch (c : Operand) {yes no : BlockId} (hyes : yes ≠ .first) (hno : no ≠ .first) :
    Fronting (Lower.emit line (Build.branch c yes no)) :=
  .terminate (by simpa [Terminator.successors] using ⟨hyes.symm, hno.symm⟩)

end Fronting

/-! ### Operators that choose -/

/-- However the children are lowered, the slots are kept at the front. -/
abbrev FrontingDescent (sub : Descent) : Prop := BringsDescent State.StaysFronted State.StaysFronted sub

section Choices

variable {sub : Descent} (h : FrontingDescent sub) (line : Nat)
include h

theorem fronting_logical (and : Bool) (left right : ExprId) : Fronting (logical sub and left right line) := by
  refine .bind (brings_truth h left line) fun lb => ?_
  split
  · grind
  · refine .bind Fronting.currentBlock fun o => ?_
    cases o with
    | none => grind
    | some source =>
      refine Fronting.bind_newBlock fun rightBlock hright => Fronting.bind_newBlock fun endBlock hend => ?_
      cases and <;> refine .bind (Fronting.branch _ ?_ ?_) fun _ => ?_ <;> grind

theorem fronting_alternativeIn (block : BlockId) (e : ExprId) : Fronting (alternativeIn sub block e) := by
  grind [alternativeIn]

omit h in
theorem fronting_joinFrom (source : BlockId) {join : BlockId} (hjoin : join ≠ .first) (v : Value) (ty : Ty) :
    Fronting (joinFrom source join v ty line) := by grind [joinFrom]

theorem fronting_conditional (cond yes no : ExprId) : Fronting (conditional sub cond yes no line) := by
  refine .bind (brings_truth h cond line) fun c => ?_
  refine Fronting.bind_newBlock fun yesBlock hyes => Fronting.bind_newBlock fun noBlock hno => ?_
  refine Fronting.bind_newBlock fun join hjoin => ?_
  refine .bind (Fronting.branch c hyes hno) fun _ => ?_
  refine .bind (fronting_alternativeIn h yesBlock yes) fun y => ?_
  refine .bind (fronting_alternativeIn h noBlock no) fun n => ?_
  dsimp only
  split
  · split
    · grind
    · refine .bind (fronting_joinFrom line _ hjoin _ _) fun fromYes => ?_
      refine .bind (fronting_joinFrom line _ hjoin _ _) fun fromNo => ?_
      grind
  · grind

end Choices

/-! ### All kinds -/

/-- **Every expression keeps the slots of functions at their fronts.** -/
theorem fronting_descentTo (depth : Nat) : FrontingDescent (descentTo depth) :=
  brings_descentTo (fun h and left right line => fronting_logical h line and left right)
    (fun h cond yes no line => fronting_conditional h line cond yes no) depth

@[grind ←] theorem fronting_descend {step : Descent → Lower α} (h : ∀ sub, FrontingDescent sub → Fronting (step sub)) :
    Fronting (descend step) := fun env s => h _ (fronting_descentTo env.tree.exprDepth) env s

@[grind ←] theorem fronting_rvalue (e : ExprId) : Fronting (rvalue e) :=
  fronting_descend fun _ h => brings_subRvalue h e

/-! ### Initializers -/

section Initializers

variable (ty : Ty) (init : ExprId) (line : Nat)

/-- Of an attempt no code is left. -/
@[grind ←] theorem fronting_constantInitializer : Fronting (constantInitializer ty init line) := by
  intro env s
  have hvalue := calm_initializerValue ty init line env { s with builder := s.builder.snapshot.2 }
  have hundone : ∀ t, State.Peeks { s with builder := s.builder.snapshot.2 } t → ∀ keep, s.builder.IsFronted →
      (t.builder.restore s.builder.snapshot.1 keep).IsFronted := fun t ht keep hs => by
    rw [Builder.restore_eq ht.mod keep]
    exact hs.of_same rfl rfl
  unfold Ends at hvalue
  simp only [constantInitializer]
  rcases hrun : initializerValue ty init line env { s with builder := s.builder.snapshot.2 } with
    ⟨op | _ | _, t⟩ <;> rw [hrun] at hvalue
  · dsimp only
    cases op.const? <;> exact ⟨fun _ u hu => (Prod.mk.inj hu).2 ▸ hundone t hvalue _, fun _ hu => (by cases hu)⟩
  · exact ⟨fun _ u hu => (Prod.mk.inj hu).2 ▸ hundone t hvalue _, fun _ hu => (by cases hu)⟩
  · exact ⟨fun _ _ hu => (by cases hu), fun _ hu => (by cases hu)⟩

@[grind ←] theorem fronting_arrayInitializer : Fronting (arrayInitializer ty init line) := by
  cases ty <;> grind [arrayInitializer]

@[grind ←] theorem fronting_storeArray (slot : Operand) : Fronting (storeArray slot ty init line) := by
  refine .bind (.expr init) fun e => ?_
  split
  · grind
  · refine .bind (fronting_descend fun _ h => brings_subStorage h init) fun v => ?_
    grind

@[grind ←] theorem fronting_storeInitializer (slot : Operand) : Fronting (storeInitializer slot ty init line) := by
  unfold storeInitializer
  split
  · exact fronting_storeArray ty init line slot
  · refine .bind (fronting_rvalue init) fun v => ?_
    grind

end Initializers

end TreeFlow.Lower
