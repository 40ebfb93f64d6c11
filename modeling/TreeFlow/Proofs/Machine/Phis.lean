import TreeFlow.Proofs.Machine.Storage
import TreeFlow.Proofs.Machine.Truth

/-!
# Phis of a block

When control has come to a block, its phis are run one after the other. Each of them reads its operand for the
block that control came from when it is its turn, and the phis in front of it have their new values by then. So
a phi yields what its operand was when control left that block, unless the operand is a phi in front of it:
then it yields the new value of that one (`Machine.Settles`, `Machine.BeforePhis.settles`).

Therefore **phis are evaluated together if none takes one that stands in front of it**
(`Machine.phis_together`), and if all operands have values, all phis are run (`Machine.BeforePhis.exists_passes`).
Phis that exchange their values along an edge are not: both end up with the value of one of them, and which one
that is depends on the order in which they stand (`Machine.phis_exchanging`).
-/

namespace TreeFlow

/-- The operand that a phi takes when control comes from a block. -/
def Function.source? (f : Function) (b : BlockId) (x : InstId) : Option Operand := do
  let i ← f.inst? x
  let sources ← i.kind.incoming?
  let (op, _) ← sources.find? fun (_, c) => some b == some c
  return op

namespace Machine

variable {p : Program} {f : Function} {below : List Activation} {m m' : Moment} {a : Activation}
  {b : BlockId} {x y : InstId} {xs rest : List InstId} {op : Operand} {v : RunValue} {w : World}
  {globals : Array UInt64}

/-! ### A single phi -/

/-- A phi reads its operand, and does nothing else. -/
theorem run_phi (hx : f.source? b x = some op) (hprev : a.prev = some b) : ∃ i, f.inst? x = some i ∧
    (∀ callee args, i.kind ≠ .call callee args) ∧
    Exec.run (instruction p f a x i) w = (operand p w.globals a op, w) := by
  obtain ⟨⟨kind, ty⟩, hi, hx⟩ := Option.bind_eq_some_iff.1 hx
  obtain ⟨sources, hsources, hx⟩ := Option.bind_eq_some_iff.1 hx
  obtain ⟨⟨op', c⟩, hfind, hx⟩ := Option.bind_eq_some_iff.1 hx
  obtain rfl := Option.some.inj hx
  cases kind with
  | phi _ =>
    cases hsources
    refine ⟨_, hi, fun callee args hkind => InstKind.noConfusion hkind, ?_⟩
    show Exec.run (incoming p a x sources) w = _
    rw [incoming, hprev, hfind]
    rfl
  | alloca | load | store | copy | binary | cmp | cast | offset | field | call => cases hsources

theorem lt_size_of_source (hx : f.source? b x = some op) : x.index < f.insts.size := by
  obtain ⟨i, hi, -⟩ := Option.bind_eq_some_iff.1 hx
  exact (Array.getElem?_eq_some_iff.1 hi).1

/-- An instruction that yields a value leaves what the others have yielded. -/
theorem operand_deliver_of_ne (hrest : a.rest = x :: rest) (hop : op ≠ .inst x) (v : RunValue) :
    operand p globals (a.deliver v) op = operand p globals a op := by
  rw [Activation.deliver, hrest]
  cases op with
  | const c => rfl
  | arg i => rfl
  | inst y =>
    have hne : x.index ≠ y.index := fun h => hop (congrArg (Operand.inst ⟨·⟩) h.symm)
    simp only [operand, Array.getElem?_setIfInBounds_ne hne]

/-- At a phi a call goes on with the value of its operand. -/
theorem pass_phi_iff (hf : p.module.function? m.call.func = some f) (hrest : m.call.rest = x :: rest)
    (hprev : m.call.prev = some b) (hx : f.source? b x = some op) : Pass p below m m' ↔
      ∃ v, operand p m.world.globals m.call op = .ok v ∧ m' = ⟨m.world, m.call.deliver v⟩ := by
  obtain ⟨i, hi, hcall, hrun⟩ := run_phi (p := p) (w := m.world) hx hprev
  constructor
  · intro hpass
    obtain ⟨v, hv, hm'⟩ := hpass.deliver hf hrest hi hcall
    obtain ⟨hv, hworld⟩ := Prod.mk.inj (hrun.symm.trans hv)
    refine ⟨v, hv, ?_⟩
    rw [← hm', hworld]
  · rintro ⟨v, hv, rfl⟩
    refine ⟨_, ?_, .refl⟩
    rw [Moment.machine, step_of_not_call hf hrest hi hcall, stepInstruction, hrun, hv]
    rfl

/-! ### One phi after the other -/

/-- What phis in a row have done to a call, with the values of operands read in the globals at hand: every one
of them has yielded the value that its operand had before the first of them was run, or that its operand has
now if it is a phi in front of it. -/
structure Settles (p : Program) (f : Function) (b : BlockId) (xs : List InstId) (m m' : Moment) : Prop where
  world : m'.world = m.world
  rest : m.call.rest = xs ++ m'.call.rest
  /-- Nothing else has another value. -/
  other : ∀ op, (∀ x ∈ xs, op ≠ .inst x) →
    operand p m.world.globals m'.call op = operand p m.world.globals m.call op
  value : ∀ before x after, xs = before ++ x :: after → ∃ op v, f.source? b x = some op ∧
    operand p m.world.globals m'.call (.inst x) = .ok v ∧
    ((∀ y ∈ before, op ≠ .inst y) → operand p m.world.globals m.call op = .ok v) ∧
    (∀ y ∈ before, op = .inst y → operand p m.world.globals m'.call op = .ok v)

theorem Settles.refl (m : Moment) : Settles p f b [] m m where
  world := rfl
  rest := rfl
  other _ _ := rfl
  value before x after h := by simp at h

/-- One more phi in front. -/
theorem Settles.cons (hrest : m.call.rest = x :: (xs ++ rest)) (hx : f.source? b x = some op)
    (hsize : x.index < m.call.values.size) (hv : operand p m.world.globals m.call op = .ok v)
    (hnew : x ∉ xs) (h : Settles p f b xs ⟨m.world, m.call.deliver v⟩ m') : Settles p f b (x :: xs) m m' := by
  have hfirst : operand p m.world.globals m'.call (.inst x) = .ok v := by
    rw [h.other (.inst x) fun y hy heq => hnew (Operand.inst.inj heq ▸ hy)]
    exact operand_deliver hrest hsize v
  have hkeeps : ∀ op, op ≠ .inst x →
      operand p m.world.globals (m.call.deliver v) op = operand p m.world.globals m.call op :=
    fun op hop => operand_deliver_of_ne hrest hop v
  exact {
    world := h.world
    rest := by
      have hdeliver : (m.call.deliver v).rest = xs ++ rest := by rw [Activation.deliver, hrest]
      rw [hrest, List.cons_append, ← hdeliver, ← h.rest]
    other := fun op hop => by
      obtain ⟨hne, hxs⟩ := List.forall_mem_cons.1 hop
      exact (h.other op hxs).trans (hkeeps op hne)
    value := fun before y after hsplit => by
      cases before with
      | nil =>
        obtain ⟨rfl, rfl⟩ := List.cons.inj hsplit
        exact ⟨op, v, hx, hfirst, fun _ => hv, fun _ hmem => absurd hmem List.not_mem_nil⟩
      | cons z before =>
        obtain ⟨rfl, rfl⟩ := List.cons.inj hsplit
        obtain ⟨op', v', hy, hvalue, hold, hearlier⟩ := h.value before y after rfl
        refine ⟨op', v', hy, hvalue, fun hne => ?_, fun z hz heq => ?_⟩
        · obtain ⟨hx, hbefore⟩ := List.forall_mem_cons.1 hne
          rw [← hkeeps op' hx]
          exact hold hbefore
        · rcases List.mem_cons.1 hz with rfl | hz
          · -- The operand is the phi that has been added in front; none of the others stands before it.
            have hnone : ∀ u ∈ before, op' ≠ .inst u := fun u hu hou => by
              obtain rfl := Operand.inst.inj (heq.symm.trans hou)
              exact hnew (List.mem_append_left _ hu)
            have hread := hold hnone
            rw [heq, operand_deliver hrest hsize v] at hread
            rw [heq, hfirst, ← hread]
          · exact hearlier z hz heq }

/-- A call has come from the block `b`, and is in front of some phis in a row. -/
structure BeforePhis (p : Program) (f : Function) (b : BlockId) (xs : List InstId) (m : Moment) : Prop where
  function : p.module.function? m.call.func = some f
  size : m.call.values.size = f.insts.size
  prev : m.call.prev = some b
  rest : xs <+: m.call.rest
  phis : ∀ x ∈ xs, ∃ op, f.source? b x = some op
  nodup : xs.Nodup

namespace BeforePhis

theorem next (h : BeforePhis p f b (x :: xs) m) (v : RunValue) :
    BeforePhis p f b xs ⟨m.world, m.call.deliver v⟩ := by
  obtain ⟨rest, hrest⟩ := h.rest
  have hdeliver : m.call.deliver v =
      { m.call with values := m.call.values.setIfInBounds x.index (some v), rest := xs ++ rest } := by
    rw [Activation.deliver, ← hrest]
    rfl
  rw [hdeliver]
  exact {
    function := h.function
    size := Array.size_setIfInBounds.trans h.size
    prev := h.prev
    rest := List.prefix_append xs rest
    phis := fun y hy => h.phis y (List.mem_cons_of_mem x hy)
    nodup := (List.nodup_cons.1 h.nodup).2 }

/-- Phis that have been run are settled. The induction is on the phis, with the call in front of them. -/
theorem settles (h : BeforePhis p f b xs m) (hpasses : Passes p below xs.length m m') :
    Settles p f b xs m m' := by
  induction xs generalizing m with
  | nil =>
    cases hpasses
    exact .refl _
  | cons x xs ih =>
    obtain ⟨rest, hrest⟩ := h.rest
    obtain ⟨op, hop⟩ := h.phis x List.mem_cons_self
    cases hpasses with
    | head hpass hpasses =>
      obtain ⟨v, hv, rfl⟩ := (pass_phi_iff h.function hrest.symm h.prev hop).1 hpass
      have hlt : x.index < m.call.values.size := h.size.symm ▸ lt_size_of_source hop
      exact .cons hrest.symm hop hlt hv (List.nodup_cons.1 h.nodup).1 (ih (h.next v) hpasses)

/-- If the operands of phis have values, all of them are run. -/
theorem exists_passes (h : BeforePhis p f b xs m)
    (hvalues : ∀ x ∈ xs, ∀ op, f.source? b x = some op → ∃ v, operand p m.world.globals m.call op = .ok v) :
    ∃ m', Passes p below xs.length m m' := by
  induction xs generalizing m with
  | nil => exact ⟨m, .refl m⟩
  | cons x xs ih =>
    obtain ⟨rest, hrest⟩ := h.rest
    obtain ⟨op, hop⟩ := h.phis x List.mem_cons_self
    obtain ⟨v, hv⟩ := hvalues x List.mem_cons_self op hop
    have hlt : x.index < m.call.values.size := h.size.symm ▸ lt_size_of_source hop
    obtain ⟨m', hpasses⟩ := ih (h.next v) fun y hy op' hop' => by
      -- The phi that has just been run has its value now, and all others have kept theirs.
      by_cases heq : op' = .inst x
      · subst heq
        exact ⟨v, operand_deliver hrest.symm hlt v⟩
      · rw [operand_deliver_of_ne hrest.symm heq]
        exact hvalues y (List.mem_cons_of_mem x hy) op' hop'
    exact ⟨m', .head ((pass_phi_iff h.function hrest.symm h.prev hop).2 ⟨v, hv, rfl⟩) hpasses⟩

end BeforePhis

/-! ### Phis of a block that is entered -/

section Entered

variable {m₁ : Moment} (hf : p.module.function? m.call.func = some f)
  (hsize : m.call.values.size = f.insts.size) (hend : m.call.rest = []) (hjump : Pass p below m m₁)
  (hstart : xs <+: f.instsAt m₁.call.block)
  (hphis : ∀ x ∈ xs, ∃ op, f.source? m.call.block x = some op) (hnodup : xs.Nodup)

include hf hsize hend hjump hstart hphis hnodup

/-- A call that has jumped to a block is in front of its phis, and all values are what they were. -/
theorem beforePhis_of_jump : BeforePhis p f m.call.block xs m₁ ∧ m₁.world = m.world ∧
    ∀ globals op, operand p globals m₁.call op = operand p globals m.call op := by
  obtain ⟨target, rfl⟩ := hjump.jump hf hend
  refine ⟨⟨hf, hsize, rfl, hstart, hphis, hnodup⟩, rfl, fun globals op => ?_⟩
  cases op with
  | const | inst | arg => rfl

/-- **Phis are evaluated together if none takes one that stands in front of it.** Each of them yields what its
operand for the block was when control left that block. Nothing else happens in between, and the rest of the
block comes next. -/
theorem phis_together (hapart : xs.Pairwise fun x y => f.source? m.call.block y ≠ some (.inst x))
    (hpasses : Passes p below xs.length m₁ m') :
    m'.world = m.world ∧ m₁.call.rest = xs ++ m'.call.rest ∧
      ∀ x ∈ xs, ∃ op v, f.source? m.call.block x = some op ∧
        operand p m.world.globals m.call op = .ok v ∧
        operand p m.world.globals m'.call (.inst x) = .ok v := by
  obtain ⟨hbefore, hworld, hsame⟩ := beforePhis_of_jump hf hsize hend hjump hstart hphis hnodup
  have hsettles := hbefore.settles hpasses
  refine ⟨hsettles.world.trans hworld, hsettles.rest, fun x hx => ?_⟩
  obtain ⟨before, after, hsplit⟩ := List.append_of_mem hx
  obtain ⟨op, v, hop, hvalue, hold, -⟩ := hsettles.value before x after hsplit
  rw [hworld, hsame] at hold
  rw [hworld] at hvalue
  refine ⟨op, v, hop, hold fun y hy heq => ?_, hvalue⟩
  rw [hsplit] at hapart
  refine (List.pairwise_append.1 hapart).2.2 y hy x List.mem_cons_self ?_
  rw [hop, heq]

/-- Two phis that exchange their values along an edge both end up with what the second one was. -/
theorem phis_exchanging {before between after : List InstId}
    (hsplit : xs = before ++ x :: (between ++ y :: after)) (hx : f.source? m.call.block x = some (.inst y))
    (hy : f.source? m.call.block y = some (.inst x)) (hpasses : Passes p below xs.length m₁ m') :
    operand p m.world.globals m'.call (.inst x) = operand p m.world.globals m.call (.inst y) ∧
      operand p m.world.globals m'.call (.inst y) = operand p m.world.globals m.call (.inst y) := by
  obtain ⟨hbefore, hworld, hsame⟩ := beforePhis_of_jump hf hsize hend hjump hstart hphis hnodup
  have hsettles := hbefore.settles hpasses
  have hsplit' : xs = (before ++ x :: between) ++ y :: after := by
    rw [hsplit, List.append_assoc, List.cons_append]
  obtain ⟨op, v, hop, hvx, hold, -⟩ := hsettles.value before x _ hsplit
  obtain ⟨op', v', hop', hvy, -, hearlier⟩ := hsettles.value _ y after hsplit'
  obtain rfl := Option.some.inj (hx.symm.trans hop)
  obtain rfl := Option.some.inj (hy.symm.trans hop')
  rw [hworld] at hvx hvy hold hearlier
  have hlast : ∀ z ∈ before, Operand.inst y ≠ .inst z := fun z hz heq => by
    obtain rfl := Operand.inst.inj heq
    rw [hsplit'] at hnodup
    exact (List.nodup_append.1 hnodup).2.2 y (List.mem_append_left _ hz) y List.mem_cons_self rfl
  -- The first one takes what the second one was, and the second one takes what the first one is now.
  have hnew := hearlier x (List.mem_append_right _ List.mem_cons_self) rfl
  obtain rfl := Except.ok.inj (hvx.symm.trans hnew)
  rw [hvx, hvy, ← hsame, hold hlast]
  exact ⟨rfl, rfl⟩

end Entered

end Machine

end TreeFlow
