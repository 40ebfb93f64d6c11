import TreeFlow.Proofs.Machine.Strict

/-!
# Passing through a call

A call is followed from one moment to the next (`Machine.Pass`): an instruction is run, with all calls
that it makes until they have returned, or a jump is taken. The frames below the call never matter.
A pass either leaves an instruction behind, or leads on to a block that the terminator names
(`Machine.Pass.cases`); and a run in which the call has not returned is made of passes
(`Machine.exists_passes_of_stays`).
-/

namespace TreeFlow

/-- A spot in a function: a block, and what is left of it. -/
structure Spot where
  block : BlockId
  rest : List InstId
  deriving DecidableEq, Repr

/-- The spot where control is. -/
def Activation.spot (a : Activation) : Spot := ⟨a.block, a.rest⟩

/-- The beginning of a block. -/
def Function.start (f : Function) (b : BlockId) : Spot := ⟨b, f.instsAt b⟩

/-- A moment of a call. -/
structure Moment where
  world : World
  call : Activation

namespace Moment

/-- The spot where control is. -/
abbrev spot (m : Moment) : Spot := m.call.spot

/-- The machine at a moment of a call, with the frames below. -/
def machine (m : Moment) (below : List Activation) : Machine := ⟨m.world, m.call :: below⟩

end Moment

theorem Activation.spot_deliver {a : Activation} {x : InstId} {rest : List InstId}
    (h : a.rest = x :: rest) (v : RunValue) : (a.deliver v).spot = ⟨a.block, rest⟩ := by
  unfold deliver
  rw [h]
  rfl

namespace Machine

variable {p : Program} {f : Function} {w : World} {a : Activation} {below : List Activation}
  {k k' : Machine} {m m' m'' : Moment} {n n' : Nat}

/-! ### Steps -/

/-- What a step of the call `a` of the function `f` can come to while the program is running. -/
inductive Taken (p : Program) (f : Function) (w : World) (a : Activation) (below : List Activation) :
    Machine → Prop
  /-- An instruction has yielded a value. -/
  | ran {x : InstId} {rest : List InstId} (h : a.rest = x :: rest) (v : RunValue) (w' : World) :
      Taken p f w a below ⟨w', a.deliver v :: below⟩
  /-- A call has been opened. -/
  | entered {x : InstId} {rest : List InstId} (h : a.rest = x :: rest) (opened : Activation) (w' : World) :
      Taken p f w a below ⟨w', opened :: a :: below⟩
  /-- The call has returned to the one below. -/
  | left {caller : Activation} {rest : List Activation} (hrest : a.rest = [])
      (hret : ∃ op, f.termAt a.block = some (.ret op)) (hbelow : below = caller :: rest) (v : RunValue)
      (w' : World) :
      Taken p f w a below ⟨w', caller.deliver v :: rest⟩
  /-- A jump has been taken. -/
  | jumped {target : BlockId} {w' : World} (hrest : a.rest = [])
      (h : Exec.run (follow p f a (f.termAt a.block)) w = (.ok (.inr target), w')) :
      Taken p f w a below
        ⟨w', { a with block := target, rest := f.instsAt target, prev := some a.block } :: below⟩

/-- A call is only left by a `ret`. -/
theorem exists_ret_of_follow {v : RunValue} {w' : World}
    (h : Exec.run (follow p f a (f.termAt a.block)) w = (.ok (.inl v), w')) :
    ∃ op, f.termAt a.block = some (.ret op) := by
  cases ht : f.termAt a.block with
  | none => simp [follow, ht] at h
  | some t =>
    rw [ht] at h
    cases t with
    | ret v => exact ⟨v, rfl⟩
    | goto b => simp [follow] at h
    | branch c yes no =>
      simp only [follow, Exec.run_bind, run_value, Exec.run_liftM, Exec.run_pure] at h
      split at h
      · split at h <;> exact absurd (congrArg Prod.fst h) (by simp)
      · exact absurd (congrArg Prod.fst h) (by simp)
    | unreachable => simp [follow] at h

theorem taken_of_step (h : step p ⟨w, a :: below⟩ = .running k) :
    ∃ f, p.module.function? a.func = some f ∧ Taken p f w a below k := by
  simp only [step] at h
  split at h
  · cases h
  next f hf =>
  refine ⟨f, hf, ?_⟩
  split at h
  · next hrest =>
    unfold stepJump at h
    split at h
    · cases h
    · next hfollow =>
      unfold leave at h
      split at h
      · cases h
      · obtain rfl := Progress.running.inj h
        exact .left hrest (exists_ret_of_follow hfollow) rfl _ _
    · next target w' hfollow =>
      split at h
      · cases h
      · next rest hstart =>
        obtain rfl := Progress.running.inj h
        obtain rfl := instsAt_of_blockStart hstart
        exact .jumped hrest hfollow
  · next x rest hrest =>
    split at h
    · cases h
    · unfold stepCall at h
      split at h
      · obtain rfl := Progress.running.inj h
        exact .ran hrest _ _
      · obtain rfl := Progress.running.inj h
        exact .entered hrest _ _
      · cases h
    · unfold stepInstruction at h
      split at h
      · obtain rfl := Progress.running.inj h
        exact .ran hrest _ _
      · cases h

/-- A program only ends with the last call that is open, by a `ret` of that call. -/
theorem ret_of_step {v : RunValue} {w' : World} (h : step p ⟨w, a :: below⟩ = .returned v w') :
    below = [] ∧ ∃ f, p.module.function? a.func = some f ∧ a.rest = [] ∧
      ∃ op, f.termAt a.block = some (.ret op) := by
  simp only [step] at h
  split at h
  · cases h
  next f hf =>
  split at h
  · next hrest =>
    unfold stepJump at h
    split at h
    · cases h
    · next hfollow =>
      unfold leave at h
      split at h
      · exact ⟨rfl, f, hf, hrest, exists_ret_of_follow hfollow⟩
      · cases h
    · split at h <;> cases h
  · split at h
    · cases h
    · unfold stepCall at h
      split at h <;> cases h
    · unfold stepInstruction at h
      split at h <;> cases h

/-! ### Passes -/

/-- A step that is taken while more calls are open than those below and one above them. -/
def InnerStep (p : Program) (below : List Activation) (k k' : Machine) : Prop :=
  below.length + 1 < k.calls.length ∧ step p k = .running k'

/-- From one moment of a call to the next one. -/
def Pass (p : Program) (below : List Activation) (m m' : Moment) : Prop :=
  ∃ k, step p (m.machine below) = .running k ∧
    Relation.ReflTransGen (InnerStep p below) k (m'.machine below)

/-- The calls that an instruction has opened stand above the call, until the last one of them delivers
its value. -/
def Above (a : Activation) (below : List Activation) (k : Machine) : Prop :=
  (∃ b above, k.calls = b :: (above ++ a :: below)) ∨ ∃ v, k.calls = a.deliver v :: below

theorem above_of_innerStep (h : Above a below k) (hstep : InnerStep p below k k') :
    Above a below k' := by
  obtain ⟨hlength, hstep⟩ := hstep
  obtain ⟨w, calls⟩ := k
  rcases h with ⟨b, above, rfl⟩ | ⟨v, rfl⟩
  · obtain ⟨g, -, htaken⟩ := taken_of_step hstep
    cases htaken with
    | ran h v w' => exact .inl ⟨_, _, rfl⟩
    | entered h opened w' => exact .inl ⟨opened, b :: above, rfl⟩
    | jumped hrest h => exact .inl ⟨_, _, rfl⟩
    | left hrest hret hbelow v w' =>
      cases above with
      | nil =>
        obtain ⟨rfl, rfl⟩ := List.cons.inj hbelow
        exact .inr ⟨v, rfl⟩
      | cons c above =>
        obtain ⟨rfl, rfl⟩ := List.cons.inj hbelow
        exact .inl ⟨_, _, rfl⟩
  · exact absurd hlength (by simp)

theorem above_of_innerSteps (h : Above a below k)
    (hsteps : Relation.ReflTransGen (InnerStep p below) k k') : Above a below k' := by
  induction hsteps with
  | refl => exact h
  | tail _ hstep ih => exact above_of_innerStep ih hstep

/-- Where only the call is open above the others, no inner step is taken. -/
theorem eq_of_innerSteps (hlength : k.calls.length ≤ below.length + 1)
    (hsteps : Relation.ReflTransGen (InnerStep p below) k k') : k = k' := by
  cases hsteps using Relation.ReflTransGen.head_induction_on with
  | refl => rfl
  | head hstep _ => exact absurd hstep.1 (Nat.not_lt.2 hlength)

theorem eq_of_machine_eq (h : m.machine below = m'.machine below) : m = m' := by
  obtain ⟨w, a⟩ := m
  obtain ⟨w', a'⟩ := m'
  simp only [Moment.machine, mk.injEq, List.cons.injEq, and_true] at h
  rw [h.1, h.2]

/-- What a pass of a call of the function `f` can be. -/
inductive Passed (p : Program) (f : Function) (m : Moment) : Moment → Prop
  /-- An instruction has yielded a value. -/
  | ran {x : InstId} {rest : List InstId} (h : m.call.rest = x :: rest) (v : RunValue) (w : World) :
      Passed p f m ⟨w, m.call.deliver v⟩
  /-- A jump has been taken. -/
  | jumped {target : BlockId} {w : World} (hrest : m.call.rest = [])
      (h : Exec.run (follow p f m.call (f.termAt m.call.block)) m.world = (.ok (.inr target), w)) :
      Passed p f m ⟨w, { m.call with
        block := target, rest := f.instsAt target, prev := some m.call.block }⟩

theorem Pass.cases (h : Pass p below m m') (hf : p.module.function? m.call.func = some f) :
    Passed p f m m' := by
  obtain ⟨k, hstep, hinner⟩ := h
  obtain ⟨g, hg, htaken⟩ := taken_of_step hstep
  obtain rfl : f = g := Option.some.inj (hf.symm.trans hg)
  cases htaken with
  | ran h v w' =>
    have heq : Moment.machine ⟨w', m.call.deliver v⟩ below = m'.machine below :=
      eq_of_innerSteps (Nat.le_refl _) hinner
    obtain rfl := eq_of_machine_eq heq
    exact .ran h v w'
  | entered h opened w' =>
    rcases above_of_innerSteps (.inl ⟨opened, [], rfl⟩) hinner with ⟨b, above, hcalls⟩ | ⟨v, hcalls⟩
    · have hlength := congrArg List.length hcalls
      simp [Moment.machine] at hlength
      omega
    · obtain ⟨w, a⟩ := m'
      obtain ⟨rfl, -⟩ := List.cons.inj hcalls
      exact .ran h v w
  | left hrest hret hbelow v w' =>
    have heq := eq_of_innerSteps (by simp [hbelow]) hinner
    have hlength := congrArg (fun k : Machine => k.calls.length) heq
    simp [Moment.machine, hbelow] at hlength
  | jumped hrest h =>
    have heq : Moment.machine ⟨_, { m.call with
        block := _, rest := _, prev := some m.call.block }⟩ below = m'.machine below :=
      eq_of_innerSteps (Nat.le_refl _) hinner
    obtain rfl := eq_of_machine_eq heq
    exact .jumped hrest h

theorem Pass.func (h : Pass p below m m') : m'.call.func = m.call.func := by
  obtain ⟨k, hstep, -⟩ := id h
  obtain ⟨f, hf, -⟩ := taken_of_step hstep
  cases h.cases hf with
  | ran h v w => exact Activation.func_deliver _ _
  | jumped hrest h => rfl

/-- Any number of passes, one after the other. -/
def Reaches (p : Program) (below : List Activation) : Moment → Moment → Prop :=
  Relation.ReflTransGen (Pass p below)

theorem Reaches.func (h : Reaches p below m m') : m'.call.func = m.call.func := by
  induction h with
  | refl => rfl
  | tail _ hpass ih => exact hpass.func.trans ih

/-- So many passes, one after the other. -/
inductive Passes (p : Program) (below : List Activation) : Nat → Moment → Moment → Prop
  | refl (m : Moment) : Passes p below 0 m m
  | head {n : Nat} {m m' m'' : Moment} (h : Pass p below m m') (rest : Passes p below n m' m'') :
      Passes p below (n + 1) m m''

namespace Passes

theorem trans (h : Passes p below n m m') (h' : Passes p below n' m' m'') :
    ∃ n, Passes p below n m m'' := by
  induction h with
  | refl => exact ⟨_, h'⟩
  | head hpass _ ih =>
    obtain ⟨n, hn⟩ := ih h'
    exact ⟨n + 1, .head hpass hn⟩

theorem func (h : Passes p below n m m') : m'.call.func = m.call.func := by
  induction h with
  | refl => rfl
  | head hpass _ ih => exact ih.trans hpass.func

theorem reaches (h : Passes p below n m m') : Reaches p below m m' := by
  induction h with
  | refl => exact .refl
  | head hpass _ ih => exact .head hpass ih

end Passes

/-! ### Runs -/

/-- A step behind which the call has not returned. -/
def StayingStep (p : Program) (below : List Activation) (k k' : Machine) : Prop :=
  step p k = .running k' ∧ below.length < k'.calls.length

/-- What the program is at during the moment `m` of a call: at the moment itself, or in a call that the
instruction at hand has opened. -/
def During (p : Program) (below : List Activation) (m : Moment) (k : Machine) : Prop :=
  k = m.machine below ∨ ∃ k₀, step p (m.machine below) = .running k₀ ∧
    Relation.ReflTransGen (InnerStep p below) k₀ k ∧ below.length + 1 < k.calls.length

theorem During.step (h : During p below m k) (hstep : StayingStep p below k k') :
    ∃ m', (m' = m ∨ Pass p below m m') ∧ During p below m' k' := by
  obtain ⟨hstep, hlength⟩ := hstep
  -- The first step of the moment, and inner steps that lead from there to the machine behind this one.
  obtain ⟨k₀, hfirst, hinner⟩ : ∃ k₀, Machine.step p (m.machine below) = .running k₀ ∧
      Relation.ReflTransGen (InnerStep p below) k₀ k' := by
    rcases h with rfl | ⟨k₀, hfirst, hinner, hopen⟩
    · exact ⟨k', hstep, .refl⟩
    · exact ⟨k₀, hfirst, hinner.tail ⟨hopen, hstep⟩⟩
  by_cases hopen : below.length + 1 < k'.calls.length
  · exact ⟨m, .inl rfl, .inr ⟨k₀, hfirst, hinner, hopen⟩⟩
  · -- Only one call is open above the others; it is the call itself.
    obtain ⟨f, -, htaken⟩ := taken_of_step hfirst
    have hback : ∃ a, k'.calls = a :: below := by
      cases htaken with
      | ran h v w' =>
        obtain rfl := eq_of_innerSteps (by simp) hinner
        exact ⟨_, rfl⟩
      | jumped hrest h =>
        obtain rfl := eq_of_innerSteps (by simp) hinner
        exact ⟨_, rfl⟩
      | left hrest hret hbelow v w' =>
        obtain rfl := eq_of_innerSteps (by simp [hbelow]) hinner
        simp [hbelow] at hlength
      | entered h opened w' =>
        rcases above_of_innerSteps (.inl ⟨opened, [], rfl⟩) hinner with ⟨b, above, hcalls⟩ | ⟨v, hcalls⟩
        · rw [hcalls] at hopen
          simp only [List.length_cons, List.length_append] at hopen
          omega
        · exact ⟨_, hcalls⟩
    obtain ⟨a, hcalls⟩ := hback
    have hk : k' = Moment.machine ⟨k'.world, a⟩ below := by
      obtain ⟨w, calls⟩ := k'
      obtain rfl := hcalls
      rfl
    exact ⟨⟨k'.world, a⟩, .inr ⟨k₀, hfirst, hk ▸ hinner⟩, .inl hk⟩

/-- A run during which the call does not return is made of passes. -/
theorem exists_passes_of_stays (h : Relation.ReflTransGen (StayingStep p below) (m.machine below) k) :
    ∃ n m', Passes p below n m m' ∧ During p below m' k := by
  induction h with
  | refl => exact ⟨0, m, .refl m, .inl rfl⟩
  | tail _ hstep ih =>
    obtain ⟨n, m', hpasses, hduring⟩ := ih
    obtain ⟨m'', hsame | hpass, hduring⟩ := hduring.step hstep
    · exact ⟨n, m'', hsame ▸ hpasses, hduring⟩
    · obtain ⟨n', hpasses⟩ := hpasses.trans (.head hpass (.refl _))
      exact ⟨n', m'', hpasses, hduring⟩

end Machine

end TreeFlow
