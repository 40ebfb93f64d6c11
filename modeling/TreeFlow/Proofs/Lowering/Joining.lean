import TreeFlow.Proofs.Lowering.ControlFlow
import TreeFlow.Proofs.Lowering.Regions
import TreeFlow.Proofs.Machine.Truth

/-!
# Control that forks and joins

The code of an expression that chooses consists of regions with a fork and a join between them. This module
follows a call from one to the next: where a block forks it takes the way that the truth of an operand tells
(`cases_of_forks`), and at the end of an arm it goes on to the join (`cases_of_leads`). The join yields the
value that comes with the block that control came from; where the values are equal constants, it yields the
first of them (`cases_of_joins`).

What every call does that gets to a spot is told for its passes (`Function.onCalls_of_passes`).
-/

namespace TreeFlow

open Machine

variable {p : Program} {below : List Activation} {f g h : Function} {m m' : Moment} {n : Nat}

/-! ### Moments of a call -/

/-- A moment of a call of the function `f`, which keeps a value for each of the instructions. -/
structure Moment.IsIn (m : Moment) (p : Program) (f : Function) : Prop where
  function : p.module.function? m.call.func = some f
  size : m.call.values.size = f.insts.size

namespace Moment.IsIn

theorem reaches (hm : m.IsIn p f) (h : Machine.Reaches p below m m') : m'.IsIn p f :=
  ⟨h.func ▸ hm.function, h.size.trans hm.size⟩

theorem through (hm : m.IsIn p f) (h : Machine.Through p below g h f m m') : m'.IsIn p f :=
  hm.reaches h.reaches

/-- A call that has been opened. -/
theorem of_enter {i : FuncId} {args : List RunValue} {depth : Nat} {w w' : World} {a : Activation}
    (hf : p.module.function? i = some f)
    (h : Exec.run (Machine.enter p i args depth) w = (.ok (.inr a), w')) :
    Moment.IsIn ⟨w', a⟩ p f := by
  obtain ⟨hfunc, hentry⟩ := Machine.exists_entry_of_enter h
  obtain ⟨e, stackEnd, -, ha⟩ := hentry f hf
  refine ⟨hfunc.symm ▸ hf, ?_⟩
  show a.values.size = _
  rw [ha]
  exact Array.size_replicate

end Moment.IsIn

/-- The value of an operand at a moment of a call. -/
def Moment.value? (p : Program) (m : Moment) (op : Operand) : Except RunError RunValue :=
  Machine.operand p m.world.globals m.call op

theorem Moment.truth?_eq {op op' : Operand} (h : m'.value? p op' = m.value? p op) :
    m'.truth? p op' = m.truth? p op := congrArg (· >>= RunValue.truth?) h

/-- In every run of a program that has the function, each call of it that has come to a spot, and has not
returned since, is related so to how it was there. -/
def Function.OnCalls (f : Function) (P : Spot)
    (R : Program → List Activation → Moment → Moment → Prop) : Prop :=
  ∀ p i, p.module.function? i = some f → ∀ args depth w₀ w₁ a,
    Exec.run (enter p i args depth) w₀ = (.ok (.inr a), w₁) →
    ∀ below m, Reaches p below ⟨w₁, a⟩ m → m.spot = P →
    ∀ k, Relation.ReflTransGen (StayingStep p below) (m.machine below) k →
      ∃ m', During p below m' k ∧ R p below m m'

/-- It is enough to look at the passes of a call. -/
theorem Function.onCalls_of_passes {P : Spot} {R : Program → List Activation → Moment → Moment → Prop}
    (h : ∀ {p below n m m'}, Moment.IsIn m p f → m.spot = P → Passes p below n m m' → R p below m m') :
    f.OnCalls P R := by
  intro p i hf args depth w₀ w₁ a henter below m hreaches hspot k hsteps
  obtain ⟨n, m', hpasses, hduring⟩ := exists_passes_of_stays hsteps
  exact ⟨m', hduring, h ((Moment.IsIn.of_enter hf henter).reaches hreaches) hspot hpasses⟩

/-! ### Blocks that are closed -/

namespace Function

variable {c d e yes no : BlockId} {op : Operand} {t : Terminator}

/-- Behind the code of a block that is closed as it is, there is only the terminator. -/
theorem behind_of_closed (hcode : h.codeAt c = g.codeAt c) (hterm : h.termAt c = some t) (hf : h.Precedes f) :
    f.behind g c = ⟨c, []⟩ ∧ f.termAt c = some t := by
  obtain ⟨hcode', hterm'⟩ := hf.closed c t hterm
  refine ⟨?_, hterm'⟩
  rw [behind, hcode', hcode, List.drop_length]

/-- A jump that closes a block was written between the stages at which the block is open and closed. -/
theorem wroteAt_of_closed (hopen : g.termAt c = none) (hterm : h.termAt c = some t) :
    g.WroteAt h f ⟨c, []⟩ :=
  ⟨hopen, Option.isSome_of_eq_some hterm⟩

/-- A function in which no stack slots are reserved. -/
theorem instsAt_eq_codeAt (hslots : f.insts.all (!·.kind.isAlloca)) (b : BlockId) :
    f.instsAt b = f.codeAt b := by
  have hnone : ∀ x, f.allocates x = false := fun x => by
    rw [allocates, inst?]
    cases hx : f.insts[x.index]? with
    | none => rfl
    | some i => simpa using Array.all_eq_true_iff_forall_mem.1 hslots i (Array.mem_of_getElem? hx)
  rw [codeAt]
  cases f.instsAt b with
  | nil => rfl
  | cons x rest => rw [List.dropWhile_cons_of_neg (by simp [hnone x])]

/-- A block in which nothing has been written, up to some stage, begins where that stage ends. -/
theorem start_eq_behind (hcode : g.codeAt e = []) (hplain : f.instsAt e = f.codeAt e) :
    f.start e = f.behind g e := by
  rw [start, behind, hcode, hplain]
  rfl

/-- In front of an instruction that was added to a block. -/
theorem behind_of_append {x : InstId} (hcode : h.codeAt c = g.codeAt c ++ [x]) (hf : h.Precedes f) :
    f.behind g c = ⟨c, x :: (f.behind h c).rest⟩ ∧ g.WroteAt h f (f.behind g c) := by
  obtain ⟨rest, hrest⟩ := hf.code c
  have hfcode : f.codeAt c = g.codeAt c ++ x :: rest := by rw [← hrest, hcode, List.append_assoc]; rfl
  have hbehind : f.behind g c = ⟨c, x :: rest⟩ := by rw [behind, hfcode, List.drop_left]
  have hbehind' : (f.behind h c).rest = rest := by rw [behind, ← hrest, List.drop_left]
  refine ⟨hbehind'.symm ▸ hbehind, ?_⟩
  rw [hbehind, WroteAt]
  simp [hfcode, hcode]

end Function

namespace Machine

variable {c : BlockId} {x : InstId} {i : Inst}

/-- A call in front of an instruction that was added to a block yields its value next. -/
theorem Pass.deliver_of_append (hpass : Pass p below m m') (hcode : h.codeAt c = g.codeAt c ++ [x])
    (hinst : h.inst? x = some i) (hcall : ∀ callee args, i.kind ≠ .call callee args) (hf : h.Precedes f)
    (hm : m.IsIn p f) (hspot : m.spot = f.behind g c) :
    ∃ v, Exec.run (instruction p f m.call x i) m.world = (.ok v, m'.world) ∧ m'.spot = f.behind h c ∧
      ∀ globals, operand p globals m'.call (.inst x) = .ok v := by
  have hmspot := hspot.trans (Function.behind_of_append hcode hf).1
  have hrest : m.call.rest = x :: _ := congrArg Spot.rest hmspot
  obtain ⟨v, hrun, hcall⟩ := hpass.deliver hm.function hrest (hf.inst x i hinst) hcall
  refine ⟨v, hrun, ?_, fun globals => ?_⟩
  · show m'.call.spot = _
    rw [hcall, Activation.spot_deliver hrest]
    exact congrArg (Spot.mk · _) (congrArg Spot.block hmspot)
  · rw [hcall]
    refine operand_deliver hrest ?_ v
    rw [hm.size]
    exact (Array.getElem?_eq_some_iff.1 (hf.inst x i hinst)).1

end Machine

namespace Lower

open Machine

variable {c d e yes no : BlockId} {op rb : Operand}

/-! ### Regions, forks and joins -/

/-- A call runs through the code that a step of lowering wrote between two stages of a function. -/
def RunsBetween {α : Type} (env : Env) (f : Function) (p : Program) (below : List Activation) (step : Lower α)
    (a : α) (g h : Function) (m m' : Moment) : Prop :=
  CodeOf env f step a g h m.spot m'.spot ∧ Through p below g h f m m'

/-- A call at the beginning of a region is in it, or has run through it. -/
theorem RegionOf.cases {α : Type} {env : Env} {step : Lower α} {a : α} {P Q : Spot}
    (hr : RegionOf env f step a g h P Q) (hm : m.IsIn p f) (hspot : m.spot = P)
    (hpasses : Passes p below n m m') :
    (Through p below g h f m m' ∧ ¬ f.ReturnsAt m'.spot) ∨
      ∃ k m₁, RunsBetween env f p below step a g h m m₁ ∧ m₁.spot = Q ∧ Passes p below k m₁ m' := by
  obtain ⟨hcode, c, d, hencloses, rfl, rfl⟩ := hr
  rcases passes_of_encloses hencloses hm.function hspot hpasses with
    hinside | ⟨k, m₁, -, hthrough, hend, hpasses⟩
  · exact .inl hinside
  · exact .inr ⟨k, m₁, ⟨by rwa [hspot, hend], hthrough⟩, hend, hpasses⟩

/-- A call where a block forks stays there, or takes one of the two ways. -/
theorem cases_of_forks (hk : g.Forks c op yes no h) (hopen : g.termAt c = none) (hf : h.Precedes f)
    (hm : m.IsIn p f) (hspot : m.spot = f.behind g c) (hpasses : Passes p below n m m') :
    (m = m' ∧ ¬ f.ReturnsAt m'.spot) ∨ ∃ holds k m₁, m.truth? p op = .ok holds ∧
      Through p below g h f m m₁ ∧ m₁.spot = f.start (if holds then yes else no) ∧ m₁.call.prev = some c ∧
      Passes p below k m₁ m' := by
  obtain ⟨hbehind, hterm⟩ := Function.behind_of_closed hk.code hk.term hf
  rw [hbehind] at hspot
  have hblock : m.call.block = c := congrArg Spot.block hspot
  rcases branch_cases hm.function (congrArg Spot.rest hspot) (hblock.symm ▸ hterm) hpasses with
    hstay | ⟨holds, k, m₁, rfl, ⟨hpass, hrest, yes', no', v, -, hv, htruth, -⟩, hstart, hpasses⟩
  · exact .inl hstay
  · have hwrote : g.WroteAt h f m.spot := hspot ▸ Function.wroteAt_of_closed hopen hk.term
    obtain ⟨target, rfl⟩ := hpass.jump hm.function hrest
    refine .inr ⟨holds, k, _, ?_, .single ⟨hwrote, hpass⟩, hstart, congrArg some hblock, hpasses⟩
    rw [Moment.truth?, hv]
    exact htruth

/-- A call where a block leads on to another one stays there, or goes on. -/
theorem cases_of_leads (hl : g.Leads d e h) (hopen : g.termAt d = none) (hf : h.Precedes f) (hm : m.IsIn p f)
    (hspot : m.spot = f.behind g d) (hpasses : Passes p below n m m') :
    (m = m' ∧ ¬ f.ReturnsAt m'.spot) ∨ ∃ k m₁, Through p below g h f m m₁ ∧
      (∀ v, m₁.value? p v = m.value? p v) ∧ m₁.spot = f.start e ∧ m₁.call.prev = some d ∧
      Passes p below k m₁ m' := by
  obtain ⟨hbehind, hterm⟩ := Function.behind_of_closed (hl.code d) hl.term hf
  rw [hbehind] at hspot
  have hblock : m.call.block = d := congrArg Spot.block hspot
  rcases goto_cases hm.function (congrArg Spot.rest hspot) (hblock.symm ▸ hterm) hpasses with
    hstay | ⟨k, m₁, rfl, ⟨hpass, hrest, -⟩, hstart, hpasses⟩
  · exact .inl hstay
  · have hwrote : g.WroteAt h f m.spot := hspot ▸ Function.wroteAt_of_closed hopen hl.term
    obtain ⟨target, rfl⟩ := hpass.jump hm.function hrest
    exact .inr ⟨k, _, .single ⟨hwrote, hpass⟩, fun v => by cases v <;> rfl, hstart,
      congrArg some hblock, hpasses⟩

/-- Where control joins, a phi yields the value that comes with the block that control came from. If the
values are equal constants, there is none. -/
theorem cases_of_joins {sources : List (Operand × BlockId)} {ty : Ty} {src : Operand} {last : BlockId}
    (hj : g.Joins e sources ty op h) (hnew : g.codeAt e = []) (hf : h.Precedes f)
    (hplain : f.instsAt e = f.codeAt e) (hm : m.IsIn p f) (hspot : m.spot = f.start e)
    (hfrom : sources.find? (fun s => m.call.prev == some s.2) = some (src, last))
    (hpasses : Passes p below n m m') :
    (m = m' ∧ ¬ f.ReturnsAt m'.spot) ∨ ∃ k m₁, Through p below g h f m m₁ ∧ m₁.spot = f.behind h e ∧
      (m₁.value? p op = m.value? p src ∨ Build.commonConstant? sources = some op ∧ m₁ = m) ∧
      Passes p below k m₁ m' := by
  rw [Function.start_eq_behind hnew hplain] at hspot
  rcases hj.joined with ⟨hcommon, rfl⟩ | ⟨x, rfl, hcode, hx⟩
  · exact .inr ⟨n, m, .refl, hspot, .inr ⟨hcommon, rfl⟩, hpasses⟩
  -- The phi is the first instruction of the block.
  obtain ⟨hfirst, hwrote⟩ := Function.behind_of_append hcode hf
  cases hpasses with
  | refl =>
    refine .inl ⟨rfl, fun hret => ?_⟩
    exact absurd ((congrArg Spot.rest (hspot.trans hfirst)).symm.trans hret.1) (List.cons_ne_nil x _)
  | @head k _ m₁ _ hpass hpasses =>
    obtain ⟨v, hrun, hend, hread⟩ := hpass.deliver_of_append hcode hx (by simp) hf hm hspot
    have hincoming : Exec.run (incoming p m.call x sources) m.world = (.ok v, m₁.world) := hrun
    rw [incoming, hfrom] at hincoming
    have hvalue : m.value? p src = .ok v := (Prod.mk.inj hincoming).1
    exact .inr ⟨k, m₁, .single ⟨hspot ▸ hwrote, hpass⟩, hend, .inl ((hread _).trans hvalue.symm), hpasses⟩

end Lower

end TreeFlow
