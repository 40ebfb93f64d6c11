import TreeFlow.Proofs.Graph.Fronted
import TreeFlow.Proofs.Machine.Leaving

/-!
# Calls reserve stack slots first

A call is followed together with the instructions that it has run (`Machine.Executes`). If the stack slots of a
function stand at its front, each call of the function runs these first, in order, and none of them again
(`Function.IsFronted.reservesFirst`), since control does not come back to the block where they stand.
-/

namespace TreeFlow

open Machine

variable {p : Program} {below : List Activation} {f : Function} {m m' : Moment} {xs : List InstId} {x : InstId}

namespace Machine

/-- The instructions that a call runs from one moment on, and the moment it then is at. -/
inductive Executes (p : Program) (below : List Activation) (m : Moment) : List InstId → Moment → Prop
  | refl : Executes p below m [] m
  | tail {xs : List InstId} {m' m'' : Moment} (h : Executes p below m xs m') (hpass : Pass p below m' m'') :
      Executes p below m (xs ++ m'.call.rest.head?.toList) m''

theorem Executes.func (h : Executes p below m xs m') : m'.call.func = m.call.func := by
  induction h with
  | refl => rfl
  | tail _ hpass ih => exact hpass.func.trans ih

/-- However a call goes on, it runs some instructions on the way. -/
theorem Reaches.exists_executes (h : Reaches p below m m') : ∃ xs, Executes p below m xs m' := by
  induction h with
  | refl => exact ⟨[], .refl⟩
  | tail _ hpass ih =>
    obtain ⟨xs, hxs⟩ := ih
    exact ⟨_, hxs.tail hpass⟩

end Machine

namespace Function

/-- Of some instructions that were run, the stack slots of the function come first, in order and each once. -/
def SlotsFirst (f : Function) (xs : List InstId) : Prop :=
  xs <+: f.slots ∨ ∃ ys, xs = f.slots ++ ys ∧ ∀ y ∈ ys, f.allocates y = false

/-- What was run and what is left of the block are the stack slots and code behind them. -/
def Reserves (f : Function) (xs rest : List InstId) : Prop :=
  ∃ code, xs ++ rest = f.slots ++ code ∧ ∀ y ∈ code, f.allocates y = false

theorem mem_slots (h : f.allocates x = true) : x ∈ f.slots := by
  have hlt : x.index < f.insts.size := by
    by_contra hle
    simp [allocates, inst?, Array.getElem?_eq_none (Nat.le_of_not_lt hle)] at h
  exact List.mem_filter.2 ⟨List.mem_map.2 ⟨x.index, List.mem_range.2 hlt, rfl⟩, h⟩

namespace SlotsFirst

/-- No slot is run twice. -/
theorem count_le_one (h : f.SlotsFirst xs) (hx : f.allocates x = true) : xs.count x ≤ 1 := by
  have hslots := List.nodup_iff_count_le_one.1 f.nodup_slots x
  rcases h with hxs | ⟨ys, rfl, hys⟩
  · exact Nat.le_trans (hxs.sublist.count_le x) hslots
  · have hnot : x ∉ ys := fun hmem => by simp [hys x hmem] at hx
    rwa [List.count_append, List.count_eq_zero_of_not_mem hnot, Nat.add_zero]

/-- Where all slots were run, each of them was run once. -/
theorem count_eq_one (h : f.SlotsFirst xs) (hall : f.slots <+: xs) (hx : f.allocates x = true) : xs.count x = 1 :=
  Nat.le_antisymm (h.count_le_one hx) (List.one_le_count_iff.2 (hall.subset (mem_slots hx)))

end SlotsFirst

namespace Reserves

variable {rest : List InstId}

theorem slotsFirst (h : f.Reserves xs rest) : f.SlotsFirst xs := by
  obtain ⟨code, heq, hcode⟩ := h
  rcases List.append_eq_append_iff.1 heq with ⟨left, hslots, -⟩ | ⟨ran, hxs, hrest⟩
  · exact .inl ⟨left, hslots.symm⟩
  · exact .inr ⟨ran, hxs, fun y hy => hcode y (hrest ▸ List.mem_append_left _ hy)⟩

/-- At the end of a block all slots were run. -/
theorem prefix_of_nil (h : f.Reserves xs []) : f.slots <+: xs := by
  obtain ⟨code, heq, -⟩ := h
  exact ⟨code, by rw [← heq, List.append_nil]⟩

end Reserves

namespace IsFronted

/-- The first block consists of the slots and code behind them. -/
theorem reserves_start (h : f.IsFronted) : f.Reserves [] (f.instsAt .first) :=
  ⟨f.codeAt .first, by rw [List.nil_append, ← h.slots, f.slotsAt_append_codeAt], h.code .first⟩

/-- No other block has any slot. -/
theorem allocates_of_mem_instsAt (h : f.IsFronted) {b : BlockId} (hb : b ≠ .first) (hx : x ∈ f.instsAt b) :
    f.allocates x = false := by
  rw [← f.slotsAt_append_codeAt, h.others b hb, List.nil_append] at hx
  exact h.code b x hx

/-- A pass leaves an instruction behind, or leads to a block without slots. -/
theorem reserves_of_pass (h : f.IsFronted) (hf : p.module.function? m.call.func = some f)
    (hpass : Pass p below m m') (hm : f.Reserves xs m.call.rest) :
    f.Reserves (xs ++ m.call.rest.head?.toList) m'.call.rest := by
  obtain ⟨code, heq, hcode⟩ := hm
  cases hpass.cases hf with
  | @ran y rest hrest v w =>
    have hleft : (m.call.deliver v).rest = rest := congrArg Spot.rest (Activation.spot_deliver hrest v)
    refine ⟨code, ?_, hcode⟩
    rw [hrest] at heq ⊢
    rw [hleft, ← heq, List.append_assoc]
    rfl
  | @jumped target w hrest hfollow =>
    have htarget : target ≠ .first := fun heq => h.spared _ (heq ▸ mem_successors_of_follow hfollow)
    refine ⟨code ++ f.instsAt target, ?_, fun y hy => ?_⟩
    · rw [hrest] at heq ⊢
      rw [← List.append_assoc, ← heq]
      rfl
    · rcases List.mem_append.1 hy with hy | hy
      · exact hcode y hy
      · exact h.allocates_of_mem_instsAt htarget hy

/-- Whatever a call does, the slots come first. -/
theorem reserves_of_executes (h : f.IsFronted) (hf : p.module.function? m.call.func = some f)
    (hexec : Executes p below m xs m') (hm : f.Reserves [] m.call.rest) : f.Reserves xs m'.call.rest := by
  induction hexec with
  | refl => exact hm
  | tail hexec hpass ih => exact h.reserves_of_pass (hexec.func ▸ hf) hpass ih

end IsFronted

/-- Each call of the function that has not returned has run its stack slots first, in order, and none of them
twice; and where it returns next, it has run every one of them once. -/
def ReservesFirst (f : Function) : Prop :=
  ∀ p i, p.module.function? i = some f → ∀ args depth w₀ w a,
    Exec.run (enter p i args depth) w₀ = (.ok (.inr a), w) →
    ∀ below k, Relation.ReflTransGen (StayingStep p below) (Moment.machine ⟨w, a⟩ below) k →
      ∃ xs m, Executes p below ⟨w, a⟩ xs m ∧ During p below m k ∧ f.SlotsFirst xs ∧
        (ReturnsNext p below k → ∀ x, f.allocates x = true → xs.count x = 1)

theorem IsFronted.reservesFirst (h : f.IsFronted) : f.ReservesFirst := by
  intro p i hf args depth w₀ w a henter below k hsteps
  obtain ⟨rfl, hentry⟩ := exists_entry_of_enter henter
  obtain ⟨e, stackEnd, he, ha⟩ := hentry f hf
  obtain ⟨n, m, hpasses, hduring⟩ := exists_passes_of_stays hsteps
  obtain ⟨xs, hexec⟩ := hpasses.reaches.exists_executes
  have hstart : f.Reserves [] a.rest := by
    rw [ha]
    exact h.entry e he ▸ h.reserves_start
  have hm : f.Reserves xs m.call.rest := h.reserves_of_executes hf hexec hstart
  refine ⟨xs, m, hexec, hduring, hm.slotsFirst, fun hnext x hx => ?_⟩
  -- Only at the end of a block a call returns.
  obtain rfl := eq_of_returnsNext hduring hnext
  obtain ⟨hrest, -⟩ := returnsAt_of_returnsNext (hexec.func ▸ hf) hnext
  exact hm.slotsFirst.count_eq_one (Reserves.prefix_of_nil (hrest ▸ hm)) hx

end Function

end TreeFlow
