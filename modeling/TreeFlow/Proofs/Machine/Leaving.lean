import TreeFlow.Proofs.Machine.Region

/-!
# Entering and leaving a call

A call begins at the entry of its function, and first runs straight on (`Machine.straight_cases`). It only
gets to blocks that some block leads to (`Machine.Reaches.entered`), and it is only left where its function
returns (`Machine.returnsAt_of_returnsNext`).
-/

namespace TreeFlow

/-- Control may get to a block: it is the entry, or some block leads to it. -/
def Function.Entered (f : Function) (b : BlockId) : Prop :=
  f.entry? = some b ∨ ∃ c, b ∈ f.successors c

namespace Machine

variable {p : Program} {f : Function} {below : List Activation} {k : Machine} {m m' : Moment} {n : Nat}
  {b : BlockId} {w : World} {a : Activation}

/-! ### Straight on -/

/-- A call runs instructions, one after the other, and takes no jump. -/
def Straight (p : Program) (below : List Activation) : Moment → Moment → Prop :=
  Relation.ReflTransGen fun m m' => m.call.rest ≠ [] ∧ Pass p below m m'

theorem Straight.reaches (h : Straight p below m m') : Reaches p below m m' :=
  Relation.ReflTransGen.mono (fun _ _ hpass => hpass.2) _ _ h

/-- A call in front of some instructions is in front of one of them, or has come straight to their end
and further. -/
theorem straight_cases {before rest : List InstId} (hf : p.module.function? m.call.func = some f)
    (hspot : m.spot = ⟨b, before ++ rest⟩) (hpasses : Passes p below n m m') :
    (Straight p below m m' ∧ ∃ left, left ≠ [] ∧ m'.spot = ⟨b, left ++ rest⟩) ∨
      ∃ j m₁, Straight p below m m₁ ∧ m₁.spot = ⟨b, rest⟩ ∧ Passes p below j m₁ m' := by
  induction before generalizing n m with
  | nil => exact .inr ⟨n, m, .refl, hspot, hpasses⟩
  | cons x before ih =>
    cases hpasses with
    | refl => exact .inl ⟨.refl, x :: before, List.cons_ne_nil _ _, hspot⟩
    | @head n _ m₁ _ hpass hpasses =>
      have hrest : m.call.rest = x :: (before ++ rest) := congrArg Spot.rest hspot
      have hblock : m.call.block = b := congrArg Spot.block hspot
      have hstep : m.call.rest ≠ [] ∧ Pass p below m m₁ := ⟨by simp [hrest], hpass⟩
      have hnext : m₁.spot = ⟨b, before ++ rest⟩ := by
        cases hpass.cases hf with
        | ran h v w =>
          obtain ⟨rfl, rfl⟩ := List.cons.inj (h.symm.trans hrest)
          exact hblock ▸ Activation.spot_deliver h v
        | jumped hnil _ => exact absurd hnil hstep.1
      rcases ih (hpass.func ▸ hf) hnext hpasses with ⟨hstraight, hleft⟩ | ⟨j, m₂, hstraight, hend, hpasses⟩
      · exact .inl ⟨.head hstep hstraight, hleft⟩
      · exact .inr ⟨j, m₂, .head hstep hstraight, hend, hpasses⟩

/-! ### Where control gets to -/

theorem Reaches.entered (h : Reaches p below m m') (hf : p.module.function? m.call.func = some f)
    (hm : f.Entered m.spot.block) : f.Entered m'.spot.block := by
  induction h with
  | refl => exact hm
  | @tail m₁ m₂ hreaches hpass ih =>
    cases hpass.cases (Reaches.func hreaches ▸ hf) with
    | ran h v w =>
      show f.Entered (m₁.call.deliver v).spot.block
      rw [Activation.spot_deliver h]
      exact ih
    | jumped hnil hfollow => exact .inr ⟨_, mem_successors_of_follow hfollow⟩

/-- Where nothing leads on, a call stays. -/
theorem eq_of_passes {t : Terminator} (hf : p.module.function? m.call.func = some f)
    (hrest : m.spot.rest = []) (hterm : f.termAt m.spot.block = some t) (hleads : t.successors = [])
    (hpasses : Passes p below n m m') : m = m' := by
  cases hpasses with
  | refl => rfl
  | head hpass _ =>
    cases hpass.cases hf with
    | ran h v w => exact nomatch h.symm.trans hrest
    | jumped hnil hfollow =>
      have hedge := mem_successors_of_follow hfollow
      have hterm' : f.termAt m.call.block = some t := hterm
      simp [Function.successors_eq, hterm', hleads] at hedge

/-! ### Returning -/

/-- The next step returns from a call above the frames `below`. -/
def ReturnsNext (p : Program) (below : List Activation) (k : Machine) : Prop :=
  (∃ k', step p k = .running k' ∧ k'.calls.length ≤ below.length) ∨ ∃ v w, step p k = .returned v w

/-- A call is only left where its function returns. -/
theorem returnsAt_of_returnsNext (hf : p.module.function? m.call.func = some f)
    (h : ReturnsNext p below (m.machine below)) : f.ReturnsAt m.spot := by
  rcases h with ⟨k', hstep, hlength⟩ | ⟨v, w, hstep⟩
  · obtain ⟨g, hg, htaken⟩ := taken_of_step hstep
    obtain rfl := Option.some.inj (hf.symm.trans hg)
    cases htaken with
    | ran h v w' => exact absurd hlength (by simp)
    | entered h opened w' =>
      have hle : below.length + 2 ≤ below.length := hlength
      omega
    | left hrest hret hbelow v w' => exact ⟨hrest, hret⟩
    | jumped hrest h => exact absurd hlength (by simp)
  · obtain ⟨-, g, hg, hrest, hret⟩ := ret_of_step hstep
    obtain rfl := Option.some.inj (hf.symm.trans hg)
    exact ⟨hrest, hret⟩

/-- A step closes one call at most. -/
theorem length_le_of_taken (h : Taken p f w a below k) : below.length ≤ k.calls.length := by
  cases h with
  | ran h v w' => simp
  | entered h opened w' => exact Nat.le_add_right below.length 2
  | left hrest hret hbelow v w' => simp [hbelow]
  | jumped hrest h => simp

/-- What returns is the call itself, and no call that it has opened. -/
theorem eq_of_returnsNext (hduring : During p below m k) (h : ReturnsNext p below k) : k = m.machine below := by
  refine hduring.resolve_right ?_
  rintro ⟨-, -, -, hopen⟩
  obtain ⟨w, calls⟩ := k
  cases calls with
  | nil => exact absurd hopen (by simp)
  | cons a rest =>
    have hrest : below.length < rest.length := by simpa using hopen
    rcases h with ⟨k', hstep, hlength⟩ | ⟨v, w', hstep⟩
    · obtain ⟨g, -, htaken⟩ := taken_of_step hstep
      exact absurd (Nat.le_trans (length_le_of_taken htaken) hlength) (Nat.not_le.2 hrest)
    · obtain ⟨rfl, -⟩ := ret_of_step hstep
      exact absurd hrest (Nat.not_lt_zero _)

end Machine

end TreeFlow
