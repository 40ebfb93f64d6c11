import TreeFlow.Proofs.Machine.Passes

/-!
# Regions of a function

The code that was written to a function from one stage of its construction to a later one is a region of
the function: it begins at the block that was open at the cursor, goes on in new blocks, and ends at the
block that is open at the cursor then (`Function.Encloses`). A call that is at the beginning of a region
stays in it until it gets to the end (`Function.Encloses.passes`); there is no other way out.
-/

namespace TreeFlow

namespace Function

variable {f g h k l : Function} {b c d : BlockId} {sp : Spot}

/-! ### Stages -/

/-- An earlier stage of a function: blocks, instructions and terminators were only added to it, code
behind the code that is there. -/
structure Precedes (g f : Function) : Prop where
  has : ∀ b, g.Has b → f.Has b
  inst : ∀ x i, g.inst? x = some i → f.inst? x = some i
  code : ∀ b, g.codeAt b <+: f.codeAt b
  closed : ∀ b t, g.termAt b = some t → f.codeAt b = g.codeAt b ∧ f.termAt b = some t

theorem Precedes.trans (hgh : g.Precedes h) (hhf : h.Precedes f) : g.Precedes f where
  has b hb := hhf.has b (hgh.has b hb)
  inst x i hi := hhf.inst x i (hgh.inst x i hi)
  code b := (hgh.code b).trans (hhf.code b)
  closed b t ht := by
    obtain ⟨hcode, ht⟩ := hgh.closed b t ht
    obtain ⟨hcode', ht⟩ := hhf.closed b t ht
    exact ⟨hcode'.trans hcode, ht⟩

theorem Extends.precedes {P Q : Parents} (hext : Extends g P f Q) : g.Precedes f where
  has := hext.has
  inst := hext.inst
  code := hext.code
  closed := hext.closed

theorem codeAt_of_not_has (hb : ¬ g.Has b) : g.codeAt b = [] := by
  rw [codeAt, instsAt_of_not_has hb]
  rfl

/-- Where the code that the earlier stage `g` has in a block ends in the function. -/
def behind (f g : Function) (b : BlockId) : Spot := ⟨b, (f.codeAt b).drop (g.codeAt b).length⟩

/-- What comes next at a spot, an instruction or the terminator, was written between two stages. -/
def WroteAt (g h f : Function) (sp : Spot) : Prop :=
  match sp.rest with
  | [] => g.termAt sp.block = none ∧ (h.termAt sp.block).isSome
  | _ :: _ => (g.codeAt sp.block).length + sp.rest.length ≤ (f.codeAt sp.block).length ∧
      (f.codeAt sp.block).length < (h.codeAt sp.block).length + sp.rest.length

/-- What was written between two stages was written between stages that are further apart. -/
theorem WroteAt.mono (hw : h.WroteAt k f sp) (hg : g.Precedes h) (hl : k.Precedes l) :
    g.WroteAt l f sp := by
  obtain ⟨b, rest⟩ := sp
  cases rest with
  | nil =>
    obtain ⟨hopen, hclosed⟩ := hw
    obtain ⟨t, ht⟩ := Option.isSome_iff_exists.1 hclosed
    refine ⟨?_, Option.isSome_of_eq_some (hl.closed b t ht).2⟩
    cases hb : g.termAt b with
    | none => rfl
    | some t => exact absurd (hg.closed b t hb).2 (by simp [hopen])
  | cons x rest =>
    obtain ⟨hfrom, hto⟩ := hw
    have hle := (hg.code b).length_le
    have hle' := (hl.code b).length_le
    dsimp only at hfrom hto
    refine ⟨?_, ?_⟩ <;> dsimp only <;> omega

/-- What was written up to a stage was not written after it. -/
theorem WroteAt.not_wroteAt (hw : g.WroteAt h f sp) (hk : h.Precedes k) : ¬ k.WroteAt l f sp := by
  obtain ⟨b, rest⟩ := sp
  cases rest with
  | nil =>
    obtain ⟨t, ht⟩ := Option.isSome_iff_exists.1 hw.2
    rintro ⟨hopen, -⟩
    exact absurd (hk.closed b t ht).2 (by simp [hopen])
  | cons x rest =>
    rintro ⟨hfrom, -⟩
    have hto := hw.2
    have hle := (hk.code b).length_le
    dsimp only at hfrom hto
    omega

/-- What comes next at a spot is that the function returns. -/
def ReturnsAt (f : Function) (sp : Spot) : Prop := sp.rest = [] ∧ ∃ op, f.termAt sp.block = some (.ret op)

/-- Where control leads on to a block, the function does not return. -/
theorem not_returnsAt {t : Terminator} (ht : f.termAt sp.block = some t) (hne : t.successors ≠ []) :
    ¬ f.ReturnsAt sp := by
  rintro ⟨-, op, hret⟩
  obtain rfl := Option.some.inj (ht.symm.trans hret)
  exact hne rfl

/-! ### Regions -/

/-- The blocks that a region begins in, or consists of: the open block and new ones. -/
def Since (g : Function) (c b : BlockId) : Prop := b = c ∨ ¬ g.Has b

/-- Between two stages of the function, with the open blocks `c` and `d` at the cursor, code was written
that is only left at its end. -/
structure Encloses (g h f : Function) (c d : BlockId) : Prop where
  first : g.Precedes h
  second : h.Precedes f
  has : g.Has c
  isOpen : g.termAt c = none
  has_end : h.Has d
  isOpen_end : h.termAt d = none
  since_end : g.Since c d
  /-- All blocks but the last one are as they will be. -/
  code : ∀ b, g.Since c b → h.Has b → b ≠ d → f.codeAt b = h.codeAt b
  exits : ∀ b, g.Since c b → h.Has b → b ≠ d → ∀ e ∈ f.successors b,
    (h.termAt b).isSome ∧ ¬ g.Has e ∧ h.Has e
  stays : ∀ b, g.Since c b → h.Has b → b ≠ d → ∀ op, f.termAt b ≠ some (.ret op)
  /-- There are no slots in new blocks. -/
  plain : ∀ b, ¬ g.Has b → h.Has b → f.instsAt b = f.codeAt b

namespace Encloses

/-- A spot in a region, or at its end. -/
structure Inside (g h f : Function) (c d : BlockId) (sp : Spot) : Prop where
  since : g.Since c sp.block
  has : h.Has sp.block
  split : ∃ before, f.codeAt sp.block = before ++ sp.rest ∧
    (g.codeAt sp.block).length ≤ before.length ∧ (sp.block = d → before.length ≤ (h.codeAt d).length)

variable (he : Encloses g h f c d)
include he

theorem termAt_of_since (hb : g.Since c b) : g.termAt b = none := by
  rcases hb with rfl | hnew
  · exact he.isOpen
  · exact termAt_of_not_has hnew

theorem inside_behind : Inside g h f c d (f.behind g c) where
  since := .inl rfl
  has := he.first.has c he.has
  split := by
    obtain ⟨rest, hrest⟩ := (he.first.trans he.second).code c
    refine ⟨g.codeAt c, ?_, Nat.le_refl _, ?_⟩
    · simp [behind, ← hrest]
    · rintro rfl
      exact (he.first.code _).length_le

theorem inside_start {e : BlockId} (hnew : ¬ g.Has e) (hhas : h.Has e) :
    Inside g h f c d (f.start e) where
  since := .inr hnew
  has := hhas
  split := ⟨[], he.plain e hnew hhas ▸ rfl, by simp [start, codeAt_of_not_has hnew], fun _ => Nat.zero_le _⟩

/-- At a spot in the region, the end is reached, or what comes next was written there and leads on in the
region. -/
theorem step (hin : Inside g h f c d sp) : sp = f.behind h d ∨
    (∀ x rest, sp.rest = x :: rest → WroteAt g h f sp ∧ Inside g h f c d ⟨sp.block, rest⟩) ∧
    (sp.rest = [] → (∀ op, f.termAt sp.block ≠ some (.ret op)) ∧
      ∀ e ∈ f.successors sp.block, WroteAt g h f sp ∧ Inside g h f c d (f.start e)) := by
  obtain ⟨b, rest⟩ := sp
  obtain ⟨hsince, hhas, before, hsplit, hfrom, hto⟩ := hin
  dsimp only at hsince hhas hsplit hfrom hto
  have hlength := congrArg List.length hsplit
  rw [List.length_append] at hlength
  by_cases hend : b = d ∧ before.length = (h.codeAt d).length
  · obtain ⟨rfl, hlast⟩ := hend
    refine .inl ?_
    rw [behind, hsplit, ← hlast, List.drop_left]
  · refine .inr ⟨?_, ?_⟩
    · rintro x rest rfl
      -- Here the next instruction stands in front of where the later stage ends.
      have hlt : before.length < (h.codeAt b).length := by
        by_cases hb : b = d
        · subst hb
          exact Nat.lt_of_le_of_ne (hto rfl) fun heq => hend ⟨rfl, heq⟩
        · have hcode := congrArg List.length (he.code b hsince hhas hb)
          simp only [List.length_cons] at hlength
          omega
      refine ⟨⟨?_, ?_⟩, hsince, hhas, before ++ [x], ?_, ?_, ?_⟩
      · dsimp only
        omega
      · dsimp only
        omega
      · simpa using hsplit
      · simp only [List.length_append, List.length_singleton]
        omega
      · rintro rfl
        simpa [Nat.succ_le_iff] using hlt
    · rintro rfl
      have hb : b ≠ d := by
        rintro rfl
        have hle := (he.second.code b).length_le
        simp only [List.length_nil, Nat.add_zero] at hlength
        exact hend ⟨rfl, Nat.le_antisymm (hto rfl) (hlength ▸ hle)⟩
      refine ⟨he.stays b hsince hhas hb, fun e hedge => ?_⟩
      obtain ⟨hclosed, hnew, hold⟩ := he.exits b hsince hhas hb e hedge
      exact ⟨⟨he.termAt_of_since hsince, hclosed⟩, he.inside_start hnew hold⟩

end Encloses

end Function

namespace Machine

variable {p : Program} {below : List Activation} {f g h k l : Function} {c d : BlockId} {m m' : Moment}
  {n : Nat}

/-- A call gets from one moment to another by passes through code that was written between two stages of
its function. -/
def Through (p : Program) (below : List Activation) (g h f : Function) : Moment → Moment → Prop :=
  Relation.ReflTransGen fun m m' => g.WroteAt h f m.spot ∧ Pass p below m m'

theorem Through.reaches (ht : Through p below g h f m m') : Reaches p below m m' :=
  Relation.ReflTransGen.mono (fun _ _ hpass => hpass.2) _ _ ht

theorem Through.mono (ht : Through p below h k f m m') (hg : g.Precedes h) (hl : k.Precedes l) :
    Through p below g l f m m' :=
  Relation.ReflTransGen.mono (fun _ _ hpass => ⟨hpass.1.mono hg hl, hpass.2⟩) _ _ ht

/-- Behind the end of a region there is nothing of it. -/
theorem Through.eq_of_end (ht : Through p below g h f m m') (hspot : m.spot = f.behind h d)
    (hopen : h.termAt d = none) : m' = m := by
  cases ht using Relation.ReflTransGen.head_induction_on with
  | refl => rfl
  | head hpass _ =>
    refine absurd hpass.1 ?_
    rw [hspot, Function.behind, Function.WroteAt]
    split
    · next hnil => simp [hopen]
    · next hcons =>
      have hlength := congrArg List.length hcons
      simp only [List.length_drop, List.length_cons] at hlength ⊢
      omega

/-- A call gets from one moment to another, and never passes through code that was written between two
stages of its function. -/
def Avoids (p : Program) (below : List Activation) (g h f : Function) : Moment → Moment → Prop :=
  Relation.ReflTransGen fun m m' => ¬ g.WroteAt h f m.spot ∧ Pass p below m m'

/-- Code that was written earlier is not what was written later. -/
theorem Through.avoids_later (ht : Through p below g h f m m') (hk : h.Precedes k) :
    Avoids p below k l f m m' :=
  Relation.ReflTransGen.mono (fun _ _ hpass => ⟨hpass.1.not_wroteAt hk, hpass.2⟩) _ _ ht

/-- Code that was written later is not what was written earlier. -/
theorem Through.avoids_earlier (ht : Through p below k l f m m') (hk : h.Precedes k) :
    Avoids p below g h f m m' :=
  Relation.ReflTransGen.mono (fun _ _ hpass => ⟨fun hw => hw.not_wroteAt hk hpass.1, hpass.2⟩) _ _ ht

/-- **A region is only left at its end,** and the function does not return from it. What is invariant is
that control is at a spot in the region. -/
theorem passes_of_encloses (he : g.Encloses h f c d) (hf : p.module.function? m.call.func = some f)
    (hspot : m.spot = f.behind g c) (hpasses : Passes p below n m m') :
    (Through p below g h f m m' ∧ ¬ f.ReturnsAt m'.spot) ∨
      ∃ k m₁, k ≤ n ∧ Through p below g h f m m₁ ∧ m₁.spot = f.behind h d ∧ Passes p below k m₁ m' := by
  have hin : Function.Encloses.Inside g h f c d m.spot := hspot ▸ he.inside_behind
  clear hspot
  induction hpasses with
  | refl m =>
    rcases he.step hin with hend | ⟨-, hjump⟩
    · exact .inr ⟨0, m, Nat.le_refl _, .refl, hend, .refl m⟩
    · exact .inl ⟨.refl, fun ⟨hrest, op, hop⟩ => (hjump hrest).1 op hop⟩
  | @head n m m₁ m' hpass hrest ih =>
    rcases he.step hin with hend | ⟨hinst, hjump⟩
    · exact .inr ⟨n + 1, m, Nat.le_refl _, .refl, hend, .head hpass hrest⟩
    · have hnext : g.WroteAt h f m.spot ∧ Function.Encloses.Inside g h f c d m₁.spot := by
        cases hpass.cases hf with
        | ran hspot v w =>
          obtain ⟨hwrote, hin⟩ := hinst _ _ hspot
          refine ⟨hwrote, ?_⟩
          show Function.Encloses.Inside g h f c d (m.call.deliver v).spot
          rwa [Activation.spot_deliver hspot]
        | jumped hspot hfollow => exact (hjump hspot).2 _ (mem_successors_of_follow hfollow)
      rcases ih (hpass.func ▸ hf) hnext.2 with ⟨hthrough, hret⟩ | ⟨k, m₂, hk, hthrough, hend, hrest⟩
      · exact .inl ⟨.head ⟨hnext.1, hpass⟩ hthrough, hret⟩
      · exact .inr ⟨k, m₂, Nat.le_succ_of_le hk, .head ⟨hnext.1, hpass⟩ hthrough, hend, hrest⟩

end Machine

end TreeFlow
