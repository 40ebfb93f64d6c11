import TreeFlow.Proofs.Graph.WellFormed

/-!
# Finished functions

What is known of a function whose body has been lowered, and of one without a body too: it is strict,
every block is closed, and control stays in the function.
-/

namespace TreeFlow.Function

variable {f : Function} {P : Parents}

/-- A function that code can be run of. -/
structure IsFinished (f : Function) : Prop extends f.IsStrict where
  whole : f.Whole
  closed : ∀ b, f.Has b → (f.termAt b).isSome
  layout : ∀ b, b ∈ f.layout ↔ f.Has b
  has_successor : ∀ b, ∀ c ∈ f.successors b, f.Has c
  not_phi_entry : ∀ e, f.entry? = some e → ∀ x ∈ f.instsAt e, ∀ i, f.inst? x = some i →
    i.kind.incoming? = none

/-- A well-formed graph is finished once all of its blocks are closed. -/
theorem WellFormed.isFinished (h : f.WellFormed P) (hclosed : ∀ b, f.Has b → (f.termAt b).isSome) :
    f.IsFinished where
  toIsStrict := h.isStrict
  whole := h.whole
  closed := hclosed
  layout := h.mem_layout
  has_successor := h.has_successor
  not_phi_entry _ he _ hx _ hi := h.not_phi_entry he hx hi

theorem IsBlank.isFinished (h : f.IsBlank) : f.IsFinished := by
  have hinsts : ∀ b, f.instsAt b = [] := fun b => instsAt_of_not_has (h.not_has b)
  have hterm : ∀ b, f.termAt b = none := fun b => termAt_of_not_has (h.not_has b)
  exact {
    inst := fun b _ before x after i hsplit => by simp [hinsts b] at hsplit
    term := fun b _ t ht => by simp [hterm b] at ht
    phi := fun b x hx => by simp [hinsts b] at hx
    source := fun b x hx => by simp [hinsts b] at hx
    whole := fun b x hx => by simp [hinsts b] at hx
    closed := fun b hb => absurd hb (h.not_has b)
    layout := fun b => by simp [h.layout, h.not_has b]
    has_successor := fun b c hc => by simp [successors_of_termAt_none (hterm b)] at hc
    not_phi_entry := fun e _ x hx => by simp [hinsts e] at hx }

end TreeFlow.Function
