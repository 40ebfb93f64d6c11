import TreeFlow.Proofs.Graph.Cursor
import TreeFlow.Proofs.Graph.Retained
import TreeFlow.Proofs.Graph.WellFormed

/-!
# Tidy modules

A module is tidy if no code was written to a function without a body, and it is listed if every block of
its functions is laid out. Both hold of all functions if they hold of those that are added and stay true
of those that are changed.
-/

namespace TreeFlow

/-! ### All functions -/

namespace Module

variable {m : Module} {P : Function → Prop}

theorem forall_addFunction (h : ∀ id f, m.function? id = some f → P f) {f : Function} (hf : P f) :
    ∀ id g, (m.addFunction f).2.function? id = some g → P g := by
  intro id g hg
  simp only [function?, addFunction, Array.getElem?_push] at hg
  split at hg
  · exact Option.some.inj hg ▸ hf
  · exact h id g hg

theorem forall_modifyFunction (h : ∀ id f, m.function? id = some f → P f) (id : FuncId)
    {change : Function → Function} (hchange : ∀ f, P f → P (change f)) :
    ∀ j g, (m.modifyFunction id change).function? j = some g → P g := by
  intro j g hg
  simp only [function?, modifyFunction, Array.getElem?_modify] at hg
  split at hg
  · obtain ⟨f, hf, rfl⟩ := Option.map_eq_some_iff.1 hg
    exact hchange f (h j f hf)
  · exact h j g hg

end Module

/-- What holds of all functions holds of those behind a snapshot, where a scratch function may have been
started. -/
theorem Builder.forall_snapshot {b : Builder} {P : Function → Prop} (h : ∀ id f, b.mod.function? id = some f → P f)
    (hstarted : ∀ f : Function, P f → P f.newBlock.2) (hdeclared : ∀ name sig linkage, P { name, sig, linkage }) :
    ∀ id f, b.snapshot.2.mod.function? id = some f → P f := by
  unfold snapshot
  split
  · exact h
  · exact Module.forall_modifyFunction (Module.forall_addFunction h (hdeclared _ _ _)) _ hstarted

/-! ### Tidy modules -/

/-- No code was written to a function without a body. -/
def Module.IsTidy (m : Module) : Prop :=
  ∀ id f, m.function? id = some f → f.isDeclaration → f.IsBlank

/-- If a function was without code when it had no body, so is the other one. -/
def Function.StaysTidy (f g : Function) : Prop :=
  (f.isDeclaration → f.IsBlank) → g.isDeclaration → g.IsBlank

theorem Module.IsTidy.addFunction {m : Module} (h : m.IsTidy) {f : Function}
    (hf : f.isDeclaration → f.IsBlank) : (m.addFunction f).2.IsTidy := m.forall_addFunction h hf

theorem Module.IsTidy.modifyFunction {m : Module} (h : m.IsTidy) (id : FuncId)
    {change : Function → Function} (hchange : ∀ f : Function, f.StaysTidy (change f)) :
    (m.modifyFunction id change).IsTidy := m.forall_modifyFunction h id hchange

namespace Function.StaysTidy

variable {f : Function}

/-- A function that has a body is tidy. -/
theorem of_layout {g : Function} (h : g.layout ≠ []) : f.StaysTidy g :=
  fun _ hdecl => absurd (List.isEmpty_iff.1 hdecl) h

/-- Where there are no blocks and no layout, there are none afterwards. -/
theorem of_blocks {g : Function} (hlayout : g.layout = f.layout)
    (hblocks : f.blocks = #[] → g.blocks = #[]) : f.StaysTidy g := by
  intro h hdecl
  have hdecl' : f.isDeclaration := by
    rwa [isDeclaration, hlayout] at hdecl
  exact ⟨hblocks (h hdecl').blocks, hlayout.trans (h hdecl').layout⟩

end Function.StaysTidy

/-! ### Listed modules -/

/-- Every block is laid out. -/
def Function.IsListed (f : Function) : Prop := ∀ b, f.Has b → b ∈ f.layout

theorem Function.IsBlank.isListed {f : Function} (h : f.IsBlank) : f.IsListed :=
  fun b hb => absurd hb (h.not_has b)

/-- Every block of every function is laid out. -/
def Module.IsListed (m : Module) : Prop := ∀ id f, m.function? id = some f → f.IsListed

/-! ### Snapshots -/

theorem Builder.isTidy_snapshot {b : Builder} (h : b.mod.IsTidy) : b.snapshot.2.mod.IsTidy :=
  b.forall_snapshot h (fun f _ hdecl => absurd (List.isEmpty_iff.1 hdecl) (by simp [Function.newBlock]))
    fun _ _ _ _ => ⟨rfl, rfl⟩

end TreeFlow
