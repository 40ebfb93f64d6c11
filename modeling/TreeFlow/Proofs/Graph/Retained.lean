import TreeFlow.Flow.Builder
import TreeFlow.Proofs.Graph.Aggregates

/-!
# What building never takes away

Functions, globals and instructions are referred to by position, so what was built must stay where it is.
A later module has the functions and globals of an earlier one, by the same names and types, and every
function has the instructions and blocks that it had (`Module.Retains`).
-/

namespace TreeFlow

/-! ### Functions -/

namespace Function

variable {f g h : Function}

/-- A later stage of a function, which has all the instructions and blocks. -/
structure Retains (f g : Function) : Prop where
  name : g.name = f.name
  sig : g.sig = f.sig
  inst : ∀ x i, f.inst? x = some i → g.inst? x = some i
  blocks : f.blocks.size ≤ g.blocks.size

namespace Retains

theorem refl (f : Function) : f.Retains f := ⟨rfl, rfl, fun _ _ h => h, Nat.le_refl _⟩

theorem trans (hfg : f.Retains g) (hgh : g.Retains h) : f.Retains h where
  name := hgh.name.trans hfg.name
  sig := hgh.sig.trans hfg.sig
  inst x i hi := hgh.inst x i (hfg.inst x i hi)
  blocks := Nat.le_trans hfg.blocks hgh.blocks

/-- What is in the blocks may change in any way. -/
theorem of_insts (hname : g.name = f.name) (hsig : g.sig = f.sig) (hinsts : g.insts = f.insts)
    (hblocks : f.blocks.size ≤ g.blocks.size) : f.Retains g :=
  ⟨hname, hsig, fun x i hi => by rwa [inst?, hinsts], hblocks⟩

theorem push (i : Inst) (hname : g.name = f.name) (hsig : g.sig = f.sig) (hinsts : g.insts = f.insts.push i)
    (hblocks : f.blocks.size ≤ g.blocks.size) : f.Retains g where
  name := hname
  sig := hsig
  blocks := hblocks
  inst x j hj := by
    have hlt : x.index < f.insts.size := (Array.getElem?_eq_some_iff.1 hj).1
    rw [inst?, hinsts, Array.getElem?_push_lt hlt]
    exact (Array.getElem?_eq_getElem hlt).symm.trans hj

end Retains

end Function

/-! ### Modules -/

namespace Module

variable {m n k : Module}

/-- A later stage of a module, which has all the functions and globals. -/
structure Retains (m n : Module) : Prop where
  function : ∀ id f, m.function? id = some f → ∃ g, n.function? id = some g ∧ f.Retains g
  global : ∀ id g, m.global? id = some g → ∃ h, n.global? id = some h ∧ h.name = g.name ∧ h.ty = g.ty

namespace Retains

/-- Aggregates and the order at startup may change in any way. -/
theorem of_same (hfunctions : n.functions = m.functions) (hglobals : n.globals = m.globals) : m.Retains n where
  function id f hf := ⟨f, by rwa [function?, hfunctions], .refl f⟩
  global id g hg := ⟨g, by rwa [global?, hglobals], rfl, rfl⟩

theorem refl (m : Module) : m.Retains m := .of_same rfl rfl

theorem trans (hmn : m.Retains n) (hnk : n.Retains k) : m.Retains k where
  function id f hf := by
    obtain ⟨g, hg, hfg⟩ := hmn.function id f hf
    obtain ⟨h, hh, hgh⟩ := hnk.function id g hg
    exact ⟨h, hh, hfg.trans hgh⟩
  global id g hg := by
    obtain ⟨h, hh, hname, hty⟩ := hmn.global id g hg
    obtain ⟨j, hj, hname', hty'⟩ := hnk.global id h hh
    exact ⟨j, hj, hname'.trans hname, hty'.trans hty⟩

end Retains

theorem function?_addFunction (m : Module) (f : Function) {id : FuncId} {g : Function}
    (hg : m.function? id = some g) : (m.addFunction f).2.function? id = some g := by
  have hlt : id.index < m.functions.size := (Array.getElem?_eq_some_iff.1 hg).1
  rw [function?, addFunction, Array.getElem?_push_lt hlt]
  exact (Array.getElem?_eq_getElem hlt).symm.trans hg

theorem retains_addFunction (m : Module) (f : Function) : m.Retains (m.addFunction f).2 where
  function _ g hg := ⟨g, m.function?_addFunction f hg, .refl g⟩
  global _ g hg := ⟨g, hg, rfl, rfl⟩

theorem retains_addGlobal (m : Module) (g : Global) : m.Retains (m.addGlobal g).2 where
  function _ f hf := ⟨f, hf, .refl f⟩
  global id k hk := by
    have hlt : id.index < m.globals.size := (Array.getElem?_eq_some_iff.1 hk).1
    exact ⟨k, (Array.getElem?_push_lt hlt).trans ((Array.getElem?_eq_getElem hlt).symm.trans hk), rfl, rfl⟩

theorem retains_modifyFunction (m : Module) (id : FuncId) {change : Function → Function}
    (hchange : ∀ f, m.function? id = some f → f.Retains (change f)) : m.Retains (m.modifyFunction id change) where
  function j f hf := by
    simp only [function?, modifyFunction, Array.getElem?_modify]
    rw [function?] at hf
    by_cases heq : id.index = j.index
    · rw [if_pos heq, hf]
      refine ⟨change f, rfl, hchange f ?_⟩
      rw [function?, heq, hf]
    · rw [if_neg heq]
      exact ⟨f, hf, .refl f⟩
  global j g hg := ⟨g, hg, rfl, rfl⟩

theorem retains_modifyGlobal (m : Module) (id : GlobalId) {change : Global → Global}
    (hname : ∀ g, (change g).name = g.name) (hty : ∀ g, (change g).ty = g.ty) :
    m.Retains (m.modifyGlobal id change) where
  function j f hf := ⟨f, hf, .refl f⟩
  global j g hg := by
    simp only [global?, modifyGlobal, Array.getElem?_modify]
    rw [global?] at hg
    rw [hg]
    split
    · exact ⟨change g, rfl, hname g, hty g⟩
    · exact ⟨g, rfl, rfl, rfl⟩

end Module

/-! ### Snapshots -/

namespace Builder

variable {b s : Builder}

theorem func_snapshot (s : Builder) : s.snapshot.1.func = s.func := by
  cases hfunc : s.func <;> simp [snapshot, hfunc]

theorem function_snapshot (s : Builder) : s.snapshot.1.function = s.function? := by
  cases hfunc : s.func <;> simp [snapshot, hfunc]

theorem functions_snapshot (s : Builder) : s.snapshot.1.functions = s.mod.functions.size := by
  cases hfunc : s.func <;> simp [snapshot, hfunc]

theorem globals_snapshot (s : Builder) : s.snapshot.1.globals = s.mod.globals.size := by
  cases hfunc : s.func <;> simp [snapshot, hfunc]

theorem savedTypes_snapshot (s : Builder) : s.snapshot.1.types = s.mod.types := by
  cases hfunc : s.func <;> simp [snapshot, hfunc]

theorem types_snapshot (s : Builder) : s.snapshot.2.mod.types = s.mod.types := by
  cases hfunc : s.func <;> simp [snapshot, hfunc, setFunction, declareFunction, Module.addFunction,
    Module.modifyFunction]

theorem retains_snapshot (s : Builder) : s.mod.Retains s.snapshot.2.mod := by
  unfold snapshot
  split
  · exact .refl _
  · exact (Module.retains_addFunction _ _).trans
      (Module.retains_modifyFunction _ _ fun f _ => .of_insts rfl rfl rfl (by simp [Function.newBlock]))

end Builder

end TreeFlow
