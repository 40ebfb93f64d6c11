import TreeFlow.Proofs.Graph.Tidy

/-!
# Where code is written

Code is only written to the function that is being built, and only so that a function which has a body
keeps one, with all its blocks laid out (`Function.Develops`). What one function was written to differs
from the module before by that function, by globals behind those that were there, and by aggregates
(`Module.GrowsAt`). Every operation of the builder stays at its function and writes to no other one
(`Build.Steady`), whatever it is asked to do.

So it is known what a snapshot brings back: the builder as it was, but for the aggregates and globals that
are kept (`Builder.restore_eq`).
-/

namespace TreeFlow

variable {α β : Type}

/-! ### Functions -/

/-- A later stage of a function that code is written to. -/
structure Function.Develops (f g : Function) : Prop where
  retains : f.Retains g
  tidy : f.StaysTidy g
  body : f.layout ≠ [] → g.layout ≠ []
  listed : f.IsListed → g.IsListed

namespace Function.Develops

variable {f g h : Function}

theorem refl (f : Function) : f.Develops f := ⟨.refl f, id, id, id⟩

theorem trans (hfg : f.Develops g) (hgh : g.Develops h) : f.Develops h where
  retains := hfg.retains.trans hgh.retains
  tidy hf := hgh.tidy (hfg.tidy hf)
  body hf := hgh.body (hfg.body hf)
  listed hf := hgh.listed (hfg.listed hf)

/-- A block was added, and it is laid out. -/
theorem addBlock {layout : List BlockId} (hmem : ∀ b ∈ f.nextBlock :: f.layout, b ∈ layout) :
    f.Develops (f.addBlock layout) where
  retains := .of_insts rfl rfl rfl (by simp [Function.addBlock])
  tidy := .of_layout (List.ne_nil_of_mem (hmem _ List.mem_cons_self))
  body _ := List.ne_nil_of_mem (hmem _ List.mem_cons_self)
  listed hf b hb := by
    rcases has_addBlock.1 hb with hold | rfl
    · exact hmem b (List.mem_cons_of_mem _ (hf b hold))
    · exact hmem _ List.mem_cons_self

/-- What is in the blocks changed, and there are as many as before. -/
theorem of_blocks (hretains : f.blocks.size ≤ g.blocks.size → f.Retains g) (hlayout : g.layout = f.layout)
    (hsize : g.blocks.size = f.blocks.size) : f.Develops g where
  retains := hretains (Nat.le_of_eq hsize.symm)
  tidy := .of_blocks hlayout fun hnil => Array.eq_empty_of_size_eq_zero (by rw [hsize, hnil]; rfl)
  body hne := by rwa [hlayout]
  listed hf b hb := by
    rw [hlayout]
    exact hf b (by rwa [Has, ← hsize])

end Function.Develops

theorem mem_insertBefore [DecidableEq α] {x anchor y : α} {l : List α} (h : y ∈ x :: l) :
    y ∈ insertBefore x anchor l := by
  induction l with
  | nil => simpa [insertBefore] using h
  | cons z l ih =>
    rw [insertBefore]
    split
    · exact h
    · grind

/-! ### Modules -/

namespace Module

variable {here : Option FuncId} {m n k : Module}

/-- A later stage of a module. Code was written to one function at most, which is the one that is being
built, and there are no others than before. Behind the globals that were there, some of this unit alone were
added. -/
structure GrowsAt (here : Option FuncId) (m n : Module) : Prop where
  name : n.name = m.name
  ctors : n.ctors = m.ctors
  globals : ∃ more, n.globals = m.globals ++ more ∧ ∀ g ∈ more, g.linkage = .internal
  types : m.types.Extends n.types
  size : n.functions.size = m.functions.size
  elsewhere : ∀ id, here ≠ some id → n.function? id = m.function? id
  written : ∀ id f, m.function? id = some f → ∃ g, n.function? id = some g ∧ f.Develops g

namespace GrowsAt

theorem refl (here : Option FuncId) (m : Module) : m.GrowsAt here m where
  name := rfl
  ctors := rfl
  globals := ⟨#[], by simp⟩
  types := .refl _
  size := rfl
  elsewhere _ _ := rfl
  written _ f hf := ⟨f, hf, .refl f⟩

theorem trans (hmn : m.GrowsAt here n) (hnk : n.GrowsAt here k) : m.GrowsAt here k where
  name := hnk.name.trans hmn.name
  ctors := hnk.ctors.trans hmn.ctors
  globals := by
    obtain ⟨more, hn, hmore⟩ := hmn.globals
    obtain ⟨most, hk, hmost⟩ := hnk.globals
    refine ⟨more ++ most, by rw [hk, hn, Array.append_assoc], fun g hg => ?_⟩
    exact (Array.mem_append.1 hg).elim (hmore g) (hmost g)
  types := hmn.types.trans hnk.types
  size := hnk.size.trans hmn.size
  elsewhere id hid := (hnk.elsewhere id hid).trans (hmn.elsewhere id hid)
  written id f hf := by
    obtain ⟨g, hg, hfg⟩ := hmn.written id f hf
    obtain ⟨h, hh, hgh⟩ := hnk.written id g hg
    exact ⟨h, hh, hfg.trans hgh⟩

/-- The functions are the same. -/
theorem of_functions (hname : n.name = m.name) (hctors : n.ctors = m.ctors)
    (hglobals : ∃ more, n.globals = m.globals ++ more ∧ ∀ g ∈ more, g.linkage = .internal) (htypes : m.types.Extends n.types)
    (hfunctions : n.functions = m.functions) : m.GrowsAt here n where
  name := hname
  ctors := hctors
  globals := hglobals
  types := htypes
  size := by rw [hfunctions]
  elsewhere id _ := by rw [function?, function?, hfunctions]
  written id f hf := ⟨f, by rwa [function?, hfunctions], .refl f⟩

/-- A function that was there has developed from what it was. -/
theorem exists_before (h : m.GrowsAt here n) {id : FuncId} {g : Function} (hg : n.function? id = some g) :
    ∃ f, m.function? id = some f ∧ f.Develops g := by
  have hlt : id.index < m.functions.size := h.size ▸ (Array.getElem?_eq_some_iff.1 hg).1
  obtain ⟨g', hg', hdevelops⟩ := h.written id _ (Array.getElem?_eq_getElem hlt)
  obtain rfl := Option.some.inj (hg'.symm.trans hg)
  exact ⟨_, Array.getElem?_eq_getElem hlt, hdevelops⟩

theorem retains (h : m.GrowsAt here n) : m.Retains n where
  function id f hf :=
    have ⟨g, hg, hdevelops⟩ := h.written id f hf
    ⟨g, hg, hdevelops.retains⟩
  global id g hg := by
    obtain ⟨more, hmore, -⟩ := h.globals
    have hlt : id.index < m.globals.size := (Array.getElem?_eq_some_iff.1 hg).1
    refine ⟨g, ?_, rfl, rfl⟩
    rw [global?, hmore, Array.getElem?_append_left hlt]
    exact hg

theorem tidy (h : m.GrowsAt here n) (hm : m.IsTidy) : n.IsTidy := fun id _ hg =>
  have ⟨f, hf, hdevelops⟩ := h.exists_before hg
  hdevelops.tidy (hm id f hf)

theorem listed (h : m.GrowsAt here n) (hm : m.IsListed) : n.IsListed := fun id _ hg =>
  have ⟨f, hf, hdevelops⟩ := h.exists_before hg
  hdevelops.listed (hm id f hf)

end GrowsAt

theorem growsAt_modifyFunction (m : Module) {id : FuncId} {f g : Function} (hf : m.function? id = some f)
    (h : f.Develops g) : m.GrowsAt (some id) (m.modifyFunction id fun _ => g) where
  name := rfl
  ctors := rfl
  globals := ⟨#[], by simp [modifyFunction]⟩
  types := .refl _
  size := by simp [modifyFunction]
  elsewhere j hj := by
    have hne : id.index ≠ j.index := fun heq => hj (congrArg some (by cases id; cases j; exact congrArg _ heq))
    simp [function?, modifyFunction, Array.getElem?_modify, hne]
  written j k hk := by
    simp only [function?, modifyFunction, Array.getElem?_modify]
    split
    · next heq =>
      obtain rfl : f = k := Option.some.inj (hf.symm.trans (by rw [← hk, function?, function?, heq]))
      exact ⟨g, by rw [← function?, hk]; rfl, h⟩
    · exact ⟨k, hk, .refl k⟩

/-! ### What is kept -/

/-- A later stage of a module, where functions may have been added. No function lost its body, and those that
are not being built have the same code. -/
structure Keeps (here : Option FuncId) (m n : Module) : Prop extends m.Retains n where
  tidy : m.IsTidy → n.IsTidy
  listed : m.IsListed → n.IsListed
  body : ∀ id f, m.function? id = some f → f.layout ≠ [] → ∃ g, n.function? id = some g ∧ g.layout ≠ []
  elsewhere : ∀ id f, here ≠ some id → m.function? id = some f → ∃ linkage, n.function? id = some { f with linkage }

namespace Keeps

theorem trans (hmn : m.Keeps here n) (hnk : n.Keeps here k) : m.Keeps here k where
  toRetains := hmn.toRetains.trans hnk.toRetains
  tidy h := hnk.tidy (hmn.tidy h)
  listed h := hnk.listed (hmn.listed h)
  body id f hf hne := by
    obtain ⟨g, hg, hne⟩ := hmn.body id f hf hne
    exact hnk.body id g hg hne
  elsewhere id f hid hf := by
    obtain ⟨linkage, hg⟩ := hmn.elsewhere id f hid hf
    exact hnk.elsewhere id { f with linkage } hid hg

/-- The functions are the same. -/
theorem of_functions (hretains : m.Retains n) (hfunctions : n.functions = m.functions) : m.Keeps here n where
  toRetains := hretains
  tidy h id f hf := h id f (by rwa [function?, ← hfunctions])
  listed h id f hf := h id f (by rwa [function?, ← hfunctions])
  body id f hf hne := ⟨f, by rwa [function?, hfunctions], hne⟩
  elsewhere id f _ hf := ⟨f.linkage, by rwa [function?, hfunctions]⟩

theorem refl (here : Option FuncId) (m : Module) : m.Keeps here m := .of_functions (.refl m) rfl

end Keeps

theorem GrowsAt.keeps (h : m.GrowsAt here n) : m.Keeps here n where
  toRetains := h.retains
  tidy := h.tidy
  listed := h.listed
  body id f hf hne :=
    have ⟨g, hg, hdevelops⟩ := h.written id f hf
    ⟨g, hg, hdevelops.body hne⟩
  elsewhere id f hid hf := ⟨f.linkage, (h.elsewhere id hid).trans hf⟩

/-- A function without a body was added. -/
theorem keeps_addFunction (m : Module) {f : Function} (hf : f.IsBlank) : m.Keeps here (m.addFunction f).2 where
  toRetains := m.retains_addFunction f
  tidy h := h.addFunction fun _ => hf
  listed h := m.forall_addFunction h hf.isListed
  body _ g hg hne := ⟨g, m.function?_addFunction f hg, hne⟩
  elsewhere _ g _ hg := ⟨g.linkage, m.function?_addFunction f hg⟩

theorem keeps_addGlobal (m : Module) (g : Global) : m.Keeps here (m.addGlobal g).2 :=
  .of_functions (m.retains_addGlobal g) rfl

/-- The linkage of a function changed. -/
theorem keeps_modifyLinkage (m : Module) (id : FuncId) (linkage : Linkage) :
    m.Keeps here (m.modifyFunction id fun f => { f with linkage }) := by
  have hfunction : ∀ j f, m.function? j = some f → ∃ linkage',
      (m.modifyFunction id fun f => { f with linkage }).function? j = some { f with linkage := linkage' } := by
    intro j f hf
    simp only [function?, modifyFunction, Array.getElem?_modify] at hf ⊢
    rw [hf]
    split
    · exact ⟨linkage, rfl⟩
    · exact ⟨f.linkage, rfl⟩
  exact {
    toRetains := m.retains_modifyFunction id fun _ _ => .of_insts rfl rfl rfl (Nat.le_refl _)
    tidy := fun h => h.modifyFunction id fun _ hf hdecl => ⟨(hf hdecl).blocks, (hf hdecl).layout⟩
    listed := fun h => m.forall_modifyFunction h id fun _ hf => hf
    body := fun j f hf hne => by
      obtain ⟨linkage', hg⟩ := hfunction j f hf
      exact ⟨_, hg, hne⟩
    elsewhere := fun j f _ hf => hfunction j f hf }

end Module

/-! ### The builder -/

/-- What every change of a builder does that stays at the function being built and leaves aggregates alone. -/
structure Builder.Leads (b b' : Builder) : Prop where
  func : b'.func = b.func
  types : b'.mod.types = b.mod.types
  mod : b.mod.Keeps b.func b'.mod

/-- What every operation does to a builder. -/
structure Builder.Writes (b b' : Builder) : Prop where
  func : b'.func = b.func
  types : b'.mod.types = b.mod.types
  mod : b.mod.GrowsAt b.func b'.mod

namespace Builder.Writes

variable {b c d : Builder}

theorem refl (b : Builder) : b.Writes b := ⟨rfl, rfl, .refl _ _⟩

theorem trans (hbc : b.Writes c) (hcd : c.Writes d) : b.Writes d where
  func := hcd.func.trans hbc.func
  types := hcd.types.trans hbc.types
  mod := hbc.mod.trans (hbc.func ▸ hcd.mod)

theorem addGlobal (b : Builder) {g : Global} (hg : g.linkage = .internal) : b.Writes (b.addGlobal g).2 where
  func := rfl
  types := rfl
  mod := .of_functions rfl rfl ⟨#[g], Array.push_eq_append, by simpa using hg⟩ (.refl _) rfl

end Builder.Writes

/-- An operation of the builder writes to nothing but the function that is being built. -/
def Build.Steady (m : Build α) : Prop := ∀ b a b', m b = .ok (a, b') → b.Writes b'

namespace Build.Steady

theorem pure (a : α) : Build.Steady (Pure.pure a) := by
  rintro b _ _ ⟨⟩
  exact .refl b

theorem throw (e : BuildFault) : Build.Steady (throw e : Build α) := fun _ _ _ h => nomatch h

theorem bind {m : Build α} {next : α → Build β} (hm : Build.Steady m)
    (hnext : ∀ a, Build.Steady (next a)) : Build.Steady (m >>= next) := by
  intro b c b₂ h
  simp only [Bind.bind, StateT.bind, Except.bind] at h
  split at h
  · exact nomatch h
  · next r hr => exact (hm _ _ _ hr).trans (hnext _ _ _ _ h)

theorem modify_block (id : BlockId) : Build.Steady (modify (·.setBlock id)) := by
  rintro b _ _ ⟨⟩
  exact ⟨rfl, rfl, .refl _ _⟩

theorem get : Build.Steady (MonadState.get : Build Builder) := by
  rintro b _ _ ⟨⟩
  exact .refl b

/-- What the function being built is. -/
theorem function_ok {b b' : Builder} {id : FuncId} {f : Function}
    (h : Build.function b = .ok ((id, f), b')) : b' = b ∧ b.func = some id ∧ b.mod.function? id = some f := by
  cases hfunc : b.func with
  | none => simp [Build.function, Bind.bind, StateT.bind, Except.bind, MonadState.get, getThe,
      MonadStateOf.get, StateT.get, Pure.pure, Except.pure, hfunc, MonadExcept.throw, throwThe,
      MonadExceptOf.throw, StateT.lift] at h
  | some j =>
    cases hg : b.mod.function? j with
    | none => simp [Build.function, Bind.bind, StateT.bind, Except.bind, MonadState.get, getThe,
        MonadStateOf.get, StateT.get, Pure.pure, Except.pure, hfunc, hg, MonadExcept.throw, throwThe,
        MonadExceptOf.throw, StateT.lift] at h
    | some g =>
      rw [Build.function_eq ⟨hfunc, hg⟩] at h
      obtain ⟨⟨rfl, rfl⟩, rfl⟩ : (j = id ∧ g = f) ∧ b = b' := by simpa using h
      exact ⟨rfl, rfl, hg⟩

theorem function : Build.Steady Build.function := by
  intro b ⟨id, f⟩ b' h
  rw [(function_ok h).1]
  exact .refl b

theorem withFunction_ok {change : Function → α × Function} {b b' : Builder} {a : α}
    (h : Build.withFunction change b = .ok (a, b')) : ∃ id f, b.func = some id ∧ b.mod.function? id = some f ∧
      a = (change f).1 ∧ b' = { b with mod := b.mod.modifyFunction id fun _ => (change f).2 } := by
  simp only [Build.withFunction, Bind.bind, StateT.bind, Except.bind] at h
  split at h
  · cases h
  · next r hr =>
    obtain ⟨⟨id, f⟩, c⟩ := r
    obtain ⟨rfl, hfunc, hf⟩ := function_ok hr
    obtain ⟨rfl, rfl⟩ : (change f).1 = a ∧
        { c with mod := c.mod.modifyFunction id fun _ => (change f).2 } = b' := by
      simpa using Except.ok.inj h
    exact ⟨id, f, hfunc, hf, rfl, rfl⟩

theorem withFunction {change : Function → α × Function} (h : ∀ f : Function, f.Develops (change f).2) :
    Build.Steady (Build.withFunction change) := by
  intro b a b' hrun
  obtain ⟨id, f, hfunc, hf, -, rfl⟩ := withFunction_ok hrun
  exact ⟨rfl, rfl, hfunc ▸ b.mod.growsAt_modifyFunction hf (h f)⟩

end Build.Steady

namespace Build

attribute [grind ←] Steady.pure Steady.throw Steady.bind Steady.get Steady.function

@[grind ←] theorem steady_newBlock : newBlock.Steady := .withFunction fun f =>
  .addBlock fun b hb => List.mem_append.2 ((List.mem_cons.1 hb).symm.imp_right (by simp))

@[grind ←] theorem steady_newBlockBefore (anchor : BlockId) : (newBlockBefore anchor).Steady :=
  .withFunction fun _ => .addBlock fun _ hb => mem_insertBefore hb

@[grind ←] theorem steady_fresh : insertionBlock.fresh.Steady :=
  .bind steady_newBlock fun b => .bind (.modify_block b) fun _ => .pure _

@[grind ←] theorem steady_insertionBlock : insertionBlock.Steady := by
  grind [insertionBlock]

@[grind ←] theorem steady_insert (kind : InstKind) (ty : Ty) : (insert kind ty).Steady :=
  .bind steady_insertionBlock fun b => .withFunction fun f =>
    .of_blocks (.push ⟨kind, ty⟩ rfl rfl rfl) rfl (by simp [Function.addInst, Function.appendInst, Function.modifyBlock])

@[grind ←] theorem steady_alloca (ty : Ty) : (alloca ty).Steady := by
  refine .bind .function fun ⟨id, f⟩ => ?_
  dsimp only
  split
  · exact .throw _
  · exact .withFunction fun f => .of_blocks (.push ⟨.alloca ty, ty.pointerTo⟩ rfl rfl rfl) rfl
      (by simp [Function.addInst, Function.insertInst, Function.modifyBlock])

/-- A function that a block was just started in has a body, and it has the block. -/
theorem newBlock_ok {x : BlockId} {b b' : Builder} (h : newBlock b = .ok (x, b')) :
    ∃ id f, b.func = some id ∧ b'.mod.function? id = some f ∧ f.layout ≠ [] ∧ f.Has x := by
  obtain ⟨id, f, hfunc, hf, rfl, rfl⟩ := Steady.withFunction_ok h
  refine ⟨id, f.newBlock.2, hfunc, ?_, by simp [Function.newBlock], by simp [Function.newBlock, Function.nextBlock, Function.Has]⟩
  rw [Module.function?] at hf
  simp [Module.function?, Module.modifyFunction, Array.getElem?_modify, hf]

/-- A stack slot that was just reserved is there, in the function that is being built. -/
theorem alloca_ok {ty : Ty} {v : Operand} {b b' : Builder} (h : alloca ty b = .ok (v, b')) :
    ∃ x id f, v = .inst x ∧ b'.func = some id ∧ b'.mod.function? id = some f ∧
      f.inst? x = some ⟨.alloca ty, ty.pointerTo⟩ := by
  simp only [alloca, Bind.bind, StateT.bind, Except.bind] at h
  split at h
  · cases h
  · next r hr =>
    obtain ⟨⟨id, f⟩, c⟩ := r
    obtain ⟨rfl, hfunc, hf⟩ := Steady.function_ok hr
    cases he : f.entry? with
    | none => simp [he, MonadExcept.throw, throwThe, MonadExceptOf.throw, StateT.lift, Bind.bind, Except.bind] at h
    | some e =>
      simp only [he] at h
      obtain ⟨id', f', hfunc', hf', rfl, rfl⟩ := Steady.withFunction_ok h
      have hwritten := fun g => @Builder.function?_write c id' f' g c.block hf'
      refine ⟨f'.nextInst, id', _, rfl, hfunc', hwritten _, ?_⟩
      simp [Function.inst?, Function.addInst, Function.insertInst, Function.modifyBlock, Function.nextInst]

@[grind ←] theorem steady_terminate (t : Terminator) : (terminate t).Steady :=
  .bind steady_insertionBlock fun b => .withFunction fun f =>
    .of_blocks (.of_insts rfl rfl rfl) rfl (by simp [Function.terminate, Function.modifyBlock])

@[grind ←] theorem steady_binary (op : BinOp) (l r : Operand) (ty : Ty) :
    (binary op l r ty).Steady := by grind [binary]

@[grind ←] theorem steady_cmp (op : CmpOp) (l r : Operand) : (cmp op l r).Steady := by grind [cmp]

@[grind ←] theorem steady_cast (op : CastOp) (v : Operand) (target : Ty) :
    (cast op v target).Steady := by grind [cast]

@[grind ←] theorem steady_offset (ptr index : Operand) (ty : Ty) :
    (offset ptr index ty).Steady := by grind [offset]

@[grind ←] theorem steady_phi (sources : List (Operand × BlockId)) (ty : Ty) :
    (phi sources ty).Steady := by grind [phi]

@[grind ←] theorem steady_load (ptr : Operand) (ty : Ty) : (load ptr ty).Steady := by
  grind [load]

@[grind ←] theorem steady_store (ptr v : Operand) : (store ptr v).Steady :=
  .bind (steady_insert _ _) fun _ => .pure _

@[grind ←] theorem steady_copy (dst src : Operand) (ty : Ty) : (copy dst src ty).Steady :=
  .bind (steady_insert _ _) fun _ => .pure _

@[grind ←] theorem steady_call (callee : Operand) (args : List Operand) (ty : Ty) :
    (call callee args ty).Steady := by grind [call]

@[grind ←] theorem steady_field (base : Operand) (i : Nat) (ty : Ty) :
    (field base i ty).Steady := by grind [field]

@[grind ←] theorem steady_predecessors (b : BlockId) : (predecessors b).Steady := by
  grind [predecessors]

@[grind ←] theorem steady_ret (v : Option Operand) : (ret v).Steady := by grind [ret]

@[grind ←] theorem steady_goto (b : BlockId) : (goto b).Steady := by grind [goto]

@[grind ←] theorem steady_branch (v : Operand) (yes no : BlockId) : (branch v yes no).Steady := by
  grind [branch]

@[grind ←] theorem steady_unreachable : unreachable.Steady := by grind [unreachable]

end Build

/-! ### Snapshots -/

namespace Builder

variable {b s : Builder}

theorem function?_snapshot (s : Builder) {id : FuncId} (h : id.index < s.mod.functions.size) :
    s.snapshot.2.mod.function? id = s.mod.function? id := by
  have hne : s.mod.functions.size ≠ id.index := by omega
  unfold snapshot
  split
  · rfl
  · simp [declareFunction, setFunction, Module.addFunction, Module.modifyFunction, Module.function?,
      Array.getElem?_modify, Array.getElem?_push, hne, hne.symm]

theorem size_le_snapshot (s : Builder) : s.mod.functions.size ≤ s.snapshot.2.mod.functions.size := by
  unfold snapshot
  split <;> simp [declareFunction, setFunction, Module.addFunction, Module.modifyFunction]

theorem globals_snapshot_mod (s : Builder) : s.snapshot.2.mod.globals = s.mod.globals := by
  unfold snapshot
  split <;> rfl

/-- The scratch function behind a snapshot has a body. -/
theorem exists_scratch (h : s.func = none) : ∃ id f, s.snapshot.2.Builds id f ∧ f.layout ≠ [] := by
  let scratch : Function := { name := ".scratch", sig := ⟨.void, [], false⟩, linkage := .internal }
  refine ⟨⟨s.mod.functions.size⟩, scratch.newBlock.2, ⟨?_, ?_⟩, List.cons_ne_nil _ _⟩
  · simp only [snapshot, h]
    rfl
  · simp only [snapshot, h]
    show ((s.mod.functions.push scratch).modify s.mod.functions.size fun f => f.newBlock.2)[s.mod.functions.size]? = _
    rw [Array.getElem?_modify, if_pos rfl, Array.getElem?_push_size]
    rfl

/-- Of the functions that were there before, what is built behind a snapshot is written to the one at the
cursor alone. -/
theorem func_snapshot_ne (s : Builder) {id : FuncId} (h : id.index < s.mod.functions.size)
    (hne : s.func ≠ some id) : s.snapshot.2.func ≠ some id := by
  unfold snapshot
  split
  · exact hne
  · rintro heq
    obtain rfl : (⟨s.mod.functions.size⟩ : FuncId) = id := Option.some.inj heq
    exact Nat.lt_irrefl _ h

/-- What is left of an array that was cut off. -/
theorem getElem?_take_of_le {α : Type} (as : Array α) {n : Nat} (hn : n ≤ as.size) (i : Nat) :
    (as.take n)[i]? = if i < n then as[i]? else none := by
  rw [Array.take_eq_extract, Array.getElem?_extract, Nat.min_eq_left hn, Nat.sub_zero, Nat.zero_add]

/-- Without a function to bring back, those that came after the snapshot are cut off. -/
theorem functions_restore_of_none (b : Builder) (hnone : s.function? = none) (keep : Keep) :
    (b.restore s.snapshot.1 keep).mod.functions = b.mod.functions.take s.mod.functions.size := by
  simp only [restore, functions_snapshot, func_snapshot, function_snapshot, hnone]
  cases s.func <;> cases keep <;> rfl

theorem functions_restore_of_some (b : Builder) {id : FuncId} {f : Function} (hfunc : s.func = some id)
    (hf : s.function? = some f) (keep : Keep) : (b.restore s.snapshot.1 keep).mod.functions =
      (b.mod.functions.take s.mod.functions.size).modify id.index fun _ => f := by
  simp only [restore, functions_snapshot, func_snapshot, function_snapshot, hfunc, hf]
  cases keep <;> rfl

/-- The functions that were there at a snapshot are brought back. -/
theorem functions_restore (h : s.snapshot.2.mod.GrowsAt s.snapshot.2.func b.mod) (keep : Keep) :
    (b.restore s.snapshot.1 keep).mod.functions = s.mod.functions := by
  have hsize : s.mod.functions.size ≤ b.mod.functions.size := h.size ▸ s.size_le_snapshot
  have htake := getElem?_take_of_le b.mod.functions hsize
  have hkept : ∀ i < s.mod.functions.size, s.func ≠ some ⟨i⟩ → b.mod.functions[i]? = s.mod.functions[i]? :=
    fun i hi hne => (h.elsewhere ⟨i⟩ (s.func_snapshot_ne hi hne)).trans (s.function?_snapshot hi)
  refine Array.ext_getElem? fun i => ?_
  cases hf : s.function? with
  | none =>
    rw [functions_restore_of_none b hf, htake]
    split
    · next hi =>
      -- The cursor is at no function that is there.
      refine hkept i hi fun hfunc => ?_
      rw [function?, hfunc] at hf
      exact Nat.lt_irrefl _ (Nat.lt_of_lt_of_le hi (Array.getElem?_eq_none_iff.1 hf))
    · next hi => exact (Array.getElem?_eq_none (Nat.le_of_not_lt hi)).symm
  | some f =>
    obtain ⟨id, hfunc, hsaved⟩ := Option.bind_eq_some_iff.1 hf
    rw [functions_restore_of_some b hfunc hf, Array.getElem?_modify, htake]
    have hid : id.index < s.mod.functions.size := (Array.getElem?_eq_some_iff.1 hsaved).1
    by_cases heq : id.index = i
    · subst heq
      rw [if_pos rfl, if_pos hid, Array.getElem?_eq_getElem (Nat.lt_of_lt_of_le hid hsize)]
      exact hsaved.symm
    · rw [if_neg heq]
      split
      · next hi =>
        exact hkept i hi fun hother => heq (congrArg FuncId.index (Option.some.inj (hfunc.symm.trans hother)))
      · next hi => exact (Array.getElem?_eq_none (Nat.le_of_not_lt hi)).symm

/-- **A snapshot brings back the builder**, whatever function it was at, but for what is kept. -/
theorem restore_eq (h : s.snapshot.2.mod.GrowsAt s.snapshot.2.func b.mod) (keep : Keep) :
    b.restore s.snapshot.1 keep = { s with mod := { s.mod with
      types := if keep = .nothing then s.mod.types else b.mod.types
      globals := if keep = .typesAndGlobals then b.mod.globals else s.mod.globals } } := by
  have hname : s.snapshot.2.mod.name = s.mod.name := by
    unfold snapshot
    split <;> rfl
  have hctors : s.snapshot.2.mod.ctors = s.mod.ctors := by
    unfold snapshot
    split <;> rfl
  obtain ⟨more, hmore, -⟩ := h.globals
  have hfunctions := functions_restore h keep
  have hblock : s.snapshot.1.block = s.block := by
    unfold snapshot
    split <;> rfl
  have hrestore : b.restore s.snapshot.1 keep = { s with mod := { b.mod with
      functions := s.mod.functions
      types := if keep = .nothing then s.mod.types else b.mod.types
      globals := if keep = .typesAndGlobals then b.mod.globals else b.mod.globals.take s.mod.globals.size } } := by
    rw [← hfunctions]
    simp only [restore, functions_snapshot, func_snapshot, function_snapshot, globals_snapshot,
      savedTypes_snapshot, hblock]
    cases s.func <;> cases s.function? <;> cases keep <;> rfl
  have htake : b.mod.globals.take s.mod.globals.size = s.mod.globals := by simp [hmore, globals_snapshot_mod]
  rw [hrestore, htake]
  dsimp only
  rw [h.name.trans hname, h.ctors.trans hctors]

end Builder

end TreeFlow
