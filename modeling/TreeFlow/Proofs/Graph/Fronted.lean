import TreeFlow.Proofs.Graph.Continuing

/-!
# Stack slots stand at the front

A function begins with the first block that was made for it. The slots of the function stand at the front of that
block, in the order in which they were made, and no other block has any; and control does not come back to
it (`Function.IsFronted`).

Every operation of a builder leaves it at that, if only no terminator is given the first block for a target
and no block is put before it (`Builder.IsFronted`). A function that has a body already is given other blocks
than the first one, so new blocks may be the targets of terminators.
-/

namespace TreeFlow

/-- The block that is made first in a function. Blocks are numbered in the order in which they are made. -/
def BlockId.first : BlockId := ⟨0⟩

namespace Function

variable {f g : Function} {b c : BlockId}

/-- The stack slots of a function, in the order in which they were made. -/
def slots (f : Function) : List InstId := ((List.range f.insts.size).map InstId.mk).filter f.allocates

theorem slots_push {i : Inst} (h : g.insts = f.insts.push i) :
    g.slots = f.slots ++ if i.kind.isAlloca then [f.nextInst] else [] := by
  have hinst : ∀ x, g.inst? x = if x = f.nextInst then some i else f.inst? x := fun x => by
    rw [← f.inst?_push i x]
    simp only [inst?, h]
  have hnew : g.allocates f.nextInst = i.kind.isAlloca := by simp [allocates, hinst]
  have hold : ∀ n ∈ List.range f.insts.size, g.allocates ⟨n⟩ = f.allocates ⟨n⟩ := fun n hn => by
    have hne : (⟨n⟩ : InstId) ≠ f.nextInst := fun heq =>
      absurd (congrArg InstId.index heq) (Nat.ne_of_lt (List.mem_range.1 hn))
    rw [allocates, allocates, hinst, if_neg hne]
  simp only [slots, h, Array.size_push, List.range_succ, List.map_append, List.filter_append, List.filter_map,
    List.map_cons, List.map_nil]
  congr 1
  · exact congrArg _ (List.filter_congr hold)
  · change List.filter g.allocates [f.nextInst] = _
    rw [List.filter_singleton, hnew, cond_eq_ite]

/-- A slot is made once. -/
theorem nodup_slots (f : Function) : f.slots.Nodup :=
  (List.nodup_range.map fun _ _ h => congrArg InstId.index h).filter _

/-- The stack slots of a function stand at the front of its first block, in the order in which they were made.
Control does not come back to that block. -/
structure IsFronted (f : Function) : Prop extends f.IsPlaced where
  entry : ∀ e, f.entry? = some e → e = .first
  blank : f.layout = [] → f.IsBlank
  slots : f.slotsAt .first = f.slots
  others : ∀ b, b ≠ .first → f.slotsAt b = []
  spared : ∀ b, .first ∉ f.successors b

theorem IsBlank.nextBlock (h : f.IsBlank) : f.nextBlock = .first := by
  rw [Function.nextBlock, h.blocks]
  rfl

namespace IsFronted

theorem entry?_eq (h : f.IsFronted) (hne : f.layout ≠ []) : f.entry? = some .first := by
  obtain ⟨e, rest, hl⟩ := List.exists_cons_of_ne_nil hne
  have hentry : f.entry? = some e := by rw [ entry?, hl, List.head?_cons]
  rw [hentry, h.entry e hentry]

theorem has_first (h : f.IsFronted) (hne : f.layout ≠ []) : f.Has .first :=
  h.laid _ (List.mem_of_mem_head? (h.entry?_eq hne))

/-- A function with a body is given another block than the first one. -/
theorem nextBlock_ne (h : f.IsFronted) (hne : f.layout ≠ []) : f.nextBlock ≠ .first := fun heq =>
  f.not_has_nextBlock (heq ▸ h.has_first hne)

/-! ### One change -/

theorem declared (name : String) (sig : Signature) (linkage : Linkage) :
    ({ name, sig, linkage } : Function).IsFronted where
  toIsPlaced := Builder.isPlaced_declared name sig linkage
  entry _ he := nomatch he
  blank _ := ⟨rfl, rfl⟩
  slots := rfl
  others _ _ := rfl
  spared _ hb := absurd hb List.not_mem_nil

theorem addBlock (h : f.IsFronted) {layout : List BlockId}
    (hlaid : ∀ b ∈ layout, b = f.nextBlock ∨ b ∈ f.layout) (hentry : layout.head? = some .first) :
    (f.addBlock layout).IsFronted where
  toIsPlaced := h.toIsPlaced.addBlock hlaid
  entry e he := Option.some.inj (he.symm.trans hentry)
  blank hnil := by simp [show layout = [] from hnil] at hentry
  slots := slotsAt_addBlock.trans h.slots
  others b hb := slotsAt_addBlock.trans (h.others b hb)
  spared b := by
    rw [successors_addBlock]
    exact h.spared b

/-- A block at the end is the first one of a function without a body. -/
theorem newBlock (h : f.IsFronted) : (f.addBlock (f.layout ++ [f.nextBlock])).IsFronted := by
  refine h.addBlock (fun b hb => by simpa [or_comm] using hb) ?_
  by_cases hnil : f.layout = []
  · rw [hnil, (h.blank hnil).nextBlock]
    rfl
  · rw [List.head?_append_of_ne_nil _ hnil]
    exact h.entry?_eq hnil

theorem newBlockBefore (h : f.IsFronted) (hne : f.layout ≠ []) {anchor : BlockId} (hanchor : anchor ≠ .first) :
    (f.addBlock (insertBefore f.nextBlock anchor f.layout)).IsFronted :=
  h.addBlock (fun _ hb => mem_insertBefore_iff.1 hb)
    ((head?_insertBefore hne fun hhead => hanchor (h.entry anchor hhead)).trans (h.entry?_eq hne))

theorem append (h : f.IsFronted) {i : Inst} (hc : f.Has c) (hi : i.kind.isAlloca = false) :
    (f.append c i).IsFronted where
  toIsPlaced := h.toIsPlaced.append hc hi
  entry := h.entry
  blank hnil := absurd hc ((h.blank hnil).not_has c)
  slots := by
    rw [(slots_code_append h.whole hc hi).1, h.slots, slots_push (f := f) (g := f.append c i) (i := i) rfl,
      if_neg (by simp [hi]), List.append_nil]
  others b hb := (slots_code_append h.whole hc hi).1.trans (h.others b hb)
  spared b := by
    rw [successors_append]
    exact h.spared b

theorem reserve (h : f.IsFronted) (hne : f.layout ≠ []) (ty : Ty) : (f.reserve .first ty).IsFronted where
  toIsPlaced := h.toIsPlaced.reserve (h.has_first hne) ty
  entry := h.entry
  blank hnil := absurd hnil hne
  slots := by
    rw [(slots_code_reserve h.whole (h.has_first hne)).1, if_pos rfl, h.slots,
      slots_push (f := f) (g := f.reserve .first ty) (i := ⟨.alloca ty, ty.pointerTo⟩) rfl]
    rfl
  others b hb := by
    rw [(slots_code_reserve h.whole (h.has_first hne)).1, if_neg (Ne.symm hb), h.others b hb]
  spared b := by
    rw [successors_reserve]
    exact h.spared b

theorem terminate (h : f.IsFronted) (hc : f.Has c) {t : Terminator} (ht : .first ∉ t.successors) :
    (f.terminate c t).IsFronted where
  toIsPlaced := h.toIsPlaced.terminate c t
  entry := h.entry
  blank hnil := absurd hc ((h.blank hnil).not_has c)
  slots := slotsAt_terminate.trans h.slots
  others b hb := slotsAt_terminate.trans (h.others b hb)
  spared b := by
    rw [successors_terminate hc]
    split
    · exact ht
    · exact h.spared b

/-- Where code goes, there is a block. -/
theorem ready (h : f.IsFronted) {cur : Option BlockId} (hcur : ∀ c, cur = some c → f.Has c) :
    (f.ready cur).2.IsFronted ∧ (f.ready cur).2.Has (f.ready cur).1 := by
  cases hopen : f.openAt cur with
  | some c =>
    rw [ready_of_open hopen]
    exact ⟨h, hcur c (openAt_eq_some_iff.1 hopen).1⟩
  | none =>
    rw [ready_of_closed hopen]
    exact ⟨h.newBlock, has_addBlock.2 (.inr rfl)⟩

/-- The linkage of a function has nothing to do with its blocks. -/
theorem setLinkage (h : f.IsFronted) (linkage : Linkage) : { f with linkage }.IsFronted :=
  { h with
    blank := fun hnil => ⟨(h.blank hnil).blocks, hnil⟩ }

end IsFronted

end Function

/-! ### Builders -/

/-- The slots of all functions stand at their fronts. -/
def Module.IsFronted (m : Module) : Prop := ∀ id f, m.function? id = some f → f.IsFronted

/-- Besides, the function that is being built has a body. -/
structure Builder.IsFronted (b : Builder) : Prop where
  functions : b.mod.IsFronted
  building : ∀ id, b.func = some id → ∃ f, b.mod.function? id = some f ∧ f.layout ≠ []

namespace Build

variable {α β : Type} {b b' : Builder}

theorem exists_of_bind {m : Build α} {next : α → Build β} {r : β × Builder} (h : (m >>= next) b = .ok r) :
    ∃ a b₁, m b = .ok (a, b₁) ∧ next a b₁ = .ok r := by
  simp only [Bind.bind, StateT.bind, Except.bind] at h
  split at h
  · cases h
  · next r hr => exact ⟨r.1, r.2, hr, h⟩

/-- Code is only written where there is a function, and the block at the cursor is one of its blocks. -/
theorem exists_builds_of_insertionBlock {r : BlockId × Builder} (h : insertionBlock b = .ok r) :
    ∃ id f, b.Builds id f ∧ ∀ c, b.block = some c → f.Has c := by
  obtain ⟨⟨id, f⟩, b₁, hfunction, hrest⟩ := exists_of_bind h
  obtain ⟨rfl, hfunc, hf⟩ := Steady.function_ok hfunction
  refine ⟨id, f, ⟨hfunc, hf⟩, fun c hblock => ?_⟩
  by_contra hc
  have hmissing : insertionBlock b₁ = .error (.missingBlock c) := by
    simp only [insertionBlock, bind, StateT.bind, function_eq ⟨hfunc, hf⟩, Except.bind, get, getThe,
      MonadStateOf.get, StateT.get, pure, Except.pure, hblock, Function.block?_eq_none hc]
    rfl
  cases hmissing.symm.trans h

end Build

namespace Builder

variable {b b' : Builder} {id : FuncId} {f g : Function} {c : BlockId} {cur : Option BlockId}

/-- The function that is being built was written to. -/
theorem isFronted_write (h : b.mod.IsFronted) (hb : b.Builds id f) (hg : g.IsFronted) (hne : g.layout ≠ []) :
    (b.write id g cur).IsFronted where
  functions := Module.forall_modifyFunction h id fun _ _ => hg
  building i hi := by
    obtain rfl : id = i := Option.some.inj (hb.1.symm.trans hi)
    exact ⟨g, function?_write hb.2, hne⟩

/-- A function that a block was made in has a body. -/
theorem isFronted_newBlock (h : b.mod.IsFronted) (hrun : Build.newBlock b = .ok (c, b')) : b'.IsFronted := by
  obtain ⟨id, f, hfunc, hf, -, -⟩ := Build.Steady.withFunction_ok hrun
  obtain ⟨-, rfl⟩ := Prod.mk.inj (Except.ok.inj ((Build.newBlock_eq ⟨hfunc, hf⟩).symm.trans hrun))
  exact isFronted_write h ⟨hfunc, hf⟩ (h id f hf).newBlock (by simp)

namespace IsFronted

/-- It depends on the functions only, and on which one is being built. -/
theorem of_same (h : b.IsFronted) (hfunc : b'.func = b.func) (hfunctions : b'.mod.functions = b.mod.functions) :
    b'.IsFronted where
  functions id f hf := h.functions id f (by rwa [Module.function?, ← hfunctions])
  building id hid := by
    obtain ⟨f, hf, hne⟩ := h.building id (hfunc ▸ hid)
    exact ⟨f, by rwa [Module.function?, hfunctions], hne⟩

/-- What is being built, has a body. -/
theorem exists_builds (h : b.IsFronted) (hb : b.Builds id f) : f.IsFronted ∧ f.layout ≠ [] := by
  obtain ⟨g, hg, hne⟩ := h.building id hb.1
  obtain rfl := Option.some.inj (hg.symm.trans hb.2)
  exact ⟨h.functions id g hg, hne⟩

theorem newBlock (h : b.IsFronted) (hrun : Build.newBlock b = .ok (c, b')) : c ≠ .first ∧ b'.IsFronted := by
  refine ⟨?_, isFronted_newBlock h.functions hrun⟩
  obtain ⟨id, f, hfunc, hf, rfl, -⟩ := Build.Steady.withFunction_ok hrun
  obtain ⟨hfronted, hne⟩ := h.exists_builds ⟨hfunc, hf⟩
  exact hfronted.nextBlock_ne hne

theorem newBlockBefore (h : b.IsFronted) {anchor : BlockId} (hanchor : anchor ≠ .first)
    (hrun : Build.newBlockBefore anchor b = .ok (c, b')) : c ≠ .first ∧ b'.IsFronted := by
  obtain ⟨id, f, hfunc, hf, -, -⟩ := Build.Steady.withFunction_ok hrun
  obtain ⟨hfronted, hne⟩ := h.exists_builds ⟨hfunc, hf⟩
  obtain ⟨rfl, rfl⟩ :=
    Prod.mk.inj (Except.ok.inj ((Build.newBlockBefore_eq ⟨hfunc, hf⟩ anchor).symm.trans hrun))
  exact ⟨hfronted.nextBlock_ne hne, isFronted_write h.functions ⟨hfunc, hf⟩ (hfronted.newBlockBefore hne hanchor)
    (List.ne_nil_of_mem (mem_insertBefore List.mem_cons_self))⟩

/-- Where code goes, there is a block of the function that is being built. -/
theorem exists_ready {r : BlockId × Builder} (h : b.IsFronted) (hrun : Build.insertionBlock b = .ok r) :
    ∃ id f, b.Builds id f ∧ (∀ c, b.block = some c → f.Has c) ∧ (f.ready b.block).2.IsFronted ∧
      (f.ready b.block).2.Has (f.ready b.block).1 ∧ (f.ready b.block).2.layout ≠ [] := by
  obtain ⟨id, f, hb, hcur⟩ := Build.exists_builds_of_insertionBlock hrun
  obtain ⟨hready, hhas⟩ := (h.exists_builds hb).1.ready hcur
  exact ⟨id, f, hb, hcur, hready, hhas, fun hnil => (hready.blank hnil).not_has _ hhas⟩

theorem terminate (h : b.IsFronted) {t : Terminator} {a : Unit} (ht : .first ∉ t.successors)
    (hrun : Build.terminate t b = .ok (a, b')) : b'.IsFronted := by
  obtain ⟨_, _, hinsert, -⟩ := Build.exists_of_bind hrun
  obtain ⟨id, f, hb, hcur, hready, hhas, hne⟩ := h.exists_ready hinsert
  obtain ⟨-, rfl⟩ := Prod.mk.inj (Except.ok.inj ((Build.terminate_eq hb hcur t).symm.trans hrun))
  exact isFronted_write h.functions hb (hready.terminate hhas ht) hne

/-- An instruction at the cursor goes behind the slots, and a slot goes to their end. -/
theorem takes (h : b.IsFronted) (htakes : b.Takes b') : b'.IsFronted := by
  cases htakes with
  | nothing => exact h
  | @insert _ kind ty v hkind hrun =>
    obtain ⟨_, _, hinsert, -⟩ := Build.exists_of_bind hrun
    obtain ⟨id, f, hb, hcur, hready, hhas, hne⟩ := h.exists_ready hinsert
    obtain ⟨-, rfl⟩ := Prod.mk.inj (Except.ok.inj ((Build.insert_eq hb hcur kind ty).symm.trans hrun))
    exact isFronted_write h.functions hb (hready.append hhas hkind) hne
  | @alloca _ ty v hrun =>
    obtain ⟨⟨id, f⟩, b₁, hfunction, -⟩ := Build.exists_of_bind hrun
    obtain ⟨rfl, hfunc, hf⟩ := Build.Steady.function_ok hfunction
    obtain ⟨hfronted, hne⟩ := h.exists_builds ⟨hfunc, hf⟩
    obtain ⟨-, rfl⟩ := Prod.mk.inj (Except.ok.inj
      ((Build.alloca_eq ⟨hfunc, hf⟩ hfronted.whole (hfronted.entry?_eq hne) ty).symm.trans hrun))
    exact isFronted_write h.functions ⟨hfunc, hf⟩ (hfronted.reserve hne ty) hne

end IsFronted

end Builder

end TreeFlow
