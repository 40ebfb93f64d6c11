import TreeFlow.Proofs.Graph.Actions

/-!
# What is built stays

Whatever is asked of a builder next, the instructions of a block stay in their order, and so does its
terminator. Instructions are added at the end of an open block, and stack slots behind those at the front of
the entry, be it closed or not (`Function.Continues`). A block that is not open takes no more code, since a
fresh one is started. So every instruction stands in one block, once (`Function.IsPlaced`).

Both are shown of one operation first, then of a run of them. The operations may come in any order, and go
back and forth between functions and blocks, as long as they refer to what is there.
-/

namespace TreeFlow

namespace Function

variable {f g h : Function} {b c e : BlockId} {x : InstId} {E E' : BlockId → Prop}

/-! ### Where instructions stand -/

/-- Every instruction stands in one block, once, and stack slots stand at the front of a block only. -/
structure IsPlaced (f : Function) : Prop where
  whole : f.Whole
  laid : ∀ b ∈ f.layout, f.Has b
  placed : ∀ x, (f.inst? x).isSome → ∃ b, x ∈ f.instsAt b
  alone : ∀ b c x, x ∈ f.instsAt b → x ∈ f.instsAt c → b = c
  once : ∀ b, (f.instsAt b).Nodup
  code : ∀ b, ∀ x ∈ f.codeAt b, f.allocates x = false

/-- A later stage of a function. Stack slots were added to some of the blocks in `E`, behind those at the
front, and code to the end of blocks that were open. -/
structure Continues (E : BlockId → Prop) (f g : Function) : Prop where
  has : ∀ b, f.Has b → g.Has b
  inst : ∀ x i, f.inst? x = some i → g.inst? x = some i
  term : ∀ b t, f.termAt b = some t → g.termAt b = some t
  slots : ∀ b, ∃ new, g.slotsAt b = f.slotsAt b ++ new ∧ (new ≠ [] → E b)
  code : ∀ b, ∃ added, g.codeAt b = f.codeAt b ++ added ∧ ((f.termAt b).isSome → added = [])

namespace Continues

theorem refl (f : Function) : f.Continues E f where
  has _ := id
  inst _ _ := id
  term _ _ := id
  slots _ := ⟨[], (List.append_nil _).symm, fun hne => absurd rfl hne⟩
  code _ := ⟨[], (List.append_nil _).symm, fun _ => rfl⟩

theorem mono (hfg : f.Continues E g) (hE : ∀ b, E b → E' b) : f.Continues E' g :=
  { hfg with
    slots := fun b => by
      obtain ⟨new, hslots, hnew⟩ := hfg.slots b
      exact ⟨new, hslots, fun hne => hE b (hnew hne)⟩ }

theorem trans (hfg : f.Continues E g) (hgh : g.Continues E h) : f.Continues E h where
  has b hb := hgh.has b (hfg.has b hb)
  inst x i hi := hgh.inst x i (hfg.inst x i hi)
  term b t ht := hgh.term b t (hfg.term b t ht)
  slots b := by
    obtain ⟨new, hslots, hnew⟩ := hfg.slots b
    obtain ⟨new', hslots', hnew'⟩ := hgh.slots b
    refine ⟨new ++ new', by rw [hslots', hslots, List.append_assoc], fun hne => ?_⟩
    by_cases hnil : new = []
    · exact hnew' fun hnil' => hne (by rw [hnil, hnil', List.append_nil])
    · exact hnew hnil
  code b := by
    obtain ⟨added, hcode, hadded⟩ := hfg.code b
    obtain ⟨added', hcode', hadded'⟩ := hgh.code b
    refine ⟨added ++ added', by rw [hcode', hcode, List.append_assoc], fun hclosed => ?_⟩
    obtain ⟨t, ht⟩ := Option.isSome_iff_exists.1 hclosed
    rw [hadded hclosed, hadded' (Option.isSome_of_eq_some (hfg.term b t ht)), List.append_nil]

/-- The code is the same. -/
theorem of_same (hhas : ∀ b, f.Has b → g.Has b) (hinst : ∀ x, g.inst? x = f.inst? x)
    (hterm : ∀ b t, f.termAt b = some t → g.termAt b = some t) (hslots : ∀ b, g.slotsAt b = f.slotsAt b)
    (hcode : ∀ b, g.codeAt b = f.codeAt b) : f.Continues E g where
  has := hhas
  inst x i hi := (hinst x).trans hi
  term := hterm
  slots b := ⟨[], by rw [hslots, List.append_nil], fun hne => absurd rfl hne⟩
  code b := ⟨[], by rw [hcode, List.append_nil], fun _ => rfl⟩

end Continues

/-! ### One change -/

/-- The same blocks in another order. -/
theorem IsPlaced.layOut (hf : f.IsPlaced) {layout : List BlockId} (hlaid : ∀ b ∈ layout, f.Has b) :
    { f with layout }.IsPlaced := ⟨hf.whole, hlaid, hf.placed, hf.alone, hf.once, hf.code⟩

theorem continues_layOut (f : Function) (layout : List BlockId) : f.Continues E { f with layout } :=
  .of_same (fun _ => id) (fun _ => rfl) (fun _ _ => id) (fun _ => rfl) fun _ => rfl

theorem IsPlaced.addBlock (hf : f.IsPlaced) {layout : List BlockId}
    (hlaid : ∀ b ∈ layout, b = f.nextBlock ∨ b ∈ f.layout) : (f.addBlock layout).IsPlaced where
  whole := hf.whole.addBlock
  laid b hb := has_addBlock.2 ((hlaid b hb).symm.imp_left (hf.laid b))
  placed x hx := by
    obtain ⟨b, hb⟩ := hf.placed x hx
    exact ⟨b, instsAt_addBlock.symm ▸ hb⟩
  alone b c x hb hc := hf.alone b c x (instsAt_addBlock ▸ hb) (instsAt_addBlock ▸ hc)
  once b := instsAt_addBlock.symm ▸ hf.once b
  code b x hx := hf.code b x (codeAt_addBlock ▸ hx)

theorem continues_addBlock (f : Function) (layout : List BlockId) : f.Continues E (f.addBlock layout) :=
  .of_same (fun _ hb => has_addBlock.2 (.inl hb)) (fun _ => rfl) (fun _ _ ht => termAt_addBlock.trans ht)
    (fun _ => slotsAt_addBlock) fun _ => codeAt_addBlock

/-- A new instruction stands where it was put, and nowhere else. -/
theorem IsPlaced.of_insert (hf : f.IsPlaced) {i : Inst} {pre post : List InstId}
    (hold : f.instsAt c = pre ++ post) (hhas : ∀ b, f.Has b → g.Has b) (hlayout : g.layout = f.layout)
    (hinst : ∀ x, g.inst? x = if x = f.nextInst then some i else f.inst? x)
    (hinsts : ∀ b, g.instsAt b = if c = b then pre ++ f.nextInst :: post else f.instsAt b)
    (hcode : ∀ b, ∀ x ∈ g.codeAt b, g.allocates x = false) : g.IsPlaced := by
  have hfresh : ∀ b, f.nextInst ∉ f.instsAt b := fun b hb => by
    simpa [f.inst?_nextInst] using hf.whole b f.nextInst hb
  have hmem : ∀ b x, x ∈ g.instsAt b ↔ x ∈ f.instsAt b ∨ c = b ∧ x = f.nextInst := by
    intro b x
    rw [hinsts]
    split
    · next h => simp [← h, hold, or_assoc, or_comm]
    · next h => simp [h]
  refine ⟨fun b x hx => ?_, fun b hb => hhas b (hf.laid b (hlayout ▸ hb)), fun x hx => ?_,
    fun b d x hb hd => ?_, fun b => ?_, hcode⟩
  · rw [hinst]
    split
    · rfl
    · next hne =>
      exact hf.whole b x (((hmem b x).1 hx).resolve_right fun h => hne h.2)
  · rw [hinst] at hx
    split at hx
    · next heq => exact ⟨c, (hmem c x).2 (.inr ⟨rfl, heq⟩)⟩
    · obtain ⟨b, hb⟩ := hf.placed x hx
      exact ⟨b, (hmem b x).2 (.inl hb)⟩
  · rcases (hmem b x).1 hb with hb | ⟨hcb, hx⟩ <;> rcases (hmem d x).1 hd with hd | ⟨hcd, hx'⟩
    · exact hf.alone b d x hb hd
    · exact absurd (hx' ▸ hb) (hfresh b)
    · exact absurd (hx ▸ hd) (hfresh d)
    · exact hcb.symm.trans hcd
  · rw [hinsts]
    split
    · exact List.nodup_middle.2 (List.nodup_cons.2 ⟨hold ▸ hfresh c, hold ▸ hf.once c⟩)
    · exact hf.once b

theorem IsPlaced.append (hf : f.IsPlaced) {i : Inst} (hc : f.Has c) (hi : i.kind.isAlloca = false) :
    (f.append c i).IsPlaced := by
  refine hf.of_insert (List.append_nil (f.instsAt c)).symm (fun _ => has_append.2) rfl (fun _ => inst?_append)
    (fun b => ?_) fun b x hx => ?_
  · rw [instsAt_append hc]
    split
    · next h => rw [h]
    · rfl
  · rw [(slots_code_append hf.whole hc hi).2] at hx
    have hold : x ∈ f.codeAt b → (f.append c i).allocates x = false := fun hx => by
      rw [allocates_append (hf.whole b x (mem_instsAt_of_mem_codeAt hx)), hf.code b x hx]
    split at hx
    · rcases List.mem_append.1 hx with hx | hx
      · exact hold hx
      · rw [List.mem_singleton.1 hx, allocates_append_nextInst, hi]
    · exact hold hx

theorem continues_append (hf : f.IsPlaced) {i : Inst} (hc : f.Has c) (hopen : f.termAt c = none)
    (hi : i.kind.isAlloca = false) : f.Continues E (f.append c i) where
  has _ := has_append.2
  inst _ _ := inst?_append_of_some
  term _ _ ht := termAt_append.trans ht
  slots b := ⟨[], by rw [(slots_code_append hf.whole hc hi).1, List.append_nil], fun hne => absurd rfl hne⟩
  code b := by
    rw [(slots_code_append hf.whole hc hi).2]
    split
    · next h => exact ⟨_, rfl, fun hclosed => by simp [← h, hopen] at hclosed⟩
    · exact ⟨[], (List.append_nil _).symm, fun _ => rfl⟩

theorem IsPlaced.reserve (hf : f.IsPlaced) (he : f.Has e) (ty : Ty) : (f.reserve e ty).IsPlaced := by
  refine hf.of_insert (slotsAt_append_codeAt f e).symm (fun _ => has_reserve.2) rfl
    (fun _ => inst?_reserve) (fun b => ?_) fun b x hx => ?_
  · rw [instsAt_reserve he]
    split
    · next h => rw [h]
    · rfl
  · rw [(slots_code_reserve hf.whole he).2] at hx
    rw [allocates_reserve (hf.whole b x (mem_instsAt_of_mem_codeAt hx)), hf.code b x hx]

theorem continues_reserve (hf : f.IsPlaced) (he : f.Has e) (ty : Ty) :
    f.Continues (· = e) (f.reserve e ty) where
  has _ := has_reserve.2
  inst _ _ := inst?_reserve_of_some
  term _ _ ht := termAt_reserve.trans ht
  slots b := by
    rw [(slots_code_reserve hf.whole he).1]
    split
    · next h => exact ⟨_, rfl, fun _ => h.symm⟩
    · exact ⟨[], (List.append_nil _).symm, fun hne => absurd rfl hne⟩
  code b := ⟨[], by rw [(slots_code_reserve hf.whole he).2, List.append_nil], fun _ => rfl⟩

theorem IsPlaced.terminate (hf : f.IsPlaced) (c : BlockId) (t : Terminator) : (f.terminate c t).IsPlaced where
  whole := hf.whole.terminate
  laid b hb := has_terminate.2 (hf.laid b hb)
  placed x hx := by
    obtain ⟨b, hb⟩ := hf.placed x hx
    exact ⟨b, instsAt_terminate.symm ▸ hb⟩
  alone b c x hb hc := hf.alone b c x (instsAt_terminate ▸ hb) (instsAt_terminate ▸ hc)
  once b := instsAt_terminate.symm ▸ hf.once b
  code b x hx := hf.code b x (codeAt_terminate ▸ hx)

theorem continues_terminate (hc : f.Has c) (hopen : f.termAt c = none) (t : Terminator) :
    f.Continues E (f.terminate c t) := by
  refine .of_same (fun _ => has_terminate.2) (fun _ => rfl) (fun b t' ht => ?_)
    (fun _ => slotsAt_terminate) fun _ => codeAt_terminate
  rw [termAt_terminate hc, if_neg, ht]
  rintro rfl
  exact nomatch hopen.symm.trans ht

/-- Where code goes, there is an open block. -/
theorem IsPlaced.ready (hf : f.IsPlaced) {cur : Option BlockId} (hcur : ∀ c, cur = some c → f.Has c) :
    (f.ready cur).2.IsPlaced ∧ f.Continues E (f.ready cur).2 ∧ (f.ready cur).2.Has (f.ready cur).1 ∧
      (f.ready cur).2.termAt (f.ready cur).1 = none := by
  cases hopen : f.openAt cur with
  | some c =>
    obtain ⟨hc, hterm⟩ := openAt_eq_some_iff.1 hopen
    rw [ready_of_open hopen]
    exact ⟨hf, .refl f, hcur c hc, hterm⟩
  | none =>
    rw [ready_of_closed hopen]
    refine ⟨hf.addBlock fun b hb => ?_, continues_addBlock f _, has_addBlock.2 (.inr rfl), ?_⟩
    · simpa [or_comm] using hb
    · exact termAt_addBlock.trans (termAt_of_not_has f.not_has_nextBlock)

end Function

/-! ### One operation -/

namespace Builder

variable {b : Builder} {id : FuncId} {f g : Function} {cur : Option BlockId} {E : FuncId → BlockId → Prop}

/-- Instructions are placed in all functions, and the cursor is at a function and a block that are there. -/
structure IsPlaced (b : Builder) : Prop where
  functions : ∀ id f, b.mod.function? id = some f → f.IsPlaced
  current : ∀ id, b.func = some id → (b.mod.function? id).isSome
  cursor : ∀ f c, b.function? = some f → b.block = some c → f.Has c

/-- A later stage of a builder, where every function continues what it was. -/
def Continues (E : FuncId → BlockId → Prop) (b b' : Builder) : Prop :=
  ∀ id f, b.mod.function? id = some f → ∃ g, b'.mod.function? id = some g ∧ f.Continues (E id) g

/-- The functions that were there are what they were. -/
theorem Continues.of_kept {b' : Builder}
    (h : ∀ id f, b.mod.function? id = some f → b'.mod.function? id = some f) : b.Continues E b' :=
  fun id f hf => ⟨f, h id f hf, .refl f⟩

theorem Continues.of_functions {b' : Builder} (h : b'.mod.functions = b.mod.functions) :
    b.Continues E b' := .of_kept fun id f hf => by rwa [Module.function?, h]

theorem Continues.trans {b' b'' : Builder} (h : b.Continues E b') (h' : b'.Continues E b'') :
    b.Continues E b'' := fun id f hf => by
  obtain ⟨g, hg, hfg⟩ := h id f hf
  obtain ⟨k, hk, hgk⟩ := h' id g hg
  exact ⟨k, hk, hfg.trans hgk⟩

theorem Continues.mono {E' : FuncId → BlockId → Prop} {b' : Builder} (h : b.Continues E b')
    (hE : ∀ id e, E id e → E' id e) : b.Continues E' b' := fun id f hf => by
  obtain ⟨g, hg, hfg⟩ := h id f hf
  exact ⟨g, hg, hfg.mono (hE id)⟩

theorem function?_of_builds (h : b.Builds id f) : b.function? = some f := by
  rw [function?, h.1]
  exact h.2

theorem exists_builds (h : b.function? = some f) : ∃ id, b.Builds id f :=
  Option.bind_eq_some_iff.1 h

/-- The blocks that are the entry of a function. -/
def EntryAt (b : Builder) (id : FuncId) (e : BlockId) : Prop :=
  ∃ f, b.mod.function? id = some f ∧ f.entry? = some e

/-- What is written to the function being built is placed if it is placed there. -/
theorem IsPlaced.write (h : b.IsPlaced) (hb : b.Builds id f) (hg : g.IsPlaced)
    (hcontinues : f.Continues (f.entry? = some ·) g) (hcur : ∀ c, cur = some c → g.Has c) :
    (b.write id g cur).IsPlaced ∧ b.Continues b.EntryAt (b.write id g cur) := by
  have hother : ∀ j, id ≠ j → (b.write id g cur).mod.function? j = b.mod.function? j := fun j hj => by
    have hne : id.index ≠ j.index := fun heq => hj (by cases id; cases j; exact congrArg _ heq)
    simp [Builder.write, Module.function?, Module.modifyFunction, Array.getElem?_modify, hne]
  refine ⟨⟨fun j k hk => ?_, fun j hj => ?_, fun k c hk hc => ?_⟩, fun j k hk => ?_⟩
  · by_cases hj : id = j
    · subst hj
      obtain rfl : g = k := Option.some.inj ((function?_write hb.2).symm.trans hk)
      exact hg
    · exact h.functions j k (hother j hj ▸ hk)
  · obtain rfl : id = j := Option.some.inj (hb.1.symm.trans hj)
    exact Option.isSome_of_eq_some (function?_write hb.2)
  · obtain rfl : g = k := Option.some.inj ((function?_of_builds hb.write).symm.trans hk)
    exact hcur c hc
  · by_cases hj : id = j
    · subst hj
      obtain rfl : f = k := Option.some.inj (hb.2.symm.trans hk)
      exact ⟨g, function?_write hb.2, hcontinues.mono fun e he => ⟨f, hk, he⟩⟩
    · exact ⟨k, (hother j hj).trans hk, .refl k⟩

/-- A stack slot goes behind those that are there. Without an entry there is no place for it. -/
theorem IsPlaced.alloca (h : b.IsPlaced) (hb : b.Builds id f) (ty : Ty) :
    ((Build.Op.alloca ty).exec b).IsPlaced ∧ b.Continues b.EntryAt ((Build.Op.alloca ty).exec b) := by
  have hf : f.IsPlaced := h.functions id f hb.2
  rw [Build.Op.exec]
  cases hentry : f.entry? with
  | none =>
    have herror : Build.alloca ty b = .error .noEntry := by
      simp only [Build.alloca, bind, StateT.bind, Build.function_eq hb, Except.bind, hentry]
      rfl
    rw [Build.exec_of_error herror]
    exact ⟨h, .of_functions rfl⟩
  | some e =>
    have he : f.Has e := hf.laid e (List.mem_of_mem_head? hentry)
    rw [Build.exec_of_ok (Build.alloca_eq hb hf.whole hentry ty)]
    refine h.write hb (hf.reserve he ty)
      ((Function.continues_reserve hf he ty).mono fun d hd => hd ▸ hentry) fun c hc => ?_
    exact Function.has_reserve.2 (h.cursor f c (function?_of_builds hb) hc)

/-- A block that is moved keeps its code. -/
theorem IsPlaced.moveBlockAfter (h : b.IsPlaced) (hb : b.Builds id f) {d : BlockId} (hd : f.Has d)
    (anchor : BlockId) :
    ((Build.Op.moveBlockAfter d anchor).exec b).IsPlaced ∧
      b.Continues b.EntryAt ((Build.Op.moveBlockAfter d anchor).exec b) := by
  have hf : f.IsPlaced := h.functions id f hb.2
  obtain ⟨layout, hmove, hlayout⟩ := f.exists_moveBlockAfter_eq d anchor
  have hrun : Build.moveBlockAfter d anchor b = .ok ((), b.write id { f with layout } b.block) := by
    rw [← hmove]
    exact Build.withFunction_eq hb _
  rw [Build.Op.exec, Build.exec_of_ok hrun]
  refine h.write hb (hf.layOut fun c hc => ?_) (Function.continues_layOut f layout)
    fun c hc => h.cursor f c (function?_of_builds hb) hc
  rcases (hlayout c).1 hc with rfl | hc
  · exact hd
  · exact hf.laid c hc

/-- An operation on the function being built, which refers to blocks that are there. -/
theorem IsPlaced.exec (h : b.IsPlaced) (o : Build.Op)
    (hfit : ∀ f, b.function? = some f → ∀ c ∈ o.blocks, f.Has c) :
    (o.exec b).IsPlaced ∧ b.Continues b.EntryAt (o.exec b) := by
  have hsame : b.IsPlaced ∧ b.Continues b.EntryAt b := ⟨h, .of_functions rfl⟩
  cases hfunction : b.function? with
  | none => rwa [o.exec_of_none hfunction]
  | some f =>
    obtain ⟨id, hb⟩ := exists_builds hfunction
    have hf : f.IsPlaced := h.functions id f hb.2
    have hcur : ∀ c, b.block = some c → f.Has c := fun c => h.cursor f c hfunction
    obtain ⟨hready, hcontinues, hhas, hopen⟩ := hf.ready hcur
    cases o.comes with
    | nothing hexec => rwa [hexec]
    | insert kind ty hkind hexec =>
      rw [hexec, Build.exec_of_ok (Build.insert_eq hb hcur kind ty)]
      refine h.write hb (hready.append hhas hkind)
        (hcontinues.trans (Function.continues_append hready hhas hopen hkind)) fun c hc => ?_
      exact Option.some.inj hc ▸ Function.has_append.2 hhas
    | terminate t hexec =>
      rw [hexec, Build.exec_of_ok (Build.terminate_eq hb hcur t)]
      refine h.write hb (hready.terminate _ t)
        (hcontinues.trans (Function.continues_terminate hhas hopen t)) fun c hc => ?_
      exact Option.some.inj hc ▸ Function.has_terminate.2 hhas
    | alloca ty ho => exact ho ▸ h.alloca hb ty
    | newBlock ho =>
      subst ho
      rw [Build.Op.exec, Build.exec_of_ok (Build.newBlock_eq hb)]
      refine h.write hb (hf.addBlock fun c hc => ?_) (Function.continues_addBlock f _)
        fun c hc => Function.has_addBlock.2 (.inl (hcur c hc))
      simpa [or_comm] using hc
    | newBlockBefore anchor ho =>
      subst ho
      rw [Build.Op.exec, Build.exec_of_ok (Build.newBlockBefore_eq hb anchor)]
      refine h.write hb (hf.addBlock fun c hc => ?_) (Function.continues_addBlock f _)
        fun c hc => Function.has_addBlock.2 (.inl (hcur c hc))
      exact mem_insertBefore_iff.1 hc
    | moveBlockAfter d anchor ho =>
      subst ho
      exact h.moveBlockAfter hb (hfit f hfunction d (by simp [Build.Op.blocks])) anchor

/-- The functions and blocks that an operation refers to are there. -/
def Action.Fits (b : Builder) : Action → Prop
  | .op o => ∀ f, b.function? = some f → ∀ c ∈ o.blocks, f.Has c
  | .setFunction (some id) => (b.mod.function? id).isSome
  | .setBlock c => ∃ f, b.function? = some f ∧ f.Has c
  | .addCtor _ id => (b.mod.function? id).isSome
  | _ => True

theorem isPlaced_declared (name : String) (sig : Signature) (linkage : Linkage) :
    ({ name, sig, linkage } : Function).IsPlaced where
  whole _ _ hx := absurd hx List.not_mem_nil
  laid _ hb := absurd hb List.not_mem_nil
  placed _ hx := nomatch hx
  alone _ _ _ hb := absurd hb List.not_mem_nil
  once _ := List.nodup_nil
  code _ _ hx := absurd hx List.not_mem_nil

/-- It depends on the functions only, and on where the cursor is. -/
theorem IsPlaced.of_same {c : Builder} (h : b.IsPlaced) (hfunctions : c.mod.functions = b.mod.functions)
    (hfunc : c.func = b.func) (hblock : c.block = b.block) : c.IsPlaced := by
  have hfunction : c.mod.function? = b.mod.function? := by
    funext id
    rw [Module.function?, Module.function?, hfunctions]
  refine ⟨fun id f hf => h.functions id f (hfunction ▸ hf), fun id hid => ?_, fun f d hf hd => ?_⟩
  · exact hfunction ▸ h.current id (hfunc ▸ hid)
  · refine h.cursor f d ?_ (hblock ▸ hd)
    rwa [function?, hfunction, hfunc] at hf

theorem IsPlaced.declareFunction (h : b.IsPlaced) (name : String) (sig : Signature) (linkage : Linkage) :
    (b.declareFunction name sig linkage).2.IsPlaced where
  functions := b.mod.forall_addFunction h.functions (isPlaced_declared name sig linkage)
  current id hid := by
    obtain ⟨f, hf⟩ := Option.isSome_iff_exists.1 (h.current id hid)
    exact Option.isSome_of_eq_some (b.mod.function?_addFunction _ hf)
  cursor f c hf hc := by
    obtain ⟨id, hid, hf⟩ := exists_builds hf
    obtain ⟨g, hg⟩ := Option.isSome_iff_exists.1 (h.current id hid)
    obtain rfl : g = f := Option.some.inj ((b.mod.function?_addFunction _ hg).symm.trans hf)
    exact h.cursor g c (function?_of_builds ⟨hid, hg⟩) hc

/-- A snapshot may start a scratch function, and the cursor is at no block of it. -/
theorem IsPlaced.snapshot (h : b.IsPlaced) : b.snapshot.2.IsPlaced := by
  cases hfunc : b.func with
  | some id =>
    have hsnapshot : b.snapshot.2 = b := by rw [Builder.snapshot, hfunc]
    rwa [hsnapshot]
  | none =>
    obtain ⟨id, f, hb, -⟩ := exists_scratch hfunc
    have hblock : b.snapshot.2.block = none := by
      rw [Builder.snapshot, hfunc]
      rfl
    refine ⟨?_, fun j hj => ?_, fun _ c _ hc => absurd (hc.symm.trans hblock) (Option.some_ne_none c)⟩
    · refine b.forall_snapshot h.functions (fun f hf => ?_) isPlaced_declared
      exact hf.addBlock fun c hc => by simpa [or_comm] using hc
    · obtain rfl : id = j := Option.some.inj (hb.1.symm.trans hj)
      exact Option.isSome_of_eq_some hb.2

/-- **Every operation leaves what is there in place.** -/
theorem IsPlaced.perform (h : b.IsPlaced) {a : Action} (hfit : a.Fits b) :
    (a.perform b).IsPlaced ∧ b.Continues b.EntryAt (a.perform b) := by
  have hsame : ∀ {c : Builder}, c.mod.functions = b.mod.functions → c.func = b.func → c.block = b.block →
      c.IsPlaced ∧ b.Continues b.EntryAt c := fun hfunctions hfunc hblock =>
    ⟨h.of_same hfunctions hfunc hblock, .of_functions hfunctions⟩
  cases a with
  | op o => exact h.exec o hfit
  | declareFunction name sig linkage =>
    exact ⟨h.declareFunction name sig linkage, .of_kept fun id f hf => b.mod.function?_addFunction _ hf⟩
  | setFunction id =>
    refine ⟨⟨h.functions, fun j hj => ?_, fun f c _ hc => absurd hc.symm (Option.some_ne_none c)⟩,
      .of_functions rfl⟩
    obtain rfl : id = some j := hj
    exact hfit
  | setBlock c =>
    refine ⟨⟨h.functions, h.current, fun f d hf hd => ?_⟩, .of_functions rfl⟩
    obtain ⟨g, hg, hc⟩ := hfit
    obtain rfl : g = f := Option.some.inj (hg.symm.trans hf)
    exact Option.some.inj hd ▸ hc
  | addGlobal g => exact hsame rfl rfl rfl
  | globalString text => exact hsame rfl rfl rfl
  | declareType kind name => exact hsame rfl rfl rfl
  | defineType key fields =>
    rw [Action.perform]
    split <;> exact hsame rfl rfl rfl
  | addCtor priority id => exact hsame rfl rfl rfl
  | snapshot =>
    refine ⟨h.snapshot, .of_kept fun id f hf => ?_⟩
    exact (b.function?_snapshot (Array.getElem?_eq_some_iff.1 hf).1).trans hf

/-! ### A run of operations -/

/-- What a run of operations makes of a builder. -/
def performAll (acts : List Action) (b : Builder) : Builder := acts.foldl (fun b a => a.perform b) b

/-- Every operation of a run refers to what is there when it is carried out. -/
def FitAll : List Action → Builder → Prop
  | [], _ => True
  | a :: rest, b => a.Fits b ∧ FitAll rest (a.perform b)

theorem performAll_append (acts more : List Action) (b : Builder) :
    performAll (acts ++ more) b = performAll more (performAll acts b) := List.foldl_append

theorem fitAll_append {acts more : List Action} :
    FitAll (acts ++ more) b ↔ FitAll acts b ∧ FitAll more (performAll acts b) := by
  induction acts generalizing b with
  | nil => simp [FitAll, performAll]
  | cons a rest ih => simp [FitAll, ih, performAll, and_assoc]

/-- The blocks that are the entry of a function at some time of a run. -/
def EntryDuring (acts : List Action) (b : Builder) (id : FuncId) (e : BlockId) : Prop :=
  ∃ before after, acts = before ++ after ∧ (performAll before b).EntryAt id e

/-- **Whatever is asked of a builder, in whatever order, leaves what is there in place.** -/
theorem IsPlaced.performAll (h : b.IsPlaced) {acts : List Action} (hfit : FitAll acts b) :
    (performAll acts b).IsPlaced ∧ b.Continues (EntryDuring acts b) (performAll acts b) := by
  induction acts generalizing b with
  | nil => exact ⟨h, .of_functions rfl⟩
  | cons a rest ih =>
    obtain ⟨hplaced, hcontinues⟩ := h.perform hfit.1
    obtain ⟨hplaced', hcontinues'⟩ := ih hplaced hfit.2
    refine ⟨hplaced', (hcontinues.mono fun id e he => ?_).trans (hcontinues'.mono fun id e he => ?_)⟩
    · exact ⟨[], a :: rest, rfl, he⟩
    · obtain ⟨before, after, rfl, he⟩ := he
      exact ⟨a :: before, after, rfl, he⟩

theorem isPlaced_ofName (name : String) : (ofName name).IsPlaced where
  functions _ _ hf := nomatch hf
  current _ hid := nomatch hid
  cursor _ _ hf := nomatch hf

/-- **Closed blocks are final.** A builder is asked for operations in any order, all of which refer to what
is there. Between two moments of this, a terminator stays what it is, as does every instruction, and a block
takes no more than stack slots behind those at its front, if it is the entry at some time in between, and
code at its end, if it is open. Every instruction stands in one block, and once. -/
theorem closed_blocks_final (name : String) (acts more : List Action)
    (hfit : FitAll (acts ++ more) (ofName name)) (id : FuncId) (f : Function)
    (hf : (performAll acts (ofName name)).mod.function? id = some f) :
    ∃ g, (performAll (acts ++ more) (ofName name)).mod.function? id = some g ∧
      (∀ b t, f.termAt b = some t → g.termAt b = some t) ∧
      (∀ x i, f.inst? x = some i → g.inst? x = some i) ∧
      (∀ b, ∃ slots new code added,
        f.instsAt b = slots ++ code ∧ g.instsAt b = slots ++ new ++ (code ++ added) ∧
        (∀ x ∈ slots ++ new, g.allocates x = true) ∧ (∀ x ∈ code ++ added, g.allocates x = false) ∧
        (new ≠ [] → EntryDuring more (performAll acts (ofName name)) id b) ∧
        ((f.termAt b).isSome → added = [])) ∧
      (∀ x, (g.inst? x).isSome → ∃! b, x ∈ g.instsAt b) ∧ ∀ b, (g.instsAt b).Nodup := by
  obtain ⟨hfit, hfit'⟩ := fitAll_append.1 hfit
  obtain ⟨hplaced, -⟩ := (isPlaced_ofName name).performAll hfit
  obtain ⟨hplaced', hcontinues⟩ := hplaced.performAll hfit'
  obtain ⟨g, hg, hfg⟩ := hcontinues id f hf
  rw [← performAll_append] at hplaced' hg
  have hg' : g.IsPlaced := hplaced'.functions id g hg
  refine ⟨g, hg, hfg.term, hfg.inst, fun b => ?_, fun x hx => ?_, hg'.once⟩
  · obtain ⟨new, hslots, hentry⟩ := hfg.slots b
    obtain ⟨added, hcode, hclosed⟩ := hfg.code b
    refine ⟨f.slotsAt b, new, f.codeAt b, added, (f.slotsAt_append_codeAt b).symm, ?_, ?_, ?_, hentry, hclosed⟩
    · rw [← hslots, ← hcode, g.slotsAt_append_codeAt]
    · exact fun x hx => Function.allocates_of_mem_slotsAt (hslots ▸ hx)
    · exact fun x hx => hg'.code b x (hcode ▸ hx)
  · obtain ⟨b, hb⟩ := hg'.placed x hx
    exact ⟨b, hb, fun c hc => hg'.alone c b x hc hb⟩

/-- A function with a stack slot that returns. -/
def returning : List Action := [
  .declareFunction "f" ⟨.void, [], false⟩ .external,
  .declareFunction "g" ⟨.void, [], false⟩ .external,
  .setFunction (some ⟨0⟩), .op .newBlock, .setBlock ⟨0⟩, .op (.alloca (.int 32)), .op (.ret none)]

/-- Code behind the end of a function, then another function, then one more stack slot. -/
def straying : List Action := [
  .op (.load (.inst ⟨0⟩) (.int 32)),
  .setFunction (some ⟨1⟩), .op .newBlock, .op (.goto ⟨0⟩),
  .setFunction (some ⟨0⟩), .setBlock ⟨0⟩, .op (.alloca .bool)]

theorem fitAll_straying : FitAll (returning ++ straying) (ofName "m") := by
  have hnone : ∀ {b : Builder} {o : Build.Op}, o.blocks = [] → Action.Fits b (.op o) :=
    fun ho _ _ c hc => absurd (ho ▸ hc) List.not_mem_nil
  refine ⟨trivial, trivial, rfl, hnone rfl, ⟨_, rfl, by decide⟩, hnone rfl, hnone rfl, hnone rfl, rfl, hnone rfl,
    fun f hf c hc => ?_, rfl, ⟨_, rfl, by decide⟩, hnone rfl, trivial⟩
  obtain rfl := Option.some.inj hf
  obtain rfl := List.mem_singleton.1 hc
  decide

theorem closed_blocks_final_straying :
    FitAll (returning ++ straying) (ofName "m") ∧
      ∃ f g, (performAll returning (ofName "m")).mod.function? ⟨0⟩ = some f ∧
        (performAll (returning ++ straying) (ofName "m")).mod.function? ⟨0⟩ = some g ∧
        g.termAt ⟨0⟩ = some (.ret none) ∧ ∃! b, ⟨0⟩ ∈ g.instsAt b := by
  obtain ⟨g, hg, hterm, hinst, -, hplaced, -⟩ :=
    closed_blocks_final "m" returning straying fitAll_straying ⟨0⟩ _ rfl
  exact ⟨fitAll_straying, _, g, rfl, hg, hterm ⟨0⟩ _ rfl, hplaced ⟨0⟩ (Option.isSome_of_eq_some (hinst ⟨0⟩ _ rfl))⟩

end Builder

end TreeFlow
