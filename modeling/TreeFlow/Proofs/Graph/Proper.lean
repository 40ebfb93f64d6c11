import TreeFlow.Proofs.Graph.Fronted
import TreeFlow.Proofs.Graph.Restoring
import TreeFlow.Proofs.Machine.Ranges

/-!
# Modules of constants in range

A module mentions constants in the operands of its instructions and terminators, and as the initial values of its
globals (`Module.Mentions`). It is proper if each of them is in the range of its type, and if the fields of its
aggregates have types whose integers have a width (`Module.IsProper`).

Every operation of a builder keeps a module proper and yields a proper operand, if its own operands are proper
(`Build.Properly`). An operation that folds also has to be given a type that the outcome fits into.
-/

namespace TreeFlow

/-! ### What is proper -/

/-- The constant that an operand is, if it is one, is in the range of its type. -/
def Operand.IsProper (op : Operand) : Prop := ∀ c, op = .const c → c.IsProper

theorem Operand.isProper_const {c : Constant} (h : c.IsProper) : (Operand.const c).IsProper := fun k hk => by
  cases hk
  exact h

theorem Operand.isProper_inst (x : InstId) : (Operand.inst x).IsProper := fun _ h => by cases h

theorem Operand.isProper_arg (i : Nat) : (Operand.arg i).IsProper := fun _ h => by cases h

theorem Operand.IsProper.of_const? {op : Operand} {c : Constant} (h : op.IsProper) (hc : op.const? = some c) :
    c.IsProper := by
  cases op with
  | const k => exact h c (congrArg _ (Option.some.inj hc))
  | _ => cases hc

/-- The integers in the types of all fields have a width. -/
def TypeTable.IsProper (t : TypeTable) : Prop :=
  ∀ d ∈ t.entries, ∀ fields, d.fields = some fields → ∀ f ∈ fields, f.ty.IsProper

/-- The constants in the code of a function are in the range of their types. -/
structure Function.IsProper (f : Function) : Prop where
  insts : ∀ x i, f.inst? x = some i → ∀ op ∈ i.kind.operands, op.IsProper
  terms : ∀ b t, f.termAt b = some t → ∀ op ∈ t.operands, op.IsProper

/-- The initial value of a global, if it is an integer, is in the range of its type. -/
def Global.IsProper (g : Global) : Prop := ∀ c, g.init = some c → c.IsProper

/-- The constants of a module are in the range of their types, and the fields of its aggregates have types whose
integers have a width. -/
structure Module.IsProper (m : Module) : Prop where
  functions : ∀ id f, m.function? id = some f → f.IsProper
  globals : ∀ id g, m.global? id = some g → g.IsProper
  types : m.types.IsProper

/-- A constant is an operand somewhere in the code of a module, or the initial value of a global. -/
inductive Module.Mentions (m : Module) (c : Constant) : Prop
  | inst {id : FuncId} {f : Function} {x : InstId} {i : Inst} (hf : m.function? id = some f)
      (hi : f.inst? x = some i) (hc : .const c ∈ i.kind.operands) : m.Mentions c
  | term {id : FuncId} {f : Function} {b : BlockId} {t : Terminator} (hf : m.function? id = some f)
      (ht : f.termAt b = some t) (hc : .const c ∈ t.operands) : m.Mentions c
  | init {id : GlobalId} {g : Global} (hg : m.global? id = some g) (hc : g.init = some c) : m.Mentions c

/-- The constants that a proper module mentions are proper. -/
theorem Module.IsProper.of_mentions {m : Module} {c : Constant} (h : m.IsProper) (hc : m.Mentions c) :
    c.IsProper := by
  cases hc with
  | inst hf hi hc => exact (h.functions _ _ hf).insts _ _ hi _ hc c rfl
  | term hf ht hc => exact (h.functions _ _ hf).terms _ _ ht _ hc c rfl
  | init hg hc => exact h.globals _ _ hg c hc

/-! ### Aggregates -/

namespace TypeTable.IsProper

variable {t : TypeTable}

theorem declare (h : t.IsProper) (kind : AggregateKind) (name : String) : (t.declare kind name).2.IsProper :=
  AllFields.declare h kind name

theorem define {t' : TypeTable} {key : String} {fields : List Field} (h : t.IsProper)
    (hfields : ∀ f ∈ fields, f.ty.IsProper) (hdefine : t.define key fields = .ok t') : t'.IsProper :=
  AllFields.define h hfields hdefine

theorem find? {key : String} {d : AggregateDef} {name : String} {i : Nat} {f : Field} (h : t.IsProper)
    (hd : t.find? key = some d) (hf : d.findField? name = some (i, f)) : f.ty.IsProper := AllFields.find? h hd hf

end TypeTable.IsProper

/-! ### Code -/

namespace Function

variable {f : Function} {b c : BlockId} {i : Inst} {t : Terminator}

theorem isProper_declared (name : String) (sig : Signature) (linkage : Linkage) :
    ({ name, sig, linkage } : Function).IsProper where
  insts x i h := by simp [inst?] at h
  terms b t h := by simp [termAt, block?] at h

theorem termAt_modifyBlock_of_term {change : Block → Block} (hchange : ∀ b, (change b).term = b.term) :
    (f.modifyBlock c change).termAt b = f.termAt b := by
  rw [termAt, block?_modifyBlock, termAt]
  split
  · cases f.block? b with
    | none => rfl
    | some b => exact hchange b
  · rfl

/-- Where control leaves a block is where it left it before, or the block has just been closed. -/
theorem eq_or_termAt_of_terminate {t' : Terminator} (h : (f.terminate c t).termAt b = some t') :
    t' = t ∨ f.termAt b = some t' := by
  rw [termAt, terminate, block?_modifyBlock] at h
  split at h
  · cases hb : f.block? b with
    | none =>
      rw [hb] at h
      cases h
    | some block =>
      rw [hb] at h
      exact .inl (Option.some.inj h).symm
  · exact .inr h

namespace IsProper

theorem addBlock (h : f.IsProper) (layout : List BlockId) : (f.addBlock layout).IsProper where
  insts := h.insts
  terms b t ht := h.terms b t (termAt_addBlock ▸ ht)

theorem addInst (h : f.IsProper) (hi : ∀ op ∈ i.kind.operands, op.IsProper) : (f.addInst i).2.IsProper where
  insts x j hj := by
    rw [Function.addInst, inst?_push] at hj
    split at hj
    · exact Option.some.inj hj ▸ hi
    · exact h.insts x j hj
  terms := h.terms

theorem modifyBlock (h : f.IsProper) {change : Block → Block} (hchange : ∀ b, (change b).term = b.term) :
    (f.modifyBlock c change).IsProper where
  insts := h.insts
  terms b t ht := h.terms b t (termAt_modifyBlock_of_term hchange ▸ ht)

theorem terminate (h : f.IsProper) (ht : ∀ op ∈ t.operands, op.IsProper) : (f.terminate c t).IsProper where
  insts := h.insts
  terms b t' ht' := by
    rcases eq_or_termAt_of_terminate ht' with rfl | hold
    · exact ht
    · exact h.terms b t' hold

end IsProper

end Function

/-! ### Modules -/

namespace Module.IsProper

variable {m m' : Module}

theorem addFunction (h : m.IsProper) {f : Function} (hf : f.IsProper) : (m.addFunction f).2.IsProper where
  functions := forall_addFunction h.functions hf
  globals := h.globals
  types := h.types

theorem modifyFunction (h : m.IsProper) (id : FuncId) {change : Function → Function}
    (hchange : ∀ f, f.IsProper → (change f).IsProper) : (m.modifyFunction id change).IsProper where
  functions := forall_modifyFunction h.functions id hchange
  globals := h.globals
  types := h.types

theorem addGlobal (h : m.IsProper) {g : Global} (hg : g.IsProper) : (m.addGlobal g).2.IsProper where
  functions := h.functions
  globals id k hk := by
    simp only [global?, Module.addGlobal, Array.getElem?_push] at hk
    split at hk
    · exact Option.some.inj hk ▸ hg
    · exact h.globals id k hk
  types := h.types

theorem modifyGlobal (h : m.IsProper) (id : GlobalId) {change : Global → Global}
    (hchange : ∀ g, g.IsProper → (change g).IsProper) : (m.modifyGlobal id change).IsProper where
  functions := h.functions
  globals j k hk := by
    simp only [global?, Module.modifyGlobal, Array.getElem?_modify] at hk
    split at hk
    · obtain ⟨g, hg, rfl⟩ := Option.map_eq_some_iff.1 hk
      exact hchange g (h.globals j g hg)
    · exact h.globals j k hk
  types := h.types

end Module.IsProper

namespace Builder

variable {b s : Builder}

theorem getElem?_of_take {α : Type} {as : Array α} {n i : Nat} {a : α} (h : (as.take n)[i]? = some a) :
    as[i]? = some a := by
  rw [Array.take_eq_extract, Array.getElem?_extract, Nat.zero_add] at h
  split at h
  · exact h
  · cases h

theorem isProper_snapshot (h : b.mod.IsProper) : b.snapshot.2.mod.IsProper where
  functions := b.forall_snapshot h.functions (fun f hf => hf.addBlock _) Function.isProper_declared
  globals := by
    simp only [Module.global?, globals_snapshot_mod]
    exact h.globals
  types := b.types_snapshot ▸ h.types

/-- What is put back by a snapshot was proper, and what is kept is. -/
theorem isProper_restore (hb : b.mod.IsProper) (hs : s.mod.IsProper) (keep : Keep) :
    (b.restore s.snapshot.1 keep).mod.IsProper where
  functions := by
    have htake : ∀ id f, (b.mod.functions.take s.mod.functions.size)[FuncId.index id]? = some f → f.IsProper :=
      fun id f hf => hb.functions id f (getElem?_of_take hf)
    -- The function at hand is put back as it was saved, and of the others those are kept that were there then.
    cases hfunction : s.function? with
    | none =>
      simp only [Module.function?, functions_restore_of_none b hfunction keep]
      exact htake
    | some f =>
      obtain ⟨id, hid, hf⟩ := Option.bind_eq_some_iff.1 hfunction
      simp only [Module.function?, functions_restore_of_some b hid hfunction keep]
      exact Module.forall_modifyFunction (m := { name := "", functions := b.mod.functions.take s.mod.functions.size })
        htake id fun _ _ => hs.functions id f hf
  globals := by
    obtain ⟨-, -, -, -, -, hglobals⟩ := b.restore_fields s.snapshot.1 keep
    intro id g hg
    rw [Module.global?, hglobals] at hg
    split at hg
    · exact hb.globals id g hg
    · exact hb.globals id g (getElem?_of_take hg)
  types := by
    obtain ⟨-, -, -, -, htypes, -⟩ := b.restore_fields s.snapshot.1 keep
    rw [htypes, savedTypes_snapshot]
    split
    · exact hs.types
    · exact hb.types

end Builder

/-! ### Operations -/

namespace Build

variable {α β : Type} {P : α → Prop} {Q : β → Prop}

/-- From a proper module an operation comes to a proper one, and what it yields satisfies a condition. -/
def Properly (P : α → Prop) (m : Build α) : Prop :=
  ∀ b a b', b.mod.IsProper → m b = .ok (a, b') → b'.mod.IsProper ∧ P a

namespace Properly

theorem pure {a : α} (h : P a) : Properly P (Pure.pure a : Build α) := by
  rintro b _ _ hb ⟨⟩
  exact ⟨hb, h⟩

theorem throw (e : BuildFault) : Properly P (MonadExcept.throw e : Build α) := fun _ _ _ _ h => by cases h

theorem bind {m : Build α} {next : α → Build β} (hm : Properly P m) (hnext : ∀ a, P a → Properly Q (next a)) :
    Properly Q (m >>= next) := fun b c b₂ hb h => by
  obtain ⟨a, b₁, hrun, h⟩ := exists_of_bind h
  obtain ⟨hb₁, ha⟩ := hm b a b₁ hb hrun
  exact hnext a ha b₁ c b₂ hb₁ h

theorem discard {m : Build α} (h : Properly P m) : Properly (fun _ => True) (Functor.discard m) :=
  .bind h fun _ _ => .pure trivial

theorem get : Properly (fun _ => True) (MonadState.get : Build Builder) := by
  rintro b _ _ hb ⟨⟩
  exact ⟨hb, trivial⟩

theorem setBlock (id : BlockId) : Properly (fun _ => True) (modify (·.setBlock id)) := by
  rintro b _ _ hb ⟨⟩
  exact ⟨hb, trivial⟩

theorem function : Properly (fun _ => True) function := fun b ⟨id, f⟩ b' hb h => by
  obtain ⟨rfl, -⟩ := Steady.function_ok h
  exact ⟨hb, trivial⟩

theorem withFunction {change : Function → α × Function}
    (h : ∀ f : Function, f.IsProper → (change f).2.IsProper ∧ P (change f).1) :
    Properly P (withFunction change) := fun b a b' hb hrun => by
  obtain ⟨id, f, -, hf, rfl, rfl⟩ := Steady.withFunction_ok hrun
  obtain ⟨hchange, ha⟩ := h f (hb.functions id f hf)
  exact ⟨hb.modifyFunction id fun _ _ => hchange, ha⟩

end Properly

theorem properly_newBlock : Properly (fun _ => True) newBlock :=
  .withFunction fun _ hf => ⟨hf.addBlock _, trivial⟩

theorem properly_newBlockBefore (anchor : BlockId) : Properly (fun _ => True) (newBlockBefore anchor) :=
  .withFunction fun _ hf => ⟨hf.addBlock _, trivial⟩

theorem properly_predecessors (b : BlockId) : Properly (fun _ => True) (predecessors b) :=
  .bind .function fun _ _ => .pure trivial

theorem properly_insertionBlock : Properly (fun _ => True) insertionBlock := by
  have hfresh : Properly (fun _ => True) insertionBlock.fresh :=
    .bind properly_newBlock fun id _ => .bind (.setBlock id) fun _ _ => .pure trivial
  refine .bind .function fun ⟨id, f⟩ _ => .bind .get fun b _ => ?_
  split
  · exact hfresh
  · split
    · exact .throw _
    · split
      · exact hfresh
      · exact .pure trivial

section Operations

variable {l r : Operand} {ty : Ty}

theorem properly_insert {kind : InstKind} (hkind : ∀ op ∈ kind.operands, op.IsProper) (ty : Ty) :
    Properly Operand.IsProper (insert kind ty) :=
  .bind properly_insertionBlock fun _ _ => .withFunction fun _ hf =>
    ⟨(hf.addInst hkind).modifyBlock fun _ => rfl, Operand.isProper_inst _⟩

theorem properly_alloca (ty : Ty) : Properly Operand.IsProper (alloca ty) := by
  refine .bind .function fun ⟨id, f⟩ _ => ?_
  dsimp only
  split
  · exact .throw _
  · have hslot : ∀ op ∈ (InstKind.alloca ty).operands, op.IsProper := List.forall_mem_nil _
    exact .withFunction fun f hf =>
      ⟨(hf.addInst (i := ⟨.alloca ty, ty.pointerTo⟩) hslot).modifyBlock fun _ => rfl, Operand.isProper_inst _⟩

theorem properly_load (hl : l.IsProper) (ty : Ty) : Properly Operand.IsProper (load l ty) :=
  properly_insert (by simpa [InstKind.operands] using hl) ty

theorem properly_store (hl : l.IsProper) (hr : r.IsProper) : Properly (fun _ => True) (store l r) :=
  .discard (properly_insert (by simpa [InstKind.operands] using ⟨hl, hr⟩) .void)

theorem properly_copy (hl : l.IsProper) (hr : r.IsProper) (ty : Ty) : Properly (fun _ => True) (copy l r ty) :=
  .discard (properly_insert (by simpa [InstKind.operands] using ⟨hl, hr⟩) .void)

/-- An operation on integers is given a type of integers. -/
theorem properly_binary {op : BinOp} (hl : l.IsProper) (hr : r.IsProper) (hty : ty.IsProper)
    (hop : op.isFloat = true ∨ ty.isInteger = true) : Properly Operand.IsProper (binary op l r ty) := by
  unfold binary
  split
  · next c hfold =>
    obtain ⟨x, hx, hfold⟩ := Option.bind_eq_some_iff.1 hfold
    obtain ⟨y, -, hfold⟩ := Option.bind_eq_some_iff.1 hfold
    exact .pure (Operand.isProper_const (Constant.isProper_foldBinary? (hl.of_const? hx) hty hop hfold))
  · exact properly_insert (by simpa [InstKind.operands] using ⟨hl, hr⟩) ty

theorem properly_cmp (op : CmpOp) (hl : l.IsProper) (hr : r.IsProper) :
    Properly Operand.IsProper (cmp op l r) := by
  rcases cmp_eq_or op l r with ⟨x, y, k, -, -, hfold, h⟩ | h <;> rw [h]
  · exact .pure (Operand.isProper_const (Constant.isProper_foldCmp? hfold))
  · exact properly_insert (by simpa [InstKind.operands] using ⟨hl, hr⟩) .bool

/-- A conversion that comes to an integer is given a type of integers. -/
theorem properly_cast {op : CastOp} (hl : l.IsProper) (hty : ty.IsProper)
    (hop : op.isIntegral = true → ty.isInteger = true) : Properly Operand.IsProper (cast op l ty) := by
  unfold cast
  split
  · next c hfold =>
    obtain ⟨x, hx, hfold⟩ := Option.bind_eq_some_iff.1 hfold
    exact .pure (Operand.isProper_const (Constant.isProper_foldCast? (hl.of_const? hx) hty hop hfold))
  · exact properly_insert (by simpa [InstKind.operands] using hl) ty

theorem properly_offset (hl : l.IsProper) (hr : r.IsProper) (ty : Ty) :
    Properly Operand.IsProper (offset l r ty) := by
  unfold offset
  split
  · exact .pure hl
  · exact properly_insert (by simpa [InstKind.operands] using ⟨hl, hr⟩) ty

theorem properly_field (hl : l.IsProper) (i : Nat) (ty : Ty) : Properly Operand.IsProper (field l i ty) :=
  properly_insert (by simpa [InstKind.operands] using hl) ty

theorem properly_call {args : List Operand} (hl : l.IsProper) (hargs : ∀ op ∈ args, op.IsProper) (ty : Ty) :
    Properly Operand.IsProper (call l args ty) :=
  properly_insert (by simpa [InstKind.operands] using ⟨hl, hargs⟩) ty

theorem properly_phi {incoming : List (Operand × BlockId)} (h : ∀ s ∈ incoming, s.1.IsProper) (ty : Ty) :
    Properly Operand.IsProper (phi incoming ty) := by
  unfold phi
  split
  · next op hcommon =>
    cases incoming with
    | nil => cases hcommon
    | cons first rest =>
      obtain ⟨-, rfl⟩ : _ ∧ first.1 = op := by simpa [commonConstant?] using hcommon
      exact .pure (h first List.mem_cons_self)
  · refine properly_insert (fun op hop => ?_) ty
    obtain ⟨s, hs, rfl⟩ := List.mem_map.1 hop
    exact h s hs

theorem properly_terminate {t : Terminator} (ht : ∀ op ∈ t.operands, op.IsProper) :
    Properly (fun _ => True) (terminate t) :=
  .bind properly_insertionBlock fun _ _ => .withFunction fun _ hf => ⟨hf.terminate ht, trivial⟩

theorem properly_ret {value : Option Operand} (h : ∀ op, value = some op → op.IsProper) :
    Properly (fun _ => True) (ret value) :=
  properly_terminate fun op hop => h op (Option.mem_toList.1 hop)

theorem properly_goto (target : BlockId) : Properly (fun _ => True) (goto target) :=
  properly_terminate (List.forall_mem_nil _)

theorem properly_unreachable : Properly (fun _ => True) unreachable :=
  properly_terminate (List.forall_mem_nil _)

theorem properly_branch (hl : l.IsProper) (yes no : BlockId) : Properly (fun _ => True) (branch l yes no) :=
  properly_terminate fun _ hop => List.mem_singleton.1 hop ▸ hl

end Operations

end Build

end TreeFlow
