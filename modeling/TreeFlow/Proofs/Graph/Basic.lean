import TreeFlow.Flow.Builder
import TreeFlow.Flow.Order
import Mathlib.Data.List.Basic

/-!
# Reading flow graphs

What a block holds, and what each of the operations that build a graph does to it: a block more, an
instruction at the end of a block, a stack slot at the front of the entry, a terminator. Everything
that is proved of graphs under construction is proved from these equations.

The instructions of a block are its **slots**, which stand at the front, followed by its **code**.
Only the code tells how far a block has been written, since slots are put in at any time.
-/

namespace TreeFlow

/-! ### Operands -/

/-- The operands that an instruction reads. -/
def InstKind.operands : InstKind → List Operand
  | .alloca _ => []
  | .load ptr => [ptr]
  | .store ptr value => [ptr, value]
  | .binary _ l r => [l, r]
  | .cmp _ l r => [l, r]
  | .cast _ v => [v]
  | .offset ptr index => [ptr, index]
  | .field base _ => [base]
  | .call callee args => callee :: args
  | .phi incoming => incoming.map Prod.fst
  | .copy dst src _ => [dst, src]

/-- The values that a phi selects from, each with the block it comes from; nothing for any other
instruction. -/
def InstKind.incoming? : InstKind → Option (List (Operand × BlockId))
  | .phi incoming => some incoming
  | _ => none

/-- The operands that a terminator reads. -/
def Terminator.operands : Terminator → List Operand
  | .ret value => value.toList
  | .branch cond _ _ => [cond]
  | .goto _ | .unreachable => []

/-- What is put before an element that is not the first one leaves the first one there. -/
theorem head?_insertBefore {α : Type} [DecidableEq α] {x anchor : α} {l : List α} (hne : l ≠ [])
    (hhead : l.head? ≠ some anchor) : (insertBefore x anchor l).head? = l.head? := by
  cases l with
  | nil => exact absurd rfl hne
  | cons y ys =>
    have hy : y ≠ anchor := fun heq => hhead (congrArg some heq)
    rw [insertBefore, if_neg hy]
    rfl

namespace Function

variable {f : Function} {b c e : BlockId} {x : InstId}

/-! ### Blocks -/

/-- The instructions of a block, in order. -/
def instsAt (f : Function) (b : BlockId) : List InstId :=
  ((f.block? b).map Block.insts).getD []

/-- How control leaves a block; nothing while the block is open. -/
def termAt (f : Function) (b : BlockId) : Option Terminator := (f.block? b).bind Block.term

/-- Does the function have the block? -/
def Has (f : Function) (b : BlockId) : Prop := b.index < f.blocks.size

instance : Decidable (f.Has b) := inferInstanceAs (Decidable (b.index < f.blocks.size))

/-- Is the instruction a stack slot? -/
def allocates (f : Function) (x : InstId) : Bool := ((f.inst? x).map (·.kind.isAlloca)).getD false

/-- The stack slots at the front of a block. -/
def slotsAt (f : Function) (b : BlockId) : List InstId := (f.instsAt b).takeWhile f.allocates

/-- The instructions of a block behind its stack slots. -/
def codeAt (f : Function) (b : BlockId) : List InstId := (f.instsAt b).dropWhile f.allocates

/-- A stack slot of the entry block. -/
def IsSlot (f : Function) (x : InstId) : Prop := ∃ e, f.entry? = some e ∧ x ∈ f.slotsAt e

/-- Everything that stands in a block is an instruction of the function. -/
def Whole (f : Function) : Prop := ∀ b, ∀ x ∈ f.instsAt b, (f.inst? x).isSome

theorem slotsAt_append_codeAt (f : Function) (b : BlockId) :
    f.slotsAt b ++ f.codeAt b = f.instsAt b := List.takeWhile_append_dropWhile

theorem mem_instsAt_of_mem_slotsAt (h : x ∈ f.slotsAt b) : x ∈ f.instsAt b :=
  List.takeWhile_subset _ h

theorem mem_instsAt_of_mem_codeAt (h : x ∈ f.codeAt b) : x ∈ f.instsAt b :=
  List.dropWhile_subset _ h

theorem allocates_of_mem_slotsAt (h : x ∈ f.slotsAt b) : f.allocates x = true :=
  List.all_eq_true.1 List.all_takeWhile x h

theorem not_allocates_head (h : x ∈ (f.codeAt b).head?) : f.allocates x = false := by
  have := List.head?_dropWhile_not f.allocates (f.instsAt b)
  rw [← codeAt, Option.mem_def.1 h] at this
  simpa using this

/-- There is only one way to take a block apart into slots and code. -/
theorem slots_code_of_split {slots code : List InstId} (h : f.instsAt b = slots ++ code)
    (hslots : ∀ x ∈ slots, f.allocates x = true)
    (hcode : ∀ x ∈ code.head?, f.allocates x = false) :
    f.slotsAt b = slots ∧ f.codeAt b = code := by
  rw [slotsAt, codeAt, h, List.takeWhile_append_of_pos hslots, List.dropWhile_append_of_pos hslots]
  cases code with
  | nil => simp
  | cons x rest =>
    have hx : ¬ f.allocates x = true := by simpa using hcode x rfl
    simp [hx]

theorem successors_eq (f : Function) (b : BlockId) :
    f.successors b = ((f.termAt b).map Terminator.successors).getD [] := rfl

theorem isTerminated_eq (f : Function) (b : BlockId) : f.isTerminated b = (f.termAt b).isSome := by
  simp only [isTerminated, termAt]
  cases f.block? b <;> rfl

theorem successors_of_termAt_none (h : f.termAt b = none) : f.successors b = [] := by
  rw [successors_eq, h]
  rfl

theorem exists_block? (h : f.Has b) : ∃ B, f.block? b = some B :=
  ⟨f.blocks[b.index], Array.getElem?_eq_getElem h⟩

theorem block?_eq_none (h : ¬ f.Has b) : f.block? b = none :=
  Array.getElem?_eq_none (Nat.le_of_not_lt h)

theorem instsAt_of_not_has (h : ¬ f.Has b) : f.instsAt b = [] := by
  rw [instsAt, block?_eq_none h]
  rfl

theorem termAt_of_not_has (h : ¬ f.Has b) : f.termAt b = none := by
  rw [termAt, block?_eq_none h]
  rfl

theorem has_of_mem_instsAt (h : x ∈ f.instsAt b) : f.Has b := by
  by_contra hb
  rw [instsAt_of_not_has hb] at h
  exact absurd h List.not_mem_nil

theorem has_of_termAt {t : Terminator} (h : f.termAt b = some t) : f.Has b := by
  by_contra hb
  rw [termAt_of_not_has hb] at h
  exact absurd h (by simp)

theorem has_of_mem_successors (h : c ∈ f.successors b) : f.Has b := by
  by_contra hb
  rw [successors_of_termAt_none (termAt_of_not_has hb)] at h
  exact absurd h List.not_mem_nil

/-- A block passes control on only through its terminator. -/
theorem mem_successors_iff :
    c ∈ f.successors b ↔ ∃ t, f.termAt b = some t ∧ c ∈ t.successors := by
  rw [successors_eq]
  cases f.termAt b <;> simp

theorem block?_modifyBlock (f : Function) (c b : BlockId) (change : Block → Block) :
    (f.modifyBlock c change).block? b = if c = b then (f.block? b).map change else f.block? b := by
  obtain ⟨c⟩ := c
  obtain ⟨b⟩ := b
  simp [modifyBlock, block?, Array.getElem?_modify]

/-! ### Operations

Each operation is described by what it leaves of the blocks, the terminators, the instructions and
the layout. -/

section NewBlock

/-- A block more, at some place of the layout. -/
def addBlock (f : Function) (layout : List BlockId) : Function :=
  { f with blocks := f.blocks.push {}, layout }

theorem newBlock_eq (f : Function) :
    f.newBlock = (f.nextBlock, f.addBlock (f.layout ++ [f.nextBlock])) := rfl

theorem newBlockBefore_eq (f : Function) (anchor : BlockId) :
    f.newBlockBefore anchor =
      (f.nextBlock, f.addBlock (insertBefore f.nextBlock anchor f.layout)) := rfl

variable {layout : List BlockId}

theorem block?_addBlock (f : Function) (layout : List BlockId) (b : BlockId) :
    (f.addBlock layout).block? b = if b = f.nextBlock then some {} else f.block? b := by
  obtain ⟨b⟩ := b
  simp [addBlock, block?, nextBlock, Array.getElem?_push]

theorem not_has_nextBlock (f : Function) : ¬ f.Has f.nextBlock := Nat.lt_irrefl _

@[simp] theorem instsAt_addBlock : (f.addBlock layout).instsAt b = f.instsAt b := by
  rw [instsAt, block?_addBlock]
  split
  · next h => rw [h, instsAt_of_not_has f.not_has_nextBlock]; rfl
  · rfl

@[simp] theorem termAt_addBlock : (f.addBlock layout).termAt b = f.termAt b := by
  rw [termAt, block?_addBlock]
  split
  · next h => rw [h, termAt_of_not_has f.not_has_nextBlock]; rfl
  · rfl

@[simp] theorem inst?_addBlock : (f.addBlock layout).inst? x = f.inst? x := rfl

@[simp] theorem insts_addBlock : (f.addBlock layout).insts = f.insts := rfl

@[simp] theorem layout_addBlock : (f.addBlock layout).layout = layout := rfl

@[simp] theorem sig_addBlock : (f.addBlock layout).sig = f.sig := rfl

theorem has_addBlock : (f.addBlock layout).Has b ↔ f.Has b ∨ b = f.nextBlock := by
  obtain ⟨b⟩ := b
  simp only [Has, addBlock, Array.size_push, nextBlock, BlockId.mk.injEq]
  omega

@[simp] theorem successors_addBlock : (f.addBlock layout).successors b = f.successors b := by
  rw [successors_eq, successors_eq, termAt_addBlock]

@[simp] theorem allocates_addBlock : (f.addBlock layout).allocates = f.allocates := rfl

@[simp] theorem slotsAt_addBlock : (f.addBlock layout).slotsAt b = f.slotsAt b := by
  simp [slotsAt]

@[simp] theorem codeAt_addBlock : (f.addBlock layout).codeAt b = f.codeAt b := by
  simp [codeAt]

theorem Whole.addBlock (h : f.Whole) : (f.addBlock layout).Whole :=
  fun b x hx => h b x (instsAt_addBlock ▸ hx)

end NewBlock

section Append

/-- The position of the next instruction. -/
def nextInst (f : Function) : InstId := ⟨f.insts.size⟩

/-- An instruction more, at the end of a block. -/
def append (f : Function) (c : BlockId) (i : Inst) : Function :=
  (f.addInst i).2.appendInst c f.nextInst

variable {i : Inst}

theorem inst?_push (f : Function) (i : Inst) (x : InstId) :
    ({ f with insts := f.insts.push i } : Function).inst? x =
      if x = f.nextInst then some i else f.inst? x := by
  obtain ⟨x⟩ := x
  simp [inst?, nextInst, Array.getElem?_push]

theorem inst?_append : (f.append c i).inst? x = if x = f.nextInst then some i else f.inst? x :=
  f.inst?_push i x

theorem inst?_nextInst (f : Function) : f.inst? f.nextInst = none :=
  Array.getElem?_eq_none (Nat.le_refl _)

theorem inst?_append_of_some {j : Inst} (h : f.inst? x = some j) :
    (f.append c i).inst? x = some j := by
  rw [inst?_append, if_neg, h]
  rintro rfl
  exact absurd (h.symm.trans f.inst?_nextInst) (by simp)

theorem instsAt_append (hc : f.Has c) :
    (f.append c i).instsAt b = if c = b then f.instsAt b ++ [f.nextInst] else f.instsAt b := by
  rw [instsAt, append, appendInst, block?_modifyBlock]
  split
  · next h =>
    subst h
    obtain ⟨B, hB⟩ := exists_block? hc
    have hB' : (f.addInst i).2.block? c = some B := hB
    rw [hB', instsAt, hB]
    rfl
  · rfl

@[simp] theorem termAt_append : (f.append c i).termAt b = f.termAt b := by
  rw [termAt, append, appendInst, block?_modifyBlock]
  split
  · show ((f.block? b).map _).bind Block.term = f.termAt b
    rw [termAt]
    cases f.block? b <;> rfl
  · rfl

@[simp] theorem layout_append : (f.append c i).layout = f.layout := rfl

@[simp] theorem sig_append : (f.append c i).sig = f.sig := rfl

@[simp] theorem size_insts_append : (f.append c i).insts.size = f.insts.size + 1 :=
  Array.size_push i

@[simp] theorem has_append : (f.append c i).Has b ↔ f.Has b := by
  show b.index < (f.blocks.modify c.index _).size ↔ _
  rw [Array.size_modify]
  rfl

@[simp] theorem successors_append : (f.append c i).successors b = f.successors b := by
  rw [successors_eq, successors_eq, termAt_append]

theorem ne_nextInst {j : Inst} (h : f.inst? x = some j) : x ≠ f.nextInst := by
  rintro rfl
  exact absurd (h.symm.trans f.inst?_nextInst) (by simp)

theorem allocates_append (h : (f.inst? x).isSome) :
    (f.append c i).allocates x = f.allocates x := by
  obtain ⟨j, hj⟩ := Option.isSome_iff_exists.1 h
  rw [allocates, inst?_append_of_some hj, allocates, hj]

theorem allocates_append_nextInst : (f.append c i).allocates f.nextInst = i.kind.isAlloca := by
  rw [allocates, inst?_append, if_pos rfl]
  rfl

theorem Whole.append (h : f.Whole) (hc : f.Has c) : (f.append c i).Whole := by
  intro b x hx
  rw [instsAt_append hc] at hx
  rw [inst?_append]
  split
  · rfl
  · next hne =>
    split at hx
    · rcases List.mem_append.1 hx with hx | hx
      · exact h b x hx
      · exact absurd (List.mem_singleton.1 hx) hne
    · exact h b x hx

/-- The code of a block grows by an instruction at its end. -/
theorem slots_code_append (hw : f.Whole) (hc : f.Has c) (hi : i.kind.isAlloca = false) :
    (f.append c i).slotsAt b = f.slotsAt b ∧
      (f.append c i).codeAt b = if c = b then f.codeAt b ++ [f.nextInst] else f.codeAt b := by
  have hold : ∀ x ∈ f.instsAt b, (f.append c i).allocates x = f.allocates x :=
    fun x hx => allocates_append (hw b x hx)
  have hnew : (f.append c i).allocates f.nextInst = false := allocates_append_nextInst.trans hi
  refine slots_code_of_split ?_ (fun x hx => ?_) fun x hx => ?_
  · rw [instsAt_append hc]
    split <;> simp [← slotsAt_append_codeAt]
  · rw [hold x (mem_instsAt_of_mem_slotsAt hx), allocates_of_mem_slotsAt hx]
  · have hcode : ∀ x ∈ (f.codeAt b).head?, (f.append c i).allocates x = false := fun x hx => by
      rw [hold x (mem_instsAt_of_mem_codeAt (List.mem_of_mem_head? hx)), not_allocates_head hx]
    split at hx
    · cases hnil : f.codeAt b with
      | nil =>
        obtain rfl : f.nextInst = x := by simpa [hnil] using hx
        exact hnew
      | cons y rest => exact hcode x (by simpa [hnil] using hx)
    · exact hcode x hx

end Append

section Reserve

/-- A stack slot more, behind those at the front of a block. -/
def reserve (f : Function) (e : BlockId) (ty : Ty) : Function :=
  (f.addInst ⟨.alloca ty, ty.pointerTo⟩).2.insertInst e (f.slotsAt e).length f.nextInst

variable {ty : Ty}

theorem inst?_reserve :
    (f.reserve e ty).inst? x =
      if x = f.nextInst then some ⟨.alloca ty, ty.pointerTo⟩ else f.inst? x :=
  f.inst?_push _ x

theorem inst?_reserve_of_some {j : Inst} (h : f.inst? x = some j) :
    (f.reserve e ty).inst? x = some j := by
  rw [inst?_reserve, if_neg, h]
  rintro rfl
  exact absurd (h.symm.trans f.inst?_nextInst) (by simp)

theorem instsAt_reserve (he : f.Has e) :
    (f.reserve e ty).instsAt b =
      if e = b then f.slotsAt b ++ f.nextInst :: f.codeAt b else f.instsAt b := by
  rw [instsAt, reserve, insertInst, block?_modifyBlock]
  split
  · next h =>
    subst h
    obtain ⟨B, hB⟩ := exists_block? he
    have hB' : (f.addInst ⟨.alloca ty, ty.pointerTo⟩).2.block? e = some B := hB
    have hinsts : f.instsAt e = B.insts := by rw [instsAt, hB]; rfl
    rw [hB']
    have hsplit : B.insts = f.slotsAt e ++ f.codeAt e := by
      rw [slotsAt_append_codeAt, hinsts]
    show B.insts.take _ ++ _ :: B.insts.drop _ = _
    rw [hsplit, List.take_left, List.drop_left]
  · rfl

@[simp] theorem termAt_reserve : (f.reserve e ty).termAt b = f.termAt b := by
  rw [termAt, reserve, insertInst, block?_modifyBlock]
  split
  · show ((f.block? b).map _).bind Block.term = f.termAt b
    rw [termAt]
    cases f.block? b <;> rfl
  · rfl

@[simp] theorem layout_reserve : (f.reserve e ty).layout = f.layout := rfl

@[simp] theorem sig_reserve : (f.reserve e ty).sig = f.sig := rfl

@[simp] theorem size_insts_reserve : (f.reserve e ty).insts.size = f.insts.size + 1 :=
  Array.size_push _

@[simp] theorem has_reserve : (f.reserve e ty).Has b ↔ f.Has b := by
  show b.index < (f.blocks.modify e.index _).size ↔ _
  rw [Array.size_modify]
  rfl

@[simp] theorem successors_reserve : (f.reserve e ty).successors b = f.successors b := by
  rw [successors_eq, successors_eq, termAt_reserve]

theorem allocates_reserve (h : (f.inst? x).isSome) :
    (f.reserve e ty).allocates x = f.allocates x := by
  obtain ⟨j, hj⟩ := Option.isSome_iff_exists.1 h
  rw [allocates, inst?_reserve_of_some hj, allocates, hj]

theorem allocates_reserve_nextInst : (f.reserve e ty).allocates f.nextInst = true := by
  rw [allocates, inst?_reserve, if_pos rfl]
  rfl

theorem Whole.reserve (h : f.Whole) (he : f.Has e) : (f.reserve e ty).Whole := by
  intro b x hx
  rw [instsAt_reserve he] at hx
  rw [inst?_reserve]
  split
  · rfl
  · next hne =>
    split at hx
    · rcases List.mem_append.1 hx with hx | hx
      · exact h b x (mem_instsAt_of_mem_slotsAt hx)
      · rcases List.mem_cons.1 hx with hx | hx
        · exact absurd hx hne
        · exact h b x (mem_instsAt_of_mem_codeAt hx)
    · exact h b x hx

/-- The slots of a block grow by one at their end, and its code stays. -/
theorem slots_code_reserve (hw : f.Whole) (he : f.Has e) :
    ((f.reserve e ty).slotsAt b = if e = b then f.slotsAt b ++ [f.nextInst] else f.slotsAt b) ∧
      (f.reserve e ty).codeAt b = f.codeAt b := by
  have hold : ∀ x ∈ f.instsAt b, (f.reserve e ty).allocates x = f.allocates x :=
    fun x hx => allocates_reserve (hw b x hx)
  have hslots : ∀ x ∈ f.slotsAt b, (f.reserve e ty).allocates x = true := fun x hx => by
    rw [hold x (mem_instsAt_of_mem_slotsAt hx), allocates_of_mem_slotsAt hx]
  refine slots_code_of_split ?_ (fun x hx => ?_) fun x hx => ?_
  · rw [instsAt_reserve he]
    split <;> simp [slotsAt_append_codeAt]
  · split at hx
    · rcases List.mem_append.1 hx with hx | hx
      · exact hslots x hx
      · rw [List.mem_singleton.1 hx, allocates_reserve_nextInst]
    · exact hslots x hx
  · rw [hold x (mem_instsAt_of_mem_codeAt (List.mem_of_mem_head? hx)), not_allocates_head hx]

end Reserve

section Terminate

variable {t : Terminator}

theorem termAt_terminate (hc : f.Has c) :
    (f.terminate c t).termAt b = if c = b then some t else f.termAt b := by
  rw [termAt, terminate, block?_modifyBlock]
  split
  · next h =>
    subst h
    obtain ⟨B, hB⟩ := exists_block? hc
    rw [hB]
    rfl
  · rfl

@[simp] theorem instsAt_terminate : (f.terminate c t).instsAt b = f.instsAt b := by
  rw [instsAt, terminate, block?_modifyBlock]
  split
  · rw [instsAt]
    cases f.block? b <;> rfl
  · rfl

@[simp] theorem inst?_terminate : (f.terminate c t).inst? x = f.inst? x := rfl

@[simp] theorem insts_terminate : (f.terminate c t).insts = f.insts := rfl

@[simp] theorem layout_terminate : (f.terminate c t).layout = f.layout := rfl

@[simp] theorem sig_terminate : (f.terminate c t).sig = f.sig := rfl

@[simp] theorem has_terminate : (f.terminate c t).Has b ↔ f.Has b := by
  show b.index < (f.blocks.modify c.index _).size ↔ _
  rw [Array.size_modify]
  rfl

@[simp] theorem allocates_terminate : (f.terminate c t).allocates = f.allocates := rfl

@[simp] theorem slotsAt_terminate : (f.terminate c t).slotsAt b = f.slotsAt b := by
  simp [slotsAt]

@[simp] theorem codeAt_terminate : (f.terminate c t).codeAt b = f.codeAt b := by
  simp [codeAt]

theorem Whole.terminate (h : f.Whole) : (f.terminate c t).Whole :=
  fun b x hx => h b x (instsAt_terminate ▸ hx)

theorem successors_terminate (hc : f.Has c) :
    (f.terminate c t).successors b = if c = b then t.successors else f.successors b := by
  rw [successors_eq, termAt_terminate hc]
  split
  · rfl
  · rw [successors_eq]

end Terminate

end Function

end TreeFlow
