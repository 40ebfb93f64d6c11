import TreeFlow.Proofs.Graph.Basic

/-!
# The cursor of a builder

Every operation of a builder that emits code comes to one equation: the function being built is
replaced by another one, and the cursor is put somewhere. `Builder.write` is that replacement, and
`Function.ready` the one decision that all emitting operations share: code goes to the block at the
cursor if that is open, and to a fresh block otherwise.
-/

namespace TreeFlow

variable {α : Type} {b : Builder} {id : FuncId} {f g : Function} {cur : Option BlockId}

/-! ### Where code goes -/

namespace Function

/-- The block that takes the next instruction, and the function with that block in it. -/
def ready (f : Function) (cur : Option BlockId) : BlockId × Function :=
  match cur with
  | some c => if f.isTerminated c then f.newBlock else (c, f)
  | none => f.newBlock

/-- The block at the cursor, if it is open. -/
def openAt (f : Function) (cur : Option BlockId) : Option BlockId :=
  cur.filter fun c => !f.isTerminated c

theorem openAt_eq_some_iff {c : BlockId} :
    f.openAt cur = some c ↔ cur = some c ∧ f.termAt c = none := by
  simp [openAt, Option.filter_eq_some_iff, isTerminated_eq]

theorem ready_of_open {c : BlockId} (h : f.openAt cur = some c) : f.ready cur = (c, f) := by
  obtain ⟨rfl, hc⟩ := openAt_eq_some_iff.1 h
  simp [ready, isTerminated_eq, hc]

theorem ready_of_closed (h : f.openAt cur = none) :
    f.ready cur = (f.nextBlock, f.addBlock (f.layout ++ [f.nextBlock])) := by
  cases cur with
  | none => rfl
  | some c =>
    have hc : f.isTerminated c = true := by simpa [openAt] using h
    simp only [ready, if_pos hc, newBlock_eq]

end Function

/-! ### Replacing the function being built -/

theorem replace_replace {as : Array α} {i : Nat} {a b : α} :
    (as.modify i fun _ => a).modify i (fun _ => b) = as.modify i fun _ => b := by
  apply Array.ext_getElem?
  intro j
  simp only [Array.getElem?_modify]
  split <;> simp [Function.comp_def]

theorem replace_self {as : Array α} {i : Nat} {a : α} (h : as[i]? = some a) :
    (as.modify i fun _ => a) = as := by
  apply Array.ext_getElem?
  intro j
  rw [Array.getElem?_modify]
  split
  · next heq => rw [← heq, h]; rfl
  · rfl

namespace Builder

/-- The function `f`, at `id`, is being built. -/
def Builds (b : Builder) (id : FuncId) (f : Function) : Prop :=
  b.func = some id ∧ b.mod.function? id = some f

/-- Replaces the function being built and puts the cursor somewhere. -/
def write (b : Builder) (id : FuncId) (f : Function) (cur : Option BlockId) : Builder :=
  { b with mod := b.mod.modifyFunction id fun _ => f, block := cur }

@[simp] theorem block_write : (b.write id f cur).block = cur := rfl

@[simp] theorem func_write : (b.write id f cur).func = b.func := rfl

@[simp] theorem types_write : (b.write id f cur).mod.types = b.mod.types := rfl

theorem function?_write (h : b.mod.function? id = some f) :
    (b.write id g cur).mod.function? id = some g := by
  have h' : b.mod.functions[id.index]? = some f := h
  show (b.mod.functions.modify id.index fun _ => g)[id.index]? = some g
  rw [Array.getElem?_modify, if_pos rfl, h']
  rfl

theorem Builds.write (h : b.Builds id f) : (b.write id g cur).Builds id g :=
  ⟨h.1, function?_write h.2⟩

theorem write_write {cur' : Option BlockId} :
    (b.write id f cur).write id g cur' = b.write id g cur' := by
  simp [Builder.write, Module.modifyFunction, replace_replace]

theorem write_self (h : b.Builds id f) : b.write id f b.block = b := by
  simp [Builder.write, Module.modifyFunction, replace_self h.2]

theorem isTerminated_eq (h : b.Builds id f) : b.isTerminated = (f.openAt b.block).isNone := by
  have hf : b.function? = some f := by rw [function?, h.1]; exact h.2
  rw [isTerminated, hf]
  cases b.block with
  | none => rfl
  | some c => cases hc : f.isTerminated c <;> simp [Function.openAt, hc]

end Builder

/-! ### Operations -/

theorem takeWhile_agree {p q : α → Bool} {l : List α} (h : ∀ x ∈ l, p x = q x) :
    l.takeWhile p = l.takeWhile q := by
  induction l with
  | nil => rfl
  | cons x rest ih =>
    rw [List.takeWhile_cons, List.takeWhile_cons, h x List.mem_cons_self,
      ih fun y hy => h y (List.mem_cons_of_mem _ hy)]

namespace Build

variable (h : b.Builds id f)
include h

theorem function_eq : function b = .ok ((id, f), b) := by
  simp only [function, bind, StateT.bind, Except.bind, get, getThe, MonadStateOf.get, StateT.get,
    pure, Except.pure, h.1, h.2]
  rfl

theorem withFunction_eq (change : Function → α × Function) :
    withFunction change b = .ok ((change f).1, b.write id (change f).2 b.block) := by
  simp only [withFunction, bind, StateT.bind, function_eq h, Except.bind]
  rfl

theorem newBlock_eq :
    newBlock b = .ok (f.nextBlock, b.write id (f.addBlock (f.layout ++ [f.nextBlock])) b.block) :=
  withFunction_eq h Function.newBlock

theorem newBlockBefore_eq (anchor : BlockId) :
    newBlockBefore anchor b =
      .ok (f.nextBlock,
        b.write id (f.addBlock (insertBefore f.nextBlock anchor f.layout)) b.block) :=
  withFunction_eq h (·.newBlockBefore anchor)

theorem predecessors_eq (c : BlockId) : predecessors c b = .ok (f.predecessors c, b) := by
  simp only [predecessors, bind, StateT.bind, function_eq h, Except.bind]
  rfl

theorem fresh_eq :
    insertionBlock.fresh b =
      .ok (f.nextBlock,
        b.write id (f.addBlock (f.layout ++ [f.nextBlock])) (some f.nextBlock)) := by
  simp only [insertionBlock.fresh, bind, StateT.bind, newBlock_eq h, Except.bind]
  rfl

theorem insertionBlock_eq (hcur : ∀ c, b.block = some c → f.Has c) :
    insertionBlock b =
      .ok ((f.ready b.block).1, b.write id (f.ready b.block).2 (some (f.ready b.block).1)) := by
  simp only [insertionBlock, bind, StateT.bind, function_eq h, Except.bind, get, getThe,
    MonadStateOf.get, StateT.get, pure, Except.pure]
  cases hblock : b.block with
  | none => exact fresh_eq h
  | some c =>
    obtain ⟨B, hB⟩ := Function.exists_block? (hcur c hblock)
    have hterm : f.isTerminated c = B.isTerminated := by simp [Function.isTerminated, hB]
    simp only [hB, Function.ready, hterm]
    cases B.isTerminated with
    | true => exact fresh_eq h
    | false =>
      have hself := Builder.write_self h
      rw [hblock] at hself
      simp only [Bool.false_eq_true, if_false, hself]
      rfl

theorem insert_eq (hcur : ∀ c, b.block = some c → f.Has c) (kind : InstKind) (ty : Ty) :
    insert kind ty b =
      .ok (.inst (f.ready b.block).2.nextInst,
        b.write id ((f.ready b.block).2.append (f.ready b.block).1 ⟨kind, ty⟩)
          (some (f.ready b.block).1)) := by
  simp only [insert, bind, StateT.bind, insertionBlock_eq h hcur, Except.bind]
  rw [withFunction_eq h.write, Builder.write_write]
  rfl

theorem terminate_eq (hcur : ∀ c, b.block = some c → f.Has c) (t : Terminator) :
    terminate t b =
      .ok ((), b.write id ((f.ready b.block).2.terminate (f.ready b.block).1 t)
        (some (f.ready b.block).1)) := by
  simp only [terminate, bind, StateT.bind, insertionBlock_eq h hcur, Except.bind]
  rw [withFunction_eq h.write, Builder.write_write]
  rfl

theorem alloca_eq (hwhole : f.Whole) {e : BlockId} (he : f.entry? = some e) (ty : Ty) :
    alloca ty b = .ok (.inst f.nextInst, b.write id (f.reserve e ty) b.block) := by
  simp only [alloca, bind, StateT.bind, function_eq h, Except.bind, he]
  rw [withFunction_eq h]
  -- The slots are counted when the new instruction is there already.
  have hslots : (f.instsAt e).takeWhile (f.addInst ⟨.alloca ty, ty.pointerTo⟩).2.allocates =
      f.slotsAt e := by
    refine takeWhile_agree fun x hx => ?_
    obtain ⟨i, hi⟩ := Option.isSome_iff_exists.1 (hwhole e x hx)
    rw [Function.allocates, Function.allocates, hi, Function.addInst, Function.inst?_push,
      if_neg (Function.ne_nextInst hi), hi]
  simp only [Function.reserve, ← hslots]
  rfl

end Build

/-! ### Operations that close no block -/

/-- A builder took an instruction at the cursor, or a stack slot, or nothing. -/
inductive Builder.Takes : Builder → Builder → Prop
  | nothing (b : Builder) : Takes b b
  | insert {b b' : Builder} {kind : InstKind} {ty : Ty} {v : Operand} (hkind : kind.isAlloca = false)
      (h : Build.insert kind ty b = .ok (v, b')) : Takes b b'
  | alloca {b b' : Builder} {ty : Ty} {v : Operand} (h : Build.alloca ty b = .ok (v, b')) : Takes b b'

/-- An operation adds at most one instruction, and it makes and closes no block itself. -/
def Build.Linear (m : Build α) : Prop := ∀ b a b', m b = .ok (a, b') → b.Takes b'

namespace Build

theorem linear_pure (a : α) : Linear (pure a) := fun b _ _ h => by
  cases h
  exact .nothing b

theorem Linear.discard {m : Build α} (hm : Linear m) : Linear (discard m) := fun b a b' h => by
  have hbind : (m b >>= fun x => .ok (a, x.2)) = .ok (a, b') := h
  cases hx : m b with
  | error e => simp [hx, bind, Except.bind] at hbind
  | ok x =>
    obtain rfl : x.2 = b' := by simpa [hx, bind, Except.bind] using hbind
    exact hm b x.1 x.2 hx

/-- An operation that does nothing where it folds. -/
theorem linear_fold {fold : Option Constant} {m : Build Operand} (hm : Linear m) :
    Linear (match fold with
      | some c => return .const c
      | none => m) := by
  cases fold with
  | none => exact hm
  | some c => exact linear_pure _

variable (v l r : Operand) (ty : Ty)

theorem linear_insert {kind : InstKind} (hkind : kind.isAlloca = false) : Linear (insert kind ty) :=
  fun _ _ _ h => .insert hkind h

@[grind ←] theorem linear_alloca : Linear (alloca ty) := fun _ _ _ h => .alloca h

@[grind ←] theorem linear_load : Linear (load v ty) := linear_insert ty rfl

@[grind ←] theorem linear_store : Linear (store l r) := (linear_insert .void rfl).discard

@[grind ←] theorem linear_copy : Linear (copy l r ty) := (linear_insert .void rfl).discard

@[grind ←] theorem linear_binary (op : BinOp) : Linear (binary op l r ty) := linear_fold (linear_insert ty rfl)

@[grind ←] theorem linear_cmp (op : CmpOp) : Linear (cmp op l r) := linear_fold (linear_insert .bool rfl)

@[grind ←] theorem linear_cast (op : CastOp) : Linear (cast op v ty) := linear_fold (linear_insert ty rfl)

@[grind ←] theorem linear_offset : Linear (offset l r ty) := by
  unfold offset
  split
  · exact linear_pure _
  · exact linear_insert ty rfl

@[grind ←] theorem linear_field (index : Nat) : Linear (field v index ty) := linear_insert ty rfl

@[grind ←] theorem linear_call (args : List Operand) : Linear (call v args ty) := linear_insert ty rfl

@[grind ←] theorem linear_phi (incoming : List (Operand × BlockId)) : Linear (phi incoming ty) := by
  unfold phi
  split
  · exact linear_pure _
  · exact linear_insert ty rfl

end Build

end TreeFlow
