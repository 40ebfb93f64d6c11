import TreeFlow.Proofs.Graph.Writing

/-!
# Operations in any order

A builder is used by calling its operations one after the other, in whatever order. Here is everything that
can be asked of it (`Builder.Action`), but for bringing back a snapshot and for what only looks. An operation
that fails leaves the builder as it was, so each of them makes one builder of another
(`Builder.Action.perform`).

There are many operations and few things that they come to: nothing, when constants are folded; an
instruction or a terminator at the cursor; a stack slot; and a change of the layout
(`Build.Op.comes`). Only these are looked at where all operations are meant.
-/

namespace TreeFlow

variable {α : Type} {b : Builder} {id : FuncId} {f : Function}

/-! ### Layouts -/

theorem mem_insertBefore_iff [DecidableEq α] {x anchor y : α} {l : List α} :
    y ∈ insertBefore x anchor l ↔ y = x ∨ y ∈ l := by
  induction l with
  | nil => simp [insertBefore]
  | cons z l ih =>
    rw [insertBefore]
    split
    · exact List.mem_cons
    · rw [List.mem_cons, ih, List.mem_cons, or_left_comm]

theorem mem_insertAfter_iff [DecidableEq α] {x anchor y : α} {l : List α} :
    y ∈ insertAfter x anchor l ↔ y = x ∨ y ∈ l := by
  induction l with
  | nil => simp [insertAfter]
  | cons z l ih =>
    rw [insertAfter]
    split
    · rw [List.mem_cons, List.mem_cons, List.mem_cons, or_left_comm]
    · rw [List.mem_cons, ih, List.mem_cons, or_left_comm]

/-- Moving a block changes the layout alone, and nothing is lost from it. -/
theorem Function.exists_moveBlockAfter_eq (f : Function) (id anchor : BlockId) :
    ∃ layout, f.moveBlockAfter id anchor = { f with layout } ∧
      ∀ b, (b ∈ layout → b = id ∨ b ∈ f.layout) ∧ (b ∈ f.layout → b ∈ layout) := by
  by_cases heq : id = anchor
  · exact ⟨f.layout, if_pos heq, fun b => ⟨.inr, fun hb => hb⟩⟩
  · refine ⟨_, if_neg heq, fun b => ?_⟩
    rw [mem_insertAfter_iff, List.mem_filter]
    by_cases hb : b = id <;> simp [hb]

/-! ### The function being built -/

namespace Build

/-- What is left of a builder after an operation: what it made of it, or the same if it failed. -/
def exec (m : Build α) (b : Builder) : Builder :=
  match m b with
  | .ok (_, b') => b'
  | .error _ => b

/-- What can be asked of a builder about the function being built. -/
inductive Op where
  | newBlock
  | newBlockBefore (anchor : BlockId)
  | moveBlockAfter (id anchor : BlockId)
  | alloca (ty : Ty)
  | load (ptr : Operand) (ty : Ty)
  | store (ptr value : Operand)
  | copy (dst src : Operand) (ty : Ty)
  | binary (op : BinOp) (l r : Operand) (ty : Ty)
  | cmp (op : CmpOp) (l r : Operand)
  | cast (op : CastOp) (v : Operand) (target : Ty)
  | offset (ptr index : Operand) (ty : Ty)
  | field (base : Operand) (index : Nat) (ty : Ty)
  | call (callee : Operand) (args : List Operand) (result : Ty)
  | phi (incoming : List (Operand × BlockId)) (ty : Ty)
  | ret (value : Option Operand)
  | goto (target : BlockId)
  | branch (cond : Operand) (yes no : BlockId)
  | unreachable

namespace Op

/-- Carries out an operation. -/
def exec : Op → Builder → Builder
  | newBlock => Build.newBlock.exec
  | newBlockBefore anchor => (Build.newBlockBefore anchor).exec
  | moveBlockAfter id anchor => (Build.moveBlockAfter id anchor).exec
  | alloca ty => (Build.alloca ty).exec
  | load ptr ty => (Build.load ptr ty).exec
  | store ptr value => (Build.store ptr value).exec
  | copy dst src ty => (Build.copy dst src ty).exec
  | binary op l r ty => (Build.binary op l r ty).exec
  | cmp op l r => (Build.cmp op l r).exec
  | cast op v target => (Build.cast op v target).exec
  | offset ptr index ty => (Build.offset ptr index ty).exec
  | field base index ty => (Build.field base index ty).exec
  | call callee args result => (Build.call callee args result).exec
  | phi incoming ty => (Build.phi incoming ty).exec
  | ret value => (Build.ret value).exec
  | goto target => (Build.goto target).exec
  | branch cond yes no => (Build.branch cond yes no).exec
  | unreachable => Build.unreachable.exec

/-- The blocks that an operation refers to. -/
def blocks : Op → List BlockId
  | newBlockBefore anchor => [anchor]
  | moveBlockAfter id anchor => [id, anchor]
  | phi incoming _ => incoming.map Prod.snd
  | goto target => [target]
  | branch _ yes no => [yes, no]
  | _ => []

end Op

theorem exec_discard (m : Build α) : exec (discard m) = exec m := by
  funext b
  have hrun : (discard m : Build Unit) b = (m b).bind fun r => .ok ((), r.2) := rfl
  rw [exec, exec, hrun]
  cases m b <;> rfl

theorem exec_pure (a : α) (b : Builder) : exec (pure a) b = b := rfl

namespace Op

/-- All that operations come to. -/
inductive Comes (o : Op) : Prop
  | nothing (h : ∀ b, o.exec b = b)
  | insert (kind : InstKind) (ty : Ty) (hkind : kind.isAlloca = false) (h : o.exec = (insert kind ty).exec)
  | terminate (t : Terminator) (h : o.exec = (terminate t).exec)
  | alloca (ty : Ty) (h : o = .alloca ty)
  | newBlock (h : o = .newBlock)
  | newBlockBefore (anchor : BlockId) (h : o = .newBlockBefore anchor)
  | moveBlockAfter (id anchor : BlockId) (h : o = .moveBlockAfter id anchor)

theorem comes (o : Op) : o.Comes := by
  cases o with
  | newBlock => exact .newBlock rfl
  | newBlockBefore anchor => exact .newBlockBefore anchor rfl
  | moveBlockAfter id anchor => exact .moveBlockAfter id anchor rfl
  | alloca ty => exact .alloca ty rfl
  | load ptr ty => exact .insert (.load ptr) ty rfl rfl
  | store ptr value => exact .insert (.store ptr value) .void rfl (exec_discard _)
  | copy dst src ty => exact .insert (.copy dst src ty) .void rfl (exec_discard _)
  | binary op l r ty =>
    cases hfold : (do Constant.foldBinary? op (← l.const?) (← r.const?) ty) with
    | some c => exact .nothing fun b => by simp only [exec, Build.binary, hfold, exec_pure]
    | none => exact .insert (.binary op l r) ty rfl (by simp only [exec, Build.binary, hfold])
  | cmp op l r =>
    cases hfold : (do Constant.foldCmp? op (← l.const?) (← r.const?)) with
    | some c => exact .nothing fun b => by simp only [exec, Build.cmp, hfold, exec_pure]
    | none => exact .insert (.cmp op l r) .bool rfl (by simp only [exec, Build.cmp, hfold])
  | cast op v target =>
    cases hfold : (do Constant.foldCast? op (← v.const?) target) with
    | some c => exact .nothing fun b => by simp only [exec, Build.cast, hfold, exec_pure]
    | none => exact .insert (.cast op v) target rfl (by simp only [exec, Build.cast, hfold])
  | offset ptr index ty =>
    by_cases hfold : index.const?.bind Constant.int? = some 0
    · exact .nothing fun b => by simp only [exec, Build.offset, if_pos hfold, exec_pure]
    · exact .insert (.offset ptr index) ty rfl (by simp only [exec, Build.offset, if_neg hfold])
  | field base index ty => exact .insert (.field base index) ty rfl rfl
  | call callee args result => exact .insert (.call callee args) result rfl rfl
  | phi incoming ty =>
    cases hfold : commonConstant? incoming with
    | some c => exact .nothing fun b => by simp only [exec, Build.phi, hfold, exec_pure]
    | none => exact .insert (.phi incoming) ty rfl (by simp only [exec, Build.phi, hfold])
  | ret value => exact .terminate (.ret value) rfl
  | goto target => exact .terminate (.goto target) rfl
  | branch cond yes no => exact .terminate (.branch cond yes no) rfl
  | unreachable => exact .terminate .unreachable rfl

end Op

theorem exec_of_error {m : Build α} {e : BuildFault} (h : m b = .error e) : exec m b = b := by
  rw [exec, h]

theorem exec_of_ok {m : Build α} {a : α} {b' : Builder} (h : m b = .ok (a, b')) : exec m b = b' := by
  rw [exec, h]

theorem error_bind {β : Type} {m : Build α} {e : BuildFault} (h : m b = .error e) (next : α → Build β) :
    (m >>= next) b = .error e := by
  simp only [bind, StateT.bind, h, Except.bind]

/-- Where no function is being built, there is none to be asked for. -/
theorem exists_error_of_none (h : b.function? = none) : ∃ e, function b = .error e := by
  cases hrun : function b with
  | error e => exact ⟨e, rfl⟩
  | ok r =>
    obtain ⟨-, hfunc, hf⟩ := Steady.function_ok (f := r.1.2) hrun
    simp [Builder.function?, hfunc, hf] at h

/-- Where no function is being built, operations on it leave the builder as it is. -/
theorem Op.exec_of_none (h : b.function? = none) (o : Op) : o.exec b = b := by
  obtain ⟨e, hfunction⟩ := exists_error_of_none h
  have hblock : insertionBlock b = .error e := error_bind hfunction _
  cases o.comes with
  | nothing hexec => exact hexec b
  | insert kind ty _ hexec => exact hexec ▸ exec_of_error (error_bind hblock _)
  | terminate t hexec => exact hexec ▸ exec_of_error (error_bind hblock _)
  | alloca ty ho => exact ho ▸ exec_of_error (error_bind hfunction _)
  | newBlock ho => exact ho ▸ exec_of_error (error_bind hfunction _)
  | newBlockBefore anchor ho => exact ho ▸ exec_of_error (error_bind hfunction _)
  | moveBlockAfter id anchor ho => exact ho ▸ exec_of_error (error_bind hfunction _)

theorem steady_moveBlockAfter (id anchor : BlockId) : (moveBlockAfter id anchor).Steady :=
  .withFunction fun f => by
    obtain ⟨layout, hmove, hmem⟩ := f.exists_moveBlockAfter_eq id anchor
    have hbody : f.layout ≠ [] → layout ≠ [] := fun hne => by
      obtain ⟨b, hb⟩ := List.exists_mem_of_ne_nil _ hne
      exact List.ne_nil_of_mem ((hmem b).2 hb)
    show f.Develops (f.moveBlockAfter id anchor)
    rw [hmove]
    refine ⟨.of_insts rfl rfl rfl (Nat.le_refl _), fun hf hdecl => ?_, hbody, fun hf b hb => (hmem b).2 (hf b hb)⟩
    have hnil : layout = [] := List.isEmpty_iff.1 hdecl
    have hdecl' : f.layout = [] := by_contra fun hne => hbody hne hnil
    exact ⟨(hf (List.isEmpty_iff.2 hdecl')).blocks, hnil⟩

theorem Steady.exec {m : Build α} (hm : m.Steady) (b : Builder) : b.Writes (m.exec b) := by
  cases hrun : m b with
  | error e =>
    rw [exec_of_error hrun]
    exact .refl b
  | ok r =>
    rw [exec_of_ok hrun]
    exact hm b r.1 r.2 hrun

/-- Operations write to the function being built and to no other one. -/
theorem Op.writes (o : Op) (b : Builder) : b.Writes (o.exec b) := by
  cases o.comes with
  | nothing h => exact (h b).symm ▸ .refl b
  | insert kind ty _ h => exact h ▸ (steady_insert kind ty).exec b
  | terminate t h => exact h ▸ (steady_terminate t).exec b
  | alloca ty h => exact h ▸ (steady_alloca ty).exec b
  | newBlock h => exact h ▸ steady_newBlock.exec b
  | newBlockBefore anchor h => exact h ▸ (steady_newBlockBefore anchor).exec b
  | moveBlockAfter id anchor h => exact h ▸ (steady_moveBlockAfter id anchor).exec b

end Build

/-! ### The whole builder -/

namespace Builder

/-- What can be asked of a builder, but for bringing back a snapshot. -/
inductive Action where
  | op (o : Build.Op)
  | declareFunction (name : String) (sig : Signature) (linkage : Linkage)
  | setFunction (id : Option FuncId)
  | setBlock (id : BlockId)
  | addGlobal (g : Global)
  | globalString (text : String)
  | declareType (kind : AggregateKind) (name : String)
  | defineType (key : String) (fields : List Field)
  | addCtor (priority : Nat) (id : FuncId)
  | snapshot

/-- What an operation makes of a builder. -/
def Action.perform : Action → Builder → Builder
  | op o, b => o.exec b
  | declareFunction name sig linkage, b => (b.declareFunction name sig linkage).2
  | setFunction id, b => b.setFunction id
  | setBlock id, b => b.setBlock id
  | addGlobal g, b => (b.addGlobal g).2
  | globalString text, b => (b.globalString text).2
  | declareType kind name, b => { b with mod := { b.mod with types := (b.mod.types.declare kind name).2 } }
  | defineType key fields, b =>
    match b.mod.types.define key fields with
    | .ok types => { b with mod := { b.mod with types } }
    | .error _ => b
  | addCtor priority id, b => { b with mod := b.mod.addCtor priority id }
  | snapshot, b => b.snapshot.2

end Builder

end TreeFlow
