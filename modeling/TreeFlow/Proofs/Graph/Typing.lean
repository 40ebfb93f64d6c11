import TreeFlow.Proofs.Graph.Writing

/-!
# Types of operands

Where a function is being built, an operand has a type: a constant brings its own along, and what an instruction
yields has the type that the instruction was given (`Builder.HasTy`). Nothing that is built later changes that
(`Builder.HasTy.of_growsAt`). Every operation of the builder that yields a value is asked for a type, and what it
yields has just that type, folded or not (`Build.Gives`).

No type that is made has a pointer to `void` in it, for a pointer to nothing in particular is one to a byte
(`Ty.WellFormed`). So what a pointer points to tells which pointer it is.
-/

namespace TreeFlow

/-! ### Pointers -/

namespace Ty

/-- Nothing in the type is a pointer to `void`. -/
inductive WellFormed : Ty → Prop
  | void : WellFormed .void
  | bool : WellFormed .bool
  | int (bits : Nat) : WellFormed (.int bits)
  | bitField (bits : Nat) : WellFormed (.bitField bits)
  | float : WellFormed .float
  | double : WellFormed .double
  | pointer {t : Ty} (ht : WellFormed t) (hne : t ≠ .void) : WellFormed (.pointer t)
  | array {t : Ty} (ht : WellFormed t) (length : Nat) : WellFormed (.array t length)
  | function {result : Ty} {params : List Ty} (hresult : WellFormed result) (hparams : ∀ p ∈ params, WellFormed p)
      (variadic : Bool) : WellFormed (.function result params variadic)
  | struct (key : String) : WellFormed (.struct key)
  | union (key : String) : WellFormed (.union key)

namespace WellFormed

variable {t target : Ty}

theorem pointerTo (ht : t.WellFormed) : t.pointerTo.WellFormed := by
  cases t with
  | void => exact .pointer (.int 8) nofun
  | _ => exact .pointer ht nofun

theorem pointers (ht : t.WellFormed) (depth : Nat) : (t.pointers depth).WellFormed := by
  induction depth generalizing t with
  | zero => exact ht
  | succ depth ih => exact ih ht.pointerTo

/-- What is pointed to tells which pointer it is. -/
theorem pointee (ht : t.WellFormed) (h : t.pointee? = some target) : target.WellFormed ∧ target.pointerTo = t := by
  cases ht with
  | pointer htarget hne =>
    obtain rfl := Option.some.inj h
    refine ⟨htarget, ?_⟩
    cases htarget with
    | void => exact absurd rfl hne
    | _ => rfl
  | _ => cases h

theorem signature {sig : Signature} (ht : t.WellFormed) (h : t.signature? = some sig) :
    sig.result.WellFormed ∧ ∀ p ∈ sig.params, p.WellFormed := by
  cases ht with
  | function hresult hparams => exact Option.some.inj h ▸ ⟨hresult, hparams⟩
  | _ => cases h

theorem ofSignature {sig : Signature} (hresult : sig.result.WellFormed) (hparams : ∀ p ∈ sig.params, p.WellFormed) :
    (Ty.ofSignature sig).WellFormed := .function hresult hparams _

theorem primitive {name : String} (h : Ty.primitive? name = some t) : t.WellFormed := by
  unfold Ty.primitive? at h
  split at h <;> first | (obtain rfl := Option.some.inj h; constructor) | cases h

theorem ofKind (kind : AggregateKind) (key : String) : (kind.ty key).WellFormed := by
  cases kind <;> constructor

end WellFormed

theorem isPointer_pointerTo (t : Ty) : t.pointerTo.isPointer = true := by
  cases t <;> rfl

theorem exists_pointee {t : Ty} (h : t.isPointer = true) : ∃ target, t.pointee? = some target := by
  cases t with
  | pointer target => exact ⟨target, rfl⟩
  | _ => cases h

end Ty

/-! ### Constants -/

namespace Constant

variable {c l r : Constant} {ty : Ty}

@[simp] theorem ty_ofBool (b : Bool) : (ofBool b).ty = .bool := rfl

@[simp] theorem ty_integral (v : Int) (ty : Ty) : (integral v ty).ty = ty := by
  cases ty <;> rfl

theorem ty_ofFloat? {x : Float} (h : ofFloat? x ty = some c) : c.ty = ty := by
  cases ty <;> simp only [ofFloat?, Option.some.injEq, reduceCtorEq] at h <;> (subst h; rfl)

/-- An operation on floats is only asked for where the type is one of floats. -/
theorem ty_foldBinary? {op : BinOp} (hop : op.isFloat = true → ty.isFloat = true)
    (h : foldBinary? op l r ty = some c) : c.ty = ty := by
  unfold foldBinary? at h
  split at h
  · next hfloat =>
    obtain ⟨x, -, h⟩ := Option.bind_eq_some_iff.1 h
    obtain ⟨y, -, h⟩ := Option.bind_eq_some_iff.1 h
    obtain ⟨z, -, h⟩ := Option.bind_eq_some_iff.1 h
    obtain rfl := Option.some.inj h
    have hty := hop hfloat
    cases ty <;> first | rfl | cases hty
  · obtain ⟨x, -, h⟩ := Option.bind_eq_some_iff.1 h
    obtain ⟨y, -, h⟩ := Option.bind_eq_some_iff.1 h
    obtain ⟨z, -, h⟩ := Option.bind_eq_some_iff.1 h
    obtain rfl := Option.some.inj h
    exact ty_integral _ _

theorem ty_foldCmp? {op : CmpOp} (h : foldCmp? op l r = some c) : c.ty = .bool := by
  unfold foldCmp? at h
  split at h
  · obtain ⟨x, -, h⟩ := Option.bind_eq_some_iff.1 h
    obtain ⟨y, -, h⟩ := Option.bind_eq_some_iff.1 h
    exact Option.some.inj h ▸ rfl
  · split at h
    · exact Option.some.inj h ▸ rfl
    · obtain ⟨x, -, h⟩ := Option.bind_eq_some_iff.1 h
      obtain ⟨y, -, h⟩ := Option.bind_eq_some_iff.1 h
      exact Option.some.inj h ▸ rfl

theorem ty_foldCast? {op : CastOp} (h : foldCast? op l ty = some c) : c.ty = ty := by
  cases op with
  | trunc | sext | fptosi =>
    obtain ⟨x, -, h⟩ := Option.bind_eq_some_iff.1 h
    exact Option.some.inj h ▸ ty_integral _ _
  | zext =>
    obtain ⟨bits, -, h⟩ := Option.bind_eq_some_iff.1 h
    obtain ⟨x, -, h⟩ := Option.bind_eq_some_iff.1 h
    exact Option.some.inj h ▸ ty_integral _ _
  | sitofp | fpext | fptrunc =>
    obtain ⟨x, -, h⟩ := Option.bind_eq_some_iff.1 h
    exact ty_ofFloat? h
  | inttoptr =>
    obtain ⟨x, -, h⟩ := Option.bind_eq_some_iff.1 h
    split at h
    · exact Option.some.inj h ▸ rfl
    · cases h
  | ptrtoint =>
    cases l with
    | null _ => exact Option.some.inj h ▸ ty_integral _ _
    | _ => cases h
  | bitcast =>
    cases l with
    | null _ | global _ _ | function _ _ | undef _ => exact Option.some.inj h ▸ rfl
    | _ => cases h

end Constant

/-! ### Operands -/

/-- An operand has a type where code is written: a constant brings it along, and what an instruction yields has
the type of the instruction. -/
inductive Builder.HasTy (b : Builder) : Operand → Ty → Prop
  | const {c : Constant} {ty : Ty} (hty : c.ty = ty) : b.HasTy (.const c) ty
  | inst {f : Function} {x : InstId} {i : Inst} {ty : Ty} (hf : b.function? = some f) (hx : f.inst? x = some i)
      (hty : i.ty = ty) : b.HasTy (.inst x) ty

namespace Builder.HasTy

variable {b c : Builder} {op : Operand} {ty : Ty}

/-- It is the type that the function being built has for the operand. -/
theorem operandTy {f : Function} (h : b.HasTy op ty) (hf : b.function? = some f) : f.operandTy op = ty := by
  cases h with
  | const hty => exact hty
  | inst hg hx hty =>
    obtain rfl := Option.some.inj (hf.symm.trans hg)
    rw [Function.operandTy, hx]
    exact hty

/-- An instruction stays where it is, with its type. -/
theorem of_growsAt (h : b.HasTy op ty) (hfunc : c.func = b.func) (hmod : b.mod.GrowsAt b.func c.mod) :
    c.HasTy op ty := by
  cases h with
  | const hty => exact .const hty
  | inst hf hx hty =>
    obtain ⟨id, hid, hf⟩ := Option.bind_eq_some_iff.1 hf
    obtain ⟨g, hg, hdevelops⟩ := hmod.written id _ hf
    exact .inst (by simp [function?, hfunc, hid, hg]) (hdevelops.retains.inst _ _ hx) hty

end Builder.HasTy

/-! ### What is built -/

namespace Build

variable {b b' : Builder} {op l r : Operand} {ty : Ty}

/-- An operation writes to the function that is being built, and what it yields has the type that it was asked
for. -/
structure Gives (m : Build Operand) (b : Builder) (ty : Ty) : Prop where
  steady : m.Steady
  type : ∀ op b', m b = .ok (op, b') → b'.HasTy op ty

theorem gives_const {c : Constant} (hc : c.ty = ty) : Gives (Pure.pure (.const c)) b ty where
  steady := .pure _
  type op b' h := by
    cases h
    exact .const hc

theorem gives_insert (kind : InstKind) (b : Builder) (ty : Ty) : Gives (insert kind ty) b ty where
  steady := steady_insert kind ty
  type op b' h := by
    simp only [insert, Bind.bind, StateT.bind, Except.bind] at h
    split at h
    · cases h
    · next r hr =>
      obtain ⟨id, f, hfunc, hf, rfl, rfl⟩ := Steady.withFunction_ok h
      refine .inst (f := (f.addInst ⟨kind, ty⟩).2.appendInst r.1 (f.addInst ⟨kind, ty⟩).1) (i := ⟨kind, ty⟩) ?_ ?_ rfl
      · rw [Module.function?] at hf
        simp [Builder.function?, hfunc, Module.function?, Module.modifyFunction, Array.getElem?_modify, hf]
      · simp [Function.inst?, Function.addInst, Function.appendInst, Function.modifyBlock]

theorem gives_alloca (b : Builder) (ty : Ty) : Gives (alloca ty) b ty.pointerTo where
  steady := steady_alloca ty
  type op b' h := by
    obtain ⟨x, id, f, rfl, hfunc, hf, hx⟩ := alloca_ok h
    exact .inst (by simp [Builder.function?, hfunc, hf]) hx rfl

theorem gives_load (b : Builder) (ptr : Operand) (ty : Ty) : Gives (load ptr ty) b ty := gives_insert _ b ty

theorem gives_field (b : Builder) (base : Operand) (i : Nat) (ty : Ty) : Gives (field base i ty) b ty :=
  gives_insert _ b ty

theorem gives_binary {o : BinOp} (hop : o.isFloat = true → ty.isFloat = true) (b : Builder) (l r : Operand) :
    Gives (binary o l r ty) b ty := by
  unfold binary
  split
  · next c hc =>
    obtain ⟨x, -, hc⟩ := Option.bind_eq_some_iff.1 hc
    obtain ⟨y, -, hc⟩ := Option.bind_eq_some_iff.1 hc
    exact gives_const (Constant.ty_foldBinary? hop hc)
  · exact gives_insert _ b ty

theorem gives_cmp (b : Builder) (o : CmpOp) (l r : Operand) : Gives (cmp o l r) b .bool := by
  unfold cmp
  split
  · next c hc =>
    obtain ⟨x, -, hc⟩ := Option.bind_eq_some_iff.1 hc
    obtain ⟨y, -, hc⟩ := Option.bind_eq_some_iff.1 hc
    exact gives_const (Constant.ty_foldCmp? hc)
  · exact gives_insert _ b .bool

theorem gives_cast (b : Builder) (o : CastOp) (l : Operand) (ty : Ty) : Gives (cast o l ty) b ty := by
  unfold cast
  split
  · next c hc =>
    obtain ⟨x, -, hc⟩ := Option.bind_eq_some_iff.1 hc
    exact gives_const (Constant.ty_foldCast? hc)
  · exact gives_insert _ b ty

/-- The pointer no elements on is the pointer itself. -/
theorem gives_offset (h : b.HasTy l ty) (r : Operand) : Gives (offset l r ty) b ty := by
  unfold offset
  split
  · exact ⟨.pure _, fun op b' hrun => by cases hrun; exact h⟩
  · exact gives_insert _ b ty

theorem gives_call (b : Builder) (callee : Operand) (args : List Operand) (ty : Ty) :
    Gives (call callee args ty) b ty := gives_insert _ b ty

/-- What joins values is one of them, or it has the type that is asked for. -/
theorem phi_ok {sources : List (Operand × BlockId)} (h : phi sources ty b = .ok (op, b')) :
    b' = b ∧ (∃ source ∈ sources, source.1 = op) ∨ b'.HasTy op ty := by
  cases hc : commonConstant? sources with
  | none =>
    have hinsert : insert (.phi sources) ty b = .ok (op, b') := by rwa [phi, hc] at h
    exact .inr ((gives_insert _ b ty).type op b' hinsert)
  | some c =>
    rw [phi, hc] at h
    cases h
    refine .inl ⟨rfl, ?_⟩
    cases sources with
    | nil => cases hc
    | cons first rest =>
      rw [commonConstant?] at hc
      split at hc
      · exact ⟨first, List.mem_cons_self, Option.some.inj hc⟩
      · cases hc

end Build

end TreeFlow
