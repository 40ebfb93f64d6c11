import TreeFlow.Lower.Conversion
import TreeFlow.Proofs.Lowering.Joining
import TreeFlow.Proofs.Machine.Casting
import TreeFlow.Proofs.Machine.Distances
import TreeFlow.Proofs.Machine.Phis

/-!
# Code that calculates

Code that keeps to one block is run as it stands there. A call in front of it gets to its end, as long as each
instruction can be carried out, and on the way it only gains values: every operand that could be named in front
of the code still has the value it had (`Machine.Advances`).

What such code is for is an operand. A step of lowering **calculates** if it always yields an operand, and the
code that it writes brings the operand to a value that is told in terms of the operands in front of it
(`Lower.Calculates`). It does not matter whether that operand is a constant, because everything could be
folded, or an instruction. Steps that calculate one after the other calculate together
(`Lower.Calculates.bind`), so what an operator means follows from what the builder's operations mean
(`Lower.calculates_binary`, `Lower.calculates_cmp`, `Lower.calculates_cast`, `Lower.calculates_offset`).
-/

namespace TreeFlow

open Machine

variable {p : Program} {below : List Activation} {f g h k : Function} {c : BlockId} {m m' m'' : Moment}
  {op : Operand} {i : Inst} {v : RunValue} {w : World}

/-! ### Operands of a stage -/

namespace Function

/-- The operand is a constant, an argument, or an instruction of the function. -/
def Offers (g : Function) : Operand → Prop
  | .inst x => (g.inst? x).isSome
  | .const _ | .arg _ => True

theorem Precedes.offers (hgh : g.Precedes h) (hop : g.Offers op) : h.Offers op := by
  cases op with
  | inst x =>
    obtain ⟨i, hi⟩ := Option.isSome_iff_exists.1 hop
    exact Option.isSome_of_eq_some (hgh.inst x i hi)
  | const | arg => trivial

theorem Offers.ne_nextInst (hop : g.Offers op) : op ≠ .inst g.nextInst := by
  rintro rfl
  have hnone : (g.inst? g.nextInst).isSome := hop
  rw [inst?_nextInst] at hnone
  cases hnone

theorem inst?_append_nextInst : (g.append c i).inst? g.nextInst = some i :=
  inst?_append.trans (if_pos rfl)

theorem offers_append : (g.append c i).Offers (.inst g.nextInst) :=
  Option.isSome_of_eq_some inst?_append_nextInst

end Function

theorem Operand.eq_const_of_const? {k : Constant} (hk : op.const? = some k) : op = .const k := by
  cases op with
  | const k' => exact congrArg Operand.const (Option.some.inj hk)
  | inst | arg => cases hk

/-- Arithmetic on integers is that of the unit, brought to the type of the result. -/
theorem BinOp.eval_int {o : BinOp} {ty : Ty} {x y z : Int} (ho : o.isFloat = false)
    (h : o.evalInt? x y = .ok z) : o.eval (.int x) (.int y) ty = .ok (.int (ty.fit z)) := by
  simp [BinOp.eval, ho, RunValue.int?, h, bind, Except.bind, pure, Except.pure]

/-- A constant that a conversion folds is defined. -/
theorem Constant.ne_undef_of_foldCast? {o : CastOp} {k d : Constant} {target : Ty}
    (hk : k.foldCast? o target = some d) (ho : o ≠ .bitcast) (ty : Ty) : k ≠ .undef ty := by
  rintro rfl
  cases o with
  | bitcast => exact ho rfl
  | zext =>
    obtain ⟨bits, -, hk⟩ := Option.bind_eq_some_iff.1 hk
    cases hk
  | _ => cases hk

/-! ### Running through a block -/

namespace Machine

/-- A call gets from where the code of the block `c` ended at one stage to where it ends at a later one. What
could be named at the earlier stage has the value that it had. -/
structure Advances (p : Program) (below : List Activation) (f g h : Function) (c : BlockId) (m m' : Moment) :
    Prop where
  through : Through p below g h f m m'
  spot : m'.spot = f.behind h c
  kept : ∀ op, g.Offers op → m'.value? p op = m.value? p op

theorem Advances.refl (hspot : m.spot = f.behind g c) : Advances p below f g g c m m :=
  ⟨.refl, hspot, fun _ _ => rfl⟩

theorem Advances.trans (hgh : g.Precedes h) (hhk : h.Precedes k) (h₁ : Advances p below f g h c m m')
    (h₂ : Advances p below f h k c m' m'') : Advances p below f g k c m m'' where
  through := (h₁.through.mono (.refl g) hhk).trans (h₂.through.mono hgh (.refl k))
  spot := h₂.spot
  kept op hop := (h₂.kept op (hgh.offers hop)).trans (h₁.kept op hop)

/-- A call in front of an instruction that can be carried out gets behind it. -/
theorem advances_append (below : List Activation)
    (hcode : (g.append c i).codeAt c = g.codeAt c ++ [g.nextInst])
    (hcall : ∀ callee args, i.kind ≠ .call callee args) (hf : (g.append c i).Precedes f) (hm : m.IsIn p f)
    (hspot : m.spot = f.behind g c)
    (hrun : Exec.run (instruction p f m.call g.nextInst i) m.world = (.ok v, w))
    (hglobals : w.globals = m.world.globals) :
    Advances p below f g (g.append c i) c m ⟨w, m.call.deliver v⟩ ∧
      Moment.value? p ⟨w, m.call.deliver v⟩ (.inst g.nextInst) = .ok v := by
  obtain ⟨hbehind, hwrote⟩ := Function.behind_of_append hcode hf
  have hinst : f.inst? g.nextInst = some i := hf.inst _ _ Function.inst?_append_nextInst
  have hrest : m.call.rest = g.nextInst :: (f.behind (g.append c i) c).rest :=
    congrArg Spot.rest (hspot.trans hbehind)
  -- No call is opened, so one step of the machine is a pass of this one.
  have hpass : Pass p below m ⟨w, m.call.deliver v⟩ := by
    refine ⟨_, ?_, .refl⟩
    rw [Moment.machine, step_of_not_call hm.function hrest hinst hcall, stepInstruction, hrun]
    rfl
  obtain ⟨v', hrun', hspot', hvalue⟩ :=
    hpass.deliver_of_append hcode Function.inst?_append_nextInst hcall hf hm hspot
  obtain rfl : v = v' := Except.ok.inj (Prod.mk.inj (hrun.symm.trans hrun')).1
  refine ⟨⟨.single ⟨hspot ▸ hwrote, hpass⟩, hspot', fun op hop => ?_⟩, hvalue w.globals⟩
  -- What the instruction yields is kept under a number that no operand had before.
  show operand p w.globals (m.call.deliver v) op = operand p m.world.globals m.call op
  rw [hglobals]
  exact operand_deliver_of_ne hrest hop.ne_nextInst v

end Machine

/-! ### Calculating -/

/-- What the value of an operand is, seen from a moment of a call of a function. -/
abbrev Meaning := Program → Function → Moment → RunValue → Prop

/-- Between two builders code has been written to the end of the block `c` that brings the operand to the value
that is meant. In whatever the function becomes, a call in front of the code gets to its end if a value is
meant there, and leaves the world as it is. -/
structure Builder.Calculates (b : Builder) (id : FuncId) (c : BlockId) (g : Function) (b' : Builder)
    (h : Function) (op : Operand) (means : Meaning) : Prop where
  start : b.At id g c
  stop : b'.At id h c
  precedes : g.Precedes h
  types : b'.mod.types = b.mod.types
  offers : h.Offers op
  runs : ∀ {p f m v} below, h.Precedes f → Moment.IsIn m p f → m.spot = f.behind g c → means p f m v →
    ∃ m', Advances p below f g h c m m' ∧ m'.world = m.world ∧ m'.value? p op = .ok v

namespace Builder

variable {id : FuncId} {b b₁ b₂ : Builder} {g₁ g₂ : Function} {op₁ op₂ : Operand}
  {means means₁ means₂ : Meaning}

/-- An operand that is there has the value that it has. -/
theorem At.calculates (hb : b.At id g c) (hop : g.Offers op)
    (hmeans : ∀ p f m v, means p f m v → m.value? p op = .ok v) : b.Calculates id c g b g op means where
  start := hb
  stop := hb
  precedes := .refl g
  types := rfl
  offers := hop
  runs _ _ _ hspot hv := ⟨_, .refl hspot, rfl, hmeans _ _ _ _ hv⟩

/-- An instruction calculates what it yields. -/
theorem At.calculates_append (hb : b.At id g c) (means : Meaning) (hi : i.kind.isAlloca = false)
    (hcall : ∀ callee args, i.kind ≠ .call callee args)
    (hrun : ∀ p f m v, means p f m v →
      Exec.run (instruction p f m.call g.nextInst i) m.world = (.ok v, m.world)) :
    b.Calculates id c g (b.write id (g.append c i) (some c)) (g.append c i) (.inst g.nextInst) means where
  start := hb
  stop := (hb.append hi).1
  precedes := (hb.append hi).2.precedes
  types := rfl
  offers := Function.offers_append
  runs _ hf hm hspot hv := by
    have hcode := (Function.slots_code_append hb.whole hb.has hi).2.trans (if_pos rfl)
    obtain ⟨hadvances, hvalue⟩ := advances_append _ hcode hcall hf hm hspot (hrun _ _ _ _ hv) rfl
    exact ⟨_, hadvances, rfl, hvalue⟩

namespace Calculates

theorem imp (h : b.Calculates id c g b₁ g₁ op means₁) (hmeans : ∀ p f m v, means p f m v → means₁ p f m v) :
    b.Calculates id c g b₁ g₁ op means :=
  { h with runs := fun below hf hm hspot hv => h.runs below hf hm hspot (hmeans _ _ _ _ hv) }

/-- What is calculated from what has just been calculated. -/
theorem trans (h₁ : b.Calculates id c g b₁ g₁ op₁ means₁) (h₂ : b₁.Calculates id c g₁ b₂ g₂ op₂ means₂)
    (hmeans : ∀ p f m v, means p f m v → ∃ u, means₁ p f m u ∧ ∀ m' : Moment, m'.world = m.world →
      (∀ op, g.Offers op → m'.value? p op = m.value? p op) → m'.value? p op₁ = .ok u → means₂ p f m' v) :
    b.Calculates id c g b₂ g₂ op₂ means where
  start := h₁.start
  stop := h₂.stop
  precedes := h₁.precedes.trans h₂.precedes
  types := h₂.types.trans h₁.types
  offers := h₂.offers
  runs _ hf hm hspot hv := by
    obtain ⟨u, hu, hnext⟩ := hmeans _ _ _ _ hv
    obtain ⟨m₁, hadvances₁, hworld₁, hvalue₁⟩ := h₁.runs _ (h₂.precedes.trans hf) hm hspot hu
    obtain ⟨m₂, hadvances₂, hworld₂, hvalue₂⟩ :=
      h₂.runs _ hf (hm.through hadvances₁.through) hadvances₁.spot
        (hnext m₁ hworld₁ hadvances₁.kept hvalue₁)
    exact ⟨m₂, hadvances₁.trans h₁.precedes h₂.precedes hadvances₂, hworld₂.trans hworld₁, hvalue₂⟩

end Calculates

end Builder

namespace Lower

variable {α : Type} {env : Env} {s : State} {here : FuncId} {line : Nat} {l r : Operand} {ty : Ty}
  {means means₁ : Meaning}

/-- A step of lowering at the end of the block `c` calculates: it yields an operand, as a part of whatever else
it yields, and the code that it writes brings that to the value that is meant. -/
def Calculates (x : Lower α) (yields : Operand → α) (env : Env) (s : State) (here : FuncId) (g : Function)
    (c : BlockId) (means : Meaning) : Prop :=
  ∃ op b h, x env s = (.done (yields op), { s with builder := b }) ∧
    s.builder.Calculates here c g b h op means

namespace Calculates

theorem imp {x : Lower α} {yields : Operand → α} (h : Calculates x yields env s here g c means₁)
    (hmeans : ∀ p f m v, means p f m v → means₁ p f m v) : Calculates x yields env s here g c means := by
  obtain ⟨op, b, h, hrun, hcalc⟩ := h
  exact ⟨op, b, h, hrun, hcalc.imp hmeans⟩

/-- An operand that is there is yielded. -/
theorem pure {yields : Operand → α} {a : α} (ha : a = yields op) (hs : s.builder.At here g c)
    (hop : g.Offers op) (hmeans : ∀ p f m v, means p f m v → m.value? p op = .ok v) :
    Calculates (Pure.pure a) yields env s here g c means :=
  ⟨op, s.builder, g, ha ▸ rfl, hs.calculates hop hmeans⟩

/-- One step after the other. What the second one means depends on the operand that the first one yields. -/
theorem bind {β : Type} {x : Lower β} {next : β → Lower α} {yields₁ : Operand → β} {yields : Operand → α}
    (means₂ : Operand → Meaning) (hx : Calculates x yields₁ env s here g c means₁)
    (hnext : ∀ op b h, s.builder.Calculates here c g b h op means₁ →
      Calculates (next (yields₁ op)) yields env { s with builder := b } here h c (means₂ op))
    (hmeans : ∀ op p f m v, means p f m v → ∃ u, means₁ p f m u ∧ ∀ m' : Moment, m'.world = m.world →
      (∀ op, g.Offers op → m'.value? p op = m.value? p op) → m'.value? p op = .ok u → means₂ op p f m' v) :
    Calculates (x >>= next) yields env s here g c means := by
  obtain ⟨op₁, b₁, h₁, hrun₁, hcalc₁⟩ := hx
  obtain ⟨op₂, b₂, h₂, hrun₂, hcalc₂⟩ := hnext op₁ b₁ h₁ hcalc₁
  exact ⟨op₂, b₂, h₂, (bind_run hrun₁).trans hrun₂, hcalc₁.trans hcalc₂ (hmeans op₁)⟩

/-- Behind a step that leaves the state as it is. -/
theorem bind_done {β : Type} {x : Lower β} {next : β → Lower α} {yields : Operand → α} {a : β}
    (hx : x env s = (.done a, s)) (h : Calculates (next a) yields env s here g c means) :
    Calculates (x >>= next) yields env s here g c means := by
  obtain ⟨op, b, h, hrun, hcalc⟩ := h
  exact ⟨op, b, h, (bind_run hx).trans hrun, hcalc⟩

/-- What is made of the operand does not matter. -/
theorem map {x : Lower Operand} (hx : Calculates x id env s here g c means) (yields : Operand → α) :
    Calculates (x >>= fun op => Pure.pure (yields op)) yields env s here g c means := by
  obtain ⟨op, b, h, hrun, hcalc⟩ := hx
  exact ⟨op, b, h, bind_run hrun, hcalc⟩

end Calculates

/-! ### The builder's operations -/

/-- What the builder is asked for, it calculates in the same state. -/
theorem calculates_emit {x : Build Operand} {b : Builder} (hx : x s.builder = .ok (op, b))
    (hcalc : s.builder.Calculates here c g b h op means) :
    Calculates (emit line x) id env s here g c means :=
  ⟨op, b, h, emit_of_ok hx, hcalc⟩

/-- An operation that folds to the constant that it would come to, and is an instruction otherwise. -/
theorem calculates_fold (hs : s.builder.At here g c) {kind : InstKind} {o : Option Constant} {x : Build Operand}
    (hx : x = match o with
      | some k => Pure.pure (.const k)
      | none => Build.insert kind ty)
    (hkind : kind.isAlloca = false) (hcall : ∀ callee args, kind ≠ .call callee args)
    (hfold : ∀ k, o = some k → ∀ p f m v, means p f m v → World.constant p m.world.globals k = .ok v)
    (hrun : ∀ p f m v, means p f m v →
      Exec.run (instruction p f m.call g.nextInst ⟨kind, ty⟩) m.world = (.ok v, m.world)) :
    Calculates (emit line x) id env s here g c means := by
  subst hx
  cases o with
  | some k => exact calculates_emit rfl (hs.calculates trivial (hfold k rfl))
  | none => exact calculates_emit (hs.insert_eq kind ty) (hs.calculates_append means hkind hcall hrun)

/-- What arithmetic on two operands comes to. -/
def binaryMeans (o : BinOp) (l r : Operand) (ty : Ty) : Meaning := fun p _ m v =>
  ∃ x y, m.value? p l = .ok x ∧ m.value? p r = .ok y ∧ o.eval x y ty = .ok v

theorem calculates_binary (hs : s.builder.At here g c) (o : BinOp) (l r : Operand) (ty : Ty) :
    Calculates (emit line (Build.binary o l r ty)) id env s here g c (binaryMeans o l r ty) := by
  refine calculates_fold hs rfl rfl (fun _ _ h => InstKind.noConfusion h) (fun k hk p f m v hv => ?_)
    fun p f m v hv => ?_
  · obtain ⟨x, y, hx, hy, heval⟩ := hv
    obtain ⟨kl, hkl, hk⟩ := Option.bind_eq_some_iff.1 hk
    obtain ⟨kr, hkr, hk⟩ := Option.bind_eq_some_iff.1 hk
    obtain ⟨x', y', v', hx', hy', heval', hk'⟩ := Constant.eval_of_foldBinary? p m.world.globals hk
    rw [Operand.eq_const_of_const? hkl] at hx
    rw [Operand.eq_const_of_const? hkr] at hy
    obtain rfl := Except.ok.inj (hx'.symm.trans hx)
    obtain rfl := Except.ok.inj (hy'.symm.trans hy)
    rw [hk', ← heval', heval]
  · obtain ⟨x, y, hx, hy, heval⟩ := hv
    change operand p m.world.globals m.call l = .ok x at hx
    change operand p m.world.globals m.call r = .ok y at hy
    simp only [instruction, Exec.run_bind, run_value, hx, hy, Exec.run_liftM, heval]

/-- What the comparison of two operands comes to. -/
def cmpMeans (o : CmpOp) (l r : Operand) : Meaning := fun p _ m v =>
  ∃ x y b, m.value? p l = .ok x ∧ m.value? p r = .ok y ∧ o.eval x y = .ok b ∧ v = .int (if b then 1 else 0)

theorem calculates_cmp (hs : s.builder.At here g c) (o : CmpOp) (l r : Operand) :
    Calculates (emit line (Build.cmp o l r)) id env s here g c (cmpMeans o l r) := by
  refine calculates_fold hs rfl rfl (fun _ _ h => InstKind.noConfusion h) (fun k hk p f m v hv => ?_)
    fun p f m v hv => ?_
  · obtain ⟨x, y, b, hx, hy, heval, rfl⟩ := hv
    obtain ⟨kl, hkl, hk⟩ := Option.bind_eq_some_iff.1 hk
    obtain ⟨kr, hkr, hk⟩ := Option.bind_eq_some_iff.1 hk
    obtain ⟨x', y', b', hx', hy', heval', rfl⟩ := Constant.eval_of_foldCmp? p m.world.globals hk
    rw [Operand.eq_const_of_const? hkl] at hx
    rw [Operand.eq_const_of_const? hkr] at hy
    obtain rfl := Except.ok.inj (hx'.symm.trans hx)
    obtain rfl := Except.ok.inj (hy'.symm.trans hy)
    obtain rfl := Except.ok.inj (heval'.symm.trans heval)
    exact World.constant_ofBool p m.world.globals b'
  · obtain ⟨x, y, b, hx, hy, heval, rfl⟩ := hv
    change operand p m.world.globals m.call l = .ok x at hx
    change operand p m.world.globals m.call r = .ok y at hy
    simp only [instruction, Exec.run_bind, run_value, hx, hy, Exec.run_liftM, heval, Exec.run_pure]

/-- What the conversion of an operand comes to. A truth value is not sign-extended. -/
def castMeans (o : CastOp) (l : Operand) (ty : Ty) : Meaning := fun p f m v =>
  ∃ x, m.value? p l = .ok x ∧ (o = .sext → (f.operandTy l).isBool = false) ∧
    o.eval x (f.operandTy l) ty = .ok v

theorem calculates_cast (hs : s.builder.At here g c) {o : CastOp} (ho : o ≠ .bitcast) (l : Operand) (ty : Ty) :
    Calculates (emit line (Build.cast o l ty)) id env s here g c (castMeans o l ty) := by
  refine calculates_fold hs rfl rfl (fun _ _ h => InstKind.noConfusion h) (fun k hk p f m v hv => ?_)
    fun p f m v hv => ?_
  · obtain ⟨x, hx, hsign, heval⟩ := hv
    obtain ⟨kl, hkl, hk⟩ := Option.bind_eq_some_iff.1 hk
    obtain rfl := Operand.eq_const_of_const? hkl
    rw [← Constant.castValue_of_foldCast? p m.world.globals hk hsign, Constant.castValue]
    · change World.constant p m.world.globals kl = .ok x at hx
      rw [hx]
      exact heval
    · exact fun ty' => Constant.ne_undef_of_foldCast? hk ho ty'
  · obtain ⟨x, hx, -, heval⟩ := hv
    change operand p m.world.globals m.call l = .ok x at hx
    simp only [instruction, Exec.run_bind, run_value, hx, Exec.run_liftM, heval]

/-- What the address some elements past a pointer comes to. -/
def offsetMeans (ptr index : Operand) (ty : Ty) : Meaning := fun p _ m v =>
  ∃ element size a n, ty.pointee? = some element ∧ p.sizeOf element = .ok size ∧
    m.value? p ptr = .ok (.pointer a) ∧ m.value? p index = .ok (.int n) ∧ v = .pointer (a + .ofInt (n * size))

theorem run_offset {a : Activation} {x : InstId} {ptr index : Operand} {element : Ty} {size : Nat} {q : UInt64}
    {n : Int} (hty : ty.pointee? = some element) (hsize : p.sizeOf element = .ok size)
    (hq : operand p w.globals a ptr = .ok (.pointer q)) (hn : operand p w.globals a index = .ok (.int n)) :
    Exec.run (instruction p f a x ⟨.offset ptr index, ty⟩) w = (.ok (.pointer (q + .ofInt (n * size))), w) := by
  simp only [instruction, offset, hty, address, Exec.run_bind, run_value, hq, hn, hsize, Exec.run_liftM,
    RunValue.address?, RunValue.int?, Exec.run_pure, ofNat_word_add]

theorem calculates_offset (hs : s.builder.At here g c) {ptr : Operand} (hptr : g.Offers ptr) (index : Operand)
    (ty : Ty) : Calculates (emit line (Build.offset ptr index ty)) id env s here g c
      (offsetMeans ptr index ty) := by
  unfold Build.offset
  split
  · -- A distance that is known to be zero leaves the pointer as it is, and so does adding it.
    next hzero =>
    refine calculates_emit rfl (hs.calculates hptr fun p f m v hv => ?_)
    obtain ⟨element, size, a, n, -, -, ha, hn, rfl⟩ := hv
    obtain ⟨k, hk, hk0⟩ := Option.bind_eq_some_iff.1 hzero
    rw [Operand.eq_const_of_const? hk] at hn
    obtain rfl : 0 = n := by
      simpa using (World.constant_of_int? p m.world.globals hk0).symm.trans hn
    rw [ha, Int.zero_mul]
    exact congrArg (fun q => Except.ok (RunValue.pointer q)) (UInt64.add_zero a).symm
  · refine calculates_emit (hs.insert_eq _ _) (hs.calculates_append _ rfl (fun _ _ h => InstKind.noConfusion h)
      fun p f m v hv => ?_)
    obtain ⟨element, size, a, n, hty, hsize, ha, hn, rfl⟩ := hv
    exact run_offset hty hsize ha hn

end Lower

end TreeFlow
