import TreeFlow.Lower.Conversion
import TreeFlow.Proofs.Machine.Folding
import TreeFlow.Proofs.Machine.Region

/-!
# Truth values of a running program

A number counts as true if it is not zero, a pointer if it is not null (`RunValue.truthAs?`). The comparison
that tests a value comes to that truth value (`RunValue.truthAs?_of_eval`), and where a value is known before the
program runs, to the one that it folds to.

Besides, this module says what a single pass of a call leaves behind: an instruction yields its value, and a
jump nothing but the block that control came from (`Machine.Pass.deliver`, `Machine.Pass.jump`).
-/

namespace TreeFlow

/-! ### Testing values -/

namespace RunValue

/-- Whether a value of a type counts as true. -/
def truthAs? (x : RunValue) : Ty → Except RunError Bool
  | .bool => x.truth?
  | .float | .double => x.float?.map (· != 0)
  | .pointer _ => x.address?.map (· != 0)
  | _ => x.int?.map (· != 0)

end RunValue

/-- The truth of an operand at a moment of a call. -/
def Moment.truth? (p : Program) (m : Moment) (op : Operand) : Except RunError Bool :=
  Machine.operand p m.world.globals m.call op >>= RunValue.truth?

/-- The truth of a lowered value at a moment of a call. -/
def Value.truthAt (p : Program) (m : Moment) (v : Value) : Except RunError Bool :=
  Machine.operand p m.world.globals m.call v.op >>= fun x => x.truthAs? v.ty

theorem Value.truthAt_of_bool {p : Program} {m : Moment} {v : Value} (h : v.ty = .bool) :
    v.truthAt p m = m.truth? p v.op := by
  rw [truthAt, h]
  rfl

theorem Ty.eq_bool_of_isBool {ty : Ty} (h : ty.isBool = true) : ty = .bool := by
  cases ty with
  | bool => rfl
  | _ => cases h

theorem Signed.wrap_zero (bits : Nat) : wrap bits 0 = 0 := by
  unfold wrap
  split
  · rfl
  · exact Int.zero_bmod

namespace RunValue

variable {x z : RunValue} {b : Bool}

/-- A number that is compared with the integer zero. -/
theorem int_of_eval_ne (h : CmpOp.eval .ne x (.int 0) = .ok b) : x.int?.map (· != 0) = .ok b := by
  cases x with
  | int v => exact h
  | pointer a => exact h
  | _ => cases h

/-- A number that is compared with the float zero. -/
theorem float_of_eval_one (h : CmpOp.eval .one x (.float 0) = .ok b) : x.float?.map (· != 0) = .ok b := by
  cases x with
  | float y => exact h
  | _ => cases h

/-- An address that is compared with null. -/
theorem address_of_eval_ne (h : CmpOp.eval .ne x (.pointer 0) = .ok b) :
    x.address?.map (· != 0) = .ok b := by
  have hzero : ∀ a : UInt64, ((a.toNat : Int) != 0) = (a != 0) := fun a => by
    rw [Bool.eq_iff_iff]
    simp [bne_iff_ne, ← UInt64.toNat_inj]
  cases x with
  | int v =>
    rw [← h]
    exact congrArg Except.ok (hzero _).symm
  | pointer a =>
    rw [← h]
    exact congrArg Except.ok (hzero _).symm
  | _ => cases h

/-- **The comparison that tests a value for truth comes to the truth of the value.** -/
theorem truthAs?_of_eval {p : Program} {globals : Array UInt64} {ty : Ty} {zero : Constant}
    (hbool : ty.isBool = false) (hzero : Lower.zeroOf? ty = some zero)
    (hz : World.constant p globals zero = .ok z)
    (h : CmpOp.eval (if ty.isFloat then .one else .ne) x z = .ok b) : x.truthAs? ty = .ok b := by
  cases ty with
  | bool => cases hbool
  | int n | bitField n =>
    obtain rfl := Option.some.inj hzero
    rw [World.constant_integral] at hz
    obtain rfl : RunValue.int 0 = z := by simpa [Ty.fit, Signed.wrap_zero] using hz
    exact int_of_eval_ne h
  | float | double =>
    cases hzero
    cases hz
    exact float_of_eval_one h
  | pointer t =>
    cases hzero
    cases hz
    exact address_of_eval_ne h
  | _ => cases hzero

end RunValue

/-- A comparison is carried out where it is built if its outcome is known, or else an instruction is emitted. -/
theorem Build.cmp_eq_or (o : CmpOp) (l r : Operand) :
    (∃ x y k, l = .const x ∧ r = .const y ∧ Constant.foldCmp? o x y = some k ∧
      Build.cmp o l r = pure (.const k)) ∨ Build.cmp o l r = Build.insert (.cmp o l r) .bool := by
  unfold Build.cmp
  split
  · next k hfold =>
    obtain ⟨x, hx, hfold⟩ := Option.bind_eq_some_iff.1 hfold
    obtain ⟨y, hy, hfold⟩ := Option.bind_eq_some_iff.1 hfold
    cases l with
    | const l =>
      cases r with
      | const r =>
        obtain rfl := Option.some.inj hx
        obtain rfl := Option.some.inj hy
        exact .inl ⟨_, _, k, rfl, rfl, hfold, rfl⟩
      | _ => cases hy
    | _ => cases hx
  · exact .inr rfl

/-! ### Single passes -/

namespace Machine

variable {p : Program} {f : Function} {below : List Activation} {m m' : Moment} {x : InstId}
  {rest : List InstId} {i : Inst}

/-- An instruction that is not a call yields its value. -/
theorem Pass.deliver (hpass : Pass p below m m') (hf : p.module.function? m.call.func = some f)
    (hrest : m.call.rest = x :: rest) (hi : f.inst? x = some i)
    (hcall : ∀ callee args, i.kind ≠ .call callee args) :
    ∃ v, Exec.run (instruction p f m.call x i) m.world = (.ok v, m'.world) ∧ m'.call = m.call.deliver v := by
  obtain ⟨k, hstep, hinner⟩ := hpass
  have hrun : step p (m.machine below) = stepInstruction p f m.call below x i m.world := by
    obtain ⟨kind, ty⟩ := i
    simp only [step, Moment.machine, hf, hrest, hi]
    cases kind with
    | call callee args => exact absurd rfl (hcall callee args)
    | _ => rfl
  rw [hrun] at hstep
  unfold stepInstruction at hstep
  split at hstep
  · next v w hinst =>
    obtain rfl := Progress.running.inj hstep
    have heq : Moment.machine ⟨w, m.call.deliver v⟩ below = m'.machine below :=
      eq_of_innerSteps (Nat.le_refl _) hinner
    obtain rfl := eq_of_machine_eq heq
    exact ⟨v, hinst, rfl⟩
  · cases hstep

/-- A comparison yields how the values of its operands compare. -/
theorem exists_eval_of_cmp {a : Activation} {o : CmpOp} {l r : Operand} {ty : Ty} {v : RunValue}
    {w w' : World} (h : Exec.run (instruction p f a x ⟨.cmp o l r, ty⟩) w = (.ok v, w')) :
    ∃ vx vy b, operand p w.globals a l = .ok vx ∧ operand p w.globals a r = .ok vy ∧
      o.eval vx vy = .ok b ∧ v = .int (if b then 1 else 0) := by
  obtain ⟨vx, w₁, hvx, h₁⟩ := Exec.run_bind_ok h
  obtain ⟨vy, w₂, hvy, h₂⟩ := Exec.run_bind_ok h₁
  obtain ⟨b, w₃, heval, h₃⟩ := Exec.run_bind_ok h₂
  rw [run_value] at hvx hvy
  rw [Exec.run_liftM] at heval
  obtain ⟨hx, rfl⟩ := Prod.mk.inj hvx
  obtain ⟨hy, rfl⟩ := Prod.mk.inj hvy
  exact ⟨vx, vy, b, hx, hy, (Prod.mk.inj heval).1, (Except.ok.inj (Prod.mk.inj h₃).1).symm⟩

/-- To look where a jump leads leaves the world as it is. -/
theorem world_of_follow {a : Activation} {t : Option Terminator} {w w' : World} {o : RunValue ⊕ BlockId}
    (h : Exec.run (follow p f a t) w = (.ok o, w')) : w' = w := by
  cases t with
  | none => cases h
  | some t =>
    cases t with
    | ret v =>
      cases v with
      | none =>
        cases h
        rfl
      | some v =>
        obtain ⟨x, w₁, hvalue, h⟩ := Exec.run_bind_ok h
        cases h
        exact (Prod.mk.inj hvalue).2.symm
    | goto b =>
      cases h
      rfl
    | branch c yes no =>
      obtain ⟨x, w₁, hvalue, h⟩ := Exec.run_bind_ok h
      obtain ⟨b, w₂, htruth, h⟩ := Exec.run_bind_ok h
      rw [Exec.run_liftM] at htruth
      cases h
      exact (Prod.mk.inj htruth).2.symm.trans (Prod.mk.inj hvalue).2.symm
    | unreachable => cases h

/-- A jump changes nothing but where control is, and where it came from. -/
theorem Pass.jump (hpass : Pass p below m m') (hf : p.module.function? m.call.func = some f)
    (hrest : m.call.rest = []) : ∃ target, m' = ⟨m.world, { m.call with
      block := target, rest := f.instsAt target, prev := some m.call.block }⟩ := by
  cases hpass.cases hf with
  | ran h v w => exact nomatch h.symm.trans hrest
  | jumped hnil hfollow => exact ⟨_, by rw [world_of_follow hfollow]⟩

theorem Pass.size (hpass : Pass p below m m') : m'.call.values.size = m.call.values.size := by
  obtain ⟨k, hstep, -⟩ := id hpass
  obtain ⟨f, hf, -⟩ := taken_of_step hstep
  cases hpass.cases hf with
  | ran h v w =>
    show (m.call.deliver v).values.size = _
    rw [Activation.deliver, h]
    exact Array.size_setIfInBounds
  | jumped hrest h => rfl

theorem Reaches.size (h : Reaches p below m m') : m'.call.values.size = m.call.values.size := by
  induction h with
  | refl => rfl
  | tail _ hpass ih => exact hpass.size.trans ih

/-- What an instruction has yielded can be read. -/
theorem operand_deliver {a : Activation} {globals : Array UInt64} (hrest : a.rest = x :: rest)
    (hx : x.index < a.values.size) (v : RunValue) : operand p globals (a.deliver v) (.inst x) = .ok v := by
  have hread : (a.deliver v).values[x.index]? = some (some v) := by
    rw [Activation.deliver, hrest]
    simp [hx]
  rw [operand, hread]

end Machine

end TreeFlow
