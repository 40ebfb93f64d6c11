import TreeFlow.Lower.Conversion
import TreeFlow.Proofs.Machine.Folding

/-!
# Conversions that fold

A conversion of a constant is carried out by the builder where its outcome is known, and by the machine
otherwise. The two agree on every kind of constant and at every width, but for one conversion: the machine
sign-extends a truth value as the single bit that it is, and so comes to minus one, where the builder takes
it as the number one (`Constant.foldCast?_sext_true`). Undefined constants are left out, since what is read
of one depends on its type.

No conversion between two types asks for a sign extension of a truth value (`isBool_of_conversion?`), since
those are widened with zeros. So whatever is converted while trees are lowered folds as it runs
(`conversion_folds_as_it_runs`).
-/

namespace TreeFlow

namespace World

variable (p : Program) (globals : Array UInt64)

/-- A floating point constant runs to its value, brought to the precision of its type. -/
theorem constant_ofFloat? {x : Float} {ty : Ty} {c : Constant} (h : Constant.ofFloat? x ty = some c) :
    constant p globals c = .ok (.float (ty.roundFloat x)) := by
  cases ty <;> cases h <;> rfl

end World

/-- A width of two bits has room for a number and its negative. -/
theorem Signed.wrap_of_natAbs_le {n : Nat} {v : Int} (hn : 1 < n) (hv : v.natAbs ≤ 1) :
    Signed.wrap n v = v := by
  rw [Signed.wrap]
  split
  · rfl
  · have hspan : 2 ^ 2 ≤ Signed.span n := by
      rw [Signed.span, Nat.one_shiftLeft]
      exact Nat.pow_le_pow_right Nat.two_pos hn
    exact Int.bmod_eq_of_le (by omega) (by omega)

namespace Constant

variable (p : Program) (globals : Array UInt64) {c d : Constant} {op : CastOp} {target : Ty}

/-- The machine's conversion of the value of a constant. -/
def castValue (op : CastOp) (c : Constant) (target : Ty) : Except RunError RunValue := do
  op.eval (← World.constant p globals c) c.ty target

/-- What a conversion folds to has the value that the machine converts to. -/
theorem castValue_of_foldCast? (h : foldCast? op c target = some d) (hsign : op = .sext → c.ty.isBool = false)
    (hdefined : ∀ ty, c ≠ .undef ty) : c.castValue p globals op target = World.constant p globals d := by
  -- A conversion of a number is known by the number alone.
  have hint : ∀ {v : Int}, c.int? = some v → World.constant p globals c = .ok (.int v) :=
    World.constant_of_int? p globals
  have hfloat : ∀ {x : Float}, c.float? = some x → World.constant p globals c = .ok (.float x) :=
    World.constant_of_float? p globals
  rw [castValue]
  cases op with
  | trunc =>
    obtain ⟨v, hv, hd⟩ := Option.bind_eq_some_iff.1 h
    cases hd
    rw [hint hv, World.constant_integral]
    rfl
  | sext =>
    obtain ⟨v, hv, hd⟩ := Option.bind_eq_some_iff.1 h
    cases hd
    rw [hint hv, World.constant_integral]
    simp [CastOp.eval, RunValue.int?, hsign rfl, bind, Except.bind, pure, Except.pure]
  | zext =>
    obtain ⟨bits, hbits, h⟩ := Option.bind_eq_some_iff.1 h
    obtain ⟨v, hv, hd⟩ := Option.bind_eq_some_iff.1 h
    cases hd
    rw [hint hv, World.constant_integral]
    simp [CastOp.eval, RunValue.int?, hbits, bind, Except.bind, pure, Except.pure]
  | sitofp =>
    obtain ⟨v, hv, hd⟩ := Option.bind_eq_some_iff.1 h
    rw [hint hv, World.constant_ofFloat? p globals hd]
    rfl
  | fptosi =>
    obtain ⟨x, hx, hd⟩ := Option.bind_eq_some_iff.1 h
    cases hd
    rw [hfloat hx, World.constant_integral]
    rfl
  | fpext | fptrunc =>
    obtain ⟨x, hx, hd⟩ := Option.bind_eq_some_iff.1 h
    rw [hfloat hx, World.constant_ofFloat? p globals hd]
    rfl
  | inttoptr =>
    obtain ⟨v, hv, hd⟩ := Option.bind_eq_some_iff.1 h
    split at hd
    · next hzero =>
      cases hd
      rw [hint hv, hzero]
      rfl
    · cases hd
  | ptrtoint =>
    cases c with
    | null ty =>
      cases h
      rw [World.constant_integral]
      rfl
    | _ => cases h
  | bitcast =>
    -- An address stays what it is, also where there is none yet.
    cases c with
    | null | function => cases h; rfl
    | global id ty =>
      cases h
      show (World.constant p globals (.global id ty) >>= Except.ok) = World.constant p globals (.global id ty)
      cases World.constant p globals (.global id ty) <;> rfl
    | undef ty => exact absurd rfl (hdefined ty)
    | _ => cases h

/-- A sign extension of the truth value that holds: the builder takes it as a number, the machine as a bit. -/
theorem foldCast?_sext_true {n : Nat} (hn : 1 < n) :
    foldCast? .sext (.ofBool true) (.int n) = some (.int 1 (.int n)) ∧
      castValue p globals .sext (.ofBool true) (.int n) = .ok (.int (-1)) := by
  have hnumber : Signed.wrap n 1 = 1 := Signed.wrap_of_natAbs_le hn (by decide)
  have hbit : Signed.wrap n (-1) = -1 := Signed.wrap_of_natAbs_le hn (by decide)
  exact ⟨congrArg (fun v => some (Constant.int v (.int n))) hnumber,
    congrArg (fun v => Except.ok (RunValue.int v)) hbit⟩

end Constant

/-- The machine converts a constant by its value, and leaves the world as it is. -/
theorem Machine.run_cast_const (p : Program) (f : Function) (a : Activation) (id : InstId) (w : World)
    (op : CastOp) (c : Constant) (target : Ty) :
    Exec.run (instruction p f a id ⟨.cast op (.const c), target⟩) w =
      (c.castValue p w.globals op target, w) := by
  simp only [instruction, Exec.run_bind, run_value, operand, Constant.castValue]
  cases World.constant p w.globals c <;> rfl

/-! ### Conversions between types -/

namespace Lower

variable {source target : Ty}

/-- No conversion sign-extends a truth value. -/
theorem isBool_of_conversion? (h : conversion? source target = some (.cast .sext)) : source.isBool = false := by
  cases source with
  | bool => cases target <;> grind [conversion?, Ty.isInteger, Ty.isFloat, Ty.bits?, Ty.isBool]
  | _ => rfl

/-- What is widened with zeros first is not sign-extended afterwards. -/
theorem ne_sext_of_conversion? {ty : Ty} {op : CastOp} (h : conversion? source target = some (.castFrom ty op)) :
    op ≠ .sext := by
  unfold conversion? at h
  split at h
  · -- Between integers there is a single step.
    obtain ⟨a, -, h⟩ := Option.bind_eq_some_iff.1 h
    obtain ⟨b, -, h⟩ := Option.bind_eq_some_iff.1 h
    grind
  · repeat' split at h
    all_goals grind

end Lower

/-- **What a conversion folds to is what it runs to,** unless a truth value is sign-extended or the constant
is undefined. No conversion between two types sign-extends a truth value, in one step or in two. -/
theorem conversion_folds_as_it_runs (p : Program) (f : Function) (a : Activation) (id : InstId) (w : World) :
    (∀ op c target d, Constant.foldCast? op c target = some d → (op = .sext → c.ty.isBool = false) →
      (∀ ty, c ≠ .undef ty) →
      Exec.run (Machine.instruction p f a id ⟨.cast op (.const c), target⟩) w =
        (World.constant p w.globals d, w)) ∧
    ∀ source target,
      (Lower.conversion? source target = some (.cast .sext) → source.isBool = false) ∧
      ∀ ty op, Lower.conversion? source target = some (.castFrom ty op) → op ≠ .sext := by
  refine ⟨fun op c target d h hsign hdefined => ?_, fun _ _ =>
    ⟨Lower.isBool_of_conversion?, fun _ _ => Lower.ne_sext_of_conversion?⟩⟩
  rw [Machine.run_cast_const, Constant.castValue_of_foldCast? p w.globals h hsign hdefined]

end TreeFlow
