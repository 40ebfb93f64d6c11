import TreeFlow.Flow.Builder
import TreeFlow.Proofs.Machine.Basic

/-!
# Folding agrees with running

An operation on constants is carried out by the builder when its outcome is known, and by the machine
otherwise. The two evaluators are written apart: one works on constants and refuses what it does not
know, the other works on run-time values and fails. The main statement is that they never disagree.
What folds to a constant runs, without an error and without touching the world, to the value of that
constant; and what fails when it runs is never folded, so the instruction is emitted.

The argument goes through the number that a constant stands for: a constant with an integer, or with
a float, has a run-time value with the same one (`World.constant_of_int?`, `World.constant_of_float?`),
the arithmetic of both sides agrees on numbers (`BinOp.evalInt?_of_foldInt?`), and the outcomes are
brought to the type of the result alike (`World.constant_integral`).
-/

namespace TreeFlow

/-! ### The numbers that constants stand for -/

namespace World

variable (p : Program) (globals : Array UInt64) {c : Constant}

/-- A constant with an integer runs to that integer. -/
theorem constant_of_int? {v : Int} (h : c.int? = some v) :
    constant p globals c = .ok (.int v) := by
  cases c with
  | int w ty =>
    obtain rfl : w = v := by simpa [Constant.int?] using h
    rfl
  | zero ty =>
    simp only [Constant.int?] at h
    split at h
    · next hty =>
      obtain rfl : 0 = v := by simpa using h
      cases ty <;> first | rfl | simp [Ty.isInteger] at hty
    · simp at h
  | _ => simp [Constant.int?] at h

/-- A constant with a float runs to that float. -/
theorem constant_of_float? {x : Float} (h : c.float? = some x) :
    constant p globals c = .ok (.float x) := by
  cases c with
  | float y | double y =>
    obtain rfl : y = x := by simpa [Constant.float?] using h
    rfl
  | zero ty =>
    simp only [Constant.float?] at h
    split at h
    · next hty =>
      obtain rfl : 0 = x := by simpa using h
      cases ty <;> first | rfl | simp [Ty.isFloat] at hty
    · simp at h
  | _ => simp [Constant.float?] at h

/-- An integral constant runs to its value, brought to the range of its type. -/
theorem constant_integral (v : Int) (ty : Ty) :
    constant p globals (.integral v ty) = .ok (.int (ty.fit v)) := by
  cases ty with
  | bool => by_cases h : v = 0 <;> simp [Constant.integral, Constant.ofBool, constant, Ty.fit, h]
  | _ => rfl

theorem constant_ofBool (b : Bool) :
    constant p globals (.ofBool b) = .ok (.int (if b then 1 else 0)) := rfl

end World

/-! ### Arithmetic -/

/-- Where the outcome on integers is known in advance, it is the one that the machine computes. In
particular an amount of a shift that folds is in range, where the rules of the two coincide. -/
theorem BinOp.evalInt?_of_foldInt? {op : BinOp} {l r v : Int} (h : op.foldInt? l r = some v) :
    op.evalInt? l r = .ok v := by
  cases op with
  | sdiv | srem =>
    simp only [foldInt?] at h
    split at h
    · simp at h
    · next hr => simp_all [evalInt?]
  | shl =>
    simp only [foldInt?] at h
    split at h
    · next hr =>
      have hmod : r % 128 = r := Int.emod_eq_of_lt hr.1 hr.2
      simp_all [evalInt?]
    · simp at h
  | ashr =>
    simp only [foldInt?] at h
    split at h
    · next hr =>
      have hmin : min r.toNat 127 = r.toNat := by omega
      simp_all [evalInt?]
    · simp at h
  | _ => simp_all [foldInt?, evalInt?]

/-- A float brought to the precision of a type is the value of the constant of that type. -/
theorem World.constant_roundFloat (p : Program) (globals : Array UInt64) (x : Float) (ty : Ty) :
    World.constant p globals
      (match ty with
        | .float => .float (Binary64.toSingle x)
        | _ => .double x) = .ok (.float (ty.roundFloat x)) := by
  cases ty <;> rfl

namespace Constant

variable {l r c : Constant} (p : Program) (globals : Array UInt64)

/-- What an operation folds to is what it evaluates to on the values of its operands. -/
theorem eval_of_foldBinary? {op : BinOp} {ty : Ty} (h : foldBinary? op l r ty = some c) :
    ∃ x y v, World.constant p globals l = .ok x ∧ World.constant p globals r = .ok y ∧
      op.eval x y ty = .ok v ∧ World.constant p globals c = .ok v := by
  unfold foldBinary? at h
  split at h
  · next hop =>
    simp only [Option.bind_eq_bind, Option.bind_eq_some_iff, Option.pure_def,
      Option.some.injEq] at h
    obtain ⟨x, hx, y, hy, z, hz, rfl⟩ := h
    refine ⟨.float x, .float y, .float (ty.roundFloat z), World.constant_of_float? p globals hx,
      World.constant_of_float? p globals hy, ?_, World.constant_roundFloat p globals z ty⟩
    simp [BinOp.eval, hop, RunValue.float?, hz, bind, Except.bind, pure, Except.pure]
  · next hop =>
    simp only [Option.bind_eq_bind, Option.bind_eq_some_iff, Option.pure_def,
      Option.some.injEq] at h
    obtain ⟨x, hx, y, hy, z, hz, rfl⟩ := h
    refine ⟨.int x, .int y, .int (ty.fit z), World.constant_of_int? p globals hx,
      World.constant_of_int? p globals hy, ?_, World.constant_integral p globals z ty⟩
    have hrun := BinOp.evalInt?_of_foldInt? hz
    simp [BinOp.eval, hop, RunValue.int?, hrun, bind, Except.bind, pure, Except.pure]

/-- What a comparison folds to is the truth value it has on the values of its operands. -/
theorem eval_of_foldCmp? {op : CmpOp} (h : foldCmp? op l r = some c) :
    ∃ x y b, World.constant p globals l = .ok x ∧ World.constant p globals r = .ok y ∧
      op.eval x y = .ok b ∧ c = .ofBool b := by
  unfold foldCmp? at h
  split at h
  · simp only [Option.bind_eq_bind, Option.bind_eq_some_iff, Option.pure_def,
      Option.some.injEq] at h
    obtain ⟨x, hx, y, hy, rfl⟩ := h
    exact ⟨.float x, .float y, _, World.constant_of_float? p globals hx,
      World.constant_of_float? p globals hy, rfl, rfl⟩
  · split at h
    · next t u =>
      -- Two null pointers: the machine compares their addresses, which are zero.
      obtain rfl : Constant.ofBool (op.evalInt 0 0) = c := by simpa using h
      exact ⟨.pointer 0, .pointer 0, _, rfl, rfl, rfl, rfl⟩
    · simp only [Option.bind_eq_bind, Option.bind_eq_some_iff, Option.pure_def,
        Option.some.injEq] at h
      obtain ⟨x, hx, y, hy, rfl⟩ := h
      exact ⟨.int x, .int y, _, World.constant_of_int? p globals hx,
        World.constant_of_int? p globals hy, rfl, rfl⟩

end Constant

/-! ### Instructions -/

section Instructions

variable (p : Program) (f : Function) (a : Activation) (id : InstId) (w : World) (l r : Constant)

/-- The machine evaluates an operation on constants on the values of the constants. -/
theorem Machine.run_binary_const (op : BinOp) (ty : Ty) :
    Exec.run (instruction p f a id ⟨.binary op l r, ty⟩) w =
      ((do op.eval (← World.constant p w.globals l) (← World.constant p w.globals r) ty), w) := by
  simp only [instruction, Exec.run_bind, run_value, operand]
  cases hl : World.constant p w.globals l <;> cases hr : World.constant p w.globals r <;>
    simp [hr, bind, Except.bind]

/-- The machine compares constants by their values. -/
theorem Machine.run_cmp_const (op : CmpOp) (ty : Ty) :
    Exec.run (instruction p f a id ⟨.cmp op l r, ty⟩) w =
      ((do
        let b ← op.eval (← World.constant p w.globals l) (← World.constant p w.globals r)
        return .int (if b then 1 else 0)), w) := by
  simp only [instruction, Exec.run_bind, run_value, operand]
  cases hl : World.constant p w.globals l <;> cases hr : World.constant p w.globals r <;>
    simp only [Exec.run_liftM, hr, bind, Except.bind]
  next x y => cases op.eval x y <;> rfl

/-- An operation that folds runs to the value of what it folds to. -/
theorem Machine.run_binary_of_fold {op : BinOp} {ty : Ty} {c : Constant}
    (h : Constant.foldBinary? op l r ty = some c) :
    ∃ v, World.constant p w.globals c = .ok v ∧
      Exec.run (instruction p f a id ⟨.binary op l r, ty⟩) w = (.ok v, w) := by
  obtain ⟨x, y, v, hx, hy, heval, hc⟩ := Constant.eval_of_foldBinary? p w.globals h
  refine ⟨v, hc, ?_⟩
  rw [run_binary_const, hx, hy]
  simp [bind, Except.bind, heval]

/-- A comparison that folds runs to the value of what it folds to. -/
theorem Machine.run_cmp_of_fold {op : CmpOp} {c : Constant} (ty : Ty)
    (h : Constant.foldCmp? op l r = some c) :
    ∃ v, World.constant p w.globals c = .ok v ∧
      Exec.run (instruction p f a id ⟨.cmp op l r, ty⟩) w = (.ok v, w) := by
  obtain ⟨x, y, b, hx, hy, heval, rfl⟩ := Constant.eval_of_foldCmp? p w.globals h
  refine ⟨_, World.constant_ofBool p w.globals b, ?_⟩
  rw [run_cmp_const, hx, hy]
  simp [bind, Except.bind, heval, pure, Except.pure]

end Instructions

/-- What does not fold is emitted. -/
theorem Build.binary_eq_insert {op : BinOp} {l r : Constant} {ty : Ty}
    (h : Constant.foldBinary? op l r ty = none) :
    Build.binary op l r ty = Build.insert (.binary op l r) ty := by
  simp [Build.binary, Operand.const?, h]

/-- A comparison that does not fold is emitted. -/
theorem Build.cmp_eq_insert {op : CmpOp} {l r : Constant}
    (h : Constant.foldCmp? op l r = none) :
    Build.cmp op l r = Build.insert (.cmp op l r) .bool := by
  simp [Build.cmp, Operand.const?, h]

/-- **Folding agrees with running**, whatever the operator, the constants and the type of the result,
and wherever the instruction would stand. What folds is emitted as nothing but the constant, and the
instruction would run to the value of that constant and leave the world as it is. Where the
instruction would fail, nothing folds and the instruction itself is emitted. -/
theorem folding_agrees_with_running (p : Program) (f : Function) (a : Activation) (id : InstId)
    (w : World) (l r : Constant) :
    (∀ op ty c, Constant.foldBinary? op l r ty = some c →
      ∃ v, World.constant p w.globals c = .ok v ∧
        Exec.run (Machine.instruction p f a id ⟨.binary op l r, ty⟩) w = (.ok v, w)) ∧
    (∀ op c, Constant.foldCmp? op l r = some c →
      ∃ v, World.constant p w.globals c = .ok v ∧
        Exec.run (Machine.instruction p f a id ⟨.cmp op l r, .bool⟩) w = (.ok v, w)) ∧
    (∀ op ty e w', Exec.run (Machine.instruction p f a id ⟨.binary op l r, ty⟩) w = (.error e, w') →
      Constant.foldBinary? op l r ty = none ∧
        Build.binary op l r ty = Build.insert (.binary op l r) ty) ∧
    (∀ op e w', Exec.run (Machine.instruction p f a id ⟨.cmp op l r, .bool⟩) w = (.error e, w') →
      Constant.foldCmp? op l r = none ∧ Build.cmp op l r = Build.insert (.cmp op l r) .bool) := by
  refine ⟨fun op ty c h => Machine.run_binary_of_fold p f a id w l r h,
    fun op c h => Machine.run_cmp_of_fold p f a id w l r .bool h, fun op ty e w' hrun => ?_,
    fun op e w' hrun => ?_⟩
  · have hnone : Constant.foldBinary? op l r ty = none := by
      cases hfold : Constant.foldBinary? op l r ty with
      | none => rfl
      | some c =>
        obtain ⟨v, -, hok⟩ := Machine.run_binary_of_fold p f a id w l r hfold
        simp [hok] at hrun
    exact ⟨hnone, Build.binary_eq_insert hnone⟩
  · have hnone : Constant.foldCmp? op l r = none := by
      cases hfold : Constant.foldCmp? op l r with
      | none => rfl
      | some c =>
        obtain ⟨v, -, hok⟩ := Machine.run_cmp_of_fold p f a id w l r .bool hfold
        simp [hok] at hrun
    exact ⟨hnone, Build.cmp_eq_insert hnone⟩

/-- A division by zero is left to fail when it runs. -/
example : Constant.foldBinary? .sdiv (.ofInt 1 32) (.ofInt 0 32) .word = none := by decide +kernel

end TreeFlow
