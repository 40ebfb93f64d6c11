import TreeFlow.Proofs.Lowering.Calculating
import TreeFlow.Proofs.Machine.Fitting

/-!
# Conversions between integral types

Which conversion is chosen depends on the kinds and the widths of the two types alone
(`Lower.conversion?_eq_of_isInteger`): a truth value is made by a comparison with zero, wider numbers are made
with the sign, or with zeros of truth values, and narrower ones by cutting. Numbers of the same width are kept
as they are (`Lower.calculates_keep`), which is right as long as they have a place in the target.

Every one of these brings the number to the target, whether it is folded or carried out
(`Lower.calculates_convert`), and what is brought to a type is the number with a place there that is congruent
to it. A number of the source has a place in a target of the same width, with one exception: the truth value
one has none among the integers of a single bit, which are zero and minus one. So **all conversions but that
one have the right value** (`Lower.convert_integral`).
-/

namespace TreeFlow

open Machine

variable {p : Program} {f g h : Function} {c : BlockId} {m : Moment} {here : FuncId} {x : Int}

/-- The operand of a value holds an integer. The operand is a truth value exactly where the type of the value
says so, and then it is zero or one. -/
structure Value.IsInt (v : Value) (p : Program) (f : Function) (m : Moment) (x : Int) : Prop where
  value : m.value? p v.op = .ok (.int x)
  kind : (f.operandTy v.op).isBool = v.ty.isBool
  bit : v.ty.isBool = true → x = 0 ∨ x = 1

theorem Value.IsInt.of_kept {v : Value} {m' : Moment} (h : v.IsInt p f m x)
    (hkept : m'.value? p v.op = m.value? p v.op) : v.IsInt p f m' x :=
  { h with value := hkept.trans h.value }

namespace Lower

variable {env : Env} {s : State} {v : Value} {source target : Ty} {line a b : Nat}

/-! ### Which conversion is chosen -/

theorem exists_bits_of_isInteger {ty : Ty} (h : ty.isInteger = true) : ∃ n, ty.bits? = some n := by
  cases ty with
  | bool | int | bitField => exact ⟨_, rfl⟩
  | _ => cases h

theorem conversion?_eq_of_isInteger (hsource : source.isInteger = true) (htarget : target.isInteger = true)
    (ha : source.bits? = some a) (hb : target.bits? = some b) : conversion? source target =
      some (if a < b then .cast (if source.isBool then .zext else .sext)
        else if b < a then .cast .trunc else .keep) := by
  simp only [conversion?, hsource, htarget, Bool.and_self, if_true, ha, hb, Option.bind_eq_bind,
    Option.bind_some]
  split
  · rfl
  · split <;> rfl

theorem convert_eq_of_isInteger (hv : v.ty.isInteger = true) (htarget : target.isInteger = true)
    (hne : v.ty ≠ target) : convert v target line =
      if target.isBool then toBool v line
      else match conversion? v.ty target with
        | some conversion => applyConversion conversion v.op target line
        | none => fail := by
  have hplain : (v.ty.isAggregate || target.isAggregate || target.isArray || target.isFunction) = false := by
    cases hty : v.ty <;> cases target <;> simp_all [Ty.isInteger, Ty.isAggregate, Ty.isArray, Ty.isFunction]
  have hscalar : v.ty.isScalar = true := by simp [Ty.isScalar, Ty.isArithmetic, hv]
  rw [convert, if_neg hne, hplain, hscalar, Bool.and_true]
  rfl

/-! ### What the conversions come to -/

/-- What the conversion of a value to an integral type comes to. -/
def convertMeans (v : Value) (target : Ty) : Meaning := fun p f m y =>
  ∃ x, v.IsInt p f m x ∧ (target.isBool = false → v.ty.bits? = target.bits? → target.fit x = x) ∧
    y = .int (target.fit x)

theorem calculates_toBool (hs : s.builder.At here g c) (hop : g.Offers v.op) (hv : v.ty.isInteger = true) :
    Calculates (toBool v line) id env s here g c (convertMeans v .bool) := by
  by_cases hbool : v.ty.isBool = true
  · rw [toBool, if_pos hbool]
    refine .pure rfl hs hop fun p f m y hy => ?_
    obtain ⟨x, hx, -, rfl⟩ := hy
    rw [hx.value]
    rcases hx.bit hbool with rfl | rfl <;> rfl
  · have hzero : zeroOf? v.ty = some (.integral 0 v.ty) := by
      cases hty : v.ty <;> simp_all [zeroOf?, Ty.isInteger]
    have hfloat : v.ty.isFloat = false := by
      cases hty : v.ty <;> simp_all [Ty.isFloat, Ty.isInteger]
    rw [toBool, if_neg hbool, hzero, hfloat]
    refine (calculates_cmp hs .ne v.op (.const (.integral 0 v.ty))).imp fun p f m y hy => ?_
    obtain ⟨x, hx, -, rfl⟩ := hy
    refine ⟨.int x, .int 0, x != 0, hx.value, ?_, rfl, ?_⟩
    · exact (World.constant_integral p m.world.globals 0 v.ty).trans
        (congrArg (fun x => Except.ok (RunValue.int x)) (Ty.fit_zero v.ty))
    · rw [Ty.fit_bool]
      by_cases hx0 : x = 0 <;> simp [hx0]

/-- What is kept as it is has to fit. -/
theorem calculates_keep (hs : s.builder.At here g c) (hop : g.Offers v.op)
    (hbits : v.ty.bits? = target.bits?) (hkind : target.isBool = true → v.ty.isBool = true) :
    Calculates (Pure.pure v.op) id env s here g c (convertMeans v target) := by
  refine .pure rfl hs hop fun p f m y hy => ?_
  obtain ⟨x, hx, hfits, rfl⟩ := hy
  rw [hx.value]
  cases hbool : target.isBool with
  | true =>
    obtain rfl := Ty.eq_bool_of_isBool hbool
    rcases hx.bit (hkind hbool) with rfl | rfl <;> rfl
  | false => rw [hfits hbool hbits]

/-- To be widened with zeros is to stay as it is, for a truth value. -/
theorem unsigned_one_of_bit (hx : x = 0 ∨ x = 1) : Signed.unsigned 1 x = x := by
  rcases hx with rfl | rfl <;> rfl

/-- **A conversion between integral types brings the number to the target.** Where it keeps the operand, the
number has to have a place in the target. -/
theorem calculates_convert (hs : s.builder.At here g c) (hop : g.Offers v.op) (hv : v.ty.isInteger = true)
    (htarget : target.isInteger = true) :
    Calculates (convert v target line) id env s here g c (convertMeans v target) := by
  by_cases hne : v.ty = target
  · -- The same type, so nothing is done, whatever the type is.
    rw [convert, if_pos hne]
    exact calculates_keep hs hop (congrArg Ty.bits? hne) fun h => hne ▸ h
  rw [convert_eq_of_isInteger hv htarget hne]
  by_cases hbool : target.isBool = true
  · obtain rfl := Ty.eq_bool_of_isBool hbool
    exact calculates_toBool hs hop hv
  obtain ⟨a, ha⟩ := exists_bits_of_isInteger hv
  obtain ⟨b, hb⟩ := exists_bits_of_isInteger htarget
  rw [if_neg hbool, conversion?_eq_of_isInteger hv htarget ha hb]
  by_cases hlt : a < b
  · -- Truth values are widened with zeros, all others with their sign.
    rw [if_pos hlt]
    refine (calculates_cast hs (by split <;> decide) v.op target).imp fun p f m y hy => ?_
    obtain ⟨x, hx, -, rfl⟩ := hy
    refine ⟨.int x, hx.value, ?_, ?_⟩
    · intro hsext
      rw [hx.kind]
      split at hsext
      · cases hsext
      · next hbit => exact Bool.eq_false_iff.2 hbit
    · split
      · next hbit =>
        have hty := Ty.eq_bool_of_isBool (hx.kind.trans hbit)
        have hunsigned := unsigned_one_of_bit (hx.bit hbit)
        simp only [CastOp.eval, hty]
        exact congrArg (fun x => Except.ok (RunValue.int (target.fit x))) hunsigned
      · next hbit =>
        have hkind : (f.operandTy v.op).isBool = false := hx.kind.trans (Bool.eq_false_iff.2 hbit)
        simp only [CastOp.eval, hkind]
        rfl
  · rw [if_neg hlt]
    by_cases hgt : b < a
    · rw [if_pos hgt]
      refine (calculates_cast hs (by decide) v.op target).imp fun p f m y hy => ?_
      obtain ⟨x, hx, -, rfl⟩ := hy
      exact ⟨.int x, hx.value, CastOp.noConfusion, rfl⟩
    · rw [if_neg hgt]
      have heq : a = b := by omega
      exact calculates_keep hs hop (ha.trans (heq ▸ hb.symm)) fun h => absurd h hbool

/-- A truth value is converted to an integer of a single bit, where its operand is kept. -/
def KeepsBit (source target : Ty) : Prop := source = .bool ∧ target ≠ .bool ∧ target.bits? = some 1

/-- **Conversions between integral types have the right value,** folded or run, but for one: the truth value
that holds, converted to an integer of a single bit, stays the number one.

* At the end of an open block every conversion can be lowered. In whatever becomes of the function, its code
  brings a number `x` of the source to the number `target.fit x`, and leaves the world as it is.
* That number has a place in the target. If the target is `bool`, it tells whether `x` is zero; otherwise it is
  the one number with a place there that is congruent to `x`.
* A truth value that is converted to an integer of a single bit is passed on as it is, although the number one
  has no place there. -/
theorem convert_integral (hs : s.builder.At here g c) (hop : g.Offers v.op) (hv : v.ty.IsIntegral)
    (ht : target.IsIntegral) :
    Calculates (convert v target line) id env s here g c (fun p f m y => ∃ x, v.IsInt p f m x ∧
      (RunValue.int x).IsOf p v.ty ∧ (KeepsBit v.ty target → x = 0) ∧ y = .int (target.fit x)) ∧
    (∀ p x, (RunValue.int x).IsOf p v.ty → (RunValue.int (target.fit x)).IsOf p target ∧
      (target = .bool → target.fit x = if x = 0 then 0 else 1) ∧
      ∀ n, target ≠ .bool → target.bits? = some n →
        ∀ y, y = target.fit x ↔ (RunValue.int y).IsOf p target ∧ y ≡ x [ZMOD 2 ^ n]) ∧
    (KeepsBit v.ty target → convert v target line env s = (.done v.op, s) ∧
      ∀ p, ¬ (RunValue.int 1).IsOf p target) := by
  have hsource := Ty.isInteger_of_isIntegral hv
  have htarget := Ty.isInteger_of_isIntegral ht
  refine ⟨(calculates_convert hs hop hsource htarget).imp fun p f m y hy => ?_, fun p x hx => ?_,
    fun hkeeps => ?_⟩
  · -- Where the operand is kept, a number of the source has a place in the target, unless it is the bit.
    obtain ⟨x, hx, hof, hkeeps, rfl⟩ := hy
    refine ⟨x, hx, fun hbool hbits => ?_, rfl⟩
    rcases RunValue.isOf_int_iff.1 hof with ⟨hty, -⟩ | ⟨-, n, hn, hwidth, -, hrange⟩
    · have hne : target ≠ .bool := by
        rintro rfl
        cases hbool
      obtain rfl := hkeeps ⟨hty, hne, hbits ▸ hty ▸ rfl⟩
      exact Ty.fit_zero target
    · exact Ty.fit_eq_self hbool (hbits ▸ hn) hwidth hrange
  · refine ⟨Ty.isOf_fit ht hx, ?_, fun n hne hn y => ⟨?_, fun ⟨hy, hmod⟩ => ?_⟩⟩
    · rintro rfl
      exact Ty.fit_bool x
    · rintro rfl
      exact ⟨Ty.isOf_fit ht hx, Ty.fit_modEq (Ty.isBool_of_ne hne) hn x⟩
    · exact Ty.eq_fit_of_modEq (Ty.isBool_of_ne hne) hn hy hx hmod
  · obtain ⟨hty, hne, hn⟩ := hkeeps
    have hdiffer : v.ty ≠ target := by
      rw [hty]
      exact hne.symm
    have hbit : v.ty.bits? = some 1 := by
      rw [hty]
      rfl
    rw [convert_eq_of_isInteger hsource htarget hdiffer, Ty.isBool_of_ne hne,
      conversion?_eq_of_isInteger hsource htarget hbit hn]
    refine ⟨rfl, fun p hone => ?_⟩
    rcases RunValue.isOf_int_iff.1 hone with ⟨hbool, -⟩ | ⟨-, n, hn', -, -, hrange⟩
    · exact hne hbool
    · obtain rfl := Option.some.inj (hn.symm.trans hn')
      exact absurd hrange (by decide)

/-- What the truth value that holds should be among the integers of a single bit. -/
example : (Ty.bitField 1).fit 1 = -1 := by decide

end Lower

end TreeFlow
