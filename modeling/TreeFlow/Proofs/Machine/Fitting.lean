import Mathlib.Algebra.Ring.Int.Defs
import Mathlib.Algebra.Ring.Nat
import Mathlib.Data.Int.ModEq
import TreeFlow.Proofs.Machine.Encoding
import TreeFlow.Proofs.Machine.Truth

/-!
# Integers brought to a type

A conversion between integral types leaves a number as it is, as far as the bits of the target go
(`Ty.fit`). What comes out has a place in the target (`Ty.isOf_fit`), and is the only number there with the same
bits (`Ty.fit_modEq`, `Ty.eq_fit_of_modEq`). A number that has a place there already is left alone
(`Ty.fit_eq_self`). To a truth value, only zero is told apart from the rest.
-/

namespace TreeFlow

namespace Signed

variable {bits bits' : Nat} {v : Int}

theorem natCast_span (bits : Nat) : ((span bits : Nat) : Int) = 2 ^ bits := by
  rw [span_eq]
  push_cast
  rfl

theorem two_mul_two_pow_pred (hbits : 1 ≤ bits) : (2 : Int) * 2 ^ (bits - 1) = (span bits : Nat) := by
  obtain ⟨k, rfl⟩ := Nat.exists_eq_add_of_le' hbits
  rw [natCast_span, Nat.add_sub_cancel, pow_succ']

/-- What has a place in a width has one in a greater width. -/
theorem InRange.mono (h : InRange bits v) (hle : bits ≤ bits') : InRange bits' v := by
  have hpow : (2 : Int) ^ (bits - 1) ≤ 2 ^ (bits' - 1) :=
    mod_cast Nat.pow_le_pow_right Nat.two_pos (Nat.sub_le_sub_right hle 1)
  obtain ⟨hge, hlt⟩ := h
  constructor <;> omega

theorem inRange_bmod (hbits : 1 ≤ bits) (v : Int) : InRange bits (v.bmod (span bits)) := by
  have hspan := two_mul_two_pow_pred hbits
  have hpos : 0 < span bits := by
    rw [span_eq]
    exact Nat.two_pow_pos bits
  have hge := Int.le_bmod (x := v) hpos
  have hlt := Int.bmod_lt (x := v) hpos
  constructor <;> omega

/-- A number of the unit that is brought to a width has a place there. -/
theorem inRange_wrap (hbits : 1 ≤ bits) (hunit : bits ≤ unitBits) (hv : InRange unitBits v) :
    InRange bits (wrap bits v) := by
  rcases Nat.lt_or_eq_of_le hunit with hlt | rfl
  · rw [wrap_eq_bmod (by omega) hlt]
    exact inRange_bmod hbits v
  · rwa [wrap, if_pos (.inr (Nat.le_refl _))]

theorem wrap_eq_self (hbits : 1 ≤ bits) (hv : InRange bits v) : wrap bits v = v := by
  rw [wrap]
  split
  · rfl
  · exact bmod_eq_of_inRange hbits hv

theorem wrap_modEq (bits : Nat) (v : Int) : wrap bits v ≡ v [ZMOD 2 ^ bits] := by
  rw [wrap]
  split
  · rfl
  · rw [← natCast_span]
    exact Int.bmod_emod

/-- Of all numbers with the same bits, only one has a place in the width. -/
theorem InRange.eq_of_modEq {u : Int} (hbits : 1 ≤ bits) (hu : InRange bits u) (hv : InRange bits v)
    (h : u ≡ v [ZMOD 2 ^ bits]) : u = v := by
  have hmod : u % (span bits : Nat) = v % (span bits : Nat) := by
    rw [natCast_span]
    exact h
  rw [← bmod_eq_of_inRange hbits hu, ← bmod_eq_of_inRange hbits hv, ← Int.emod_bmod, hmod, Int.emod_bmod]

end Signed

namespace RunValue

variable {p : Program} {ty : Ty} {v : Int}

/-- The integers that have a place in a type. -/
theorem isOf_int_iff : (RunValue.int v).IsOf p ty ↔ ty = .bool ∧ (v = 0 ∨ v = 1) ∨
    ty.isBool = false ∧ ∃ n, ty.bits? = some n ∧ 1 ≤ n ∧ n ≤ Signed.unitBits ∧ Signed.InRange n v := by
  constructor
  · intro h
    cases h with
    | bool h => exact .inl ⟨rfl, h⟩
    | int hbits hunit h | bitField hbits hunit h => exact .inr ⟨rfl, _, rfl, hbits, hunit, h⟩
  · rintro (⟨rfl, h⟩ | ⟨hbool, n, hn, hbits, hunit, h⟩)
    · exact .bool h
    · cases ty with
      | bool => cases hbool
      | int n' =>
        cases hn
        exact .int hbits hunit h
      | bitField n' =>
        cases hn
        exact .bitField hbits hunit h
      | _ => cases hn

/-- An integer of a type has a place in the unit. -/
theorem IsOf.inRange_unit (h : (RunValue.int v).IsOf p ty) : Signed.InRange Signed.unitBits v := by
  rcases isOf_int_iff.1 h with ⟨-, rfl | rfl⟩ | ⟨-, n, -, -, hunit, h⟩
  · decide
  · decide
  · exact h.mono hunit

end RunValue

namespace Ty

variable {p : Program} {source target : Ty} {n : Nat} {u v : Int}

theorem fit_eq_wrap (hbool : target.isBool = false) (hn : target.bits? = some n) (v : Int) :
    target.fit v = Signed.wrap n v := by
  cases target with
  | bool => cases hbool
  | int | bitField =>
    cases hn
    rfl
  | _ => cases hn

theorem isBool_of_ne {ty : Ty} (h : ty ≠ .bool) : ty.isBool = false :=
  Bool.eq_false_iff.2 fun hbool => h (eq_bool_of_isBool hbool)

theorem fit_zero (ty : Ty) : ty.fit 0 = 0 := by
  cases ty with
  | bool => rfl
  | _ => exact Signed.wrap_zero _

theorem fit_bool (v : Int) : Ty.bool.fit v = if v = 0 then 0 else 1 := rfl

/-- A type of truth values or of integers that the unit has room for. -/
def IsIntegral (ty : Ty) : Prop := ∃ n, ty.bits? = some n ∧ 1 ≤ n ∧ n ≤ Signed.unitBits

theorem isInteger_of_isIntegral {ty : Ty} (h : ty.IsIntegral) : ty.isInteger = true := by
  obtain ⟨n, hn, -⟩ := h
  cases ty with
  | bool | int | bitField => rfl
  | _ => cases hn

/-- What is brought to a type has a place there. -/
theorem isOf_fit (ht : target.IsIntegral) (hv : (RunValue.int v).IsOf p source) :
    (RunValue.int (target.fit v)).IsOf p target := by
  obtain ⟨n, hn, hbits, hunit⟩ := ht
  rw [RunValue.isOf_int_iff]
  cases hbool : target.isBool with
  | true =>
    obtain rfl := Ty.eq_bool_of_isBool hbool
    refine .inl ⟨rfl, ?_⟩
    rw [fit_bool]
    split
    · exact .inl rfl
    · exact .inr rfl
  | false =>
    refine .inr ⟨rfl, n, hn, hbits, hunit, ?_⟩
    rw [fit_eq_wrap hbool hn]
    exact Signed.inRange_wrap hbits hunit hv.inRange_unit

theorem fit_modEq (hbool : target.isBool = false) (hn : target.bits? = some n) (v : Int) :
    target.fit v ≡ v [ZMOD 2 ^ n] := by
  rw [fit_eq_wrap hbool hn]
  exact Signed.wrap_modEq n v

/-- Only one number in a type has the bits of a given one. -/
theorem eq_fit_of_modEq (hbool : target.isBool = false) (hn : target.bits? = some n)
    (hu : (RunValue.int u).IsOf p target) (hv : (RunValue.int v).IsOf p source) (h : u ≡ v [ZMOD 2 ^ n]) :
    u = target.fit v := by
  rcases RunValue.isOf_int_iff.1 hu with ⟨rfl, -⟩ | ⟨-, n', hn', hbits, hunit, hrange⟩
  · cases hbool
  obtain rfl := Option.some.inj (hn.symm.trans hn')
  rw [fit_eq_wrap hbool hn]
  exact hrange.eq_of_modEq hbits (Signed.inRange_wrap hbits hunit hv.inRange_unit)
    (h.trans (Signed.wrap_modEq n v).symm)

/-- A number that has a place in a type of integers is left alone by every type of the same width. -/
theorem fit_eq_self (hbool : target.isBool = false) (hn : target.bits? = some n) (hbits : 1 ≤ n)
    (hv : Signed.InRange n v) : target.fit v = v := by
  rw [fit_eq_wrap hbool hn, Signed.wrap_eq_self hbits hv]

end Ty

end TreeFlow
