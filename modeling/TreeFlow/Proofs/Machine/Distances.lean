import Mathlib.Algebra.Ring.Int.Defs
import Mathlib.Algebra.Ring.Nat
import Mathlib.Data.Int.ModEq
import TreeFlow.Proofs.Machine.Fitting

/-!
# Addresses and distances

An address is a word without a sign, and a distance between two of them a signed integer of as many bits. The
two are taken into each other by their bits alone: a distance is added to an address modulo the number of words
(`ofNat_word_add`, `toNat_add_ofInt_modEq`), whatever multiple of that number it is off (`ofInt_eq_of_modEq`),
and the difference of two addresses, each of them read with a sign first, is the distance between them as long
as that has a place in a signed word (`Signed.distance_eq`).

A number of elements is such a distance divided by their size (`Signed.fit_div_eq`). Sizes are positive, so the
number has a place where the distance has one (`Signed.InRange.of_mul`).
-/

namespace TreeFlow

namespace Signed

variable {bits size : Nat} {n d : Int}

/-- Where so many elements have a place, so has their number. -/
theorem InRange.of_mul (hsize : 1 ≤ size) (h : InRange bits (n * size)) : InRange bits n := by
  have hone : (1 : Int) ≤ size := by exact_mod_cast hsize
  obtain ⟨hge, hlt⟩ := h
  rcases Int.le_total 0 n with hn | hn
  · have hle : n * 1 ≤ n * size := Int.mul_le_mul_of_nonneg_left hone hn
    constructor <;> omega
  · have hle : n * size ≤ n * 1 := Int.mul_le_mul_of_nonpos_left hn hone
    constructor <;> omega

theorem long_fit_wrapUnit (v : Int) : Ty.long.fit (wrapUnit v) = v.bmod (span 64) :=
  wrap_wrapUnit (by decide) (by decide) v

theorem long_fit_eq_self (h : InRange 64 d) : Ty.long.fit d = d := Ty.fit_eq_self rfl rfl (by decide) h

end Signed

/-! ### Addresses -/

section Addresses

variable {a : UInt64} {d e n : Int}

theorem ofInt_eq_of_modEq (h : d ≡ e [ZMOD 2 ^ 64]) : UInt64.ofInt d = .ofInt e :=
  congrArg (fun x : Int => UInt64.ofNat x.toNat) h

/-- The low bits of an address and a distance are those of the sum of the two. -/
theorem ofNat_word_add (a : UInt64) (d : Int) : UInt64.ofNat (Signed.word (a.toNat + d)) = a + .ofInt d := by
  have haddress : UInt64.ofInt a.toNat = a := by
    have hlt : (a.toNat : Int) < 2 ^ 64 := by exact_mod_cast a.toNat_lt
    rw [UInt64.ofInt, Int.emod_eq_of_lt (Int.natCast_nonneg _) hlt, Int.toNat_natCast, UInt64.ofNat_toNat]
  calc UInt64.ofNat (Signed.word (a.toNat + d)) = .ofInt (a.toNat + d) := rfl
    _ = a + .ofInt d := by rw [UInt64.ofInt_add, haddress]

/-- Where a distance leads from an address. -/
theorem toNat_add_ofInt_modEq (a : UInt64) (d : Int) :
    ((a + .ofInt d).toNat : Int) ≡ a.toNat + d [ZMOD 2 ^ 64] := by
  have hpow : (0 : Int) < 2 ^ 64 := by decide
  have hd : ((UInt64.ofInt d).toNat : Int) = d % 2 ^ 64 := by
    rw [UInt64.ofInt, UInt64.toNat_ofNat', Int.natCast_emod, Int.toNat_of_nonneg (Int.emod_nonneg d hpow.ne')]
    exact Int.emod_emod d (2 ^ 64)
  rw [UInt64.toNat_add]
  push_cast
  rw [hd]
  exact (Int.mod_modEq _ _).trans (Int.ModEq.add_left _ (Int.mod_modEq d _))

/-- A distance that is brought to a word leads to the same address. -/
theorem ofInt_bmod_mul (n : Int) (size : Nat) :
    UInt64.ofInt (n.bmod (Signed.span 64) * size) = .ofInt (n * size) := by
  have hmod : n.bmod (Signed.span 64) ≡ n [ZMOD 2 ^ 64] := Int.bmod_emod
  exact ofInt_eq_of_modEq (hmod.mul_right _)

end Addresses

namespace Signed

variable {a : UInt64} {d n : Int} {size : Nat}

/-- The distance between two addresses, each of which is read with a sign. -/
theorem distance_eq (h : InRange 64 d) (a : UInt64) :
    Ty.long.fit (sub (Ty.long.fit (a + .ofInt d).toNat) (Ty.long.fit a.toNat)) = d := by
  have hfit : ∀ v, Ty.long.fit v = v.bmod (span 64) := wrap_eq_bmod (by decide) (by decide)
  have hmod : ((a + .ofInt d).toNat : Int) - a.toNat ≡ d [ZMOD 2 ^ 64] := by
    have hsub := (toNat_add_ofInt_modEq a d).sub_right (a.toNat : Int)
    rwa [add_sub_cancel_left] at hsub
  rw [sub, long_fit_wrapUnit, hfit, hfit, ← Int.sub_bmod, ← Int.emod_bmod]
  calc ((((a + .ofInt d).toNat : Int) - a.toNat) % (span 64 : Nat)).bmod (span 64)
      = (d % (span 64 : Nat)).bmod (span 64) := congrArg (fun x : Int => x.bmod (span 64)) hmod
    _ = d := by rw [Int.emod_bmod, bmod_eq_of_inRange (by decide) h]

/-- The number of elements that a distance is made of. -/
theorem fit_div_eq (hsize : 1 ≤ size) (h : InRange 64 (n * size)) :
    Ty.long.fit (div (n * size) size) = n := by
  rw [div, Int.mul_tdiv_cancel n (by omega), long_fit_wrapUnit,
    bmod_eq_of_inRange (by decide) (h.of_mul hsize)]

end Signed

end TreeFlow
