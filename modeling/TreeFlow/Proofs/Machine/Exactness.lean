import Mathlib.Data.Int.Bitwise
import TreeFlow.Proofs.Machine.Fitting

/-!
# Exact arithmetic

Every operation on integers has an exact result, a number of any size (`BinOp.exactInt?`); its bitwise operations
are those of two's complement, whose sign goes on for ever. Folding computes in the unit instead, and brings
what comes out to the width of a type with a second step. The two steps together lose nothing but multiples of
the patterns of that width (`BinOp.foldInt?_eq`, `Constant.foldBinary?_eq`): what is left is the one number
in the range of the width that has the low bits of the exact result (`Signed.IsResidue`).

A remainder, and a shift to the right, stay within the range that their left operand is in, so nothing at all
is lost there; nor is it in a quotient, apart from that of the least number of a width by minus one
(`Signed.inRange_tdiv`).
-/

namespace TreeFlow

namespace Signed

variable {bits : Nat} {e l r v : Int}

/-! ### The number that is left of an exact one -/

/-- The one number in the range of a width that an exact number is congruent to. -/
structure IsResidue (bits : Nat) (e v : Int) : Prop where
  inRange : InRange bits v
  modEq : v ≡ e [ZMOD 2 ^ bits]
  unique : ∀ w, InRange bits w → w ≡ e [ZMOD 2 ^ bits] → w = v

theorem isResidue_bmod (hbits : 1 ≤ bits) (e : Int) : IsResidue bits e (e.bmod (span bits)) := by
  have hmod : e.bmod (span bits) ≡ e [ZMOD 2 ^ bits] := by
    rw [← natCast_span]
    exact Int.bmod_emod
  exact ⟨inRange_bmod hbits e, hmod, fun w hw h =>
    hw.eq_of_modEq hbits (inRange_bmod hbits e) (h.trans hmod.symm)⟩

/-! ### Results that stay in range -/

/-- A range reaches from any number in it down, or up, to zero. -/
theorem InRange.of_between (h : InRange bits l) (hv : 0 ≤ v ∧ v ≤ l ∨ l ≤ v ∧ v ≤ 0) : InRange bits v := by
  have hpos : (0 : Int) < 2 ^ (bits - 1) := Int.pow_pos (by decide)
  obtain ⟨hge, hlt⟩ := h
  constructor <;> omega

theorem inRange_tmod (h : InRange bits l) (r : Int) : InRange bits (l.tmod r) := by
  have habs : (l.tmod r).natAbs ≤ l.natAbs := by
    rw [Int.natAbs_tmod]
    exact Nat.mod_le ..
  refine h.of_between ?_
  rcases Int.le_total 0 l with hl | hl
  · have := Int.tmod_nonneg r hl
    omega
  · have := Int.tmod_nonneg r (Int.neg_nonneg_of_nonpos hl)
    rw [Int.neg_tmod] at this
    omega

theorem ashr_eq_fdiv (l : Int) (n : Nat) : ashr l n = l.fdiv (2 ^ n) := by
  have hpow : (0 : Int) ≤ 2 ^ n := Int.pow_nonneg (by decide)
  rw [ashr, Int.shiftRight_eq_div_pow, Int.fdiv_eq_ediv_of_nonneg _ hpow]
  push_cast
  rfl

theorem inRange_fdiv (h : InRange bits l) (n : Nat) : InRange bits (l.fdiv (2 ^ n)) := by
  have hpow : (0 : Int) < 2 ^ n := Int.pow_pos (by decide)
  rw [Int.fdiv_eq_ediv_of_nonneg _ hpow.le]
  refine h.of_between ?_
  rcases Int.le_total 0 l with hl | hl
  · exact .inl ⟨Int.ediv_nonneg hl hpow.le, Int.ediv_le_self _ hl⟩
  · refine .inr ⟨?_, Int.ediv_nonpos_of_nonpos_of_neg hl hpow⟩
    refine (Int.le_ediv_iff_mul_le hpow).2 ?_
    calc l * 2 ^ n ≤ l * 1 := Int.mul_le_mul_of_nonpos_left hl hpow
      _ = l := Int.mul_one l

/-- Only the least number of a width has a quotient that the width has no place for. -/
theorem inRange_tdiv (h : InRange bits l) (hr : r ≠ 0) (hleast : ¬(l = -2 ^ (bits - 1) ∧ r = -1)) :
    InRange bits (l.tdiv r) := by
  have hpos : (0 : Int) < 2 ^ (bits - 1) := Int.pow_pos (by decide)
  have habs : (l.tdiv r).natAbs = l.natAbs / r.natAbs := Int.natAbs_tdiv l r
  obtain ⟨hge, hlt⟩ := h
  rcases Nat.lt_or_ge r.natAbs 2 with hunit | htwo
  · -- Divided by a unit, a number stays what it is or is negated.
    obtain rfl | rfl : r = 1 ∨ r = -1 := by omega
    · rw [Int.tdiv_one]
      exact ⟨hge, hlt⟩
    · rw [Int.tdiv_neg, Int.tdiv_one]
      constructor <;> omega
  · have hhalf : l.natAbs / r.natAbs ≤ l.natAbs / 2 := Nat.div_le_div_left htwo (by decide)
    constructor <;> omega

theorem wrapUnit_eq_self (h : InRange unitBits v) : wrapUnit v = v :=
  bmod_eq_of_inRange (by decide) h

/-! ### Bits of two's complement -/

theorem getLsbD_toPattern (v : Int) {i : Nat} (hi : i < unitBits) :
    (toPattern v).getLsbD i = v.testBit i := by
  cases v with
  | ofNat n =>
    rw [toPattern, Int.ofNat_eq_natCast, BitVec.ofInt_natCast, BitVec.getLsbD_ofNat, decide_eq_true hi]
    rfl
  | negSucc n =>
    rw [toPattern, BitVec.ofInt_negSucc_eq_not_ofNat, BitVec.getLsbD_not, BitVec.getLsbD_ofNat,
      decide_eq_true hi]
    rfl

/-- A pattern that has the bits of a number stands for what is left of the number in the unit. -/
theorem toInt_eq_wrapUnit {pattern : BitVec unitBits}
    (h : ∀ i, i < unitBits → pattern.getLsbD i = v.testBit i) : pattern.toInt = wrapUnit v := by
  have heq : pattern = toPattern v := BitVec.eq_of_getLsbD_eq fun i hi => by
    rw [h i hi, getLsbD_toPattern v hi]
  rw [heq, toPattern, BitVec.toInt_ofInt, wrapUnit, span_eq]

theorem and_eq_wrapUnit (l r : Int) : and l r = wrapUnit (l.land r) :=
  toInt_eq_wrapUnit fun i hi => by
    rw [BitVec.getLsbD_and, getLsbD_toPattern l hi, getLsbD_toPattern r hi, Int.testBit_land]

theorem or_eq_wrapUnit (l r : Int) : or l r = wrapUnit (l.lor r) :=
  toInt_eq_wrapUnit fun i hi => by
    rw [BitVec.getLsbD_or, getLsbD_toPattern l hi, getLsbD_toPattern r hi, Int.testBit_lor]

theorem xor_eq_wrapUnit (l r : Int) : xor l r = wrapUnit (l.xor r) :=
  toInt_eq_wrapUnit fun i hi => by
    rw [BitVec.getLsbD_xor, getLsbD_toPattern l hi, getLsbD_toPattern r hi, Int.testBit_lxor]

end Signed

/-! ### Folding -/

namespace BinOp

variable {op : BinOp} {l r : Int}

/-- The exact result of an operation on integers, where folding has one. -/
def exactInt? (op : BinOp) (l r : Int) : Option Int :=
  match op with
  | add => some (l + r)
  | sub => some (l - r)
  | mul => some (l * r)
  | sdiv => if r = 0 then none else some (l.tdiv r)
  | srem => if r = 0 then none else some (l.tmod r)
  | shl => if 0 ≤ r ∧ r < 128 then some (l * 2 ^ r.toNat) else none
  | ashr => if 0 ≤ r ∧ r < 128 then some (l.fdiv (2 ^ r.toNat)) else none
  | and => some (l.land r)
  | or => some (l.lor r)
  | xor => some (l.xor r)
  | fadd | fsub | fmul | fdiv | frem => none

theorem exactInt?_eq_none_of_isFloat (h : op.isFloat = true) (l r : Int) : op.exactInt? l r = none := by
  cases op <;> first | rfl | cases h

/-- **Folding computes exact results, and loses of them only what the unit has no room for.** -/
theorem foldInt?_eq (op : BinOp) (hl : Signed.InRange Signed.unitBits l) (r : Int) :
    op.foldInt? l r = (op.exactInt? l r).map Signed.wrapUnit := by
  cases op with
  | add | sub | mul => rfl
  | fadd | fsub | fmul | fdiv | frem => rfl
  | and => exact congrArg some (Signed.and_eq_wrapUnit l r)
  | or => exact congrArg some (Signed.or_eq_wrapUnit l r)
  | xor => exact congrArg some (Signed.xor_eq_wrapUnit l r)
  | sdiv =>
    simp only [foldInt?, exactInt?]
    split <;> rfl
  | srem =>
    simp only [foldInt?, exactInt?, Signed.rem]
    split
    · rfl
    · rw [Option.map_some, Signed.wrapUnit_eq_self (Signed.inRange_tmod hl r)]
  | shl =>
    simp only [foldInt?, exactInt?, Signed.shl, Int.shiftLeft_eq]
    split <;> rfl
  | ashr =>
    simp only [foldInt?, exactInt?]
    split
    · rw [Option.map_some, Signed.wrapUnit_eq_self (Signed.inRange_fdiv hl _), Signed.ashr_eq_fdiv]
    · rfl

end BinOp

namespace Constant

variable {x y : Constant} {ty : Ty} {bits : Nat} {l r : Int}

theorem float?_eq_none_of_int? (h : x.int? = some l) : x.float? = none := by
  cases x with
  | int v ty => rfl
  | zero ty => cases ty <;> first | rfl | cases h
  | _ => cases h

theorem integral_eq_int (hty : ty = .int bits ∨ ty = .bitField bits) (v : Int) :
    integral v ty = .int (Signed.wrap bits v) ty := by
  rcases hty with rfl | rfl <;> rfl

/-- **What integers of a width fold to, from the exact result.** -/
theorem foldBinary?_eq (hbits : 1 ≤ bits) (hunit : bits ≤ Signed.unitBits)
    (hty : ty = .int bits ∨ ty = .bitField bits) (hx : x.int? = some l) (hy : y.int? = some r)
    (hl : Signed.InRange bits l) (op : BinOp) :
    foldBinary? op x y ty = (op.exactInt? l r).map fun e => .int (e.bmod (Signed.span bits)) ty := by
  unfold foldBinary?
  split
  · next hfloat =>
    rw [float?_eq_none_of_int? hx, BinOp.exactInt?_eq_none_of_isFloat hfloat]
    rfl
  · simp only [hx, hy, Option.bind_eq_bind, Option.bind_some, BinOp.foldInt?_eq op (hl.mono hunit) r]
    cases op.exactInt? l r with
    | none => rfl
    | some e =>
      rw [Option.map_some, Option.map_some, ← Signed.wrap_wrapUnit hbits hunit, ← integral_eq_int hty]
      rfl

/-- What two integers of a width fold to in a type of that width. Each operation that has an exact result comes
to what is left of it in the range; shifts to the right and remainders come to the exact result itself, and
so do quotients, but for that of the least number by minus one. Nothing else is folded. -/
structure FoldsExactly (bits : Nat) (ty : Ty) (x y : Constant) (l r : Int) : Prop where
  residue : ∀ op e, op.exactInt? l r = some e →
    ∃ v, foldBinary? op x y ty = some (.int v ty) ∧ Signed.IsResidue bits e v
  floor : 0 ≤ r → r < 128 → foldBinary? .ashr x y ty = some (.int (l.fdiv (2 ^ r.toNat)) ty)
  remainder : r ≠ 0 → foldBinary? .srem x y ty = some (.int (l.tmod r) ty)
  quotient : r ≠ 0 → ¬(l = -2 ^ (bits - 1) ∧ r = -1) →
    foldBinary? .sdiv x y ty = some (.int (l.tdiv r) ty)
  least : l = -2 ^ (bits - 1) → r = -1 → foldBinary? .sdiv x y ty = some (.int l ty)
  refused : ∀ op, op.exactInt? l r = none → foldBinary? op x y ty = none

theorem foldsExactly (hbits : 1 ≤ bits) (hunit : bits ≤ Signed.unitBits)
    (hty : ty = .int bits ∨ ty = .bitField bits) (hx : x.int? = some l) (hy : y.int? = some r)
    (hl : Signed.InRange bits l) : FoldsExactly bits ty x y l r := by
  have hfold := foldBinary?_eq hbits hunit hty hx hy hl
  have hexact : ∀ {op e}, op.exactInt? l r = some e → Signed.InRange bits e →
      foldBinary? op x y ty = some (.int e ty) := fun {op e} he hrange => by
    rw [hfold, he, Option.map_some, Signed.bmod_eq_of_inRange hbits hrange]
  refine ⟨fun op e he => ⟨_, by rw [hfold, he]; rfl, Signed.isResidue_bmod hbits e⟩, fun hge hlt => ?_,
    fun hr => ?_, fun hr hleast => ?_, fun hl' hr => ?_, fun op he => by rw [hfold, he]; rfl⟩
  · exact hexact (if_pos ⟨hge, hlt⟩) (Signed.inRange_fdiv hl _)
  · exact hexact (if_neg hr) (Signed.inRange_tmod hl r)
  · exact hexact (if_neg hr) (Signed.inRange_tdiv hl hr hleast)
  · subst hr
    -- The exact quotient is the number after the greatest, and that one has the bits of the least.
    have hneg : l.tdiv (-1) = l + (Signed.span bits : Nat) := by
      rw [Int.tdiv_neg, Int.tdiv_one, ← Signed.two_mul_two_pow_pred hbits]
      omega
    rw [hfold, BinOp.exactInt?, if_neg (by decide), Option.map_some, hneg, Int.add_bmod_right,
      Signed.bmod_eq_of_inRange hbits hl]

end Constant

end TreeFlow
