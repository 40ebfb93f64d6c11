import TreeFlow.Proofs.Machine.Exactness

/-!
# Constants in the range of their types

A type of integers of no width at all has no range, and `Signed.wrap` leaves a number alone there. No such type
is ever made: every integer that a type is built from is at least one bit wide (`Ty.IsProper`). Then every
constant that folding comes to is in the range of its type (`Constant.IsProper`), if those that it is computed
from are. What is folded to an integer is always of a type of integers, so this asks of an operation that
its result has such a type.

A type may be wider than the arithmetic unit. The numbers of such a type still are those of the unit
(`Ty.Holds`).
-/

namespace TreeFlow

/-! ### Types -/

namespace Ty

/-- Every integer in a type is at least one bit wide. -/
inductive IsProper : Ty → Prop
  | void : IsProper .void
  | bool : IsProper .bool
  | int {bits : Nat} (hbits : 1 ≤ bits) : IsProper (.int bits)
  | bitField {bits : Nat} (hbits : 1 ≤ bits) : IsProper (.bitField bits)
  | float : IsProper .float
  | double : IsProper .double
  | pointer {t : Ty} (ht : IsProper t) : IsProper (.pointer t)
  | array {t : Ty} (ht : IsProper t) (length : Nat) : IsProper (.array t length)
  | function {result : Ty} {params : List Ty} (hresult : IsProper result) (hparams : ∀ p ∈ params, IsProper p)
      (variadic : Bool) : IsProper (.function result params variadic)
  | struct (key : String) : IsProper (.struct key)
  | union (key : String) : IsProper (.union key)

/-- The numbers that have a place in a type. -/
def Holds : Ty → Int → Prop
  | .bool, v => v = 0 ∨ v = 1
  | .int bits, v | .bitField bits, v => 1 ≤ bits ∧ Signed.InRange (min bits Signed.unitBits) v
  | _, _ => False

namespace IsProper

variable {t source target : Ty}

theorem word : IsProper .word := .int (by decide)

theorem long : IsProper .long := .int (by decide)

theorem char : IsProper .char := .int (by decide)

theorem pointerTo (ht : t.IsProper) : t.pointerTo.IsProper := by
  cases ht with
  | void => exact .pointer .char
  | _ => exact .pointer (by constructor <;> assumption)

theorem pointers (ht : t.IsProper) (depth : Nat) : (t.pointers depth).IsProper := by
  induction depth generalizing t with
  | zero => exact ht
  | succ depth ih => exact ih ht.pointerTo

theorem pointee (ht : t.IsProper) (h : t.pointee? = some target) : target.IsProper := by
  cases ht with
  | pointer ht => exact Option.some.inj h ▸ ht
  | _ => cases h

theorem pointee_getD (ht : t.IsProper) : (t.pointee?.getD .char).IsProper := by
  cases h : t.pointee? with
  | none => exact .char
  | some target => exact ht.pointee h

theorem signature {sig : Signature} (ht : t.IsProper) (h : t.signature? = some sig) :
    sig.result.IsProper ∧ ∀ p ∈ sig.params, p.IsProper := by
  cases ht with
  | function hresult hparams => exact Option.some.inj h ▸ ⟨hresult, hparams⟩
  | _ => cases h

theorem ofSignature {sig : Signature} (hresult : sig.result.IsProper) (hparams : ∀ p ∈ sig.params, p.IsProper) :
    (Ty.ofSignature sig).IsProper := .function hresult hparams _

theorem primitive {name : String} (h : Ty.primitive? name = some t) : t.IsProper := by
  unfold Ty.primitive? at h
  split at h
  all_goals cases h
  · exact .bool
  · exact .char
  · exact .char
  · exact .int (by decide)
  · exact .word
  · exact .long
  · exact .float
  · exact .double
  · exact .void

theorem kind (kind : AggregateKind) (key : String) : (kind.ty key).IsProper := by
  cases kind with
  | struct => exact .struct key
  | union => exact .union key

end IsProper

/-- The common type of two types is one of them. -/
theorem common?_eq_some {l r t : Ty} (h : l.common? r = some t) : t = l ∨ t = r := by
  unfold common? at h
  split at h
  · exact .inl (Option.some.inj h).symm
  · split at h
    · grind
    · grind
    · grind
    · obtain ⟨a, -, h⟩ := Option.bind_eq_some_iff.1 h
      obtain ⟨b, -, h⟩ := Option.bind_eq_some_iff.1 h
      grind

end Ty

/-! ### Numbers -/

namespace Signed

variable {bits : Nat} {v : Int}

theorem inRange_wrapUnit (v : Int) : InRange unitBits (wrapUnit v) := inRange_bmod (by decide) v

/-- A number of the unit that is brought to a width of any size is in its range. -/
theorem inRange_wrap_min (hbits : 1 ≤ bits) (hv : InRange unitBits v) :
    InRange (min bits unitBits) (wrap bits v) := by
  rcases Nat.le_total bits unitBits with hle | hle
  · rw [Nat.min_eq_left hle]
    exact inRange_wrap hbits hle hv
  · rw [Nat.min_eq_right hle, wrap, if_pos (.inr hle)]
    exact hv

theorem inRange_unsigned (bits : Nat) (hv : InRange unitBits v) : InRange unitBits (unsigned bits v) := by
  unfold unsigned
  split
  · exact hv
  · next hlt =>
    have hpos : (0 : Int) < (span bits : Nat) := by
      rw [natCast_span]
      exact Int.pow_pos (by decide)
    -- The width is less than that of the unit, so what it spans is at most the half without a sign.
    have hspan : ((span bits : Nat) : Int) ≤ 2 ^ (unitBits - 1) := by
      rw [natCast_span]
      exact mod_cast Nat.pow_le_pow_right Nat.two_pos (by omega)
    have hge := Int.emod_nonneg v hpos.ne'
    have hlt := Int.emod_lt_of_pos v hpos
    have hneg : (0 : Int) < 2 ^ (unitBits - 1) := Int.pow_pos (by decide)
    constructor <;> omega

theorem inRange_toInt (x : Float) : InRange unitBits (Binary64.toInt x) := by
  have hleast : (-span 127 : Int) = -2 ^ (unitBits - 1) := by decide
  have hgreatest : (span 127 - 1 : Int) = 2 ^ (unitBits - 1) - 1 := by decide
  unfold Binary64.toInt InRange
  dsimp only
  rw [hleast, hgreatest]
  have hpos : (0 : Int) < 2 ^ (unitBits - 1) := Int.pow_pos (by decide)
  -- A float that is no number becomes zero, and one out of range the nearest end of the range.
  split
  · omega
  · split <;> omega
  · omega

end Signed

theorem BinOp.inRange_of_foldInt? {op : BinOp} {l r v : Int} (hl : Signed.InRange Signed.unitBits l)
    (h : op.foldInt? l r = some v) : Signed.InRange Signed.unitBits v := by
  rw [foldInt?_eq op hl] at h
  obtain ⟨e, -, rfl⟩ := Option.map_eq_some_iff.1 h
  exact Signed.inRange_wrapUnit e

theorem Ty.Holds.inRange {ty : Ty} {v : Int} (h : ty.Holds v) : Signed.InRange Signed.unitBits v := by
  cases ty with
  | bool => rcases h with rfl | rfl <;> decide
  | int | bitField => exact h.2.mono (Nat.min_le_right ..)
  | _ => exact h.elim

/-! ### Constants -/

/-- Does the conversion come to an integer? -/
def CastOp.isIntegral : CastOp → Bool
  | .trunc | .zext | .sext | .fptosi | .ptrtoint => true
  | .fptrunc | .fpext | .sitofp | .inttoptr | .bitcast => false

namespace Constant

variable {c x y : Constant} {ty : Ty}

/-- An integer constant is in the range of its type. -/
def IsProper : Constant → Prop
  | .int v ty => ty.Holds v
  | _ => True

theorem isProper_ofBool (b : Bool) : (ofBool b).IsProper := by
  cases b
  · exact .inl rfl
  · exact .inr rfl

theorem isProper_integral {v : Int} (hty : ty.IsProper) (hint : ty.isInteger = true)
    (hv : Signed.InRange Signed.unitBits v) : (integral v ty).IsProper := by
  cases hty with
  | bool => exact isProper_ofBool _
  | int hbits | bitField hbits => exact ⟨hbits, Signed.inRange_wrap_min hbits hv⟩
  | _ => cases hint

theorem isProper_ofInt {bits : Nat} (hbits : 1 ≤ bits) (hlt : bits < Signed.unitBits) (v : Int) :
    (ofInt v bits).IsProper := by
  refine ⟨hbits, ?_⟩
  rw [Nat.min_eq_left hlt.le, Signed.wrap_eq_bmod (by omega) hlt]
  exact Signed.inRange_bmod hbits v

theorem isProper_ofFloat? {z : Float} (h : ofFloat? z ty = some c) : c.IsProper := by
  cases ty with
  | float | double =>
    cases h
    trivial
  | _ => cases h

theorem IsProper.inRange {v : Int} (hc : c.IsProper) (h : c.int? = some v) :
    Signed.InRange Signed.unitBits v := by
  cases c with
  | int w ty =>
    obtain rfl := Option.some.inj h
    exact hc.inRange
  | zero ty =>
    simp only [int?] at h
    split at h
    · obtain rfl := Option.some.inj h
      decide
    · cases h
  | _ => cases h

/-- What an operation folds to is in the range of its type, if that is one of integers wherever the operation
is one on integers. -/
theorem isProper_foldBinary? {op : BinOp} (hx : x.IsProper) (hty : ty.IsProper)
    (hop : op.isFloat = true ∨ ty.isInteger = true) (h : foldBinary? op x y ty = some c) : c.IsProper := by
  unfold foldBinary? at h
  split at h
  · obtain ⟨a, -, h⟩ := Option.bind_eq_some_iff.1 h
    obtain ⟨b, -, h⟩ := Option.bind_eq_some_iff.1 h
    obtain ⟨z, -, h⟩ := Option.bind_eq_some_iff.1 h
    obtain rfl := Option.some.inj h
    cases ty <;> trivial
  · next hfloat =>
    obtain ⟨a, ha, h⟩ := Option.bind_eq_some_iff.1 h
    obtain ⟨b, -, h⟩ := Option.bind_eq_some_iff.1 h
    obtain ⟨z, hz, h⟩ := Option.bind_eq_some_iff.1 h
    obtain rfl := Option.some.inj h
    exact isProper_integral hty (hop.resolve_left hfloat) (BinOp.inRange_of_foldInt? (hx.inRange ha) hz)

theorem isProper_foldCmp? {op : CmpOp} (h : foldCmp? op x y = some c) : c.IsProper := by
  obtain ⟨vx, vy, b, -, -, -, rfl⟩ := eval_of_foldCmp? default #[] h
  exact isProper_ofBool b

/-- What a conversion folds to is in the range of its type, if that is one of integers wherever the conversion
comes to an integer. -/
theorem isProper_foldCast? {op : CastOp} (hx : x.IsProper) (hty : ty.IsProper)
    (hop : op.isIntegral = true → ty.isInteger = true) (h : foldCast? op x ty = some c) : c.IsProper := by
  cases op with
  | trunc | sext =>
    obtain ⟨v, hv, h⟩ := Option.bind_eq_some_iff.1 h
    obtain rfl := Option.some.inj h
    exact isProper_integral hty (hop rfl) (hx.inRange hv)
  | zext =>
    obtain ⟨bits, -, h⟩ := Option.bind_eq_some_iff.1 h
    obtain ⟨v, hv, h⟩ := Option.bind_eq_some_iff.1 h
    obtain rfl := Option.some.inj h
    exact isProper_integral hty (hop rfl) (Signed.inRange_unsigned bits (hx.inRange hv))
  | fptosi =>
    obtain ⟨z, -, h⟩ := Option.bind_eq_some_iff.1 h
    obtain rfl := Option.some.inj h
    exact isProper_integral hty (hop rfl) (Signed.inRange_toInt z)
  | sitofp | fpext | fptrunc =>
    obtain ⟨z, -, h⟩ := Option.bind_eq_some_iff.1 h
    exact isProper_ofFloat? h
  | inttoptr =>
    obtain ⟨v, -, h⟩ := Option.bind_eq_some_iff.1 h
    split at h
    · obtain rfl := Option.some.inj h
      trivial
    · cases h
  | ptrtoint =>
    cases x with
    | null =>
      obtain rfl := Option.some.inj h
      exact isProper_integral hty (hop rfl) (by decide)
    | _ => cases h
  | bitcast =>
    cases x with
    | null | global | function | undef =>
      obtain rfl := Option.some.inj h
      trivial
    | _ => cases h

end Constant

end TreeFlow
