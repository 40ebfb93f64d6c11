import Mathlib.Algebra.Ring.Int.Defs
import Mathlib.Algebra.Ring.Nat
import TreeFlow.Machine.World
import TreeFlow.Proofs.Machine.Basic

/-!
# Values as bytes

The lowest bytes of a number give the number back, modulo as many patterns as that many bytes have
(`ofLittleEndian_littleEndian`). To cut them, or to pad them with zeros, is to take the number modulo the
patterns that remain (`ofLittleEndian_of_resizeBytes`).

An integer takes the least power-of-two number of bytes that its width fits into (`Layout.le_intBytes`,
`Layout.intBytes_le`), and so never more than the sixteen of the arithmetic unit. What it loses where the
image of the unit is cut are copies of its sign, and reading it back puts them on again. So **a value that has
a place in a type is what is read back from its bytes** (`RunValue.decode?_of_encode?`), at every width and
not only where the width is a whole number of bytes.
-/

namespace TreeFlow

/-! ### Numbers as bytes -/

@[simp] theorem length_littleEndian (n count : Nat) : (littleEndian n count).length = count := by
  induction count generalizing n with
  | zero => rfl
  | succ count ih => rw [littleEndian, List.length_cons, ih]

theorem ofLittleEndian_littleEndian (n count : Nat) :
    ofLittleEndian (littleEndian n count) = n % 256 ^ count := by
  induction count generalizing n with
  | zero => rw [Nat.pow_zero, Nat.mod_one]; rfl
  | succ count ih =>
    have hbyte : (UInt8.ofNat n).toNat = n % 256 := UInt8.toNat_ofNat'
    rw [littleEndian, ofLittleEndian, ih, hbyte, Nat.pow_succ', Nat.mod_mul]

theorem take_littleEndian (n length count : Nat) :
    (littleEndian n count).take length = littleEndian n (min length count) := by
  induction count generalizing n length with
  | zero => rw [Nat.min_zero]; exact List.take_nil
  | succ count ih =>
    cases length with
    | zero => rw [Nat.zero_min]; rfl
    | succ length => rw [Nat.succ_min_succ, littleEndian, littleEndian, List.take_succ_cons, ih]

theorem ofLittleEndian_replicate_zero (count : Nat) : ofLittleEndian (List.replicate count 0) = 0 := by
  induction count with
  | zero => rfl
  | succ count ih => rw [List.replicate_succ, ofLittleEndian, ih]; rfl

/-- Zeros behind the bytes of a number do not change it. -/
theorem ofLittleEndian_append_replicate (contents : List UInt8) (count : Nat) :
    ofLittleEndian (contents ++ List.replicate count 0) = ofLittleEndian contents := by
  induction contents with
  | nil => exact ofLittleEndian_replicate_zero count
  | cons b bs ih => rw [List.cons_append, ofLittleEndian, ofLittleEndian, ih]

/-! ### Bytes brought to a length -/

section Resize

variable {contents bs : List UInt8} {length n count : Nat}

theorem resizeBytes_eq_ok (h : resizeBytes contents length = .ok bs) :
    length < Memory.blockLimit ∧
      bs = contents.take length ++ List.replicate (length - contents.length) 0 := by
  unfold resizeBytes at h
  split at h
  · cases h
  · next hlimit => exact ⟨Nat.lt_of_not_le hlimit, (Except.ok.inj h).symm⟩

theorem length_of_resizeBytes (h : resizeBytes contents length = .ok bs) : bs.length = length := by
  obtain ⟨-, rfl⟩ := resizeBytes_eq_ok h
  rw [List.length_append, List.length_take, List.length_replicate]
  omega

/-- Bytes of the right length are left alone. -/
theorem eq_of_resizeBytes (h : resizeBytes contents length = .ok bs) (hlength : contents.length = length) :
    bs = contents := by
  obtain ⟨-, rfl⟩ := resizeBytes_eq_ok h
  rw [hlength, Nat.sub_self, List.take_of_length_le (Nat.le_of_eq hlength), List.replicate_zero,
    List.append_nil]

theorem ofLittleEndian_of_resizeBytes (h : resizeBytes (littleEndian n count) length = .ok bs) :
    ofLittleEndian bs = n % 256 ^ min length count := by
  obtain ⟨-, rfl⟩ := resizeBytes_eq_ok h
  rw [take_littleEndian, ofLittleEndian_append_replicate, ofLittleEndian_littleEndian]

/-- The image that the bytes were cut from, or that was padded, is all that is read of them. -/
theorem ofLittleEndian_take_of_resizeBytes (h : resizeBytes (littleEndian n count) length = .ok bs) :
    ofLittleEndian (bs.take count) = n % 256 ^ min length count := by
  obtain ⟨-, rfl⟩ := resizeBytes_eq_ok h
  rw [List.take_append, List.take_replicate, ofLittleEndian_append_replicate, take_littleEndian,
    take_littleEndian, ofLittleEndian_littleEndian, Nat.min_comm count, Nat.min_assoc, Nat.min_self]

theorem resizeBytes_of_lt (contents : List UInt8) (h : length < Memory.blockLimit) :
    ∃ bs, resizeBytes contents length = .ok bs := by
  rw [resizeBytes, if_neg (Nat.not_le_of_lt h)]
  exact ⟨_, rfl⟩

end Resize

/-! ### The bytes of an integer -/

namespace Layout

variable {bits k : Nat}

/-- The bytes of an integer hold its bits. -/
theorem le_intBytes (bits : Nat) : bits ≤ 8 * intBytes bits := by
  have hbytes : bits ≤ 8 * max 1 ((bits + 7) / 8) := by omega
  have hlog : max 1 ((bits + 7) / 8) < 2 ^ ((max 1 ((bits + 7) / 8)).log2 + 1) := Nat.lt_log2_self
  rw [Nat.pow_succ] at hlog
  simp only [intBytes, Nat.one_shiftLeft]
  split <;> omega

/-- The number of bytes is the least power of two that holds the bits. -/
theorem intBytes_le (h : bits ≤ 8 * 2 ^ k) : intBytes bits ≤ 2 ^ k := by
  have hpos : 0 < 2 ^ k := Nat.two_pow_pos k
  have hbytes : max 1 ((bits + 7) / 8) ≤ 2 ^ k := by omega
  have hone : max 1 ((bits + 7) / 8) ≠ 0 := by omega
  simp only [intBytes, Nat.one_shiftLeft]
  generalize max 1 ((bits + 7) / 8) = bytes at hbytes hone ⊢
  split
  · exact hbytes
  · next hne =>
    -- The number of bytes lies strictly between two powers of two.
    have hlt : 2 ^ bytes.log2 < 2 ^ k :=
      Nat.lt_of_lt_of_le (Nat.lt_of_le_of_ne (Nat.log2_self_le hone) hne) hbytes
    calc 2 * 2 ^ bytes.log2 = 2 ^ (bytes.log2 + 1) := (Nat.pow_succ' ..).symm
      _ ≤ 2 ^ k := Nat.pow_le_pow_right (by omega) ((Nat.pow_lt_pow_iff_right (by omega)).1 hlt)

/-- No integer of the arithmetic unit takes more bytes than the unit. -/
theorem intBytes_le_sixteen (h : bits ≤ Signed.unitBits) : intBytes bits ≤ 16 :=
  intBytes_le (k := 4) h

end Layout

/-! ### The range of a width -/

namespace Signed

variable {bits : Nat} {v : Int}

/-- The integer has a place in a signed type of so many bits. -/
def InRange (bits : Nat) (v : Int) : Prop := -2 ^ (bits - 1) ≤ v ∧ v < 2 ^ (bits - 1)

instance (bits : Nat) (v : Int) : Decidable (InRange bits v) := inferInstanceAs (Decidable (_ ∧ _))

theorem span_eq (bits : Nat) : span bits = 2 ^ bits := Nat.one_shiftLeft bits

/-- What has a place in a type is the one value of its pattern there. -/
theorem bmod_eq_of_inRange (hbits : 1 ≤ bits) (h : InRange bits v) : v.bmod (span bits) = v := by
  obtain ⟨k, rfl⟩ := Nat.exists_eq_add_of_le' hbits
  obtain ⟨hle, hlt⟩ := h
  have hspan : ((span (k + 1) : Nat) : Int) = 2 * 2 ^ k := by
    rw [span_eq, Nat.pow_succ']
    push_cast
    rfl
  rw [Nat.add_sub_cancel] at hle hlt
  refine Int.bmod_eq_of_le ?_ ?_ <;> rw [hspan] <;> omega

/-- The width of a type has the last word, behind the unit. -/
theorem wrap_wrapUnit (hbits : 1 ≤ bits) (hunit : bits ≤ unitBits) (v : Int) :
    wrap bits (wrapUnit v) = v.bmod (span bits) := by
  rcases Nat.lt_or_eq_of_le hunit with hlt | rfl
  · have hdvd : span bits ∣ span unitBits := by
      rw [span_eq, span_eq]
      exact Nat.pow_dvd_pow 2 hunit
    rw [wrap_eq_bmod (by omega) hlt, wrapUnit, Int.bmod_bmod_of_dvd hdvd]
  · rw [wrap, if_pos (.inr (Nat.le_refl _)), wrapUnit]

/-- The low bits of the unit's pattern are those of the value itself. -/
theorem bmod_pattern {size : Nat} (hsize : bits ≤ 8 * size) (hunit : bits ≤ unitBits) (v : Int) :
    (((v % (span unitBits : Nat)).toNat % 256 ^ min size 16 : Nat) : Int).bmod (span bits) =
      v.bmod (span bits) := by
  have hspan : ∀ k, 256 ^ k = span (8 * k) := fun k => by
    rw [span_eq, Nat.pow_mul]
  have hdvd : ∀ {k}, bits ≤ k → ((span bits : Nat) : Int) ∣ ((span k : Nat) : Int) := fun h => by
    rw [span_eq, span_eq]
    exact Int.natCast_dvd_natCast.2 (Nat.pow_dvd_pow 2 h)
  have hpos : (0 : Int) ≤ v % (span unitBits : Nat) := Int.emod_nonneg _ (by decide)
  have hcut : bits ≤ 8 * min size 16 := by
    simp only [unitBits] at hunit
    omega
  -- Both remainders are taken by multiples of the span, so neither of them changes the low bits.
  rw [hspan, Int.natCast_emod, Int.toNat_of_nonneg hpos, ← Int.emod_bmod,
    Int.emod_emod_of_dvd _ (hdvd hcut), Int.emod_emod_of_dvd _ (hdvd hunit), Int.emod_bmod]

end Signed

/-! ### Values of a type -/

namespace RunValue

variable {p : Program} {ty : Ty} {v : RunValue} {contents bs : List UInt8} {size : Nat}

/-- The value has a place in the type: zero or one is a `bool`, an integer is in the range of its type, and
an array, a struct or a union is as many bytes as it is large. -/
inductive IsOf (p : Program) : Ty → RunValue → Prop
  | bool {i : Int} (h : i = 0 ∨ i = 1) : IsOf p .bool (.int i)
  | int {bits : Nat} {i : Int} (hbits : 1 ≤ bits) (hunit : bits ≤ Signed.unitBits)
      (h : Signed.InRange bits i) : IsOf p (.int bits) (.int i)
  | bitField {bits : Nat} {i : Int} (hbits : 1 ≤ bits) (hunit : bits ≤ Signed.unitBits)
      (h : Signed.InRange bits i) : IsOf p (.bitField bits) (.int i)
  | array {element : Ty} {length : Nat} {contents : List UInt8}
      (h : p.sizeOf (.array element length) = .ok contents.length) :
      IsOf p (.array element length) (.bytes contents)
  | struct {key : String} {contents : List UInt8} (h : p.sizeOf (.struct key) = .ok contents.length) :
      IsOf p (.struct key) (.bytes contents)
  | union {key : String} {contents : List UInt8} (h : p.sizeOf (.union key) = .ok contents.length) :
      IsOf p (.union key) (.bytes contents)

theorem sizeOf_int (p : Program) (bits : Nat) : p.sizeOf (.int bits) = .ok (Layout.intBytes bits) := rfl

theorem sizeOf_bitField (p : Program) (bits : Nat) :
    p.sizeOf (.bitField bits) = .ok (Layout.intBytes bits) := rfl

theorem sizeOf_bool (p : Program) : p.sizeOf .bool = .ok 1 := rfl

/-- Reading an integer from its bytes gives it back. -/
theorem wrap_of_resizeBytes {bits : Nat} {i : Int} (hbits : 1 ≤ bits) (hunit : bits ≤ Signed.unitBits)
    (h : Signed.InRange bits i)
    (hbs : resizeBytes (littleEndian (i % Signed.span Signed.unitBits).toNat 16) (Layout.intBytes bits) =
      .ok bs) :
    Signed.wrap bits (Signed.wrapUnit (ofLittleEndian bs)) = i := by
  rw [ofLittleEndian_of_resizeBytes hbs, Signed.wrap_wrapUnit hbits hunit,
    Signed.bmod_pattern (Layout.le_intBytes bits) hunit, Signed.bmod_eq_of_inRange hbits h]

/-- **A value that has a place in a type is what is read back from its bytes.** -/
theorem decode?_of_encode? (hv : v.IsOf p ty) (hsize : p.sizeOf ty = .ok size)
    (hcontents : v.encode? ty = .ok contents) (hbs : resizeBytes contents size = .ok bs) :
    decode? ty bs = .ok v := by
  have hlength := length_of_resizeBytes hbs
  cases hv with
  | bool h =>
    obtain rfl := Except.ok.inj ((sizeOf_bool p).symm.trans hsize)
    obtain rfl := Except.ok.inj hcontents
    rw [decode?, List.take_of_length_le (Nat.le_of_eq hlength), ofLittleEndian_of_resizeBytes hbs]
    rcases h with rfl | rfl <;> rfl
  | @int bits i hbits hunit h =>
    obtain rfl := Except.ok.inj ((sizeOf_int p bits).symm.trans hsize)
    obtain rfl := Except.ok.inj hcontents
    rw [decode?, if_pos (hlength ▸ Layout.intBytes_le_sixteen hunit), wrap_of_resizeBytes hbits hunit h hbs]
  | @bitField bits i hbits hunit h =>
    obtain rfl := Except.ok.inj ((sizeOf_bitField p bits).symm.trans hsize)
    obtain rfl := Except.ok.inj hcontents
    rw [decode?, if_pos (hlength ▸ Layout.intBytes_le_sixteen hunit), wrap_of_resizeBytes hbits hunit h hbs]
  | array h | struct h | union h =>
    obtain rfl := Except.ok.inj hcontents
    rw [eq_of_resizeBytes hbs (Except.ok.inj (h.symm.trans hsize))]
    rfl

end RunValue

end TreeFlow
