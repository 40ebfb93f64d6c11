import Mathlib.Algebra.Ring.Nat
import TreeFlow.Proofs.Ty.Fields

/-!
# Alignment

Where there is padding, and the width of a pointer is a power of two, so is every alignment
(`Layout.isPowerOfTwo_of_alignOf`): that of a scalar is its size, but at most the width of a pointer, and that
of an aggregate the greatest among its fields. Of two powers of two the smaller one divides the other, so what
suits an aggregate suits all of its fields. The search for an alignment comes to an end wherever that for the
size does, and the size is a multiple of it. So **everything stands at a multiple of its alignment**
(`Layout.padded_aligned`), also in an array, where one element begins at the end of the one before.
-/

namespace TreeFlow

namespace Layout

variable {L : Layout} {T : TypeTable} {t u : Ty} {ts : List Ty} {key : String} {a b n most : Nat}

/-! ### Powers of two -/

/-- Of two powers of two the smaller one divides the other. -/
theorem dvd_of_isPowerOfTwo (ha : a.isPowerOfTwo) (hb : b.isPowerOfTwo) (hle : a ≤ b) : a ∣ b := by
  obtain ⟨i, rfl⟩ := ha
  obtain ⟨j, rfl⟩ := hb
  exact Nat.pow_dvd_pow 2 ((Nat.pow_le_pow_iff_right (by omega)).1 hle)

theorem isPowerOfTwo_min (ha : a.isPowerOfTwo) (hb : b.isPowerOfTwo) : (min a b).isPowerOfTwo := by
  rcases Nat.le_total a b with hle | hle
  · rwa [Nat.min_eq_left hle]
  · rwa [Nat.min_eq_right hle]

theorem isPowerOfTwo_max (ha : a.isPowerOfTwo) (hb : b.isPowerOfTwo) : (max a b).isPowerOfTwo := by
  rcases Nat.le_total a b with hle | hle
  · rwa [Nat.max_eq_right hle]
  · rwa [Nat.max_eq_left hle]

theorem isPowerOfTwo_intBytes (bits : Nat) : (intBytes bits).isPowerOfTwo := by
  simp only [intBytes, Nat.one_shiftLeft]
  split
  · next heq => exact ⟨_, heq.symm⟩
  · exact ⟨_, (Nat.pow_succ' ..).symm⟩

section Scalars

variable (hpointer : L.pointerBytes.toNat.isPowerOfTwo)
include hpointer

theorem isPowerOfTwo_of_scalarSize (h : L.scalarSize t = .ok n) : n.isPowerOfTwo := by
  cases t with
  | void | function => cases h
  | int bits | bitField bits =>
    obtain rfl := Except.ok.inj h
    exact isPowerOfTwo_intBytes bits
  | float =>
    obtain rfl := Except.ok.inj h
    exact ⟨2, rfl⟩
  | double =>
    obtain rfl := Except.ok.inj h
    exact ⟨3, rfl⟩
  | pointer target =>
    obtain rfl := Except.ok.inj h
    exact hpointer
  | _ =>
    obtain rfl := Except.ok.inj h
    exact Nat.isPowerOfTwo_one

/-- A scalar is aligned to its size, but to no more than the width of a pointer. -/
theorem isPowerOfTwo_of_alignWith {aggregate : String → Except LayoutError Nat}
    (haggregate : ∀ key n, aggregate key = .ok n → n.isPowerOfTwo) (h : L.alignWith aggregate t = .ok n) :
    n.isPowerOfTwo := by
  induction t using alignWith.induct with
  | case1 t _ ih => exact ih h
  | case2 key => exact haggregate key n h
  | case3 key => exact haggregate key n h
  | case4 t harray hstruct hunion =>
    rw [alignWith] at h
    · cases hsize : L.scalarSize t with
      | error e =>
        rw [hsize] at h
        cases h
      | ok size =>
        rw [hsize] at h
        obtain rfl := Except.ok.inj h
        exact isPowerOfTwo_min (isPowerOfTwo_of_scalarSize hpointer hsize) hpointer
    all_goals assumption

end Scalars

/-! ### Alignments -/

theorem isPowerOfTwo_of_alignAll {align : Ty → Except LayoutError Nat}
    (halign : ∀ t n, align t = .ok n → n.isPowerOfTwo) (hmost : most.isPowerOfTwo)
    (h : alignAll align ts most = .ok n) : n.isPowerOfTwo := by
  induction ts generalizing most with
  | nil =>
    obtain rfl := Except.ok.inj h
    exact hmost
  | cons t ts ih =>
    obtain ⟨a, ha, h⟩ := exists_of_bind_ok h
    exact ih (isPowerOfTwo_max hmost (halign t a ha)) h

/-- What is found is at least each of the alignments that were asked for. -/
theorem le_of_alignAll {align : Ty → Except LayoutError Nat} (h : alignAll align ts most = .ok n) :
    most ≤ n ∧ ∀ t ∈ ts, ∃ a, align t = .ok a ∧ a ≤ n := by
  induction ts generalizing most with
  | nil =>
    obtain rfl := Except.ok.inj h
    exact ⟨Nat.le_refl most, fun t ht => absurd ht List.not_mem_nil⟩
  | cons t ts ih =>
    obtain ⟨a, ha, h⟩ := exists_of_bind_ok h
    obtain ⟨hle, hrest⟩ := ih h
    refine ⟨by omega, fun u hu => ?_⟩
    rcases List.mem_cons.1 hu with rfl | hu
    · exact ⟨a, ha, by omega⟩
    · exact hrest u hu

section Padded

variable (hpadded : L.packed = false) (hpointer : L.pointerBytes.toNat.isPowerOfTwo)
include hpadded hpointer

theorem isPowerOfTwo_of_alignOf (h : L.alignOf T t = .ok n) : n.isPowerOfTwo := by
  have haggregate : ∀ d key n, L.aggregateAlign T d key = .ok n → n.isPowerOfTwo := by
    -- On how deep the search for the alignment of an aggregate may go.
    intro d
    induction d with
    | zero =>
      intro key n h
      cases h
    | succ d ih =>
      intro key n h
      obtain ⟨ts, -, h⟩ := exists_of_bind_ok h
      change (if L.packed then _ else _) = _ at h
      rw [hpadded] at h
      exact isPowerOfTwo_of_alignAll (fun t k => isPowerOfTwo_of_alignWith hpointer ih)
        Nat.isPowerOfTwo_one h
  exact isPowerOfTwo_of_alignWith hpointer (haggregate _) h

/-- A place that suits a type is a multiple of its alignment. -/
theorem exists_dvd_of_alignTo {offset start : Nat} (h : L.alignTo T offset t = .ok start) :
    ∃ a, L.alignOf T t = .ok a ∧ a ∣ start := by
  rcases cases_of_alignTo h with ⟨hpacked, -⟩ | ⟨-, a, ha, rfl⟩
  · rw [hpadded] at hpacked
    cases hpacked
  · obtain ⟨k, hk⟩ := isPowerOfTwo_of_alignOf hpadded hpointer ha
    have hone : 1 ≤ a := hk ▸ Nat.two_pow_pos k
    have hdvd : max a 1 ∣ Memory.exactUp offset a := Memory.dvd_exactUp
    rw [Nat.max_eq_left hone] at hdvd
    exact ⟨a, ha, hdvd⟩

/-- Where there is a size there is an alignment, of which it is a multiple. -/
theorem exists_dvd_of_sizeOf (h : L.sizeOf T t = .ok n) : ∃ a, L.alignOf T t = .ok a ∧ a ∣ n := by
  induction t using sizeWith.induct generalizing n with
  | case1 t length ih =>
    obtain ⟨size, hsize, h⟩ := exists_of_bind_ok h
    obtain rfl := eq_of_checked h
    obtain ⟨a, ha, hdvd⟩ := ih hsize
    exact ⟨a, ha, Nat.dvd_mul_right_of_dvd hdvd length⟩
  | case2 key =>
    obtain ⟨ts, stop, -, -, hpad⟩ := cases_of_sizeOf rfl h
    exact exists_dvd_of_alignTo hpadded hpointer hpad
  | case3 key =>
    obtain ⟨ts, stop, -, -, hpad⟩ := cases_of_sizeOf rfl h
    exact exists_dvd_of_alignTo hpadded hpointer hpad
  | case4 t harray hstruct hunion =>
    have hscalar : L.scalarSize t = .ok n := by
      rw [sizeOf, sizeWith] at h
      · exact h
      all_goals assumption
    have halign : L.alignOf T t = .ok (min n L.pointerBytes.toNat) := by
      rw [alignOf, alignWith, hscalar]
      · rfl
      all_goals assumption
    have hpower := isPowerOfTwo_of_scalarSize hpointer hscalar
    exact ⟨_, halign, dvd_of_isPowerOfTwo (isPowerOfTwo_min hpower hpointer) hpower (Nat.min_le_left _ _)⟩

/-- Each of the fields that were laid out stands at a multiple of its alignment. -/
theorem Laid.exists_dvd_start {offset stop i : Nat} {es : List Extent} {e : Extent}
    (h : L.Laid T offset ts es stop) (he : es[i]? = some e) (hu : ts[i]? = some u) :
    ∃ b, L.alignOf T u = .ok b ∧ b ∣ e.start := by
  induction h generalizing i with
  | nil => cases he
  | cons hstart _ _ _ ih =>
    cases i with
    | zero =>
      obtain rfl := Option.some.inj he
      obtain rfl := Option.some.inj hu
      exact exists_dvd_of_alignTo hpadded hpointer hstart
    | succ i => exact ih he hu

/-- A field of an aggregate that has a size stands at a multiple of its alignment. -/
theorem exists_dvd_fieldOffset {i : Nat} (hkey : t.key? = some key) (h : L.sizeOf T t = .ok n)
    (hts : fieldTypes T key = .ok ts) (hu : ts[i]? = some u) :
    ∃ o b, L.fieldOffset T t i = .ok o ∧ L.alignOf T u = .ok b ∧ b ∣ o := by
  obtain ⟨us, stop, hus, hend, -⟩ := cases_of_sizeOf hkey h
  obtain rfl := Except.ok.inj (hts.symm.trans hus)
  cases t with
  | struct k =>
    obtain rfl := Option.some.inj hkey
    obtain ⟨es, hlaid⟩ := exists_laid hend
    have hi : i < es.length := hlaid.length ▸ (List.getElem?_eq_some_iff.1 hu).1
    have he : es[i]? = some es[i] := List.getElem?_eq_getElem hi
    obtain ⟨b, hb, hdvd⟩ := hlaid.exists_dvd_start hpadded hpointer he hu
    exact ⟨_, b, ((hlaid.places hts).field i _ u he hu).1, hb, hdvd⟩
  | union k =>
    -- Every field of a union stands at zero, so all there is to show is that it has an alignment.
    obtain rfl := Option.some.inj hkey
    obtain ⟨sizes, hsizes, -⟩ := exists_sizes hend
    have hi : i < ts.length := (List.getElem?_eq_some_iff.1 hu).1
    have hsize : L.sizeOf T u = .ok (sizes.get ⟨i, hsizes.length_eq ▸ hi⟩) := by
      obtain ⟨hi, rfl⟩ := List.getElem?_eq_some_iff.1 hu
      exact hsizes.get hi (hsizes.length_eq ▸ hi)
    obtain ⟨b, hb, -⟩ := exists_dvd_of_sizeOf hpadded hpointer hsize
    refine ⟨0, b, ?_, hb, Nat.dvd_zero b⟩
    rw [fieldOffset, hts]
    rfl
  | _ => cases hkey

end Padded

/-- **Padding keeps everything aligned.** Where pointers are as wide as a power of two, every type with a size
has an alignment, which is a power of two and divides the size; an array has the alignment of its elements.
The offset of a field is a multiple of the alignment of the field, and so is the alignment of the aggregate.
Hence in a row of such aggregates, from an address on that suits them, every field of each is aligned. -/
theorem padded_aligned (hpadded : L.packed = false) (hpointer : L.pointerBytes.toNat.isPowerOfTwo)
    (h : L.sizeOf T t = .ok n) :
    ∃ a, L.alignOf T t = .ok a ∧ a.isPowerOfTwo ∧ a ∣ n ∧ (∀ length, L.alignOf T (.array t length) = .ok a) ∧
      ∀ key, t.key? = some key → ∃ ts, fieldTypes T key = .ok ts ∧ ∀ i u, ts[i]? = some u →
        ∃ o b, L.fieldOffset T t i = .ok o ∧ L.alignOf T u = .ok b ∧ b ∣ o ∧ b ∣ a ∧
          ∀ address index, a ∣ address → b ∣ address + index * n + o := by
  obtain ⟨a, ha, hsize⟩ := exists_dvd_of_sizeOf hpadded hpointer h
  have hpower := isPowerOfTwo_of_alignOf hpadded hpointer ha
  refine ⟨a, ha, hpower, hsize, fun length => ha, fun key hkey => ?_⟩
  obtain ⟨ts, hts, hall⟩ := cases_of_alignOf hpadded hkey ha
  refine ⟨ts, hts, fun i u hu => ?_⟩
  obtain ⟨o, b, ho, hb, hoffset⟩ := exists_dvd_fieldOffset hpadded hpointer hkey h hts hu
  have hdvd : b ∣ a := by
    obtain ⟨c, hc, hle⟩ := (le_of_alignAll hall).2 u (List.mem_of_getElem? hu)
    obtain rfl := Except.ok.inj (hb.symm.trans hc)
    exact dvd_of_isPowerOfTwo (isPowerOfTwo_of_alignOf hpadded hpointer hb) hpower hle
  refine ⟨o, b, ho, hb, hoffset, hdvd, fun address index haddress => ?_⟩
  have helement : b ∣ index * n := Nat.dvd_mul_left_of_dvd (Nat.dvd_trans hdvd hsize) index
  exact Nat.dvd_add (Nat.dvd_add (Nat.dvd_trans hdvd haddress) helement) hoffset

/-- The struct of four fields has 32 bytes, a multiple of its alignment, which the union in it shares. -/
theorem padded_aligned_sample :
    sizeOf { packed := false } sampleTable (.struct "struct.S") = .ok 32 ∧
      ∃ a, alignOf { packed := false } sampleTable (.struct "struct.S") = .ok a ∧ a.isPowerOfTwo ∧ a ∣ 32 ∧
        ∃ o b, fieldOffset { packed := false } sampleTable (.struct "struct.S") 3 = .ok o ∧
          alignOf { packed := false } sampleTable (.union "union.U") = .ok b ∧ b ∣ o ∧ b ∣ a := by
  have hsize : sizeOf { packed := false } sampleTable (.struct "struct.S") = .ok 32 := by decide
  obtain ⟨a, ha, hpower, hdvd, -, hfields⟩ := padded_aligned rfl ⟨3, rfl⟩ hsize
  obtain ⟨ts, hts, hfield⟩ := hfields "struct.S" rfl
  have hunion : ts[3]? = some (.union "union.U") := by
    obtain rfl := Except.ok.inj hts
    rfl
  obtain ⟨o, b, ho, hb, hoffset, halign, -⟩ := hfield 3 _ hunion
  exact ⟨hsize, a, ha, hpower, hdvd, o, b, ho, hb, hoffset, halign⟩

end Layout

end TreeFlow
