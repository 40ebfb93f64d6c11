import Mathlib.Algebra.Ring.Int.Defs
import Mathlib.Algebra.Ring.Nat
import TreeFlow.Proofs.Machine.Pieces
import TreeFlow.Proofs.Ty.Sizes

/-!
# Where fields lie

The size of a struct and the offset of each of its fields are found by two searches through the fields, which
only agree on the rule: each field begins at the first place from the end of the one before that suits its
alignment (`Layout.Laid`). Wherever the search for the size comes to an end, so does the one for each offset
(`Layout.Laid.offsetAmong`), and in exact arithmetic nothing wraps around on the way. So **fields are in order,
do not overlap and lie inside of their aggregate** (`Layout.fields_apart`), packed or padded, whatever the
width of a pointer is, and where they are packed there is nothing between them.
-/

namespace TreeFlow

/-- What a field takes of an aggregate. -/
structure Extent where
  start : Nat
  size : Nat
  deriving DecidableEq, Repr

/-- The end of a field. -/
def Extent.stop (e : Extent) : Nat := e.start + e.size

namespace Layout

open Memory (exactUp le_exactUp)

variable {L : Layout} {T : TypeTable} {t : Ty} {ts : List Ty} {es : List Extent} {e : Extent} {key : String}
  {n offset stop align i : Nat}

/-! ### Suitable places -/

theorem eq_exactUp_of_roundUp (h : roundUp offset align = .ok n) : n = exactUp offset align := by
  unfold roundUp at h
  split at h
  · next hle =>
    have hunit : max align 1 = 1 := by omega
    rw [exactUp, hunit, Nat.sub_self, Nat.add_zero, Nat.div_one, Nat.mul_one]
    exact (Except.ok.inj h).symm
  · next hlt =>
    have hunit : max align 1 = align := by omega
    unfold checked at h
    split at h
    · rw [exactUp, hunit]
      exact (Except.ok.inj h).symm
    · cases h

/-- A place is suitable if there is no padding, or else if it is the next multiple of the alignment. -/
theorem cases_of_alignTo (h : L.alignTo T offset t = .ok n) :
    (L.packed = true ∧ n = offset) ∨
      (L.packed = false ∧ ∃ align, L.alignOf T t = .ok align ∧ n = exactUp offset align) := by
  change (if L.packed then _ else _) = _ at h
  split at h <;> rename_i hpacked
  · exact .inl ⟨hpacked, (Except.ok.inj h).symm⟩
  · obtain ⟨align, halign, h⟩ := exists_of_bind_ok h
    exact .inr ⟨by simpa using hpacked, align, halign, eq_exactUp_of_roundUp h⟩

theorem le_of_alignTo (h : L.alignTo T offset t = .ok n) : offset ≤ n := by
  rcases cases_of_alignTo h with ⟨-, rfl⟩ | ⟨-, align, -, rfl⟩
  · exact Nat.le_refl n
  · exact le_exactUp

theorem eq_of_alignTo (hpacked : L.packed = true) (h : L.alignTo T offset t = .ok n) : n = offset := by
  rcases cases_of_alignTo h with ⟨-, heq⟩ | ⟨hpadded, -⟩
  · exact heq
  · rw [hpacked] at hpadded
    cases hpadded

/-- The beginning suits every type. -/
theorem eq_zero_of_alignTo (h : L.alignTo T 0 t = .ok n) : n = 0 := by
  rcases cases_of_alignTo h with ⟨-, rfl⟩ | ⟨-, align, -, rfl⟩
  · rfl
  · have hzero : (0 + (max align 1 - 1)) / max align 1 = 0 := Nat.div_eq_of_lt (by omega)
    rw [exactUp, hzero, Nat.zero_mul]

theorem eq_of_checked {k : Nat} (h : checked k = .ok n) : n = k := by
  unfold checked at h
  split at h
  · exact (Except.ok.inj h).symm
  · cases h

/-! ### Fields in order -/

/-- Fields of the types `ts` have been laid out one after the other, from an offset on. They take the extents
`es`, and end at the offset `stop`. -/
inductive Laid (L : Layout) (T : TypeTable) : Nat → List Ty → List Extent → Nat → Prop
  | nil (offset : Nat) : Laid L T offset [] [] offset
  | cons {offset start size stop : Nat} {t : Ty} {ts : List Ty} {es : List Extent}
      (hstart : L.alignTo T offset t = .ok start) (hsize : L.sizeOf T t = .ok size)
      (hstop : checked (start + size) = .ok (start + size)) (rest : Laid L T (start + size) ts es stop) :
      Laid L T offset (t :: ts) (⟨start, size⟩ :: es) stop

/-- What the search for the size of a struct goes through. -/
theorem exists_laid (h : L.structEnd T (L.sizeOf T) ts offset = .ok stop) :
    ∃ es, L.Laid T offset ts es stop := by
  induction ts generalizing offset with
  | nil =>
    obtain rfl := Except.ok.inj h
    exact ⟨[], .nil offset⟩
  | cons t ts ih =>
    obtain ⟨start, hstart, h⟩ := exists_of_bind_ok h
    obtain ⟨size, hsize, h⟩ := exists_of_bind_ok h
    obtain ⟨next, hnext, h⟩ := exists_of_bind_ok h
    obtain rfl := eq_of_checked hnext
    obtain ⟨es, hes⟩ := ih h
    exact ⟨⟨start, size⟩ :: es, .cons hstart hsize hnext hes⟩

namespace Laid

variable (h : L.Laid T offset ts es stop)
include h

theorem length : es.length = ts.length := by
  induction h with
  | nil => rfl
  | cons _ _ _ _ ih => rw [List.length_cons, List.length_cons, ih]

/-- The search for the offset of a field gets there as well. -/
theorem offsetAmong (he : es[i]? = some e) : L.offsetAmong T ts i offset = .ok e.start := by
  induction h generalizing i with
  | nil => cases he
  | @cons offset start size stop t ts es hstart hsize hstop rest ih =>
    cases i with
    | zero =>
      obtain rfl := Option.some.inj he
      rw [Layout.offsetAmong, hstart]
      rfl
    | succ i =>
      have hrest : L.offsetAmong T ts i (start + size) = .ok e.start := ih he
      rw [Layout.offsetAmong, hstart]
      simp only [hsize, hstop, bind, Except.bind]
      exact hrest

theorem sizeOf (he : es[i]? = some e) (ht : ts[i]? = some t) : L.sizeOf T t = .ok e.size := by
  induction h generalizing i with
  | nil => cases he
  | cons _ hsize _ _ ih =>
    cases i with
    | zero =>
      obtain rfl := Option.some.inj he
      obtain rfl := Option.some.inj ht
      exact hsize
    | succ i => exact ih he ht

theorem le_stop : offset ≤ stop := by
  induction h with
  | nil => exact Nat.le_refl _
  | cons hstart _ _ _ ih =>
    have hle := le_of_alignTo hstart
    omega

theorem le_start (he : e ∈ es) : offset ≤ e.start := by
  induction h with
  | nil => cases he
  | cons hstart _ _ _ ih =>
    have hle := le_of_alignTo hstart
    rcases List.mem_cons.1 he with rfl | he
    · exact hle
    · have hrest := ih he
      omega

theorem stop_le (he : e ∈ es) : e.stop ≤ stop := by
  induction h with
  | nil => cases he
  | cons _ _ _ rest ih =>
    rcases List.mem_cons.1 he with rfl | he
    · exact rest.le_stop
    · exact ih he

/-- Each field ends where the next one begins, or before. -/
theorem pairwise_stop_le : es.Pairwise fun e e' => e.stop ≤ e'.start := by
  induction h with
  | nil => exact .nil
  | cons _ _ _ rest ih => exact List.pairwise_cons.2 ⟨fun e he => rest.le_start he, ih⟩

/-- Where there is no padding, a field begins at the sum of the sizes before it. -/
theorem start_eq_sum (hpacked : L.packed = true) (he : es[i]? = some e) :
    e.start = offset + ((es.take i).map Extent.size).sum := by
  -- The fields behind the first one begin at another offset, so it is left open.
  induction h generalizing i with
  | nil => cases he
  | cons hstart _ _ _ ih =>
    have heq := eq_of_alignTo hpacked hstart
    cases i with
    | zero =>
      obtain rfl := Option.some.inj he
      exact heq
    | succ i =>
      have hrest := ih he
      simp only [List.take_succ_cons, List.map_cons, List.sum_cons]
      omega

theorem stop_eq_sum (hpacked : L.packed = true) : stop = offset + (es.map Extent.size).sum := by
  induction h with
  | nil => rfl
  | cons hstart _ _ _ ih =>
    have heq := eq_of_alignTo hpacked hstart
    simp only [List.map_cons, List.sum_cons]
    omega

end Laid

/-! ### Fields at the same place -/

/-- What the search for the size of a union goes through: the sizes of its fields. -/
theorem exists_sizes {most : Nat} (h : unionEnd (L.sizeOf T) ts most = .ok stop) :
    ∃ sizes : List Nat, List.Forall₂ (fun t n => L.sizeOf T t = .ok n) ts sizes ∧
      stop = sizes.foldl max most := by
  induction ts generalizing most with
  | nil =>
    obtain rfl := Except.ok.inj h
    exact ⟨[], .nil, rfl⟩
  | cons t ts ih =>
    obtain ⟨size, hsize, h⟩ := exists_of_bind_ok h
    obtain ⟨sizes, hsizes, heq⟩ := ih h
    exact ⟨size :: sizes, .cons hsize hsizes, heq⟩

/-- The greatest of some numbers, and of one to begin with, is at least each of them. -/
theorem le_foldl_max {sizes : List Nat} {most : Nat} (hn : n = most ∨ n ∈ sizes) :
    n ≤ sizes.foldl max most := by
  induction sizes generalizing most n with
  | nil => exact Nat.le_of_eq (hn.resolve_right List.not_mem_nil)
  | cons k sizes ih =>
    have hfirst : max most k ≤ sizes.foldl max (max most k) := ih (.inl rfl)
    rw [List.foldl_cons]
    rcases hn with rfl | hn
    · omega
    · rcases List.mem_cons.1 hn with rfl | hn
      · omega
      · exact ih (.inr hn)

/-! ### Aggregates -/

/-- The fields of an aggregate take the extents `es`, in their order. -/
structure Places (L : Layout) (T : TypeTable) (t : Ty) (ts : List Ty) (es : List Extent) : Prop where
  length : es.length = ts.length
  field : ∀ i e u, es[i]? = some e → ts[i]? = some u →
    L.fieldOffset T t i = .ok e.start ∧ L.sizeOf T u = .ok e.size

theorem Laid.places (hts : fieldTypes T key = .ok ts) (h : L.Laid T 0 ts es stop) :
    L.Places T (.struct key) ts es where
  length := h.length
  field i e u he hu := by
    refine ⟨?_, h.sizeOf he hu⟩
    rw [fieldOffset, hts]
    exact h.offsetAmong he

theorem places_union {sizes : List Nat} (hts : fieldTypes T key = .ok ts)
    (h : List.Forall₂ (fun t n => L.sizeOf T t = .ok n) ts sizes) :
    L.Places T (.union key) ts (sizes.map (Extent.mk 0)) where
  length := by rw [List.length_map, h.length_eq]
  field i e u he hu := by
    obtain ⟨n, hn, rfl⟩ := List.getElem?_map .. ▸ he |> Option.map_eq_some_iff.1
    obtain ⟨hi, rfl⟩ := List.getElem?_eq_some_iff.1 hu
    obtain ⟨hi', rfl⟩ := List.getElem?_eq_some_iff.1 hn
    refine ⟨?_, h.get hi hi'⟩
    rw [fieldOffset, hts]
    rfl

/-- **Fields do not overlap, and lie inside of their aggregate.** Where a struct has a size, every field has an
offset and a size; the first one begins at zero, each ends where the next one begins or before, and none ends
behind the struct. Every field of a union begins at zero. Without padding, a field of a struct begins at the
sum of the sizes before it, the struct is as large as the sum of all, and a union as large as the largest. -/
theorem fields_apart (L : Layout) (T : TypeTable) (key : String) (n : Nat) :
    (L.sizeOf T (.struct key) = .ok n → ∃ ts es, fieldTypes T key = .ok ts ∧ L.Places T (.struct key) ts es ∧
      (∀ e, es.head? = some e → e.start = 0) ∧ (es.Pairwise fun e e' => e.stop ≤ e'.start) ∧
      (∀ e ∈ es, e.stop ≤ n) ∧
      (L.packed = true → (∀ i e, es[i]? = some e → e.start = ((es.take i).map Extent.size).sum) ∧
        n = (es.map Extent.size).sum)) ∧
    (L.sizeOf T (.union key) = .ok n → ∃ ts es, fieldTypes T key = .ok ts ∧ L.Places T (.union key) ts es ∧
      (∀ e ∈ es, e.start = 0 ∧ e.size ≤ n) ∧
      (L.packed = true → n = (es.map Extent.size).foldl max 0)) := by
  constructor
  · intro h
    obtain ⟨ts, stop, hts, hend, hpad⟩ := cases_of_sizeOf rfl h
    obtain ⟨es, hlaid⟩ := exists_laid hend
    have hle : stop ≤ n := le_of_alignTo hpad
    refine ⟨ts, es, hts, hlaid.places hts, fun e he => ?_, hlaid.pairwise_stop_le,
      fun e he => Nat.le_trans (hlaid.stop_le he) hle, fun hpacked => ⟨fun i e he => ?_, ?_⟩⟩
    · cases hlaid with
      | nil => cases he
      | cons hstart _ _ _ =>
        obtain rfl := Option.some.inj he
        exact eq_zero_of_alignTo hstart
    · rw [hlaid.start_eq_sum hpacked he, Nat.zero_add]
    · rw [eq_of_alignTo hpacked hpad, hlaid.stop_eq_sum hpacked, Nat.zero_add]
  · intro h
    obtain ⟨ts, stop, hts, hend, hpad⟩ := cases_of_sizeOf rfl h
    obtain ⟨sizes, hsizes, hstop⟩ := exists_sizes hend
    have hle : stop ≤ n := le_of_alignTo hpad
    have hmap : (sizes.map (Extent.mk 0)).map Extent.size = sizes := by
      rw [List.map_map]
      exact List.map_id sizes
    refine ⟨ts, sizes.map (Extent.mk 0), hts, places_union hts hsizes, fun e he => ?_, fun hpacked => ?_⟩
    · obtain ⟨size, hsize, rfl⟩ := List.mem_map.1 he
      have hmost : size ≤ sizes.foldl max 0 := le_foldl_max (.inr hsize)
      exact ⟨rfl, Nat.le_trans (hstop ▸ hmost) hle⟩
    · rw [eq_of_alignTo hpacked hpad, hstop, hmap]

/-- A struct with an array, a pointer to itself and a union among its fields. -/
def sampleTable : TypeTable where
  entries := #[
    ⟨"union.U", "U", .union, some [⟨"c", .char⟩, ⟨"d", .double⟩]⟩,
    ⟨"struct.S", "S", .struct, some
      [⟨"a", .char⟩, ⟨"b", .array .word 3⟩, ⟨"p", .pointer (.struct "struct.S")⟩, ⟨"u", .union "union.U"⟩]⟩]

/-- Padded, the fields of the struct end within its 32 bytes, and those of the union within its eight. -/
theorem fields_apart_sample :
    (sizeOf { packed := false } sampleTable (.struct "struct.S") = .ok 32 ∧
      ∃ ts es, Places { packed := false } sampleTable (.struct "struct.S") ts es ∧
        (es.Pairwise fun e e' => e.stop ≤ e'.start) ∧ ∀ e ∈ es, e.stop ≤ 32) ∧
    (sizeOf { packed := false } sampleTable (.union "union.U") = .ok 8 ∧
      ∃ ts es, Places { packed := false } sampleTable (.union "union.U") ts es ∧
        ∀ e ∈ es, e.start = 0 ∧ e.size ≤ 8) := by
  have hstruct : sizeOf { packed := false } sampleTable (.struct "struct.S") = .ok 32 := by decide
  have hunion : sizeOf { packed := false } sampleTable (.union "union.U") = .ok 8 := by decide
  obtain ⟨ts, es, -, hplaces, -, hapart, hinside, -⟩ := (fields_apart _ _ _ _).1 hstruct
  obtain ⟨us, vs, -, hplaces', hsame, -⟩ := (fields_apart _ _ _ _).2 hunion
  exact ⟨⟨hstruct, ts, es, hplaces, hapart, hinside⟩, hunion, us, vs, hplaces', hsame⟩

end Layout

end TreeFlow
