import TreeFlow.Proofs.Machine.Bytes

/-!
# Access to memory

An address stands for a place in one of the two regions (`Memory.placeOf`), and an access to some bytes from
there on stays in that region. **It is let through exactly if the region contains all of it**
(`Memory.exists_locate_iff`), as long as regions end at addresses. An access so long that its end is no
address breaks the machine down instead (`Memory.locate_eq_addressOverflow_iff`).

What is written at a place is what is read there (`Memory.bytesAt_putBytes`), and no byte changes outside
(`Memory.byte?_putBytes`).
-/

namespace TreeFlow

/-! ### Places -/

namespace Place

/-- How far the place is into its region. -/
def offset : Place → Nat
  | low offset | heap offset => offset

/-- The address that stands for the place. -/
def address : Place → Nat
  | low offset => offset
  | heap offset => Memory.heapBase + offset

/-- The place is none of so many bytes from another one on: it is in the other region, or in front of them,
or behind. -/
def Outside : Place → Place → Nat → Prop
  | low offset, low start, length | heap offset, heap start, length =>
    offset < start ∨ start + length ≤ offset
  | low _, heap _, _ | heap _, low _, _ => True

variable {place start : Place} {length : Nat}

/-- A place with an address in front of those of some bytes, or behind them, is none of them. -/
theorem outside_of_address (h : place.address < start.address ∨ start.address + length ≤ place.address) :
    place.Outside start length := by
  cases place with
  | low offset =>
    cases start with
    | low start => exact h
    | heap start => trivial
  | heap offset =>
    cases start with
    | low start => trivial
    | heap start =>
      simp only [address] at h
      simp only [Outside]
      omega

end Place

namespace Memory

variable {m : Memory} {address : UInt64} {length : Nat} {place start : Place} {region : Array UInt8}
  {offset i : Nat} {contents : List UInt8}

/-- The place that an address stands for. -/
def placeOf (address : UInt64) : Place :=
  if heapBase ≤ address.toNat then .heap (address.toNat - heapBase) else .low address.toNat

theorem address_placeOf (address : UInt64) : (placeOf address).address = address.toNat := by
  unfold placeOf
  split
  · next hbase => exact Nat.add_sub_cancel' hbase
  · rfl

/-- What has an address in front of some bytes, or behind them, is outside. -/
theorem outside_placeOf (h : place.address < address.toNat ∨ address.toNat + length ≤ place.address) :
    place.Outside (placeOf address) length := by
  rw [← address_placeOf] at h
  exact Place.outside_of_address h

/-- The region that a place is in. -/
def regionOf (m : Memory) : Place → Array UInt8
  | .low _ => m.low
  | .heap _ => m.heap

/-- The byte at a place. -/
def byte? (m : Memory) (place : Place) : Option UInt8 := (m.regionOf place)[place.offset]?

/-! ### Bounds -/

/-- The address is not one of those that stand for nothing, and so many bytes from there on lie in its
region. Their end is taken in exact arithmetic. -/
structure Contains (m : Memory) (address : UInt64) (length : Nat) : Prop where
  guard : nullGuard ≤ address.toNat
  stop_le : (placeOf address).offset + length ≤ (m.regionOf (placeOf address)).size

theorem locate_eq (m : Memory) (address : UInt64) (length : Nat) : m.locate address length =
    if address.toNat < nullGuard then .error (.nullAccess address)
    else within (placeOf address) address (placeOf address).offset length
      (m.regionOf (placeOf address)).size := by
  by_cases hguard : address.toNat < nullGuard
  · rw [locate, if_pos hguard, if_pos hguard]
  rw [locate, if_neg hguard, if_neg hguard, placeOf]
  by_cases hbase : heapBase ≤ address.toNat
  · rw [if_pos hbase, if_pos hbase, regionOf, Place.offset]
  · rw [if_neg hbase, if_neg hbase, regionOf, Place.offset]

/-- An access is let through to the place that its address stands for. -/
theorem locate_eq_ok_iff : m.locate address length = .ok place ↔
    m.Contains address length ∧ (placeOf address).offset + length < addressLimit ∧
      place = placeOf address := by
  rw [locate_eq]
  constructor
  · intro h
    split at h
    · cases h
    next hguard =>
    unfold within at h
    split at h
    · cases h
    next hlimit =>
    split at h
    · next hstop =>
      exact ⟨⟨Nat.le_of_not_lt hguard, hstop⟩, Nat.lt_of_not_le hlimit, (Except.ok.inj h).symm⟩
    · cases h
  · rintro ⟨⟨hguard, hstop⟩, hlimit, rfl⟩
    rw [if_neg (Nat.not_lt_of_le hguard), within, if_neg (Nat.not_le_of_lt hlimit), if_pos hstop]

/-- **An access is let through exactly if its region contains it.** -/
theorem exists_locate_iff (hsize : (m.regionOf (placeOf address)).size < addressLimit) :
    (∃ place, m.locate address length = .ok place) ↔ m.Contains address length := by
  constructor
  · rintro ⟨place, hplace⟩
    exact (locate_eq_ok_iff.1 hplace).1
  · intro h
    exact ⟨_, locate_eq_ok_iff.2 ⟨h, Nat.lt_of_le_of_lt h.stop_le hsize, rfl⟩⟩

/-- The machine breaks down over an access whose end is no address. -/
theorem locate_eq_addressOverflow_iff : m.locate address length = .error .addressOverflow ↔
    nullGuard ≤ address.toNat ∧ addressLimit ≤ (placeOf address).offset + length := by
  rw [locate_eq]
  constructor
  · intro h
    split at h
    · cases h
    next hguard =>
    unfold within at h
    split at h
    · next hlimit => exact ⟨Nat.le_of_not_lt hguard, hlimit⟩
    · split at h <;> cases h
  · rintro ⟨hguard, hlimit⟩
    rw [if_neg (Nat.not_lt_of_le hguard), within, if_pos hlimit]

theorem length_bytesAt (h : place.offset + length ≤ (m.regionOf place).size) :
    (m.bytesAt place length).length = length := by
  cases place with
  | low offset | heap offset =>
    simp only [Place.offset, regionOf] at h
    rw [bytesAt, Array.length_toList, Array.size_extract]
    omega

/-- What is read has the length that was asked for: no part of it is missing. -/
theorem length_of_loadBytes (h : m.loadBytes address length = .ok contents) : contents.length = length := by
  rw [loadBytes] at h
  cases hplace : m.locate address length with
  | error e =>
    rw [hplace] at h
    cases h
  | ok place =>
    obtain ⟨hcontains, -, rfl⟩ := locate_eq_ok_iff.1 hplace
    rw [hplace] at h
    obtain rfl := Except.ok.inj h
    exact length_bytesAt hcontains.stop_le

/-! ### Writing into a region -/

theorem getElem?_overwrite_of_outside (h : i < offset ∨ offset + contents.length ≤ i) :
    (overwrite region offset contents)[i]? = region[i]? := by
  induction contents generalizing region offset with
  | nil => rfl
  | cons b bs ih =>
    rw [List.length_cons] at h
    rw [overwrite, ih (by omega)]
    exact Array.getElem?_setIfInBounds_ne (by omega)

theorem getElem?_overwrite_of_inside (h : offset + contents.length ≤ region.size)
    (hi : i < contents.length) :
    (overwrite region offset contents)[offset + i]? = contents[i]? := by
  induction contents generalizing region offset i with
  | nil => cases hi
  | cons b bs ih =>
    rw [List.length_cons] at h hi
    rw [overwrite]
    cases i with
    | zero =>
      -- The first byte stays as it is: what is written later lies behind it.
      rw [getElem?_overwrite_of_outside (by omega), Nat.add_zero,
        Array.getElem?_setIfInBounds_self_of_lt (by omega)]
      rfl
    | succ i =>
      have hstop : offset + 1 + bs.length ≤ (region.setIfInBounds offset b).size := by
        rw [Array.size_setIfInBounds]
        omega
      have hnext : offset + (i + 1) = offset + 1 + i := by omega
      rw [hnext]
      exact ih hstop (Nat.lt_of_succ_lt_succ hi)

theorem extract_overwrite (h : offset + contents.length ≤ region.size) :
    ((overwrite region offset contents).extract offset (offset + contents.length)).toList = contents := by
  refine List.ext_getElem? fun i => ?_
  rw [Array.getElem?_toList, Array.getElem?_extract, size_overwrite, Nat.min_eq_left h,
    Nat.add_sub_cancel_left]
  split
  · next hi => exact getElem?_overwrite_of_inside h hi
  · next hi => exact (List.getElem?_eq_none (Nat.le_of_not_lt hi)).symm

/-! ### Writing at a place -/

theorem size_low_putBytes (m : Memory) (place : Place) (contents : List UInt8) :
    (m.putBytes place contents).low.size = m.low.size := by
  cases place with
  | low offset => exact size_overwrite _ _ _
  | heap offset => rfl

theorem size_heap_putBytes (m : Memory) (place : Place) (contents : List UInt8) :
    (m.putBytes place contents).heap.size = m.heap.size := by
  cases place with
  | low offset => rfl
  | heap offset => exact size_overwrite _ _ _

theorem size_regionOf_putBytes (m : Memory) (start place : Place) (contents : List UInt8) :
    ((m.putBytes start contents).regionOf place).size = (m.regionOf place).size := by
  cases place with
  | low offset => exact size_low_putBytes m start contents
  | heap offset => exact size_heap_putBytes m start contents

/-- What is written is what is read at the place. -/
theorem bytesAt_putBytes (h : place.offset + contents.length ≤ (m.regionOf place).size) :
    (m.putBytes place contents).bytesAt place contents.length = contents := by
  cases place with
  | low offset => exact extract_overwrite h
  | heap offset => exact extract_overwrite h

/-- **A write changes no byte outside of it,** in either region. -/
theorem byte?_putBytes (h : place.Outside start contents.length) :
    (m.putBytes start contents).byte? place = m.byte? place := by
  cases start with
  | low start =>
    cases place with
    | low offset => exact getElem?_overwrite_of_outside h
    | heap offset => rfl
  | heap start =>
    cases place with
    | low offset => rfl
    | heap offset => exact getElem?_overwrite_of_outside h

end Memory

end TreeFlow
