import TreeFlow.Proofs.Machine.Pieces

/-!
# Regions that grow

Writing into a region leaves it as large as it was. Reserving a slot, or a block, lets a region grow where it
is too short, and leaves all bytes below the slot or block alone. So what a piece of storage holds is the
same as before, as long as it ends there (`Memory.holds_of_sameBelow_low`, `Memory.holds_of_sameBelow_heap`).
-/

namespace TreeFlow

namespace Memory

variable {region region' : Array UInt8} {offset start stop n : Nat}

/-! ### Sizes -/

@[simp] theorem size_overwrite (region : Array UInt8) (offset : Nat) (contents : List UInt8) :
    (overwrite region offset contents).size = region.size := by
  induction contents generalizing region offset with
  | nil => rfl
  | cons b bs ih => rw [overwrite, ih, Array.size_setIfInBounds]

@[simp] theorem size_clear (region : Array UInt8) (offset count : Nat) :
    (clear region offset count).size = region.size := by
  induction count generalizing region offset with
  | zero => rfl
  | succ count ih => rw [clear, ih, Array.size_setIfInBounds]

@[simp] theorem size_extend (region : Array UInt8) (stop : Nat) :
    (extend region stop).size = max region.size stop := by
  rw [extend, Array.size_append, Array.size_replicate]
  omega

@[simp] theorem size_resize (region : Array UInt8) (stop : Nat) : (resize region stop).size = stop := by
  unfold resize
  split
  · rw [Array.take, Array.size_extract]
    omega
  · rw [size_extend]
    omega

@[simp] theorem size_low_reserve (m : Memory) (start stop : Nat) :
    (m.reserve start stop).low.size = max m.low.size stop := by
  rw [reserve, size_clear, size_extend]

/-! ### Bytes below an offset -/

/-- The regions have the same bytes below an offset. -/
def SameBelow (region region' : Array UInt8) (n : Nat) : Prop := ∀ i < n, region'[i]? = region[i]?

theorem SameBelow.trans {region'' : Array UInt8} (h : SameBelow region region' n)
    (h' : SameBelow region' region'' n) : SameBelow region region'' n := fun i hi =>
  (h' i hi).trans (h i hi)

theorem sameBelow_clear (region : Array UInt8) (offset count : Nat) (h : n ≤ offset) :
    SameBelow region (clear region offset count) n := by
  induction count generalizing region offset with
  | zero => exact fun _ _ => rfl
  | succ count ih =>
    refine SameBelow.trans (fun i hi => ?_) (ih _ (offset + 1) (Nat.le_succ_of_le h))
    exact Array.getElem?_setIfInBounds_ne (by omega)

theorem sameBelow_extend (region : Array UInt8) (stop : Nat) :
    SameBelow region (extend region stop) region.size := fun _ hi => Array.getElem?_append_left hi

theorem sameBelow_reserve (m : Memory) (h : n ≤ m.low.size) (hn : n ≤ start) :
    SameBelow m.low (m.reserve start stop).low n := by
  refine SameBelow.trans (fun i hi => ?_) (sameBelow_clear _ start _ hn)
  exact sameBelow_extend m.low stop i (Nat.lt_of_lt_of_le hi h)

theorem sameBelow_resizeHeap (m : Memory) (h : m.heap.size ≤ stop) :
    SameBelow m.heap (m.resizeHeap stop).heap m.heap.size := by
  show SameBelow m.heap (resize m.heap stop) m.heap.size
  rw [resize, if_neg (Nat.not_lt_of_le h)]
  exact sameBelow_extend m.heap stop

theorem SameBelow.extract_eq (h : SameBelow region region' n) (hn : n ≤ region.size)
    (hn' : n ≤ region'.size) (hstop : stop ≤ n) :
    region'.extract start stop = region.extract start stop := by
  refine Array.ext_getElem? fun i => ?_
  rw [Array.getElem?_extract, Array.getElem?_extract, Nat.min_eq_left (Nat.le_trans hstop hn),
    Nat.min_eq_left (Nat.le_trans hstop hn')]
  split
  · exact h _ (by omega)
  · rfl

/-! ### Reads -/

/-- Whatever is read inside the piece is the same in both memories. -/
def Holds (s : Piece) (m m' : Memory) : Prop :=
  ∀ (address : UInt64) (length : Nat), s.address ≤ address.toNat → address.toNat + length ≤ s.stop →
    m'.loadBytes address length = m.loadBytes address length

variable {m m' : Memory} {s : Piece}

theorem Holds.of_eq (h : m' = m) : Holds s m m' := fun _ _ _ _ => by rw [h]

theorem locate_low {address : UInt64} {length : Nat} (hguard : nullGuard ≤ address.toNat)
    (hstop : address.toNat + length ≤ m.low.size) (hbase : address.toNat + length < heapBase) :
    m.locate address length = .ok (.low address.toNat) := by
  have hlimit : ¬ addressLimit ≤ address.toNat + length := by
    simp only [heapBase, addressLimit, UInt64.size] at hbase ⊢
    omega
  rw [locate, if_neg (Nat.not_lt_of_le hguard), if_neg (by omega), within, if_neg hlimit, if_pos hstop]

theorem locate_heap {address : UInt64} {length : Nat} (hbase : heapBase ≤ address.toNat)
    (hstop : address.toNat - heapBase + length ≤ m.heap.size) (hsize : m.heap.size < addressLimit) :
    m.locate address length = .ok (.heap (address.toNat - heapBase)) := by
  have hguard : ¬ address.toNat < nullGuard := by
    simp only [heapBase, nullGuard] at hbase ⊢
    omega
  rw [locate, if_neg hguard, if_pos hbase, within, if_neg (by omega), if_pos hstop]

theorem bytesAt_low (m : Memory) (offset length : Nat) :
    m.bytesAt (.low offset) length = (m.low.extract offset (offset + length)).toList := rfl

theorem bytesAt_heap (m : Memory) (offset length : Nat) :
    m.bytesAt (.heap offset) length = (m.heap.extract offset (offset + length)).toList := rfl

/-- Two reads give the same if they find the same bytes at the same place. -/
theorem loadBytes_eq {address : UInt64} {length : Nat} {place : Place}
    (h : m.locate address length = .ok place) (h' : m'.locate address length = .ok place)
    (hbytes : m'.bytesAt place length = m.bytesAt place length) :
    m'.loadBytes address length = m.loadBytes address length := by
  rw [loadBytes, loadBytes, h, h']
  exact congrArg Except.ok hbytes

/-- A piece below the heap holds what it held, if all bytes before its end are the same. -/
theorem holds_of_sameBelow_low (h : SameBelow m.low m'.low n) (hn : n ≤ m.low.size)
    (hn' : n ≤ m'.low.size) (hguard : nullGuard ≤ s.address) (hstop : s.stop ≤ n)
    (hbase : s.stop < heapBase) : Holds s m m' := fun address length hstart hend => by
  refine loadBytes_eq (locate_low (by omega) (by omega) (by omega))
    (locate_low (by omega) (by omega) (by omega)) ?_
  rw [bytesAt_low, bytesAt_low, h.extract_eq hn hn' (by omega)]

/-- A block holds what it held, if the heap only grows behind it. -/
theorem holds_of_sameBelow_heap (h : SameBelow m.heap m'.heap n) (hn : n ≤ m.heap.size)
    (hn' : n ≤ m'.heap.size) (hsize : m.heap.size < addressLimit) (hsize' : m'.heap.size < addressLimit)
    (hbase : heapBase ≤ s.address) (hstop : s.stop ≤ heapBase + n) :
    Holds s m m' := fun address length hstart hend => by
  refine loadBytes_eq (locate_heap (by omega) (by omega) hsize)
    (locate_heap (by omega) (by omega) hsize') ?_
  rw [bytesAt_heap, bytesAt_heap, h.extract_eq hn hn' (by omega)]

end Memory

end TreeFlow
