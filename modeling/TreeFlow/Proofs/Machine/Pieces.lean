import TreeFlow.Machine.Memory

/-!
# Pieces of storage in a row

The globals, the slots on the stack and the blocks on the heap are handed out by the same rule: each at the
next address that suits it, behind the one before (`Row`). The rule is carried out modulo the number of
addresses. Exact sizes tell where such a row ends in truth (`exactStop`), and as long as that is below the
limit of a block, nothing wraps around: the row ends there (`Row.eq_exactStop`), its pieces are in order and do
not overlap (`Row.pairwise_stop_le`), none stands before the beginning or past the end (`Row.le_address`,
`Row.stop_le`), and all are aligned (`Row.dvd_address`).
-/

namespace TreeFlow

/-- A piece of storage. -/
structure Piece where
  address : Nat
  /-- How many bytes it was made for. -/
  size : Nat
  align : Nat
  deriving DecidableEq, Repr

namespace Piece

variable (s t : Piece)

/-- What the address has to be a multiple of. An alignment of zero asks for no more than one of one. -/
def unit : Nat := max s.align 1

/-- How many bytes the piece takes; one at least. -/
def extent : Nat := max s.size 1

/-- The end of the piece. -/
def stop : Nat := s.address + s.extent

/-- The address is one of the piece. -/
def Covers (address : Nat) : Prop := s.address ≤ address ∧ address < s.stop

/-- No address belongs to both. -/
def Apart : Prop := ∀ address, s.Covers address → ¬ t.Covers address

variable {s t}

theorem apart_of_stop_le (h : s.stop ≤ t.address) : s.Apart t := fun _ hs ht =>
  Nat.not_lt_of_le (Nat.le_trans h ht.1) hs.2

end Piece

namespace Memory

/-! ### Rounding up -/

/-- The next multiple of an alignment from an offset on, in exact arithmetic. -/
def exactUp (free align : Nat) : Nat :=
  let unit := max align 1
  (free + (unit - 1)) / unit * unit

variable {free align : Nat}

theorem dvd_exactUp : max align 1 ∣ exactUp free align := Nat.dvd_mul_left _ _

theorem le_exactUp : free ≤ exactUp free align := by
  have hdiv := Nat.lt_div_mul_add (a := free + (max align 1 - 1)) (b := max align 1) (by omega)
  simp only [exactUp]
  omega

/-- Rounding up leads less than one unit further. -/
theorem alignUp_le (free align : Nat) : alignUp free align ≤ free + (max align 1 - 1) :=
  calc alignUp free align ≤ (free + (max align 1 - 1)) % addressLimit := Nat.div_mul_le_self _ _
    _ ≤ free + (max align 1 - 1) := Nat.mod_le _ _

/-- Rounding up does not wrap around, if the sum that is rounded down does not. -/
theorem alignUp_eq_of_lt (h : free + (max align 1 - 1) < addressLimit) :
    alignUp free align = exactUp free align := by
  simp only [alignUp, exactUp]
  rw [Nat.mod_eq_of_lt h]

/-- An alignment may be so large that rounding up to it leads back to zero. -/
example : alignUp nullGuard (addressLimit - 1) = 0 := by decide

/-- Rounding up does not wrap around, as long as it leads to the offset of a block. -/
theorem alignUp_eq (h : exactUp free align < blockLimit) : alignUp free align = exactUp free align := by
  have hle : free ≤ exactUp free align := le_exactUp
  rcases Nat.lt_or_ge (free + (max align 1 - 1)) addressLimit with hlt | hge
  · exact alignUp_eq_of_lt hlt
  -- The unit is greater than any offset of a block, so both are zero.
  · simp only [alignUp, exactUp] at h hle ⊢
    generalize max align 1 = unit at h hle hge ⊢
    have hfree : free < blockLimit := Nat.lt_of_le_of_lt hle h
    have hunit : blockLimit < unit := by
      simp only [addressLimit, blockLimit, UInt64.size] at hge hfree ⊢
      omega
    have hquot : (free + (unit - 1)) / unit = 0 := by
      refine Nat.eq_zero_of_not_pos fun hpos => ?_
      have := Nat.le_mul_of_pos_left unit hpos
      omega
    have hsmall : free + (unit - 1) < unit := (Nat.div_eq_zero_iff_lt (by omega)).1 hquot
    rw [hquot, Nat.div_eq_of_lt (Nat.lt_of_le_of_lt (Nat.mod_le _ _) hsmall)]

end Memory

/-! ### Rows -/

open Memory

/-- The pieces have been handed out one after the other, in a region that begins at a base. The first one
was made when the region ended at the offset `free`; it ends at the offset `stop` now. -/
inductive Row (base : Nat) : Nat → List Piece → Nat → Prop
  | nil (free : Nat) : Row base free [] free
  | cons {free stop : Nat} {s : Piece} {rest : List Piece}
      (haddress : s.address = (base + alignUp free s.align) % addressLimit)
      (hrest : Row base ((alignUp free s.align + s.extent) % addressLimit) rest stop) :
      Row base free (s :: rest) stop

/-- Where a row that begins at an offset ends, in exact arithmetic. -/
def exactStop (free : Nat) : List Piece → Nat
  | [] => free
  | s :: rest => exactStop (exactUp free s.align + s.extent) rest

theorem exactStop_append (free : Nat) (row more : List Piece) :
    exactStop free (row ++ more) = exactStop (exactStop free row) more := by
  induction row generalizing free with
  | nil => rfl
  | cons s rest ih => exact ih _

theorem le_exactStop (free : Nat) (row : List Piece) : free ≤ exactStop free row := by
  induction row generalizing free with
  | nil => exact Nat.le_refl _
  | cons s rest ih =>
    calc free ≤ exactUp free s.align := le_exactUp
      _ ≤ exactUp free s.align + s.extent := Nat.le_add_right _ _
      _ ≤ exactStop free (s :: rest) := ih _

namespace Row

variable {base free middle stop : Nat} {s : Piece} {row more rest : List Piece}

theorem append (h : Row base free row middle) (hmore : Row base middle more stop) :
    Row base free (row ++ more) stop := by
  induction h with
  | nil => exact hmore
  | cons haddress _ ih => exact .cons haddress (ih hmore)

/-- One more piece behind the others. -/
theorem snoc (h : Row base free row middle)
    (haddress : s.address = (base + alignUp middle s.align) % addressLimit) :
    Row base free (row ++ [s]) ((alignUp middle s.align + s.extent) % addressLimit) :=
  h.append (.cons haddress (.nil _))

/-! ### Rows that fit -/

/-- A piece that fits stands where exact arithmetic has it, and the rest begins behind it. -/
theorem exact_cons (h : Row base free (s :: rest) stop) (hbase : base < blockLimit)
    (hfits : exactStop free (s :: rest) < blockLimit) :
    s.address = base + exactUp free s.align ∧ Row base (exactUp free s.align + s.extent) rest stop := by
  have hend : exactUp free s.align + s.extent < blockLimit :=
    Nat.lt_of_le_of_lt (le_exactStop _ rest) hfits
  have hstart : exactUp free s.align < blockLimit := Nat.lt_of_le_of_lt (Nat.le_add_right _ _) hend
  cases h with
  | cons haddress hrest =>
    rw [alignUp_eq hstart] at haddress hrest
    simp only [addressLimit, UInt64.size, blockLimit] at haddress hrest hbase hstart hend
    rw [Nat.mod_eq_of_lt (by omega)] at haddress hrest
    exact ⟨haddress, hrest⟩

theorem eq_exactStop (h : Row base free row stop) (hbase : base < blockLimit)
    (hfits : exactStop free row < blockLimit) : stop = exactStop free row := by
  induction row generalizing free with
  | nil => cases h; rfl
  | cons s rest ih => exact ih (h.exact_cons hbase hfits).2 hfits

theorem le_address (h : Row base free row stop) (hbase : base < blockLimit)
    (hfits : exactStop free row < blockLimit) : ∀ s ∈ row, base + free ≤ s.address := by
  induction row generalizing free with
  | nil => exact List.forall_mem_nil _
  | cons s rest ih =>
    obtain ⟨haddress, hrest⟩ := h.exact_cons hbase hfits
    have hfree : free ≤ exactUp free s.align := le_exactUp
    refine List.forall_mem_cons.2 ⟨by omega, fun t ht => ?_⟩
    have := ih hrest hfits t ht
    omega

theorem stop_le (h : Row base free row stop) (hbase : base < blockLimit)
    (hfits : exactStop free row < blockLimit) : ∀ s ∈ row, s.stop ≤ base + stop := by
  rw [h.eq_exactStop hbase hfits]
  induction row generalizing free with
  | nil => exact List.forall_mem_nil _
  | cons s rest ih =>
    obtain ⟨haddress, hrest⟩ := h.exact_cons hbase hfits
    have hend : exactUp free s.align + s.extent ≤ exactStop free (s :: rest) := le_exactStop _ rest
    refine List.forall_mem_cons.2 ⟨?_, ih hrest hfits⟩
    show s.address + s.extent ≤ _
    omega

/-- **The pieces of a row are in order, and none begins before the end of one before it.** -/
theorem pairwise_stop_le (h : Row base free row stop) (hbase : base < blockLimit)
    (hfits : exactStop free row < blockLimit) : row.Pairwise fun s t => s.stop ≤ t.address := by
  induction row generalizing free with
  | nil => exact .nil
  | cons s rest ih =>
    obtain ⟨haddress, hrest⟩ := h.exact_cons hbase hfits
    refine .cons (fun t ht => ?_) (ih hrest hfits)
    have := hrest.le_address hbase hfits t ht
    show s.address + s.extent ≤ _
    omega

theorem dvd_address (h : Row base free row stop) (hbase : base < blockLimit)
    (hfits : exactStop free row < blockLimit) (hunit : ∀ s ∈ row, s.unit ∣ base) :
    ∀ s ∈ row, s.unit ∣ s.address := by
  induction row generalizing free with
  | nil => exact List.forall_mem_nil _
  | cons s rest ih =>
    obtain ⟨hs, hunits⟩ := List.forall_mem_cons.1 hunit
    obtain ⟨haddress, hrest⟩ := h.exact_cons hbase hfits
    refine List.forall_mem_cons.2 ⟨?_, ih hrest hfits hunits⟩
    rw [haddress]
    exact Nat.dvd_add hs dvd_exactUp

end Row

end TreeFlow
