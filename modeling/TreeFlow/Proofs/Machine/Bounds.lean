import TreeFlow.Proofs.Machine.Access
import TreeFlow.Proofs.Machine.Separate

/-!
# Bounds

A slot ends below the limit of the stack, and globals and blocks that would be too large are not handed out.
So the regions of a running program are always smaller than a block must be (`World.Bounded`, `Stage.bounded`):
every operation keeps them so (`World.StaysBounded`).

Therefore **an access is let through exactly if its region contains it** (`Stage.exists_locate_iff`), and what
is read then has the length asked for (`Memory.length_of_loadBytes`). And **the stack overflows exactly if a
slot would end beyond its limit, at an address** (`Stage.stackOverflow_iff`). Otherwise the slot is fresh: it
begins at the end of the stack or behind it, is part of memory, and all zero (`Stage.alloca_fresh`). All this
is in exact arithmetic. The exceptions are ends that are no addresses, which only types and accesses of nearly
as many bytes as there are addresses have. Over those the machine breaks down
(`Memory.locate_eq_addressOverflow_iff`, `Stage.alloca_addressOverflow_iff`).

Alignments are at most the width of a pointer (`Layout.alignOf_le`). Rounding up to one wraps around if it is
larger than any block must be, so that the target's pointers must not be wider than that.
-/

namespace TreeFlow

open Memory (nullGuard stackLimit blockLimit addressLimit exactUp)

/-! ### Alignments -/

namespace Layout

variable {L : Layout} {T : TypeTable} {n : Nat}

theorem alignWith_le {aggregate : String → Except LayoutError Nat}
    (haggregate : ∀ key n, aggregate key = .ok n → n ≤ max 1 L.pointerBytes.toNat) {t : Ty}
    (h : L.alignWith aggregate t = .ok n) : n ≤ max 1 L.pointerBytes.toNat := by
  induction t using alignWith.induct with
  | case1 t _ ih => exact ih h
  | case2 key => exact haggregate key n h
  | case3 key => exact haggregate key n h
  | case4 t harray hstruct hunion =>
    rw [alignWith] at h
    · cases hsize : L.scalarSize t with
      | error e =>
        rw [hsize] at h
        cases h
      | ok size =>
        rw [hsize] at h
        -- All other types are aligned to their size, but to no more than the width of a pointer.
        obtain rfl := Except.ok.inj h
        exact Nat.le_trans (Nat.min_le_right _ _) (Nat.le_max_right _ _)
    all_goals assumption

theorem alignAll_le {align : Ty → Except LayoutError Nat} {bound most : Nat}
    (halign : ∀ t n, align t = .ok n → n ≤ bound) {ts : List Ty} (hmost : most ≤ bound)
    (h : alignAll align ts most = .ok n) : n ≤ bound := by
  induction ts generalizing most with
  | nil =>
    obtain rfl := Except.ok.inj h
    exact hmost
  | cons t ts ih =>
    obtain ⟨k, hk, h⟩ := exists_of_bind_ok h
    exact ih (Nat.max_le.2 ⟨hmost, halign t k hk⟩) h

theorem aggregateAlign_le {depth : Nat} {key : String} (h : L.aggregateAlign T depth key = .ok n) :
    n ≤ max 1 L.pointerBytes.toNat := by
  induction depth generalizing key n with
  | zero => cases h
  | succ depth ih =>
    obtain ⟨fields, -, h⟩ := exists_of_bind_ok h
    split at h
    · obtain rfl := Except.ok.inj h
      exact Nat.le_max_left _ _
    · exact alignAll_le (fun t k => alignWith_le fun key n => ih) (Nat.le_max_left _ _) h

/-- No type is aligned to more than the width of a pointer, unless that is zero. -/
theorem alignOf_le {t : Ty} (h : L.alignOf T t = .ok n) : n ≤ max 1 L.pointerBytes.toNat :=
  alignWith_le (fun _ _ => aggregateAlign_le) h

end Layout

/-! ### Regions stay small -/

namespace World

open Exec (Moves)

/-- Both regions are smaller than a block must be. -/
structure Bounded (w : World) : Prop where
  low : w.memory.low.size < blockLimit
  heap : w.memory.heap.size < blockLimit

/-- The regions have not become too large. -/
def StaysBounded (w w' : World) : Prop := w.Bounded → w'.Bounded

variable {w w' : World}

instance : Std.Refl StaysBounded := ⟨fun _ hw => hw⟩

instance : IsTrans World StaysBounded := ⟨fun _ _ _ h h' hw => h' (h hw)⟩

theorem Stays.staysBounded (h : Stays w w') : StaysBounded w w' := fun hw => by
  constructor
  · rw [h.low]
    exact hw.low
  · rw [h.heap]
    exact hw.heap

theorem Prints.staysBounded (h : Prints w w') : StaysBounded w w' := h.stays.staysBounded

theorem staysBounded_alloca (p : Program) (ty : Ty) : Moves StaysBounded (alloca p ty) := fun w hw => by
  rcases hrun : Exec.run (alloca p ty) w with ⟨o, w'⟩
  rcases alloca_cases p ty hrun with ⟨-, rfl⟩ | ⟨q, -, hreserves⟩
  · exact hw
  · obtain ⟨-, -, hstop, rfl⟩ := hreserves
    refine ⟨?_, hw.heap⟩
    show (w.memory.reserve _ _).low.size < blockLimit
    rw [Memory.size_low_reserve]
    exact Nat.max_lt.2 ⟨hw.low, Nat.lt_of_le_of_lt hstop (by decide)⟩

theorem staysBounded_malloc (size : Nat) : Moves StaysBounded (malloc size) := fun w hw => by
  simp only [malloc, Exec.run_bind, Exec.run_get, Exec.run_guard]
  split
  · exact hw
  · next hlimit =>
    refine ⟨hw.low, ?_⟩
    show (Memory.resize w.memory.heap _).size < blockLimit
    rw [Memory.size_resize]
    exact Nat.lt_of_not_le hlimit

theorem staysBounded_call (name : String) (args : List RunValue) :
    Moves StaysBounded (Library.call name args) := by
  by_cases hname : name = "malloc"
  · subst hname
    exact .bind (.lift _) fun _ => .bind (.lift _) fun _ => staysBounded_malloc _
  · exact (Library.moves_call hname args).imp fun _ _ => Prints.staysBounded

end World

namespace Machine

open Exec (Moves)
open World (StaysBounded)

variable (p : Program) (f : Function) (a : Activation)

theorem staysBounded_enter (id : FuncId) (args : List RunValue) (depth : Nat) :
    Moves StaysBounded (enter p id args depth) := by
  unfold enter
  split
  · exact .throw _
  · split
    · exact .bind (World.staysBounded_call _ _) fun _ => .pure _
    · exact .bind ((moves_activate _ _ _ _).imp fun _ _ => World.Prints.staysBounded) fun _ => .pure _

theorem staysBounded_callFrom (callee : Operand) (args : List Operand) (depth : Nat) :
    Moves StaysBounded (callFrom p a callee args depth) :=
  .bind (moves_address p a callee) fun _ => .guard <|
    .bind (moves_valuesOf p a args) fun _ => staysBounded_enter p _ _ depth

theorem staysBounded_instruction (id : InstId) (inst : Inst) :
    Moves StaysBounded (instruction p f a id inst) := by
  by_cases hwrites : inst.kind.writes
  · exact (stays_instruction p f a id hwrites).imp fun _ _ => World.Stays.staysBounded
  · cases hslot : inst.kind.isAlloca with
    | false =>
      exact (moves_instruction p f a id hslot (Bool.eq_false_iff.2 hwrites)).imp fun _ _ =>
        World.Prints.staysBounded
    | true =>
      obtain ⟨kind, ty⟩ := inst
      cases kind with
      | alloca slotTy => exact World.staysBounded_alloca p slotTy
      | load | store | copy | binary | cmp | cast | offset | field | call | phi =>
        simp [InstKind.isAlloca] at hslot

theorem staysBounded_stepJump (below : List Activation) (w : World) :
    StaysBounded w ((stepJump p f a below w).machine (a :: below)).world := by
  have hmoves := (moves_follow p f a ((f.block? a.block).bind Block.term) w).staysBounded
  unfold stepJump
  split
  · next hrun =>
    rw [hrun] at hmoves
    exact hmoves
  · next hrun =>
    rw [hrun] at hmoves
    unfold leave
    -- The stack ends elsewhere now, but its region is as large as before.
    split <;> exact fun hw => ⟨(hmoves hw).low, (hmoves hw).heap⟩
  · next hrun =>
    rw [hrun] at hmoves
    split <;> exact hmoves

theorem staysBounded_stepCall (below : List Activation) (callee : Operand) (args : List Operand) (w : World) :
    StaysBounded w ((stepCall p a below callee args w).machine (a :: below)).world := by
  have hmoves := staysBounded_callFrom p a callee args (below.length + 1) w
  unfold stepCall
  split <;> next hrun =>
    rw [hrun] at hmoves
    exact hmoves

theorem staysBounded_stepInstruction (below : List Activation) (id : InstId) (inst : Inst) (w : World) :
    StaysBounded w ((stepInstruction p f a below id inst w).machine (a :: below)).world := by
  have hmoves := staysBounded_instruction p f a id inst w
  unfold stepInstruction
  split <;> next hrun =>
    rw [hrun] at hmoves
    exact hmoves

/-- No step lets the regions become too large. -/
theorem staysBounded_step (m : Machine) : StaysBounded m.world ((step p m).machine m.calls).world := by
  obtain ⟨w, calls⟩ := m
  cases calls with
  | nil => exact fun hw => hw
  | cons a below =>
    simp only [step]
    split
    · exact fun hw => hw
    next f hf =>
    split
    · exact staysBounded_stepJump p f a below w
    next id rest hrest =>
    split
    · exact fun hw => hw
    · exact staysBounded_stepCall p a below _ _ w
    · exact staysBounded_stepInstruction p f a below id _ w

end Machine

namespace Stage

variable {p : Program} {s : Stage}

/-- **The regions of a running program are always smaller than a block must be.** -/
theorem bounded (h : p.Reaches s) : s.world.Bounded := by
  induction h with
  | load =>
    have hempty : World.Bounded {} := ⟨by decide, by decide⟩
    unfold load
    rcases hrun : Exec.run (World.loadGlobals p) {} with ⟨o, w⟩
    have hloaded : w.Bounded := by
      rcases World.loadGlobals_cases hrun with ⟨-, rfl⟩ | ⟨addresses, stop, -, -, hstop, hstays⟩
      · exact hempty
      · refine hstays.staysBounded ⟨?_, hempty.heap⟩
        show (Memory.resize _ stop).size < blockLimit
        rwa [Memory.size_resize]
    cases o <;> exact hloaded
  | @next s s' _ hnext ih =>
    cases hnext with
    | called id =>
      have hmoves := Machine.staysBounded_enter p id [] 0 s.world ih
      unfold call
      split <;> next hrun =>
        rw [hrun] at hmoves
        exact hmoves
    | stepped => exact Machine.staysBounded_step p s.machine ih
    | unwound => exact ⟨ih.low, ih.heap⟩

/-- **An access is let through exactly if its region contains it.** -/
theorem exists_locate_iff (h : p.Reaches s) (address : UInt64) (length : Nat) :
    (∃ place, s.world.memory.locate address length = .ok place) ↔
      s.world.memory.Contains address length := by
  have hbounded := bounded h
  refine Memory.exists_locate_iff ?_
  cases Memory.placeOf address with
  | low offset => exact Nat.lt_trans hbounded.low (by decide)
  | heap offset => exact Nat.lt_trans hbounded.heap (by decide)

end Stage

/-! ### Slots -/

namespace Memory

variable {region : Array UInt8} {offset count i : Nat}

theorem getElem?_clear (hstart : offset ≤ i) (hstop : i < offset + count) (hsize : i < region.size) :
    (clear region offset count)[i]? = some 0 := by
  induction count generalizing region offset with
  | zero => omega
  | succ count ih =>
    rw [clear]
    rcases Nat.eq_or_lt_of_le hstart with rfl | hlt
    -- The first zero stays: what is cleared later lies behind it.
    · rw [sameBelow_clear _ _ count (Nat.le_refl _) offset (Nat.lt_succ_self _)]
      exact Array.getElem?_setIfInBounds_self_of_lt hsize
    · refine ih hlt (by omega) ?_
      rwa [Array.size_setIfInBounds]

/-- What has been reserved is all zero. -/
theorem bytesAt_reserve (m : Memory) (start count : Nat) :
    (m.reserve start (start + count)).bytesAt (.low start) count = List.replicate count 0 := by
  refine List.ext_getElem? fun i => ?_
  rw [bytesAt_low, Array.getElem?_toList, Array.getElem?_extract, List.getElem?_replicate, size_low_reserve,
    Nat.min_eq_left (Nat.le_max_right _ _), Nat.add_sub_cancel_left]
  split
  · rw [reserve]
    refine getElem?_clear (Nat.le_add_right _ _) (by omega) ?_
    rw [size_extend]
    omega
  · rfl

end Memory

namespace World

variable {p : Program} {ty : Ty} {w : World} {size align : Nat}

/-- What becomes of a slot depends on its end alone. -/
theorem run_alloca (hsize : p.sizeOf ty = .ok size) (halign : p.alignOf ty = .ok align)
    (hfree : w.stackEnd + (max align 1 - 1) < addressLimit) :
    let start := exactUp w.stackEnd align
    let stop := start + max size 1
    Exec.run (alloca p ty) w =
      if addressLimit ≤ stop then (.error .addressOverflow, w)
      else if stackLimit < stop then (.error .stackOverflow, w)
      else (.ok (.pointer (.ofNat start)),
        { w with memory := w.memory.reserve start stop, stackEnd := stop }) := by
  simp only [alloca, Exec.run_bind, Exec.run_liftM, Exec.run_get, Exec.run_guard, hsize, halign,
    Memory.alignUp_eq_of_lt hfree]
  split
  · rfl
  · split <;> rfl

/-- So many bytes have been handed out at an address. They were not in use, lie in memory and are all zero;
what the stack holds has stayed, and the stack ends behind them now. -/
structure Fresh (address : UInt64) (count : Nat) (w w' : World) : Prop where
  stackEnd_le : w.stackEnd ≤ address.toNat
  contains : w'.memory.Contains address count
  zero : w'.memory.loadBytes address count = .ok (List.replicate count 0)
  below : Memory.SameBelow w.memory.low w'.memory.low w.stackEnd
  heap : w'.memory.heap = w.memory.heap
  stackEnd_eq : w'.stackEnd = address.toNat + count

/-- Bytes that are reserved from the end of the stack on, or behind it, are fresh. -/
theorem fresh_reserve {start count : Nat} (hguard : nullGuard ≤ w.stackEnd)
    (hreach : w.stackEnd ≤ w.memory.low.size) (hstart : w.stackEnd ≤ start)
    (hstop : start + count ≤ stackLimit) :
    Fresh (.ofNat start) count w
      { w with memory := w.memory.reserve start (start + count), stackEnd := start + count } := by
  have hbase : start < Memory.heapBase :=
    Nat.lt_of_le_of_lt (Nat.le_trans (Nat.le_add_right _ _) hstop) (by decide)
  have haddress : (UInt64.ofNat start).toNat = start :=
    UInt64.toNat_ofNat_of_lt' (Nat.lt_trans hbase (by decide))
  have hplace : Memory.placeOf (.ofNat start) = .low start := by
    rw [Memory.placeOf, haddress, if_neg (Nat.not_le_of_lt hbase)]
  have hcontains : (w.memory.reserve start (start + count)).Contains (.ofNat start) count := by
    refine ⟨haddress.symm ▸ Nat.le_trans hguard hstart, ?_⟩
    rw [hplace]
    show start + count ≤ (w.memory.reserve start (start + count)).low.size
    rw [Memory.size_low_reserve]
    exact Nat.le_max_right _ _
  have hlimit : (Memory.placeOf (.ofNat start)).offset + count < addressLimit := by
    rw [hplace]
    exact Nat.lt_of_le_of_lt hstop (by decide)
  exact {
    stackEnd_le := by rwa [haddress]
    contains := hcontains
    zero := by
      rw [Memory.loadBytes, Memory.locate_eq_ok_iff.2 ⟨hcontains, hlimit, rfl⟩, hplace]
      exact congrArg Except.ok (Memory.bytesAt_reserve w.memory start count)
    below := Memory.sameBelow_reserve w.memory hreach hstart
    heap := rfl
    stackEnd_eq := by rw [haddress] }

end World

theorem Program.alignOf_le {p : Program} {ty : Ty} {align : Nat} (h : p.alignOf ty = .ok align) :
    align ≤ max 1 p.layout.pointerBytes.toNat := by
  unfold alignOf at h
  cases halign : p.layout.alignOf p.module.types ty with
  | error e =>
    rw [halign] at h
    cases h
  | ok n =>
    rw [halign] at h
    obtain rfl := Except.ok.inj h
    exact Layout.alignOf_le halign

namespace Stage

variable {p : Program} {s : Stage} {ty : Ty} {size align : Nat}

section Slots

variable (h : p.Reaches s) (hbytes : p.layout.pointerBytes.toNat ≤ blockLimit)
  (halign : p.alignOf ty = .ok align) (hsize : p.sizeOf ty = .ok size)

include h

theorem stackEnd_le_size : s.world.stackEnd ≤ s.world.memory.low.size :=
  (upkeep h).reach _ List.mem_cons_self

include hbytes halign

/-- Rounding up the end of the stack does not wrap around. -/
theorem stackEnd_add_lt : s.world.stackEnd + (max align 1 - 1) < addressLimit := by
  have hreach := stackEnd_le_size h
  have hlow := (bounded h).low
  have hle := Program.alignOf_le halign
  simp only [blockLimit, addressLimit, UInt64.size] at hbytes hlow ⊢
  omega

include hsize

/-- **The stack overflows exactly if a slot would end beyond its limit, at an address.** -/
theorem stackOverflow_iff : (Exec.run (World.alloca p ty) s.world).1 = .error .stackOverflow ↔
    stackLimit < exactUp s.world.stackEnd align + max size 1 ∧
      exactUp s.world.stackEnd align + max size 1 < addressLimit := by
  rw [World.run_alloca hsize halign (stackEnd_add_lt h hbytes halign)]
  split
  · next hlimit => simpa using fun _ => hlimit
  · next hlimit =>
    split
    · next hstop => simpa using ⟨hstop, Nat.lt_of_not_le hlimit⟩
    · next hstop => simpa using fun hlt => absurd hlt hstop

/-- The machine breaks down over a slot whose end is no address. -/
theorem alloca_addressOverflow_iff :
    (Exec.run (World.alloca p ty) s.world).1 = .error .addressOverflow ↔
      addressLimit ≤ exactUp s.world.stackEnd align + max size 1 := by
  rw [World.run_alloca hsize halign (stackEnd_add_lt h hbytes halign)]
  split
  · next hlimit => simpa using hlimit
  · next hlimit => split <;> simpa using Nat.lt_of_not_le hlimit

/-- **A slot that ends below the limit of the stack is handed out, and it is fresh.** It stands at the first
multiple of its alignment from the end of the stack on. -/
theorem alloca_fresh (hlow : exactStop nullGuard (s.lowPieces p) < blockLimit)
    (hstop : exactUp s.world.stackEnd align + max size 1 ≤ stackLimit) :
    ∃ q w', Exec.run (World.alloca p ty) s.world = (.ok (.pointer q), w') ∧
      q = .ofNat (exactUp s.world.stackEnd align) ∧ World.Fresh q (max size 1) s.world w' := by
  have hlimit : ¬ addressLimit ≤ exactUp s.world.stackEnd align + max size 1 :=
    Nat.not_le_of_lt (Nat.lt_of_le_of_lt hstop (by decide))
  have hguard : nullGuard ≤ s.world.stackEnd := by
    rw [(row_lowPieces (upkeep h)).eq_exactStop (by decide) hlow]
    exact le_exactStop _ _
  refine ⟨_, _, ?_, rfl, World.fresh_reserve hguard (stackEnd_le_size h) Memory.le_exactUp hstop⟩
  rw [World.run_alloca hsize halign (stackEnd_add_lt h hbytes halign), if_neg hlimit,
    if_neg (Nat.not_lt_of_le hstop)]

end Slots

end Stage

end TreeFlow
