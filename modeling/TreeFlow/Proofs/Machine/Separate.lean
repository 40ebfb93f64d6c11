import TreeFlow.Proofs.Machine.Storage

/-!
# Storage does not overlap

Globals, slots and blocks are handed out one behind the other: the slots of a call begin where the stack
ended before it, and a call that is given up takes its slots with it (`Stacked`). So the globals and the slots
in use form one row, from the guard at address zero up to the end of the stack, and the blocks form another
one, up to the end of the heap. A program keeps this up from its first moment on (`Upkeep`,
`Stage.upkeep`). As long as exact sizes fit into the regions, no two pieces of storage overlap, all lie
inside their region, and all are aligned; and no step but a store or a copy changes what one of them holds
(`Stage.separate`).
-/

namespace TreeFlow

open Memory (nullGuard stackLimit heapBase heapAlign blockLimit addressLimit)

/-! ### Static data -/

/-- The pieces of storage of some globals. -/
def Program.static (p : Program) (globals : List Global) (addresses : List UInt64) : List Piece :=
  List.zipWith (fun g address => p.piece g.ty address) globals addresses

namespace World

variable {p : Program} {w : World}

/-- The globals are placed in a row. -/
theorem row_of_place {globals : List Global} {free stop : Nat} {addresses : List UInt64}
    (h : place p globals free = .ok (addresses, stop)) :
    addresses.length = globals.length ∧ Row 0 free (p.static globals addresses) stop := by
  induction globals generalizing free addresses with
  | nil =>
    obtain ⟨rfl, rfl⟩ := Prod.mk.inj (Except.ok.inj h)
    exact ⟨rfl, .nil _⟩
  | cons g gs ih =>
    unfold place at h
    obtain ⟨size, hsize, h⟩ := exists_of_bind_ok h
    obtain ⟨align, halign, h⟩ := exists_of_bind_ok h
    obtain ⟨⟨rest, stop'⟩, hrest, h⟩ := exists_of_bind_ok h
    obtain ⟨rfl, rfl⟩ := Prod.mk.inj (Except.ok.inj h)
    obtain ⟨hlength, hrow⟩ := ih hrest
    refine ⟨congrArg (· + 1) hlength, ?_⟩
    show Row 0 free (p.piece g.ty _ :: p.static gs rest) stop'
    rw [Program.piece_eq hsize halign]
    refine .cons ?_ hrow
    rw [Nat.zero_add]
    exact UInt64.toNat_ofNat'

/-- The world when the globals have been placed, and nothing has been written yet. -/
def placed (addresses : List UInt64) (stop : Nat) : World where
  memory := ({} : Memory).resizeLow stop
  globals := addresses.toArray
  stackEnd := stop

/-- If the globals are loaded, all of them have been placed; an error may leave none of them in its place. -/
theorem loadGlobals_cases {o : Except RunError Unit} (h : Exec.run (loadGlobals p) {} = (o, w)) :
    ((∃ e, o = .error e) ∧ w = {}) ∨ ∃ addresses stop,
      addresses.length = p.module.globals.toList.length ∧
      Row 0 nullGuard (p.static p.module.globals.toList addresses) stop ∧ stop < blockLimit ∧
      Stays (placed addresses stop) w := by
  simp only [loadGlobals, Exec.run_bind, Exec.run_liftM] at h
  cases hplace : place p p.module.globals.toList nullGuard with
  | error e =>
    rw [hplace] at h
    obtain ⟨rfl, rfl⟩ := Prod.mk.inj h
    exact .inl ⟨⟨e, rfl⟩, rfl⟩
  | ok placed =>
    obtain ⟨addresses, stop⟩ := placed
    obtain ⟨hlength, hrow⟩ := row_of_place hplace
    simp only [hplace, Exec.run_guard] at h
    split at h
    · obtain ⟨rfl, rfl⟩ := Prod.mk.inj h
      exact .inl ⟨⟨_, rfl⟩, rfl⟩
    · next hlimit =>
      refine .inr ⟨addresses, stop, hlength, hrow, Nat.lt_of_not_le hlimit, ?_⟩
      rw [Exec.run_bind, Exec.run_modify] at h
      have hfilled := moves_fillGlobals p (p.module.globals.toList.zip addresses) (placed addresses stop)
      rwa [show (Exec.run _ (placed addresses stop)).2 = w from congrArg Prod.snd h] at hfilled

end World

/-! ### The stack -/

/-- The slots of the open calls, those of the innermost call first, with the stack ending at `stop`. Those of
each call begin where the stack ended before it, and those of the outermost one at `bottom`. -/
inductive Stacked (bottom : Nat) : List Nat → List (List Piece) → Nat → Prop
  | nil : Stacked bottom [] [] bottom
  | cons {saved : List Nat} {frames : List (List Piece)} {stackEnd stop : Nat} {frame : List Piece}
      (hbelow : Stacked bottom saved frames stackEnd) (hframe : Row 0 stackEnd frame stop) :
      Stacked bottom (stackEnd :: saved) (frame :: frames) stop

namespace Stacked

variable {bottom stop : Nat} {saved : List Nat} {frames : List (List Piece)}

theorem length_eq (h : Stacked bottom saved frames stop) : frames.length = saved.length := by
  induction h with
  | nil => rfl
  | cons _ _ ih => rw [List.length_cons, ih, List.length_cons]

/-- All slots form a row. -/
theorem row (h : Stacked bottom saved frames stop) : Row 0 bottom frames.reverse.flatten stop := by
  induction h with
  | nil => exact .nil _
  | cons hbelow hframe ih =>
    rw [List.reverse_cons, List.flatten_append, List.flatten_singleton]
    exact ih.append hframe

end Stacked

/-! ### Upkeep -/

/-- What a running program keeps up: the ledger lists all storage that has been handed out, in rows. -/
structure Upkeep (p : Program) (m : Machine) (L : Ledger) : Prop where
  /-- The slots stand on the static data. -/
  stack : ∃ bottom,
    Row 0 nullGuard (p.static p.module.globals.toList m.world.globals.toList) bottom ∧
      Stacked bottom (savedEnds m.calls) L.frames m.world.stackEnd
  heap : Row heapBase 0 L.blocks m.world.memory.heap.size
  align : ∀ s ∈ L.blocks, s.align = heapAlign
  /-- The lower region reaches as far as the stack, now and after any of the open calls. -/
  reach : ∀ stop ∈ m.world.stackEnd :: savedEnds m.calls, stop ≤ m.world.memory.low.size

namespace Upkeep

variable {p : Program} {m m' : Machine} {L : Ledger} {grant : Option Grant} {w w' : World}
  {calls calls' : List Activation} {s : Piece}

theorem length_frames (h : Upkeep p m L) : L.frames.length = m.calls.length := by
  obtain ⟨bottom, -, hstacked⟩ := h.stack
  rw [hstacked.length_eq, savedEnds, List.length_map]

/-- Storage stays where it is. -/
theorem stays (h : Upkeep p m L) (hworld : m.world.Stays w') (hsaved : savedEnds calls' = savedEnds m.calls) :
    Upkeep p ⟨w', calls'⟩ L := by
  obtain ⟨hstack, hheap, halign, hreach⟩ := h
  refine ⟨?_, ?_, halign, ?_⟩
  · rwa [hworld.globals, hworld.stackEnd, hsaved]
  · rwa [hworld.heap]
  · rwa [hworld.stackEnd, hworld.low, hsaved]

theorem slot (h : Upkeep p ⟨w, calls⟩ L) (hworld : w.Reserves s w') (hopen : calls ≠ [])
    (hsaved : savedEnds calls' = savedEnds calls) : Upkeep p ⟨w', calls'⟩ (L.add (some (.slot s))) := by
  obtain ⟨⟨bottom, hstatic, hstacked⟩, hheap, halign, hreach⟩ := h
  obtain ⟨haddress, hlimit, -, rfl⟩ := hworld
  obtain ⟨frames, blocks⟩ := L
  obtain ⟨a, below, rfl⟩ := List.exists_cons_of_ne_nil hopen
  cases hstacked with
  | @cons _ rest _ _ frame hbelow hframe =>
    have hstop : s.stop = (Memory.alignUp w.stackEnd s.align + s.extent) % addressLimit := by
      rw [← haddress]
      exact (Nat.mod_eq_of_lt hlimit).symm
    have hrow : Row 0 a.stackEnd (frame ++ [s]) s.stop := by
      rw [hstop]
      refine hframe.snoc ?_
      rw [Nat.zero_add, ← haddress]
      exact (Nat.mod_eq_of_lt (Nat.lt_of_le_of_lt (Nat.le_add_right _ _) hlimit)).symm
    refine ⟨⟨bottom, hstatic, ?_⟩, hheap, halign, ?_⟩
    · show Stacked bottom (savedEnds calls') ((frame ++ [s]) :: rest) s.stop
      rw [hsaved]
      exact .cons hbelow hrow
    · show ∀ stop ∈ s.stop :: savedEnds calls', stop ≤ (w.memory.reserve s.address s.stop).low.size
      rw [Memory.size_low_reserve, hsaved]
      refine List.forall_mem_cons.2 ⟨Nat.le_max_right _ _, fun stop hmem => ?_⟩
      exact Nat.le_trans (hreach stop (List.mem_cons_of_mem _ hmem)) (Nat.le_max_left _ _)

theorem block (h : Upkeep p ⟨w, calls⟩ L) (hworld : w.Grows s w')
    (hsaved : savedEnds calls' = savedEnds calls) : Upkeep p ⟨w', calls'⟩ (L.add (some (.block s))) := by
  obtain ⟨hstack, hheap, haligned, hreach⟩ := h
  obtain ⟨halign, haddress, rfl⟩ := hworld
  refine ⟨?_, ?_, List.forall_mem_append.2 ⟨haligned, List.forall_mem_singleton.2 halign⟩, ?_⟩
  · rwa [hsaved]
  · show Row heapBase 0 (L.blocks ++ [s]) (Memory.resize w.memory.heap _).size
    rw [Memory.size_resize]
    exact hheap.snoc haddress
  · rwa [hsaved]

theorem opened {a : Activation} (h : Upkeep p ⟨w, calls⟩ L) (hworld : w.Prints w')
    (hend : a.stackEnd = w.stackEnd) :
    Upkeep p ⟨w', a :: calls⟩ { L with frames := [] :: L.frames } := by
  obtain ⟨⟨bottom, hstatic, hstacked⟩, hheap, halign, hreach⟩ := h
  rw [hworld]
  refine ⟨⟨bottom, hstatic, ?_⟩, hheap, halign, ?_⟩
  · show Stacked bottom (a.stackEnd :: savedEnds calls) ([] :: L.frames) w.stackEnd
    rw [hend]
    exact .cons hstacked (.nil _)
  · show ∀ stop ∈ w.stackEnd :: a.stackEnd :: savedEnds calls, stop ≤ w.memory.low.size
    rw [hend]
    exact List.forall_mem_cons.2 ⟨hreach _ List.mem_cons_self, hreach⟩

theorem closed {a : Activation} {below : List Activation} (h : Upkeep p ⟨w, a :: below⟩ L)
    (hworld : w.Prints w') (hsaved : savedEnds calls' = savedEnds below) :
    ∃ frame rest, L.frames = frame :: rest ∧
      Upkeep p ⟨{ w' with stackEnd := a.stackEnd }, calls'⟩ { L with frames := rest } := by
  obtain ⟨⟨bottom, hstatic, hstacked⟩, hheap, halign, hreach⟩ := h
  obtain ⟨frames, blocks⟩ := L
  rw [hworld]
  cases hstacked with
  | @cons _ rest _ _ frame hbelow hframe =>
    refine ⟨frame, rest, rfl, ⟨bottom, hstatic, ?_⟩, hheap, halign, ?_⟩
    · show Stacked bottom (savedEnds calls') rest a.stackEnd
      rwa [hsaved]
    · show ∀ stop ∈ a.stackEnd :: savedEnds calls', stop ≤ w.memory.low.size
      rw [hsaved]
      exact fun stop hmem => hreach stop (List.mem_cons_of_mem _ hmem)

/-- As long as no call is opened or closed, the ledger takes what has been handed out. -/
theorem withCalls (h : Upkeep p m' (L.add grant)) : Upkeep p m' ((L.add grant).withCalls m'.calls.length) := by
  rwa [Ledger.withCalls_same h.length_frames]

/-- **Every change keeps it up.** -/
theorem change (h : Upkeep p m L) (hchange : Machine.Change p m grant m') :
    Upkeep p m' ((L.add grant).withCalls m'.calls.length) := by
  cases hchange with
  | printed hworld hsaved => exact (h.stays hworld.stays hsaved).withCalls
  | wrote hwrites hworld hsaved => exact (h.stays hworld hsaved).withCalls
  | slot hworld hopen hsaved => exact (h.slot hworld hopen hsaved).withCalls
  | block hworld hsaved => exact (h.block hworld hsaved).withCalls
  | @opened w w' a calls hworld hend =>
    show Upkeep p _ (L.withCalls (calls.length + 1))
    rw [Ledger.withCalls_opened h.length_frames]
    exact h.opened hworld hend
  | @closed w w' a below calls' hworld hsaved =>
    obtain ⟨frame, rest, hframes, hnew⟩ := h.closed hworld hsaved
    show Upkeep p _ (L.withCalls calls'.length)
    rwa [Ledger.withCalls_closed hframes hnew.length_frames]

/-- The storage is in place once the globals are loaded, and also if that goes wrong. -/
theorem loaded {o : Except RunError Unit} (h : Exec.run (World.loadGlobals p) {} = (o, w)) :
    Upkeep p ⟨w, []⟩ {} := by
  rcases World.loadGlobals_cases h with ⟨-, rfl⟩ | ⟨addresses, stop, -, hrow, -, hstays⟩
  · have hnone : p.static p.module.globals.toList [] = [] := List.zipWith_nil_right
    exact ⟨⟨nullGuard, hnone ▸ .nil _, .nil⟩, .nil _, List.forall_mem_nil _,
      List.forall_mem_singleton.2 (Nat.le_refl _)⟩
  · have hplaced : Upkeep p ⟨World.placed addresses stop, []⟩ {} := by
      refine ⟨⟨stop, hrow, .nil⟩, .nil _, List.forall_mem_nil _, List.forall_mem_singleton.2 ?_⟩
      exact Nat.le_of_eq (Memory.size_resize _ stop).symm
    exact hplaced.stays hstays rfl

end Upkeep

/-! ### Storage in use at a stage -/

namespace Stage

/-- The globals and the slots in use, in the order they were made. -/
def lowPieces (p : Program) (s : Stage) : List Piece :=
  p.static p.module.globals.toList s.world.globals.toList ++ s.ledger.slots

/-- All storage in use. -/
def pieces (p : Program) (s : Stage) : List Piece := s.lowPieces p ++ s.ledger.blocks

/-- Exact sizes fit: static data and stack end below the limit of the stack, and the heap is smaller than any
block must be. -/
structure Fits (p : Program) (s : Stage) : Prop where
  low : exactStop nullGuard (s.lowPieces p) ≤ stackLimit
  heap : exactStop 0 s.ledger.blocks < blockLimit

/-- The next step is a store or a copy. -/
def Writes (p : Program) (s : Stage) : Prop := s.fault = none ∧ s.machine.Writes p

/-- Storage is in order. -/
structure Separate (p : Program) (s : Stage) : Prop where
  /-- No two pieces overlap. -/
  apart : (s.pieces p).Pairwise Piece.Apart
  aligned : ∀ t ∈ s.pieces p, t.unit ∣ t.address
  /-- Globals and slots lie between the guard and the end of the stack. -/
  low : ∀ t ∈ s.lowPieces p, nullGuard ≤ t.address ∧ t.stop ≤ s.world.stackEnd
  /-- The stack ends within the lower region. -/
  reach : s.world.stackEnd ≤ s.world.memory.low.size
  heap : ∀ t ∈ s.ledger.blocks, heapBase ≤ t.address ∧ t.stop ≤ heapBase + s.world.memory.heap.size
  /-- There is nothing on the stack but globals and slots. -/
  stack_eq : s.world.stackEnd = exactStop nullGuard (s.lowPieces p)
  /-- There is nothing on the heap but blocks. -/
  heap_eq : s.world.memory.heap.size = exactStop 0 s.ledger.blocks
  /-- Every open call has its slots. -/
  frames : s.ledger.frames.length = s.calls.length
  /-- Every global has its place. -/
  placed : s.fault = none → s.world.globals.size = p.module.globals.size

variable {p : Program} {s s' : Stage}

theorem upkeep (h : p.Reaches s) : Upkeep p s.machine s.ledger := by
  induction h with
  | load =>
    unfold load
    rcases hrun : Exec.run (World.loadGlobals p) {} with ⟨e | u, w⟩ <;> exact .loaded hrun
  | next _ hnext ih =>
    obtain ⟨m, grant, fault, rfl, hchange⟩ := hnext.change
    exact ih.change hchange

theorem row_lowPieces (h : Upkeep p s.machine s.ledger) :
    Row 0 nullGuard (s.lowPieces p) s.world.stackEnd := by
  obtain ⟨bottom, hstatic, hstacked⟩ := h.stack
  exact hstatic.append hstacked.row

theorem Next.fault_eq (h : s.Next p s') (hfault : s'.fault = none) : s.fault = none := by
  cases h with
  | called _ h | stepped h => exact h
  | unwound => cases hfault

theorem placed (h : p.Reaches s) (hfault : s.fault = none) :
    s.world.globals.size = p.module.globals.size := by
  induction h with
  | load =>
    unfold load at hfault ⊢
    rcases hrun : Exec.run (World.loadGlobals p) {} with ⟨e | u, w⟩ <;> rw [hrun] at hfault
    · cases hfault
    · rcases World.loadGlobals_cases hrun with ⟨⟨e, he⟩, -⟩ | ⟨addresses, stop, hlength, -, -, hstays⟩
      · cases he
      · show w.globals.size = p.module.globals.size
        rw [hstays.globals]
        exact hlength
  | next _ hnext ih =>
    have hbefore := hnext.fault_eq hfault
    obtain ⟨m, grant, fault, rfl, hchange⟩ := hnext.change
    exact (congrArg Array.size hchange.globals).trans (ih hbefore)

theorem separate_of_fits (h : p.Reaches s) (hfits : s.Fits p) : s.Separate p := by
  have hupkeep := upkeep h
  have hlow := row_lowPieces hupkeep
  have hheap := hupkeep.heap
  have hzero : 0 < blockLimit := by decide
  have hbase : heapBase < blockLimit := by decide
  have hlimit : exactStop nullGuard (s.lowPieces p) < blockLimit :=
    Nat.lt_of_le_of_lt hfits.low (by decide)
  have hstack := hlow.eq_exactStop hzero hlimit
  have hbounds : ∀ t ∈ s.lowPieces p, nullGuard ≤ t.address ∧ t.stop ≤ s.world.stackEnd := fun t ht => by
    have hstart := hlow.le_address hzero hlimit t ht
    have hstop := hlow.stop_le hzero hlimit t ht
    omega
  have hblocks : ∀ t ∈ s.ledger.blocks,
      heapBase ≤ t.address ∧ t.stop ≤ heapBase + s.world.memory.heap.size := fun t ht =>
    ⟨hheap.le_address hbase hfits.heap t ht, hheap.stop_le hbase hfits.heap t ht⟩
  exact {
    apart := by
      refine List.pairwise_append.2 ⟨?_, ?_, fun t ht u hu => Piece.apart_of_stop_le ?_⟩
      · exact (hlow.pairwise_stop_le hzero hlimit).imp Piece.apart_of_stop_le
      · exact (hheap.pairwise_stop_le hbase hfits.heap).imp Piece.apart_of_stop_le
      · calc t.stop ≤ s.world.stackEnd := (hbounds t ht).2
          _ ≤ stackLimit := hstack ▸ hfits.low
          _ ≤ heapBase := by decide
          _ ≤ u.address := (hblocks u hu).1
    aligned := by
      refine List.forall_mem_append.2 ⟨hlow.dvd_address hzero hlimit fun t _ => Nat.dvd_zero _,
        hheap.dvd_address hbase hfits.heap fun t ht => ?_⟩
      rw [Piece.unit, hupkeep.align t ht]
      decide
    low := hbounds
    reach := hupkeep.reach _ List.mem_cons_self
    heap := hblocks
    stack_eq := hstack
    heap_eq := hheap.eq_exactStop hbase hfits.heap
    frames := hupkeep.length_frames
    placed := placed h }

/-! ### What storage holds -/

/-- After an error nothing is written. -/
theorem Next.memory_eq (h : s.Next p s') (hfault : s.fault ≠ none) :
    s'.world.memory = s.world.memory := by
  cases h with
  | called _ h | stepped h => exact absurd h hfault
  | unwound => rfl

/-- All storage in use holds what it held, if both regions are the same as far as they are in use. -/
theorem Separate.holds (h : s.Separate p) (hfits : s.Fits p) {m : Memory}
    (hlow : Memory.SameBelow s.world.memory.low m.low s.world.stackEnd)
    (hreach : s.world.stackEnd ≤ m.low.size)
    (hheap : Memory.SameBelow s.world.memory.heap m.heap s.world.memory.heap.size)
    (hgrown : s.world.memory.heap.size ≤ m.heap.size) (hlimit : m.heap.size < addressLimit) :
    ∀ t ∈ s.pieces p, Memory.Holds t s.world.memory m := by
  refine List.forall_mem_append.2 ⟨fun t ht => ?_, fun t ht => ?_⟩
  · obtain ⟨hguard, hstop⟩ := h.low t ht
    refine Memory.holds_of_sameBelow_low hlow h.reach hreach hguard hstop ?_
    calc t.stop ≤ s.world.stackEnd := hstop
      _ ≤ stackLimit := h.stack_eq ▸ hfits.low
      _ < heapBase := by decide
  · obtain ⟨hbase, hstop⟩ := h.heap t ht
    exact Memory.holds_of_sameBelow_heap hheap (Nat.le_refl _) hgrown (Nat.lt_of_le_of_lt hgrown hlimit)
      hlimit hbase hstop

section Grants

variable {w w' : World} {calls calls' : List Activation} {L : Ledger} {t : Piece} {e fault : Option RunError}

/-- A slot that has been handed out is the last one. -/
theorem lowPieces_slot (h : Separate p ⟨⟨w, calls⟩, L, e⟩) (hworld : w.Reserves t w') (hopen : calls ≠ [])
    (hsaved : savedEnds calls' = savedEnds calls) :
    (move ⟨⟨w, calls⟩, L, e⟩ ⟨w', calls'⟩ (some (.slot t)) fault).lowPieces p =
      lowPieces p ⟨⟨w, calls⟩, L, e⟩ ++ [t] := by
  have hcount : calls'.length = calls.length := by simpa [savedEnds] using congrArg List.length hsaved
  have hlength : L.frames.length = calls'.length := h.frames.trans hcount.symm
  have hframes : L.frames ≠ [] := fun hnil => hopen (List.length_eq_zero_iff.1 (by
    rw [← hcount, ← hlength, hnil, List.length_nil]))
  rw [lowPieces, lowPieces, move, Ledger.withCalls_same (L.length_frames_add _ ▸ hlength),
    L.slots_add_slot t hframes, List.append_assoc]
  show p.static _ w'.globals.toList ++ _ = p.static _ w.globals.toList ++ _
  rw [hworld.world]

/-- A slot begins behind the end of the stack: it ends where exact arithmetic has it, so it begins there too. -/
theorem stackEnd_le_slot (h : Separate p ⟨⟨w, calls⟩, L, e⟩)
    (h' : Separate p (move ⟨⟨w, calls⟩, L, e⟩ ⟨w', calls'⟩ (some (.slot t)) fault))
    (hworld : w.Reserves t w') (hopen : calls ≠ []) (hsaved : savedEnds calls' = savedEnds calls) :
    w.stackEnd ≤ t.address := by
  have hstop : t.stop = Memory.exactUp w.stackEnd t.align + t.extent :=
    calc t.stop = w'.stackEnd := by rw [hworld.world]
      _ = exactStop nullGuard (lowPieces p ⟨⟨w, calls⟩, L, e⟩ ++ [t]) := by
        rw [← lowPieces_slot h hworld hopen hsaved]
        exact h'.stack_eq
      _ = Memory.exactUp w.stackEnd t.align + t.extent := by
        rw [exactStop_append, ← h.stack_eq]
        rfl
  calc w.stackEnd ≤ Memory.exactUp w.stackEnd t.align := Memory.le_exactUp
    _ = t.address := (Nat.add_right_cancel hstop).symm

/-- The heap only grows. -/
theorem heap_le_block (h : Separate p ⟨⟨w, calls⟩, L, e⟩)
    (h' : Separate p (move ⟨⟨w, calls⟩, L, e⟩ ⟨w', calls'⟩ (some (.block t)) fault)) :
    w.memory.heap.size ≤ w'.memory.heap.size :=
  calc w.memory.heap.size = exactStop 0 L.blocks := h.heap_eq
    _ ≤ exactStop (exactStop 0 L.blocks) [t] := le_exactStop _ _
    _ = exactStop 0 (L.blocks ++ [t]) := (exactStop_append _ _ _).symm
    _ = w'.memory.heap.size := h'.heap_eq.symm

end Grants

theorem Separate.heap_lt (h : s.Separate p) (hfits : s.Fits p) : s.world.memory.heap.size < addressLimit :=
  calc s.world.memory.heap.size = exactStop 0 s.ledger.blocks := h.heap_eq
    _ < blockLimit := hfits.heap
    _ < addressLimit := by decide

/-- A change changes nothing that storage holds, unless something is written. -/
theorem holds_of_change {m : Machine} {grant : Option Grant} {fault : Option RunError}
    (h : s.Separate p) (hfits : s.Fits p) (h' : (s.move m grant fault).Separate p)
    (hfits' : (s.move m grant fault).Fits p) (hchange : Machine.Change p s.machine grant m)
    (hwrites : ¬ s.machine.Writes p) :
    ∀ t ∈ s.pieces p, Memory.Holds t s.world.memory m.world.memory := by
  obtain ⟨⟨w, calls⟩, L, e⟩ := s
  cases hchange with
  | wrote hw => exact absurd hw hwrites
  | printed hworld | opened hworld | closed hworld => exact fun t _ => .of_eq hworld.memory
  | @slot w w' _ calls' t hworld hopen hsaved =>
    have hbehind := stackEnd_le_slot h h' hworld hopen hsaved
    obtain ⟨-, -, -, rfl⟩ := hworld
    refine h.holds hfits (Memory.sameBelow_reserve _ h.reach hbehind) ?_ (fun _ _ => rfl) (Nat.le_refl _)
      (h.heap_lt hfits)
    show w.stackEnd ≤ (w.memory.reserve t.address t.stop).low.size
    rw [Memory.size_low_reserve]
    exact Nat.le_trans h.reach (Nat.le_max_left _ _)
  | @block w w' _ calls' t hworld hsaved =>
    have hgrown := heap_le_block h h'
    have hlimit := h'.heap_lt hfits'
    obtain ⟨-, -, rfl⟩ := hworld
    refine h.holds hfits (fun _ _ => rfl) h.reach (Memory.sameBelow_resizeHeap _ ?_) hgrown hlimit
    exact Nat.le_trans hgrown (Nat.le_of_eq (Memory.size_resize _ _))

/-- **Storage does not overlap**, as long as exact sizes fit: at every stage of a run the pieces of storage in
use are apart, in their regions and aligned, and the stack ends within its region; and unless a store or a
copy is next, all of them hold what they held. -/
theorem separate (h : p.Reaches s) (hfits : s.Fits p) :
    s.Separate p ∧ ∀ s', s.Next p s' → s'.Fits p → ¬ s.Writes p →
      ∀ t ∈ s.pieces p, Memory.Holds t s.world.memory s'.world.memory := by
  have hseparate := separate_of_fits h hfits
  refine ⟨hseparate, fun s' hnext hfits' hwrites t ht => ?_⟩
  by_cases hfault : s.fault = none
  · obtain ⟨m, grant, fault, rfl, hchange⟩ := hnext.change
    exact holds_of_change hseparate hfits (separate_of_fits (h.next hnext) hfits') hfits' hchange
      (fun hw => hwrites ⟨hfault, hw⟩) t ht
  · exact .of_eq (hnext.memory_eq hfault)

end Stage

/-! ### A program with storage of each kind -/

/-- The program `long g; int main() { int x; malloc(24); return 0; }`. -/
def sampleProgram : Program where
  module := {
    name := "sample"
    functions := #[
      { name := "main", sig := ⟨.int 32, [], false⟩, linkage := .external, layout := [⟨0⟩]
        blocks := #[{ insts := [⟨0⟩, ⟨1⟩], term := some (.ret (some (.const (.int 0 (.int 32))))) }]
        insts := #[⟨.alloca (.int 32), (Ty.int 32).pointerTo⟩,
          ⟨.call (.const (.function ⟨1⟩ .void)) [.const (.int 24 (.int 64))], Ty.void.pointerTo⟩] },
      { name := "malloc", sig := ⟨Ty.void.pointerTo, [.int 64], false⟩, linkage := .external }]
    globals := #[⟨"g", .int 64, .external, none, false⟩] }
  layout := {}

namespace Stage

/-- The stage of the program after its slot has been made. -/
def sampleSlot : Stage := ((load sampleProgram).call sampleProgram ⟨0⟩).step sampleProgram

/-- The stage after its block has been made. -/
def sampleBlock : Stage := sampleSlot.step sampleProgram

theorem reaches_sampleSlot : sampleProgram.Reaches sampleSlot ∧ sampleSlot.fault = none := by
  have hload : (load sampleProgram).fault = none := Option.isNone_iff_eq_none.1 (by decide +kernel)
  have hidle : (load sampleProgram).calls = [] := List.isEmpty_iff.1 (by decide +kernel)
  have hcall : ((load sampleProgram).call sampleProgram ⟨0⟩).fault = none :=
    Option.isNone_iff_eq_none.1 (by decide +kernel)
  exact ⟨(Program.Reaches.load.next (.called ⟨0⟩ hload hidle)).next (.stepped hcall),
    Option.isNone_iff_eq_none.1 (by decide +kernel)⟩

/-- The slot stands right behind the global, at a multiple of its size. Handing out the block changes neither of
them. -/
theorem separate_sample :
    (sampleSlot.lowPieces sampleProgram = [⟨8, 8, 8⟩, ⟨16, 4, 4⟩] ∧ sampleSlot.Separate sampleProgram) ∧
      (sampleBlock.ledger.blocks = [⟨0x100000000, 24, 16⟩] ∧ sampleBlock.Separate sampleProgram) ∧
        ∀ t ∈ sampleSlot.pieces sampleProgram,
          Memory.Holds t sampleSlot.world.memory sampleBlock.world.memory := by
  obtain ⟨hslot, hfault⟩ := reaches_sampleSlot
  have hnext : sampleSlot.Next sampleProgram sampleBlock := .stepped hfault
  have hfits : sampleSlot.Fits sampleProgram := ⟨by decide +kernel, by decide +kernel⟩
  have hfits' : sampleBlock.Fits sampleProgram := ⟨by decide +kernel, by decide +kernel⟩
  have hcall : ¬ sampleSlot.Writes sampleProgram := fun h => absurd h.2 (by
    unfold Machine.Writes
    decide +kernel)
  obtain ⟨hseparate, hholds⟩ := separate hslot hfits
  exact ⟨⟨by decide +kernel, hseparate⟩, ⟨by decide +kernel, (separate (hslot.next hnext) hfits').1⟩,
    hholds _ hnext hfits' hcall⟩

end Stage

end TreeFlow
