import TreeFlow.Proofs.Machine.Bounds
import TreeFlow.Proofs.Machine.Encoding

/-!
# What memory keeps

A store that goes through has written the bytes of its value, brought to the size of its type, and nothing
else (`World.store_cases`, `World.Puts`); any other store leaves memory as it was. Which stores go through is a
matter of bounds alone (`World.exists_store_iff`). A load of the same type from the same address finds those
bytes. So **a value that has a place in its type is kept** (`World.keeps_stored`): it is read back, no byte
outside of it is another, and no region is longer or shorter.

A pointer is kept in as many bytes as the target has for it, and not in more than eight. What is read back is
its address modulo the number of addresses that so many bytes can tell apart (`World.load_stored_pointer`), so
**a pointer is kept exactly if its address is one of those** (`World.keeps_pointer_iff`). Memory and functions
stand at the same addresses on every target. With eight bytes or more all pointers are kept
(`World.keeps_pointer`), and with three those to slots on the stack (`World.keeps_slot`). Pointers to blocks are
lost in four bytes, and pointers to functions in six (`World.loses_block`, `World.loses_function`).
-/

namespace TreeFlow

namespace World

variable {p : Program} {ty target : Ty} {address q : UInt64} {v : RunValue} {contents bs : List UInt8}
  {w w' : World}

/-! ### Stores -/

/-- Some bytes have been written at an address, and nothing else has happened. -/
structure Puts (address : UInt64) (contents : List UInt8) (w w' : World) : Prop where
  contains : w.memory.Contains address contents.length
  stop_lt : (Memory.placeOf address).offset + contents.length < Memory.addressLimit
  world : w' = { w with memory := w.memory.putBytes (Memory.placeOf address) contents }

/-- Bytes are written, or nothing is. -/
theorem storeBytes_cases {o : Except RunError Unit}
    (h : Exec.run (storeBytes address contents) w = (o, w')) :
    ((∃ e, o = .error e) ∧ w' = w) ∨ o = .ok () ∧ Puts address contents w w' := by
  simp only [storeBytes, locate, Exec.run_bind, Exec.run_query] at h
  cases hplace : w.memory.locate address contents.length with
  | error e =>
    rw [hplace] at h
    obtain ⟨rfl, rfl⟩ := Prod.mk.inj h
    exact .inl ⟨⟨e, rfl⟩, rfl⟩
  | ok place =>
    obtain ⟨hcontains, hlimit, rfl⟩ := Memory.locate_eq_ok_iff.1 hplace
    rw [hplace] at h
    obtain ⟨rfl, rfl⟩ := Prod.mk.inj h
    exact .inr ⟨rfl, hcontains, hlimit, rfl⟩

/-- The bytes of the value are written, as many as its type is large, or nothing is. -/
theorem store_cases {o : Except RunError Unit} (h : Exec.run (store p address ty v) w = (o, w')) :
    ((∃ e, o = .error e) ∧ w' = w) ∨
      ∃ contents bs, o = .ok () ∧ p.sizeOf ty = .ok bs.length ∧ v.encode? ty = .ok contents ∧
        resizeBytes contents bs.length = .ok bs ∧ Puts address bs w w' := by
  simp only [store, Exec.run_bind, Exec.run_liftM] at h
  cases hsize : p.sizeOf ty with
  | error e =>
    rw [hsize] at h
    obtain ⟨rfl, rfl⟩ := Prod.mk.inj h
    exact .inl ⟨⟨e, rfl⟩, rfl⟩
  | ok size =>
  cases hcontents : v.encode? ty with
  | error e =>
    rw [hsize, hcontents] at h
    obtain ⟨rfl, rfl⟩ := Prod.mk.inj h
    exact .inl ⟨⟨e, rfl⟩, rfl⟩
  | ok contents =>
  cases hbs : resizeBytes contents size with
  | error e =>
    simp only [hsize, hcontents, hbs] at h
    obtain ⟨rfl, rfl⟩ := Prod.mk.inj h
    exact .inl ⟨⟨e, rfl⟩, rfl⟩
  | ok bs =>
  simp only [hsize, hcontents, hbs] at h
  obtain rfl := length_of_resizeBytes hbs
  rcases storeBytes_cases h with hnone | ⟨rfl, hputs⟩
  · exact .inl hnone
  · exact .inr ⟨contents, bs, rfl, rfl, rfl, hbs, hputs⟩

/-! ### Loads -/

namespace Puts

variable (h : Puts address bs w w')
include h

/-- What has been written is what is read. -/
theorem loadBytes : w'.memory.loadBytes address bs.length = .ok bs := by
  have hsize := Memory.size_regionOf_putBytes w.memory (Memory.placeOf address) (Memory.placeOf address) bs
  have hcontains : w'.memory.Contains address bs.length := by
    refine ⟨h.contains.guard, ?_⟩
    rw [h.world, hsize]
    exact h.contains.stop_le
  have hplace := Memory.locate_eq_ok_iff.2 ⟨hcontains, h.stop_lt, rfl⟩
  rw [Memory.loadBytes, hplace, h.world]
  exact congrArg Except.ok (Memory.bytesAt_putBytes h.contains.stop_le)

/-- A load of as many bytes takes what has been written for its type. -/
theorem load (hsize : p.sizeOf ty = .ok bs.length) :
    Exec.run (World.load p address ty) w' = (RunValue.decode? ty bs, w') := by
  simp only [World.load, World.loadBytes, Exec.run_bind, Exec.run_liftM, Exec.run_query, hsize, h.loadBytes]

theorem byte?_eq {place : Place} (hplace : place.Outside (Memory.placeOf address) bs.length) :
    w'.memory.byte? place = w.memory.byte? place := by
  rw [h.world]
  exact Memory.byte?_putBytes hplace

end Puts

/-- A store of a value that has bytes goes through exactly if the region of the address contains as many as
the type is large, and they are no more than the machine can handle. -/
theorem exists_store_iff (hbytes : v.encode? ty = .ok contents) :
    (∃ w', Exec.run (store p address ty v) w = (.ok (), w')) ↔
      ∃ size, p.sizeOf ty = .ok size ∧ size < Memory.blockLimit ∧ w.memory.Contains address size ∧
        (Memory.placeOf address).offset + size < Memory.addressLimit := by
  constructor
  · rintro ⟨w', h⟩
    rcases store_cases h with ⟨⟨e, herror⟩, -⟩ | ⟨_, bs, -, hsize, -, hbs, hputs⟩
    · cases herror
    · exact ⟨bs.length, hsize, (resizeBytes_eq_ok hbs).1, hputs.contains, hputs.stop_lt⟩
  · rintro ⟨size, hsize, hblock, hcontains, hlimit⟩
    obtain ⟨bs, hbs⟩ := resizeBytes_of_lt contents hblock
    obtain rfl := length_of_resizeBytes hbs
    have hplace := Memory.locate_eq_ok_iff.2 ⟨hcontains, hlimit, rfl⟩
    simp only [store, storeBytes, locate, Exec.run_bind, Exec.run_liftM, Exec.run_query, hsize, hbytes, hbs,
      hplace]
    exact ⟨_, rfl⟩

/-! ### Values that are kept -/

/-- **Memory keeps what is stored.** A value that has a place in its type is read back from the address it has
been stored at; no byte outside of it is another in either region, and the regions are as long as before. A
store that fails leaves the world as it was. -/
theorem keeps_stored {o : Except RunError Unit} (hv : v.IsOf p ty)
    (h : Exec.run (store p address ty v) w = (o, w')) :
    (o = .ok () → ∃ size, p.sizeOf ty = .ok size ∧
      Exec.run (load p address ty) w' = (.ok v, w') ∧
      (∀ place : Place, place.Outside (Memory.placeOf address) size →
        w'.memory.byte? place = w.memory.byte? place) ∧
      w'.memory.low.size = w.memory.low.size ∧ w'.memory.heap.size = w.memory.heap.size) ∧
    ((∃ e, o = .error e) → w' = w) := by
  have hstays := moves_store p ty address v w
  rw [h] at hstays
  rcases store_cases h with ⟨⟨e, rfl⟩, hsame⟩ | ⟨contents, bs, rfl, hsize, hcontents, hbs, hputs⟩
  · constructor
    · intro hok
      cases hok
    · exact fun _ => hsame
  · constructor
    · intro _
      refine ⟨bs.length, hsize, ?_, fun place => hputs.byte?_eq, hstays.low, hstays.heap⟩
      rw [hputs.load hsize, RunValue.decode?_of_encode? hv hsize hcontents hbs]
    · rintro ⟨e, herror⟩
      cases herror

/-- The least integer of seven bits is kept in one byte, between two bytes that stay. -/
theorem keeps_stored_seven_bits :
    let w : World := { memory := { low := Array.replicate 16 0xFF } }
    ∃ w', Exec.run (store default 9 (.int 7) (.int (-64))) w = (.ok (), w') ∧
      Exec.run (load default 9 (.int 7)) w' = (.ok (.int (-64)), w') ∧
      w'.memory.byte? (.low 8) = some 0xFF ∧ w'.memory.byte? (.low 10) = some 0xFF := by
  intro w
  have hv : RunValue.IsOf default (.int 7) (.int (-64)) := .int (by decide) (by decide) (by decide)
  obtain ⟨w', hstore⟩ : ∃ w', Exec.run (store default 9 (.int 7) (.int (-64))) w = (.ok (), w') :=
    ⟨_, rfl⟩
  obtain ⟨size, hsize, hload, hbytes, -⟩ := (keeps_stored hv hstore).1 rfl
  obtain rfl : 1 = size := Except.ok.inj hsize
  exact ⟨w', hstore, hload, hbytes (.low 8) (Memory.outside_placeOf (.inl (by decide))),
    hbytes (.low 10) (Memory.outside_placeOf (.inr (by decide)))⟩

/-! ### Pointers -/

section Pointers

variable (h : Exec.run (store p address (.pointer target) (.pointer q)) w = (.ok (), w'))
include h

/-- What is read back of a pointer is the part of its address that has been stored. -/
theorem load_stored_pointer : Exec.run (load p address (.pointer target)) w' =
    (.ok (.pointer (.ofNat (q.toNat % 256 ^ min p.layout.pointerBytes.toNat 8))), w') := by
  rcases store_cases h with ⟨⟨e, herror⟩, -⟩ | ⟨contents, bs, -, hsize, hcontents, hbs, hputs⟩
  · cases herror
  · obtain rfl := Except.ok.inj hcontents
    have hlength : p.layout.pointerBytes.toNat = bs.length := Except.ok.inj hsize
    rw [hputs.load hsize, RunValue.decode?, ofLittleEndian_take_of_resizeBytes hbs, hlength]

/-- **A pointer is kept exactly if the target's pointers can tell its address from all others.** -/
theorem keeps_pointer_iff : Exec.run (load p address (.pointer target)) w' = (.ok (.pointer q), w') ↔
    q.toNat < 256 ^ min p.layout.pointerBytes.toNat 8 := by
  have hpow : 256 ^ min p.layout.pointerBytes.toNat 8 ≤ UInt64.size :=
    Nat.pow_le_pow_right (by omega) (Nat.min_le_right _ 8)
  have hmod : q.toNat % 256 ^ min p.layout.pointerBytes.toNat 8 < 256 ^ min p.layout.pointerBytes.toNat 8 :=
    Nat.mod_lt _ (Nat.pow_pos (by omega))
  rw [load_stored_pointer h]
  constructor
  -- What is read back is always below the power, so a pointer that is the same is below it too.
  · intro heq
    have hq := RunValue.pointer.inj (Except.ok.inj (Prod.mk.inj heq).1)
    rw [← hq, UInt64.toNat_ofNat_of_lt' (Nat.lt_of_lt_of_le hmod hpow)]
    exact hmod
  · intro hlt
    rw [Nat.mod_eq_of_lt hlt, UInt64.ofNat_toNat]

/-- Targets with pointers of eight bytes, or more, keep every pointer. -/
theorem keeps_pointer (hbytes : 8 ≤ p.layout.pointerBytes.toNat) :
    Exec.run (load p address (.pointer target)) w' = (.ok (.pointer q), w') := by
  refine (keeps_pointer_iff h).2 ?_
  rw [Nat.min_eq_right hbytes]
  exact q.toNat_lt

/-- A pointer that needs more bytes than the target has for it is lost. -/
theorem lost_of_le {k : Nat} (hbytes : p.layout.pointerBytes.toNat ≤ k) (hq : 256 ^ k ≤ q.toNat) :
    Exec.run (load p address (.pointer target)) w' ≠ (.ok (.pointer q), w') := by
  intro hkept
  have hlt := (keeps_pointer_iff h).1 hkept
  have hle : 256 ^ min p.layout.pointerBytes.toNat 8 ≤ 256 ^ k :=
    Nat.pow_le_pow_right (by omega) (Nat.le_trans (Nat.min_le_left _ _) hbytes)
  omega

/-- Pointers to slots on the stack are kept in three bytes. -/
theorem keeps_slot {w₀ w₁ : World} (halloca : Exec.run (alloca p ty) w₀ = (.ok (.pointer q), w₁))
    (hbytes : 3 ≤ p.layout.pointerBytes.toNat) :
    Exec.run (load p address (.pointer target)) w' = (.ok (.pointer q), w') := by
  rcases alloca_cases p ty halloca with ⟨⟨e, herror⟩, -⟩ | ⟨r, hr, hreserves⟩
  · cases herror
  · obtain rfl := RunValue.pointer.inj (Except.ok.inj hr)
    have hstop : q.toNat + (p.piece ty q).extent ≤ Memory.stackLimit := hreserves.stop_le
    have hpow : 256 ^ 3 ≤ 256 ^ min p.layout.pointerBytes.toNat 8 :=
      Nat.pow_le_pow_right (by omega) (Nat.le_min.2 ⟨hbytes, by omega⟩)
    refine (keeps_pointer_iff h).2 ?_
    simp only [Memory.stackLimit] at hstop
    omega

/-- Pointers to blocks on the heap are lost in four bytes. The regions of a running program are bounded. -/
theorem loses_block {w₀ w₁ : World} {size : Nat} (hbounded : w₀.Bounded)
    (hmalloc : Exec.run (malloc size) w₀ = (.ok (.pointer q), w₁))
    (hbytes : p.layout.pointerBytes.toNat ≤ 4) :
    Exec.run (load p address (.pointer target)) w' ≠ (.ok (.pointer q), w') := by
  rcases malloc_cases hmalloc with ⟨⟨e, herror⟩, -⟩ | ⟨r, hr, hgrows⟩
  · cases herror
  · obtain rfl := RunValue.pointer.inj (Except.ok.inj hr)
    have hheap := hbounded.heap
    have hstart := Memory.alignUp_le w₀.memory.heap.size Memory.heapAlign
    have haddress : q.toNat =
        (Memory.heapBase + Memory.alignUp w₀.memory.heap.size Memory.heapAlign) % Memory.addressLimit :=
      hgrows.address
    refine lost_of_le h hbytes ?_
    simp only [Memory.heapBase, Memory.heapAlign, Memory.addressLimit, Memory.blockLimit, UInt64.size]
      at hheap hstart haddress
    -- The heap is too small for the address to wrap around.
    rw [Nat.mod_eq_of_lt (by omega)] at haddress
    omega

/-- Pointers to functions are lost in six bytes. -/
theorem loses_function {globals : Array UInt64} {id : FuncId} {ty : Ty}
    (hid : Memory.functionBase + id.index < Memory.addressLimit)
    (hfunction : constant p globals (.function id ty) = .ok (.pointer q))
    (hbytes : p.layout.pointerBytes.toNat ≤ 6) :
    Exec.run (load p address (.pointer target)) w' ≠ (.ok (.pointer q), w') := by
  obtain rfl := RunValue.pointer.inj (Except.ok.inj hfunction)
  refine lost_of_le h hbytes ?_
  rw [UInt64.toNat_ofNat_of_lt' hid]
  exact Nat.le_add_right Memory.functionBase id.index

end Pointers

end World

end TreeFlow
