import Mathlib.Order.Defs.Unbundled
import TreeFlow.Proofs.Machine.Basic
import TreeFlow.Proofs.Machine.Bytes

/-!
# What operations do to storage

Most operations of the machine only print (`World.Prints`). A store writes into memory, but all storage stays
where it is (`World.Stays`). Storage is handed out in two places: a slot on the stack (`World.Reserves`) and a
block on the heap (`World.Grows`).
-/

namespace TreeFlow

variable {α β : Type}

/-! ### Worlds -/

namespace World

variable {w w' : World}

/-- Nothing is different but what has been printed. -/
def Prints (w w' : World) : Prop := w' = { w with output := w'.output }

/-- The regions are as large, and handed out as far, as before. -/
structure Stays (w w' : World) : Prop where
  globals : w'.globals = w.globals
  stackEnd : w'.stackEnd = w.stackEnd
  low : w'.memory.low.size = w.memory.low.size
  heap : w'.memory.heap.size = w.memory.heap.size

instance : Std.Refl Prints := ⟨fun _ => rfl⟩

instance : IsTrans World Prints := ⟨fun _ _ _ h h' => by
  unfold Prints at *
  rw [h', h]⟩

instance : Std.Refl Stays := ⟨fun _ => ⟨rfl, rfl, rfl, rfl⟩⟩

instance : IsTrans World Stays := ⟨fun _ _ _ h h' =>
  ⟨h'.globals.trans h.globals, h'.stackEnd.trans h.stackEnd, h'.low.trans h.low, h'.heap.trans h.heap⟩⟩

theorem Prints.memory (h : Prints w w') : w'.memory = w.memory := by rw [h]

theorem Prints.stays (h : Prints w w') : Stays w w' := by
  rw [h]
  exact ⟨rfl, rfl, rfl, rfl⟩

/-- A slot has been handed out at the end of the stack. -/
structure Reserves (s : Piece) (w w' : World) : Prop where
  address : s.address = Memory.alignUp w.stackEnd s.align
  stop_lt : s.stop < Memory.addressLimit
  stop_le : s.stop ≤ Memory.stackLimit
  world : w' = { w with memory := w.memory.reserve s.address s.stop, stackEnd := s.stop }

/-- A block has been handed out at the end of the heap. -/
structure Grows (s : Piece) (w w' : World) : Prop where
  align : s.align = Memory.heapAlign
  address : s.address =
    (Memory.heapBase + Memory.alignUp w.memory.heap.size s.align) % Memory.addressLimit
  world : w' = { w with
    memory := w.memory.resizeHeap
      ((Memory.alignUp w.memory.heap.size s.align + s.extent) % Memory.addressLimit) }

end World

/-- The piece of storage that a value of a type has at an address. Storage is only made for types that have a
size and an alignment. -/
def Program.piece (p : Program) (ty : Ty) (address : UInt64) : Piece where
  address := address.toNat
  size := (p.sizeOf ty).toOption.getD 0
  align := (p.alignOf ty).toOption.getD 1

theorem Program.piece_eq {p : Program} {ty : Ty} {size align : Nat} (hsize : p.sizeOf ty = .ok size)
    (halign : p.alignOf ty = .ok align) (address : UInt64) :
    p.piece ty address = ⟨address.toNat, size, align⟩ := by
  rw [piece, hsize, halign]
  rfl

/-- Does the instruction write into memory? -/
def InstKind.writes : InstKind → Bool
  | .store .. | .copy .. => true
  | _ => false

/-! ### Operations -/

/-- However the operation ends, it leads from a world to a related one. -/
def Exec.Moves (R : World → World → Prop) (m : Exec α) : Prop := ∀ w, R w (Exec.run m w).2

namespace Exec.Moves

variable {R R' : World → World → Prop} {m : Exec α} {next : α → Exec β}

theorem imp (hm : Exec.Moves R m) (h : ∀ w w', R w w' → R' w w') : Exec.Moves R' m := fun w =>
  h w _ (hm w)

theorem bind [IsTrans World R] (hm : Exec.Moves R m) (hnext : ∀ a, Exec.Moves R (next a)) :
    Exec.Moves R (m >>= next) := fun w => by
  have hfirst := hm w
  rw [run_bind]
  rcases hrun : run m w with ⟨e | a, w'⟩ <;> rw [hrun] at hfirst
  · exact hfirst
  · exact IsTrans.trans w w' _ hfirst (hnext a w')

section Still

variable [Std.Refl R]

theorem pure (a : α) : Exec.Moves R (Pure.pure a) := fun w => Std.Refl.refl w

theorem throw (e : RunError) : Exec.Moves R (throw e : Exec α) := fun w => Std.Refl.refl w

theorem query (f : World → Except RunError α) : Exec.Moves R (World.query f) := fun w => Std.Refl.refl w

theorem lift (x : Except RunError α) : Exec.Moves R (liftM x : Exec α) := fun w => by
  rw [run_liftM]
  exact Std.Refl.refl w

theorem get : Exec.Moves R (MonadState.get : Exec World) := fun w => Std.Refl.refl w

end Still

/-- Something is ruled out before the rest. -/
theorem guard [Std.Refl R] [IsTrans World R] {c : Prop} [Decidable c] {e : RunError} {next : Exec α}
    (hnext : Exec.Moves R next) :
    Exec.Moves R (if c then MonadExcept.throw e >>= fun _ : PUnit => next else next) := by
  split
  · exact .bind (.throw e) fun _ => hnext
  · exact hnext

end Exec.Moves

/-! ### Memory -/

namespace World

open Exec (Moves)

variable (p : Program) (ty : Ty) (address : UInt64) {w w' : World}

theorem moves_print (text : String) : Moves Prints (print text) := fun _ => rfl

theorem moves_load : Moves Prints (load p address ty) :=
  .bind (.lift _) fun _ => .bind (.query _) fun _ => .lift _

theorem stays_putBytes (w : World) (place : Place) (contents : List UInt8) :
    Stays w { w with memory := w.memory.putBytes place contents } := by
  cases place with
  | low offset => exact ⟨rfl, rfl, Memory.size_overwrite _ _ _, rfl⟩
  | heap offset => exact ⟨rfl, rfl, rfl, Memory.size_overwrite _ _ _⟩

theorem moves_storeBytes (contents : List UInt8) : Moves Stays (storeBytes address contents) :=
  .bind (.query _) fun place w => stays_putBytes w place contents

theorem moves_store (v : RunValue) : Moves Stays (store p address ty v) :=
  .bind (.lift _) fun _ => .bind (.lift _) fun _ => .bind (.lift _) fun _ => moves_storeBytes address _

theorem moves_fillGlobals (globals : List (Global × UInt64)) : Moves Stays (fillGlobals p globals) := by
  induction globals with
  | nil => exact .pure _
  | cons g rest ih =>
    obtain ⟨g, address⟩ := g
    unfold fillGlobals
    dsimp only
    split
    · exact .bind .get fun _ => .bind (.lift _) fun _ => .bind (moves_store p _ _ _) fun _ => ih
    · exact ih

/-- A slot is handed out, or nothing is. -/
theorem alloca_cases {o : Except RunError RunValue} (h : Exec.run (alloca p ty) w = (o, w')) :
    ((∃ e, o = .error e) ∧ w' = w) ∨
      ∃ q, o = .ok (.pointer q) ∧ Reserves (p.piece ty q) w w' := by
  simp only [alloca, Exec.run_bind, Exec.run_liftM, Exec.run_get, Exec.run_guard] at h
  cases hsize : p.sizeOf ty with
  | error e =>
    rw [hsize] at h
    obtain ⟨rfl, rfl⟩ := Prod.mk.inj h
    exact .inl ⟨⟨_, rfl⟩, rfl⟩
  | ok size =>
  cases halign : p.alignOf ty with
  | error e =>
    rw [hsize, halign] at h
    obtain ⟨rfl, rfl⟩ := Prod.mk.inj h
    exact .inl ⟨⟨_, rfl⟩, rfl⟩
  | ok align =>
  simp only [hsize, halign] at h
  split at h
  · obtain ⟨rfl, rfl⟩ := Prod.mk.inj h
    exact .inl ⟨⟨_, rfl⟩, rfl⟩
  next hlimit =>
  split at h
  · obtain ⟨rfl, rfl⟩ := Prod.mk.inj h
    exact .inl ⟨⟨_, rfl⟩, rfl⟩
  next hstack =>
  obtain ⟨rfl, rfl⟩ := Prod.mk.inj h
  have hmod : Memory.alignUp w.stackEnd align < UInt64.size :=
    Nat.lt_of_le_of_lt (Nat.le_add_right _ _) (Nat.lt_of_not_le hlimit)
  refine .inr ⟨_, rfl, ?_⟩
  rw [Program.piece_eq hsize halign, UInt64.toNat_ofNat_of_lt' hmod]
  exact ⟨rfl, Nat.lt_of_not_le hlimit, Nat.le_of_not_lt hstack, rfl⟩

/-- A block is handed out, or nothing is. -/
theorem malloc_cases {size : Nat} {o : Except RunError RunValue}
    (h : Exec.run (malloc size) w = (o, w')) :
    ((∃ e, o = .error e) ∧ w' = w) ∨
      ∃ q, o = .ok (.pointer q) ∧ Grows ⟨q.toNat, size, Memory.heapAlign⟩ w w' := by
  simp only [malloc, Exec.run_bind, Exec.run_get, Exec.run_guard] at h
  split at h
  · obtain ⟨rfl, rfl⟩ := Prod.mk.inj h
    exact .inl ⟨⟨_, rfl⟩, rfl⟩
  · obtain ⟨rfl, rfl⟩ := Prod.mk.inj h
    exact .inr ⟨_, rfl, rfl, UInt64.toNat_ofNat', rfl⟩

end World

/-! ### Library functions -/

namespace Library

open Exec (Moves)

theorem moves_text (v : RunValue) : Moves World.Prints (text v) :=
  .bind (.lift _) fun _ => .query _

/-- Every routine but `malloc` only prints. -/
theorem moves_call {name : String} (h : name ≠ "malloc") (args : List RunValue) :
    Moves World.Prints (call name args) := by
  unfold call
  split
  · exact .bind (.lift _) fun _ => .bind (moves_text _) fun _ => .bind (.query _) fun _ =>
      .bind (World.moves_print _) fun _ => .pure _
  · exact .bind (.lift _) fun _ => .bind (moves_text _) fun _ =>
      .bind (World.moves_print _) fun _ => .pure _
  · exact .bind (.lift _) fun _ => .bind (.lift _) fun _ =>
      .bind (World.moves_print _) fun _ => .pure _
  · exact absurd rfl h
  · exact .pure _
  · exact .throw _

/-- A block is handed out, of the size asked for, or nothing is. -/
theorem malloc_cases {args : List RunValue} {w w' : World} {o : Except RunError RunValue}
    (h : Exec.run (call "malloc" args) w = (o, w')) :
    ((∃ e, o = .error e) ∧ w' = w) ∨
      ∃ v n q, args.head? = some v ∧ v.int? = .ok n ∧ o = .ok (.pointer q) ∧
        World.Grows ⟨q.toNat, Signed.word (max n 0), Memory.heapAlign⟩ w w' := by
  simp only [call, malloc, Exec.run_bind, Exec.run_liftM] at h
  cases args with
  | nil =>
    obtain ⟨rfl, rfl⟩ := Prod.mk.inj h
    exact .inl ⟨⟨_, rfl⟩, rfl⟩
  | cons v rest =>
    have hfirst : argument "malloc" (v :: rest) 0 = .ok v := rfl
    simp only [hfirst] at h
    cases hint : v.int? with
    | error e =>
      rw [hint] at h
      obtain ⟨rfl, rfl⟩ := Prod.mk.inj h
      exact .inl ⟨⟨_, rfl⟩, rfl⟩
    | ok n =>
      rw [hint] at h
      rcases World.malloc_cases h with hnone | ⟨q, ho, hgrows⟩
      · exact .inl hnone
      · exact .inr ⟨v, n, q, rfl, hint, ho, hgrows⟩

end Library

/-! ### Instructions, calls and jumps -/

namespace Machine

open Exec (Moves)

variable (p : Program) (f : Function) (a : Activation) (op : Operand)

section Reading

variable {R : World → World → Prop} [Std.Refl R] [IsTrans World R]

theorem moves_address : Moves R (address p a op) := .bind (.query _) fun _ => .lift _

theorem moves_valuesOf (ops : List Operand) : Moves R (valuesOf p a ops) := by
  induction ops with
  | nil => exact .pure _
  | cons op ops ih => exact .bind (.query _) fun _ => .bind ih fun _ => .pure _

end Reading

theorem moves_offset (index : Operand) (ty : Ty) : Moves World.Prints (offset p a op index ty) := by
  unfold offset
  split
  · exact .throw _
  · exact .bind (.lift _) fun _ => .bind (moves_address p a _) fun _ => .bind (.query _) fun _ =>
      .bind (.lift _) fun _ => .pure _

theorem moves_field (index : Nat) (ty : Ty) : Moves World.Prints (field p a op index ty) := by
  unfold field
  split
  · exact .throw _
  · exact .bind (.lift _) fun _ => .bind (moves_address p a _) fun _ => .pure _

theorem moves_incoming (id : InstId) (sources : List (Operand × BlockId)) :
    Moves World.Prints (incoming p a id sources) := by
  unfold incoming
  split
  · exact .query _
  · exact .throw _

theorem moves_follow (t : Option Terminator) : Moves World.Prints (follow p f a t) := by
  unfold follow
  split
  · exact .throw _
  · exact .bind (.query _) fun _ => .pure _
  · exact .pure _
  · exact .pure _
  · exact .bind (.query _) fun _ => .bind (.lift _) fun _ => .pure _
  · exact .throw _

theorem moves_activate (id : FuncId) (args : List RunValue) (depth : Nat) :
    Moves World.Prints (activate f id args depth) := by
  unfold activate
  refine .guard ?_
  split
  · exact .throw _
  · exact .bind (.lift _) fun _ => .bind .get fun _ => .pure _

/-- Only stores and copies write, and only `alloca` hands out a slot. -/
theorem moves_instruction (id : InstId) {inst : Inst} (hslot : inst.kind.isAlloca = false)
    (hwrites : inst.kind.writes = false) : Moves World.Prints (instruction p f a id inst) := by
  obtain ⟨kind, ty⟩ := inst
  cases kind with
  | alloca | store | copy => simp [InstKind.isAlloca, InstKind.writes] at hslot hwrites
  | load ptr => exact .bind (moves_address p a _) fun _ => World.moves_load p _ _
  | binary op l r => exact .bind (.query _) fun _ => .bind (.query _) fun _ => .lift _
  | cmp op l r =>
    exact .bind (.query _) fun _ => .bind (.query _) fun _ => .bind (.lift _) fun _ => .pure _
  | cast op v => exact .bind (.query _) fun _ => .lift _
  | offset ptr index => exact moves_offset p a ptr index ty
  | field base index => exact moves_field p a base index _
  | call callee args => exact .pure _
  | phi sources => exact moves_incoming p a id sources

theorem stays_instruction (id : InstId) {inst : Inst} (hwrites : inst.kind.writes) :
    Moves World.Stays (instruction p f a id inst) := by
  obtain ⟨kind, ty⟩ := inst
  cases kind with
  | store ptr v =>
    exact .bind (moves_address p a _) fun _ => .bind (.query _) fun _ =>
      .bind (World.moves_store p _ _ _) fun _ => .pure _
  | copy dst src ty =>
    exact .bind (moves_address p a _) fun _ => .bind (moves_address p a _) fun _ =>
      .bind (.lift _) fun _ => .bind (.query _) fun _ =>
        .bind (World.moves_storeBytes _ _) fun _ => .pure _
  | alloca | load | binary | cmp | cast | offset | field | call | phi =>
    simp [InstKind.writes] at hwrites

end Machine

end TreeFlow
