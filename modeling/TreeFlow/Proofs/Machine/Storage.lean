import TreeFlow.Machine.Run
import TreeFlow.Proofs.Machine.Effects

/-!
# Storage in use

While a program runs, a ledger tells what storage is in use (`Ledger`): the slots that the open calls have
made, and the blocks on the heap. A step that is about to hand out storage is known by the instruction in
front of it (`Machine.grant?`). With each moment of a run goes the ledger that is right at that moment
(`Stage`, `Stage.Next`), from the loading of the globals on (`Program.Reaches`), and all moments that running
`main` goes through are among them (`Program.reaches_of_execute`).

What a move does to storage is one of few things (`Machine.Change`, `Stage.Next.change`): mostly nothing; a
store writes; a slot or a block is handed out; a call is opened, or given up.
-/

namespace TreeFlow

/-! ### What is handed out -/

/-- A piece of storage that a step hands out. -/
inductive Grant where
  | slot (s : Piece)
  | block (s : Piece)

/-- How many bytes a call of a function asks `malloc` for. -/
def Program.asked? (p : Program) (id : FuncId) (args : List RunValue) : Option Nat := do
  let f ← p.module.function? id
  if f.isDeclaration && f.name == "malloc" then
    let size ← (← args.head?).int?.toOption
    return Signed.word (max size 0)
  else none

/-- Without arguments, `malloc` is not asked for anything. -/
theorem Program.asked?_nil (p : Program) (id : FuncId) : p.asked? id [] = none := by
  cases hf : p.module.function? id <;> simp [asked?, hf]

namespace Machine

/-- The instruction that the innermost call is in front of. -/
def next? (p : Program) (m : Machine) : Option Inst := do
  let a ← m.calls.head?
  let f ← p.module.function? a.func
  f.inst? (← a.rest.head?)

/-- The next step is a store or a copy. -/
def Writes (p : Program) (m : Machine) : Prop := (m.next? p).any (·.kind.writes)

/-- How many bytes a call instruction asks `malloc` for. -/
def asked? (p : Program) (a : Activation) (callee : Operand) (args : List Operand) (w : World) :
    Option Nat := do
  let target ← (Exec.run (address p a callee) w).1.toOption
  let values ← (Exec.run (valuesOf p a args) w).1.toOption
  p.asked? ⟨target.toNat - Memory.functionBase⟩ values

/-- The slot for a value of a type, if there is one: it is where the pointer leads that `alloca` yields. -/
def slotOf? (p : Program) (ty : Ty) : Except RunError RunValue → Option Grant
  | .ok (.pointer address) => some (.slot (p.piece ty address))
  | _ => none

/-- The block of so many bytes, if there is one: it is where the pointer leads that the call yields. -/
def blockOf? : Option Nat → Except RunError (RunValue ⊕ Activation) → Option Grant
  | some size, .ok (.inl (.pointer address)) => some (.block ⟨address.toNat, size, Memory.heapAlign⟩)
  | _, _ => none

/-- What an instruction of the innermost call hands out. -/
def grantOf? (p : Program) (a : Activation) (depth : Nat) (w : World) : InstKind → Option Grant
  | .alloca ty => slotOf? p ty (Exec.run (World.alloca p ty) w).1
  | .call callee args => blockOf? (asked? p a callee args w) (Exec.run (callFrom p a callee args depth) w).1
  | _ => none

/-- What the next step hands out. -/
def grant? (p : Program) (m : Machine) : Option Grant := do
  let a ← m.calls.head?
  grantOf? p a m.calls.length m.world (← m.next? p).kind

end Machine

/-! ### The ledger -/

/-- The storage in use, apart from the globals. -/
structure Ledger where
  /-- The slots of each open call, in the order they were made; those of the innermost call come first. -/
  frames : List (List Piece) := []
  /-- The blocks on the heap, in the order they were made. -/
  blocks : List Piece := []

namespace Ledger

/-- All slots, in the order they were made. -/
def slots (L : Ledger) : List Piece := L.frames.reverse.flatten

/-- The ledger with what has been handed out. A slot goes to the innermost call. -/
def add (L : Ledger) : Option Grant → Ledger
  | some (.slot s) =>
    match L.frames with
    | frame :: rest => { L with frames := (frame ++ [s]) :: rest }
    | [] => L
  | some (.block s) => { L with blocks := L.blocks ++ [s] }
  | none => L

/-- The ledger when so many calls are open: one that is not open any more has no slots, and one that has just
been opened has none yet. -/
def withCalls (L : Ledger) (count : Nat) : Ledger :=
  { L with frames :=
      if L.frames.length < count then [] :: L.frames else L.frames.drop (L.frames.length - count) }

variable {L : Ledger} {n : Nat} {frame : List Piece} {rest : List (List Piece)}

theorem length_frames_add (L : Ledger) (grant : Option Grant) :
    (L.add grant).frames.length = L.frames.length := by
  obtain ⟨frames, blocks⟩ := L
  rcases grant with _ | s | s
  · rfl
  · cases frames <;> rfl
  · rfl

/-- A new slot is behind all others. -/
theorem slots_add_slot (L : Ledger) (s : Piece) (h : L.frames ≠ []) :
    (L.add (some (.slot s))).slots = L.slots ++ [s] := by
  obtain ⟨frame, rest, hframes⟩ := List.exists_cons_of_ne_nil h
  simp only [slots, add, hframes, List.reverse_cons, List.flatten_append, List.flatten_singleton,
    List.append_assoc]

theorem withCalls_same (h : L.frames.length = n) : L.withCalls n = L := by
  rw [withCalls, if_neg (by omega), h, Nat.sub_self, List.drop_zero]

theorem withCalls_opened (h : L.frames.length = n) :
    L.withCalls (n + 1) = { L with frames := [] :: L.frames } := by
  rw [withCalls, if_pos (by omega)]

theorem withCalls_closed (hframes : L.frames = frame :: rest) (h : rest.length = n) :
    L.withCalls n = { L with frames := rest } := by
  have hdrop : L.frames.length - n = 1 := by
    rw [hframes, List.length_cons, h]
    omega
  rw [withCalls, if_neg (by omega), hdrop, hframes]
  rfl

end Ledger

/-! ### Stages of a run -/

/-- The machine that a step leads to. After an error all calls are still open. -/
def Progress.machine (calls : List Activation) : Progress → Machine
  | .running m => m
  | .returned _ world => ⟨world, []⟩
  | .failed _ world => ⟨world, calls⟩

/-- What has gone wrong in a step. -/
def Progress.fault? : Progress → Option RunError
  | .failed e _ => some e
  | _ => none

/-- A moment of a run, with the storage that is in use. -/
structure Stage where
  machine : Machine
  ledger : Ledger := {}
  /-- What has gone wrong. Nothing is run any more then, and the open calls are given up. -/
  fault : Option RunError := none

namespace Stage

/-- The world at a stage. -/
abbrev world (s : Stage) : World := s.machine.world

/-- The calls that are open at a stage. -/
abbrev calls (s : Stage) : List Activation := s.machine.calls

/-- The stage with another machine, after something may have been handed out and calls have been opened or
given up. -/
def move (s : Stage) (m : Machine) (grant : Option Grant := none) (fault : Option RunError := none) :
    Stage :=
  ⟨m, (s.ledger.add grant).withCalls m.calls.length, fault⟩

/-- A function is called while no call is open: a startup routine, or `main`. A library routine answers at
once, and does not open a call. -/
def call (p : Program) (id : FuncId) (s : Stage) : Stage :=
  match Exec.run (Machine.enter p id [] 0) s.world with
  | (.ok (.inr a), w) => s.move ⟨w, [a]⟩
  | (.ok (.inl _), w) => s.move ⟨w, []⟩
  | (.error e, w) => s.move ⟨w, []⟩ none (some e)

/-- A step is taken. -/
def step (p : Program) (s : Stage) : Stage :=
  s.move ((Machine.step p s.machine).machine s.calls) (s.machine.grant? p)
    (Machine.step p s.machine).fault?

/-- What comes next in a run. -/
inductive Next (p : Program) (s : Stage) : Stage → Prop
  | called (id : FuncId) (hfault : s.fault = none) (hcalls : s.calls = []) : Next p s (s.call p id)
  | stepped (hfault : s.fault = none) : Next p s (s.step p)
  /-- After an error, the innermost call is given up. -/
  | unwound {e : RunError} {a : Activation} {below : List Activation} (hfault : s.fault = some e)
      (hcalls : s.calls = a :: below) :
      Next p s (s.move ⟨{ s.world with stackEnd := a.stackEnd }, below⟩ none (some e))

/-- The stage after the globals have been loaded. -/
def load (p : Program) : Stage :=
  match Exec.run (World.loadGlobals p) {} with
  | (.ok _, w) => { machine := ⟨w, []⟩ }
  | (.error e, w) => { machine := ⟨w, []⟩, fault := some e }

end Stage

/-- The stage comes up when the program is run: the globals are loaded, and then functions are called one after
the other, as the startup routines and `main` are. -/
inductive Program.Reaches (p : Program) : Stage → Prop
  | load : Reaches p (.load p)
  | next {s s' : Stage} (h : Reaches p s) (hnext : s.Next p s') : Reaches p s'

/-! ### Changes -/

/-- Where the stack ended before each of some calls. -/
def savedEnds (calls : List Activation) : List Nat := calls.map (·.stackEnd)

namespace Machine

/-- What a move of the machine may do to storage, and what is handed out thereby. -/
inductive Change (p : Program) : Machine → Option Grant → Machine → Prop
  /-- Storage is left alone. -/
  | printed {w w' : World} {calls calls' : List Activation} (hworld : w.Prints w')
      (hsaved : savedEnds calls' = savedEnds calls) : Change p ⟨w, calls⟩ none ⟨w', calls'⟩
  /-- Something is written. -/
  | wrote {m : Machine} {w' : World} {calls' : List Activation} (hwrites : m.Writes p)
      (hworld : m.world.Stays w') (hsaved : savedEnds calls' = savedEnds m.calls) :
      Change p m none ⟨w', calls'⟩
  | slot {w w' : World} {calls calls' : List Activation} {s : Piece} (hworld : w.Reserves s w')
      (hopen : calls ≠ []) (hsaved : savedEnds calls' = savedEnds calls) :
      Change p ⟨w, calls⟩ (some (.slot s)) ⟨w', calls'⟩
  | block {w w' : World} {calls calls' : List Activation} {s : Piece} (hworld : w.Grows s w')
      (hsaved : savedEnds calls' = savedEnds calls) :
      Change p ⟨w, calls⟩ (some (.block s)) ⟨w', calls'⟩
  /-- A call is opened. -/
  | opened {w w' : World} {a : Activation} {calls : List Activation} (hworld : w.Prints w')
      (hend : a.stackEnd = w.stackEnd) : Change p ⟨w, calls⟩ none ⟨w', a :: calls⟩
  /-- The innermost call returns, or is given up. -/
  | closed {w w' : World} {a : Activation} {below calls' : List Activation} (hworld : w.Prints w')
      (hsaved : savedEnds calls' = savedEnds below) :
      Change p ⟨w, a :: below⟩ none ⟨{ w' with stackEnd := a.stackEnd }, calls'⟩

variable {p : Program} {f : Function} {a : Activation} {below : List Activation} {w w' : World}

/-- No change moves the globals. -/
theorem Change.globals {m m' : Machine} {grant : Option Grant} (h : Change p m grant m') :
    m'.world.globals = m.world.globals := by
  cases h with
  | printed hworld => exact hworld.stays.globals
  | wrote _ hworld => exact hworld.globals
  | slot hworld => rw [hworld.world]
  | block hworld => rw [hworld.world]
  | opened hworld => exact hworld.stays.globals
  | closed hworld => exact hworld.stays.globals

/-! ### Calls -/

theorem stackEnd_of_activate {id : FuncId} {args : List RunValue} {depth : Nat}
    (h : Exec.run (activate f id args depth) w = (.ok a, w')) : a.stackEnd = w.stackEnd := by
  obtain ⟨-, h⟩ := Exec.run_guard_ok h
  split at h
  · exact absurd (congrArg Prod.fst h) (by simp)
  · obtain ⟨rest, w₁, hstart, h⟩ := Exec.run_bind_ok h
    obtain ⟨w₂, w₃, hget, h⟩ := Exec.run_bind_ok h
    rw [Exec.run_liftM] at hstart
    obtain ⟨-, rfl⟩ := Prod.mk.inj hstart
    obtain ⟨hget, -⟩ := Prod.mk.inj hget
    obtain ⟨h, -⟩ := Prod.mk.inj h
    rw [← Except.ok.inj h]

/-- What calling a function comes to: a block is handed out, of the size asked for; or nothing is, and a call
may be opened. -/
inductive Entered (w w' : World) : Option Nat → Except RunError (RunValue ⊕ Activation) → Prop
  | block {size : Nat} {q : UInt64} (hworld : w.Grows ⟨q.toNat, size, Memory.heapAlign⟩ w') :
      Entered w w' (some size) (.ok (.inl (.pointer q)))
  | answered {v : RunValue} (hworld : w.Prints w') : Entered w w' none (.ok (.inl v))
  | opened {a : Activation} (hworld : w.Prints w') (hend : a.stackEnd = w.stackEnd) :
      Entered w w' none (.ok (.inr a))
  | failed {size : Option Nat} {e : RunError} (hworld : w.Prints w') : Entered w w' size (.error e)

theorem entered_of_malloc {id : FuncId} {args : List RunValue} {o : Except RunError RunValue}
    (hf : p.module.function? id = some f) (hdecl : f.isDeclaration) (hname : f.name = "malloc")
    (h : Exec.run (Library.call f.name args) w = (o, w')) :
    Entered w w' (p.asked? id args) (o.map .inl) := by
  rw [hname] at h
  rcases Library.malloc_cases h with ⟨⟨e, rfl⟩, rfl⟩ | ⟨v, n, q, hv, hn, rfl, hgrows⟩
  · exact .failed rfl
  · have hasked : p.asked? id args = some (Signed.word (max n 0)) := by
      simp [Program.asked?, hf, hdecl, hname, hv, hn, Except.toOption]
    rw [hasked]
    exact .block hgrows

theorem entered_of_call {id : FuncId} {args : List RunValue} {o : Except RunError RunValue}
    (hf : p.module.function? id = some f) (hdecl : f.isDeclaration)
    (h : Exec.run (Library.call f.name args) w = (o, w')) :
    Entered w w' (p.asked? id args) (o.map .inl) := by
  by_cases hname : f.name = "malloc"
  · exact entered_of_malloc hf hdecl hname h
  · have hasked : p.asked? id args = none := by simp [Program.asked?, hf, hname]
    have hprints := Library.moves_call hname args w
    rw [h] at hprints
    rw [hasked]
    cases o with
    | error e => exact .failed hprints
    | ok v => exact .answered hprints

theorem entered_of_enter {id : FuncId} {args : List RunValue} {depth : Nat}
    {o : Except RunError (RunValue ⊕ Activation)} (h : Exec.run (enter p id args depth) w = (o, w')) :
    Entered w w' (p.asked? id args) o := by
  unfold enter at h
  cases hf : p.module.function? id with
  | none =>
    rw [hf] at h
    obtain ⟨rfl, rfl⟩ := Prod.mk.inj h
    exact .failed rfl
  | some f =>
    simp only [hf] at h
    split at h
    · next hdecl =>
      rw [Exec.run_bind] at h
      rcases hrun : Exec.run (Library.call f.name args) w with ⟨e | v, w₁⟩ <;> rw [hrun] at h
      · obtain ⟨rfl, rfl⟩ := Prod.mk.inj h
        exact entered_of_call hf hdecl hrun
      · obtain ⟨rfl, rfl⟩ := Prod.mk.inj h
        exact entered_of_call hf hdecl hrun
    · next hbody =>
      have hasked : p.asked? id args = none := by simp [Program.asked?, hf, hbody]
      have hprints := moves_activate f id args depth w
      rw [Exec.run_bind] at h
      rcases hrun : Exec.run (activate f id args depth) w with ⟨e | a, w₁⟩ <;> rw [hrun] at h hprints
      · obtain ⟨rfl, rfl⟩ := Prod.mk.inj h
        exact .failed hprints
      · obtain ⟨rfl, rfl⟩ := Prod.mk.inj h
        rw [hasked]
        exact .opened hprints (stackEnd_of_activate hrun)

/-- Without arguments, no block is handed out. -/
theorem entered_of_root {id : FuncId} {depth : Nat} {o : Except RunError (RunValue ⊕ Activation)}
    (h : Exec.run (enter p id [] depth) w = (o, w')) : Entered w w' none o :=
  p.asked?_nil id ▸ entered_of_enter h

theorem entered_of_callFrom {callee : Operand} {args : List Operand} {depth : Nat}
    {o : Except RunError (RunValue ⊕ Activation)}
    (h : Exec.run (callFrom p a callee args depth) w = (o, w')) :
    Entered w w' (asked? p a callee args w) o := by
  unfold callFrom at h
  rw [Exec.run_bind] at h
  have haddress : w = _ := moves_address (R := Eq) p a callee w
  rcases htarget : Exec.run (address p a callee) w with ⟨e | target, w₁⟩ <;>
    rw [htarget] at h haddress <;> subst haddress
  · obtain ⟨rfl, rfl⟩ := Prod.mk.inj h
    exact .failed rfl
  replace h : (if target.toNat < Memory.functionBase then (.error (.callThrough target), w) else
      Exec.run (valuesOf p a args >>= fun values => enter p ⟨target.toNat - Memory.functionBase⟩ values depth)
        w) = (o, w') := Exec.run_guard.symm.trans h
  split at h
  · obtain ⟨rfl, rfl⟩ := Prod.mk.inj h
    exact .failed rfl
  rw [Exec.run_bind] at h
  have hvalues : w = _ := moves_valuesOf (R := Eq) p a args w
  rcases hargs : Exec.run (valuesOf p a args) w with ⟨e | values, w₁⟩ <;>
    rw [hargs] at h hvalues <;> subst hvalues
  · obtain ⟨rfl, rfl⟩ := Prod.mk.inj h
    exact .failed rfl
  have hasked : asked? p a callee args w =
      p.asked? ⟨target.toNat - Memory.functionBase⟩ values := by
    rw [asked?, htarget, hargs, toOption_ok_bind, toOption_ok_bind]
  rw [hasked]
  exact entered_of_enter h

/-! ### Steps -/

theorem savedEnds_deliver (v : RunValue) (below : List Activation) :
    savedEnds (a.deliver v :: below) = savedEnds (a :: below) := by
  have hend : (a.deliver v).stackEnd = a.stackEnd := by
    unfold Activation.deliver
    split <;> rfl
  rw [savedEnds, List.map_cons, hend]
  rfl

theorem change_stepCall (callee : Operand) (args : List Operand) :
    Change p ⟨w, a :: below⟩ (grantOf? p a (below.length + 1) w (.call callee args))
      ((stepCall p a below callee args w).machine (a :: below)) := by
  rcases hrun : Exec.run (callFrom p a callee args (below.length + 1)) w with ⟨o, w'⟩
  have hentered := entered_of_callFrom hrun
  rw [stepCall, grantOf?, hrun]
  generalize asked? p a callee args w = size at hentered ⊢
  cases hentered with
  | block hworld => exact .block hworld (savedEnds_deliver _ below)
  | answered hworld => exact .printed hworld (savedEnds_deliver _ below)
  | opened hworld hend => exact .opened hworld hend
  | failed hworld => cases size <;> exact .printed hworld rfl

theorem change_stepInstruction {id : InstId} {inst : Inst} {depth : Nat}
    (hnext : next? p ⟨w, a :: below⟩ = some inst)
    (hcall : ∀ callee args, inst.kind ≠ .call callee args) :
    Change p ⟨w, a :: below⟩ (grantOf? p a depth w inst.kind)
      ((stepInstruction p f a below id inst w).machine (a :: below)) := by
  have hmachine : ∃ calls', (stepInstruction p f a below id inst w).machine (a :: below) =
      ⟨(Exec.run (instruction p f a id inst) w).2, calls'⟩ ∧ savedEnds calls' = savedEnds (a :: below) := by
    unfold stepInstruction
    rcases Exec.run (instruction p f a id inst) w with ⟨e | v, w'⟩
    · exact ⟨_, rfl, rfl⟩
    · exact ⟨_, rfl, savedEnds_deliver v below⟩
  obtain ⟨calls', hmachine, hsaved⟩ := hmachine
  rw [hmachine]
  cases hslot : inst.kind.isAlloca with
  | true =>
    obtain ⟨ty, hkind⟩ : ∃ ty, inst.kind = .alloca ty := by
      cases hkind : inst.kind <;> first
        | exact ⟨_, rfl⟩
        | simp [hkind, InstKind.isAlloca] at hslot
    have hrun : instruction p f a id inst = World.alloca p ty := by rw [instruction, hkind]
    rw [hkind, hrun, grantOf?]
    rcases halloca : Exec.run (World.alloca p ty) w with ⟨o, w'⟩
    rcases World.alloca_cases p ty halloca with ⟨⟨e, rfl⟩, rfl⟩ | ⟨q, rfl, hreserves⟩
    · exact .printed rfl hsaved
    · exact .slot hreserves (List.cons_ne_nil _ _) hsaved
  | false =>
    have hgrant : grantOf? p a depth w inst.kind = none := by
      cases hkind : inst.kind <;> first
        | rfl
        | exact absurd hkind (hcall _ _)
        | simp [hkind, InstKind.isAlloca] at hslot
    rw [hgrant]
    cases hwrites : inst.kind.writes with
    | true =>
      have hnextWrites : Writes p ⟨w, a :: below⟩ := by rw [Writes, hnext, Option.any_some, hwrites]
      exact .wrote hnextWrites (stays_instruction p f a id hwrites w) hsaved
    | false => exact .printed (moves_instruction p f a id hslot hwrites w) hsaved

theorem change_stepJump :
    Change p ⟨w, a :: below⟩ none ((stepJump p f a below w).machine (a :: below)) := by
  have hprints := moves_follow p f a ((f.block? a.block).bind Block.term) w
  unfold stepJump
  rcases hrun : Exec.run (follow p f a ((f.block? a.block).bind Block.term)) w with ⟨e | v | target, w'⟩ <;>
    rw [hrun] at hprints
  · exact .printed hprints rfl
  · dsimp only [leave]
    split
    · exact .closed hprints rfl
    · exact .closed hprints (savedEnds_deliver v _)
  · dsimp only
    split
    · exact .printed hprints rfl
    · exact .printed hprints rfl

section Next

variable {id : InstId} {rest : List InstId} {inst : Inst} (hf : p.module.function? a.func = some f)
  (hrest : a.rest = id :: rest) (hinst : f.inst? id = some inst)

include hf hrest hinst

theorem step_of_call {callee : Operand} {args : List Operand} (hkind : inst.kind = .call callee args) :
    step p ⟨w, a :: below⟩ = stepCall p a below callee args w := by
  obtain ⟨kind, ty⟩ := inst
  obtain rfl : kind = .call callee args := hkind
  simp only [step, hf, hrest, hinst]

theorem step_of_not_call (hkind : ∀ callee args, inst.kind ≠ .call callee args) :
    step p ⟨w, a :: below⟩ = stepInstruction p f a below id inst w := by
  obtain ⟨kind, ty⟩ := inst
  cases kind with
  | call callee args => exact absurd rfl (hkind callee args)
  | alloca | load | store | binary | cmp | cast | offset | field | phi | copy =>
    simp only [step, hf, hrest, hinst]

end Next

/-- **What a step does to storage** is one of the changes. -/
theorem change_step (p : Program) (m : Machine) :
    Change p m (m.grant? p) ((step p m).machine m.calls) := by
  obtain ⟨w, calls⟩ := m
  cases calls with
  | nil => exact .printed rfl rfl
  | cons a below =>
    cases hf : p.module.function? a.func with
    | none =>
      have hgrant : grant? p ⟨w, a :: below⟩ = none := by simp [grant?, next?, hf]
      rw [hgrant, step, hf]
      exact .printed rfl rfl
    | some f =>
      cases hrest : a.rest with
      | nil =>
        have hgrant : grant? p ⟨w, a :: below⟩ = none := by simp [grant?, next?, hrest]
        have hstep : step p ⟨w, a :: below⟩ = stepJump p f a below w := by simp only [step, hf, hrest]
        rw [hgrant, hstep]
        exact change_stepJump
      | cons id rest =>
        have hnext : next? p ⟨w, a :: below⟩ = f.inst? id := by simp [next?, hf, hrest]
        cases hinst : f.inst? id with
        | none =>
          have hgrant : grant? p ⟨w, a :: below⟩ = none := by simp [grant?, hnext, hinst]
          have hstep : step p ⟨w, a :: below⟩ = .failed (.notComputed id) w := by
            simp only [step, hf, hrest, hinst]
          rw [hgrant, hstep]
          exact .printed rfl rfl
        | some inst =>
          rw [hinst] at hnext
          have hgrant : grant? p ⟨w, a :: below⟩ = grantOf? p a (below.length + 1) w inst.kind := by
            simp [grant?, hnext]
          rw [hgrant]
          by_cases hcall : ∃ callee args, inst.kind = .call callee args
          · obtain ⟨callee, args, hkind⟩ := hcall
            rw [step_of_call hf hrest hinst hkind, hkind]
            exact change_stepCall callee args
          · have hother : ∀ callee args, inst.kind ≠ .call callee args := fun callee args hkind =>
              hcall ⟨callee, args, hkind⟩
            rw [step_of_not_call hf hrest hinst hother]
            exact change_stepInstruction hnext hother

end Machine

namespace Stage

variable {p : Program} {s s' : Stage}

/-- What happens from one stage to the next is one of the changes. -/
theorem Next.change (h : s.Next p s') : ∃ m grant fault,
    s' = s.move m grant fault ∧ Machine.Change p s.machine grant m := by
  obtain ⟨⟨w, calls⟩, L, e⟩ := s
  cases h with
  | called id hfault hcalls =>
    obtain rfl : calls = [] := hcalls
    rcases hrun : Exec.run (Machine.enter p id [] 0) w with ⟨o, w'⟩
    rw [call, hrun]
    cases Machine.entered_of_root hrun with
    | answered hworld => exact ⟨_, _, _, rfl, .printed hworld rfl⟩
    | opened hworld hend => exact ⟨_, _, _, rfl, .opened hworld hend⟩
    | failed hworld => exact ⟨_, _, _, rfl, .printed hworld rfl⟩
  | stepped hfault => exact ⟨_, _, _, rfl, Machine.change_step p _⟩
  | unwound hfault hcalls =>
    obtain rfl : calls = _ := hcalls
    exact ⟨_, _, _, rfl, .closed rfl rfl⟩

end Stage

/-! ### Runs -/

namespace Program

variable {p : Program} {s : Stage} {steps : Nat} {w w' : World}

/-- A stage in this world comes up, and after success it is one where no call is open. -/
def Leads (p : Program) (w : World) (success : Prop) : Prop :=
  ∃ s, p.Reaches s ∧ s.world = w ∧ (success → s.calls = [] ∧ s.fault = none)

theorem not_ok {α : Type} (e : RunError) : ¬ ∃ v, (.error e : Except RunError α) = .ok v := by
  rintro ⟨v, h⟩
  cases h

theorem leads_of_run {o : Except RunError RunValue} (h : p.Reaches s) (hfault : s.fault = none)
    (hrun : Machine.run p steps s.machine = some (o, w)) : p.Leads w (∃ v, o = .ok v) := by
  induction steps generalizing s with
  | zero => cases hrun
  | succ steps ih =>
    have hnext := h.next (.stepped hfault)
    unfold Stage.step at hnext
    rw [Machine.run] at hrun
    generalize s.machine.grant? p = grant at hnext
    cases hstep : Machine.step p s.machine with
    | running m =>
      rw [hstep] at hrun hnext
      exact ih hnext rfl hrun
    | returned v w' =>
      rw [hstep] at hrun hnext
      obtain ⟨rfl, rfl⟩ := Prod.mk.inj (Option.some.inj hrun)
      exact ⟨_, hnext, rfl, fun _ => ⟨rfl, rfl⟩⟩
    | failed e w' =>
      rw [hstep] at hrun hnext
      obtain ⟨rfl, rfl⟩ := Prod.mk.inj (Option.some.inj hrun)
      exact ⟨_, hnext, rfl, fun h => absurd h (not_ok e)⟩

theorem leads_of_call {id : FuncId} {o : Except RunError RunValue} (h : p.Leads w' True)
    (hcall : p.call steps id w' = some (o, w)) : p.Leads w (∃ v, o = .ok v) := by
  obtain ⟨s, hs, rfl, hidle⟩ := h
  obtain ⟨hcalls, hfault⟩ := hidle trivial
  have hnext := hs.next (.called id hfault hcalls)
  unfold Stage.call at hnext
  unfold call at hcall
  rcases hrun : Exec.run (Machine.enter p id [] 0) s.world with ⟨e | v | a, w₁⟩ <;> rw [hrun] at hcall hnext
  · obtain ⟨rfl, rfl⟩ := Prod.mk.inj (Option.some.inj hcall)
    exact ⟨_, hnext, rfl, fun h => absurd h (not_ok e)⟩
  · obtain ⟨rfl, rfl⟩ := Prod.mk.inj (Option.some.inj hcall)
    exact ⟨_, hnext, rfl, fun _ => ⟨rfl, rfl⟩⟩
  · exact leads_of_run hnext rfl hcall

theorem leads_of_callEach {ids : List FuncId} {o : Except RunError Unit} (h : p.Leads w' True)
    (hcalls : p.callEach steps ids w' = some (o, w)) : p.Leads w (∃ v, o = .ok v) := by
  induction ids generalizing w' with
  | nil =>
    obtain ⟨rfl, rfl⟩ := Prod.mk.inj (Option.some.inj hcalls)
    obtain ⟨s, hs, hw, hidle⟩ := h
    exact ⟨s, hs, hw, fun _ => hidle trivial⟩
  | cons id ids ih =>
    unfold callEach at hcalls
    obtain ⟨⟨o₁, w₁⟩, hcall, hcalls⟩ := Option.bind_eq_some_iff.1 hcalls
    obtain ⟨s, hs, hw, hidle⟩ := leads_of_call h hcall
    cases o₁ with
    | error e =>
      obtain ⟨rfl, rfl⟩ := Prod.mk.inj (Option.some.inj hcalls)
      exact ⟨s, hs, hw, fun h => absurd h (not_ok e)⟩
    | ok v => exact ih ⟨s, hs, hw, fun _ => hidle ⟨v, rfl⟩⟩ hcalls

/-- **Running a program goes through stages**, to one in the world that it leaves. -/
theorem reaches_of_execute {o : Except RunError Int} (h : p.execute steps = some (o, w)) :
    ∃ s, p.Reaches s ∧ s.world = w := by
  have hstart := Reaches.load (p := p)
  unfold Stage.load at hstart
  unfold execute at h
  rcases hload : Exec.run (World.loadGlobals p) {} with ⟨e | u, w₁⟩ <;> rw [hload] at h hstart
  · obtain ⟨rfl, rfl⟩ := Prod.mk.inj (Option.some.inj h)
    exact ⟨_, hstart, rfl⟩
  · obtain ⟨⟨o₂, w₂⟩, heach, h⟩ := Option.bind_eq_some_iff.1 h
    obtain ⟨s, hs, hw, hidle⟩ := leads_of_callEach ⟨_, hstart, rfl, fun _ => ⟨rfl, rfl⟩⟩ heach
    cases o₂ with
    | error e =>
      obtain ⟨rfl, rfl⟩ := Prod.mk.inj (Option.some.inj h)
      exact ⟨s, hs, hw⟩
    | ok v =>
      dsimp only at h
      split at h
      · obtain ⟨rfl, rfl⟩ := Prod.mk.inj (Option.some.inj h)
        exact ⟨s, hs, hw⟩
      · obtain ⟨⟨o₃, w₃⟩, hmain, h⟩ := Option.bind_eq_some_iff.1 h
        obtain ⟨rfl, rfl⟩ := Prod.mk.inj (Option.some.inj h)
        obtain ⟨s, hs, hw, -⟩ := leads_of_call ⟨s, hs, hw, fun _ => hidle ⟨v, rfl⟩⟩ hmain
        exact ⟨s, hs, hw⟩

end Program

end TreeFlow
