import TreeFlow.Machine.Evaluate
import TreeFlow.Machine.Library

/-!
# Steps of a running program

The machine runs one instruction or one jump at a time. The calls that are open form a stack of
activations; each has its arguments, the values it has computed, and its place: the block, what
is left of it, and the block that control came from. A call leaves its instruction in place until
the function it entered returns, and then takes the result as the value of that instruction.
-/

namespace TreeFlow

/-- A call that has not returned. -/
structure Activation where
  func : FuncId
  args : List RunValue
  /-- What each instruction of the function has yielded, as far as it has run. -/
  values : Array (Option RunValue)
  block : BlockId
  /-- What is left of the block. -/
  rest : List InstId
  /-- The block that control came from. -/
  prev : Option BlockId := none
  /-- Where the stack ended before the call. -/
  stackEnd : Nat
  deriving Inhabited

/-- An activation whose next instruction has just yielded a value. -/
def Activation.deliver (a : Activation) (v : RunValue) : Activation :=
  match a.rest with
  | [] => a
  | id :: rest => { a with values := a.values.setIfInBounds id.index (some v), rest }

/-- The state of a running program. -/
structure Machine where
  world : World := {}
  /-- The open calls, the innermost first. -/
  calls : List Activation := []
  deriving Inhabited

/-- What a step leads to. -/
inductive Progress where
  | running (m : Machine)
  | returned (v : RunValue) (world : World)
  | failed (e : RunError) (world : World)

namespace Machine

/-- How many calls may be open at once. -/
def maxCalls : Nat := 2048

/-! ### Operands -/

/-- The value of an operand. -/
def operand (p : Program) (globals : Array UInt64) (a : Activation) :
    Operand → Except RunError RunValue
  | .const c => World.constant p globals c
  | .inst id =>
    match a.values[id.index]? with
    | some (some v) => .ok v
    | _ => .error (.notComputed id)
  | .arg i =>
    match a.args[i]? with
    | some v => .ok v
    | none => .error (.missingArgument i)

/-- The value of an operand, in the world at hand. -/
def value (p : Program) (a : Activation) (op : Operand) : Exec RunValue :=
  World.query fun w => operand p w.globals a op

/-- The address that an operand stands for. -/
def address (p : Program) (a : Activation) (op : Operand) : Exec UInt64 := do
  (← value p a op).address?

/-! ### Instructions -/

/-- The address some elements past a pointer of some type. -/
def offset (p : Program) (a : Activation) (ptr index : Operand) (ty : Ty) : Exec RunValue := do
  match ty.pointee? with
  | none => throw (.offsetOfNonPointer ty)
  | some element =>
    let stride ← p.sizeOf element
    let base ← address p a ptr
    let i ← (← value p a index).int?
    return .pointer (.ofNat (Signed.word (base.toNat + i * stride)))

/-- The address of a field, given the type of the pointer. -/
def field (p : Program) (a : Activation) (base : Operand) (index : Nat) (ty : Ty) :
    Exec RunValue := do
  match ty.pointee? with
  | none => throw (.fieldOfNonPointer ty)
  | some aggregate =>
    let place ← p.fieldOffset aggregate index
    return .pointer ((← address p a base) + .ofNat place)

/-- The value that comes with the block control came from. -/
def incoming (p : Program) (a : Activation) (id : InstId) (sources : List (Operand × BlockId)) :
    Exec RunValue :=
  match sources.find? fun (_, block) => a.prev == some block with
  | some (v, _) => value p a v
  | none => throw (.noIncoming id)

/-- Runs an instruction that is not a call. -/
def instruction (p : Program) (f : Function) (a : Activation) (id : InstId) (inst : Inst) :
    Exec RunValue := do
  match inst.kind with
  | .alloca ty => World.alloca p ty
  | .load ptr => World.load p (← address p a ptr) inst.ty
  | .store ptr v =>
    let target ← address p a ptr
    World.store p target (f.operandTy v) (← value p a v)
    return .void
  | .copy dst src ty =>
    let target ← address p a dst
    let source ← address p a src
    let size ← p.sizeOf ty
    World.storeBytes target (← World.loadBytes source size)
    return .void
  | .binary op l r =>
    let x ← value p a l
    op.eval x (← value p a r) inst.ty
  | .cmp op l r =>
    let x ← value p a l
    return .int (if ← op.eval x (← value p a r) then 1 else 0)
  | .cast op v => op.eval (← value p a v) (f.operandTy v) inst.ty
  | .offset ptr index => offset p a ptr index inst.ty
  | .field base index => field p a base index (f.operandTy base)
  | .phi sources => incoming p a id sources
  | .call .. => return .void

/-! ### Calls and jumps -/

/-- What is left of a block that is entered: all of its instructions. -/
def blockStart (f : Function) (id : BlockId) : Except RunError (List InstId) :=
  match f.block? id with
  | some b => .ok b.insts
  | none => .error (.missingBlock id)

/-- Opens a call of a function with a body, with so many calls open already. -/
def activate (f : Function) (id : FuncId) (args : List RunValue) (depth : Nat) :
    Exec Activation := do
  if maxCalls ≤ depth then throw (.tooDeep f.name)
  match f.entry? with
  | none => throw (.noBody f.name)
  | some entry =>
    return {
      func := id, args, values := Array.replicate f.insts.size none
      block := entry, rest := ← blockStart f entry, stackEnd := (← get).stackEnd }

/-- Calls a function: opens a call, or yields what a library routine returns. -/
def enter (p : Program) (id : FuncId) (args : List RunValue) (depth : Nat) :
    Exec (RunValue ⊕ Activation) := do
  match p.module.function? id with
  | none => throw (.notFunction id)
  | some f =>
    if f.isDeclaration then return .inl (← Library.call f.name args)
    else return .inr (← activate f id args depth)

/-- The values of some operands, from the first to the last. -/
def valuesOf (p : Program) (a : Activation) : List Operand → Exec (List RunValue)
  | [] => pure []
  | op :: ops => do
    let v ← value p a op
    return v :: (← valuesOf p a ops)

/-- Runs a call instruction. -/
def callFrom (p : Program) (a : Activation) (callee : Operand) (args : List Operand)
    (depth : Nat) : Exec (RunValue ⊕ Activation) := do
  let target ← address p a callee
  if target.toNat < Memory.functionBase then throw (.callThrough target)
  let args ← valuesOf p a args
  enter p ⟨target.toNat - Memory.functionBase⟩ args depth

/-- Where a terminator leads: to a block, or back with a value. -/
def follow (p : Program) (f : Function) (a : Activation) :
    Option Terminator → Exec (RunValue ⊕ BlockId)
  | none => throw (.openBlock a.block f.name)
  | some (.ret (some v)) => do return .inl (← value p a v)
  | some (.ret none) => return .inl .void
  | some (.goto target) => return .inr target
  | some (.branch cond yes no) => do
    return .inr (if ← (← value p a cond).truth? then yes else no)
  | some .unreachable => throw (.reachedUnreachable f.name)

/-- The state when the innermost call returns a value: its stack slots are given up, and the caller
goes on. -/
def leave (a : Activation) (below : List Activation) (v : RunValue) (world : World) : Progress :=
  let world := { world with stackEnd := a.stackEnd }
  match below with
  | [] => .returned v world
  | caller :: rest => .running ⟨world, caller.deliver v :: rest⟩

/-- The step that a call instruction takes. -/
def stepCall (p : Program) (a : Activation) (below : List Activation) (callee : Operand)
    (args : List Operand) (world : World) : Progress :=
  match Exec.run (callFrom p a callee args (below.length + 1)) world with
  | (.ok (.inl v), world) => .running ⟨world, a.deliver v :: below⟩
  | (.ok (.inr opened), world) => .running ⟨world, opened :: a :: below⟩
  | (.error e, world) => .failed e world

/-- The step that any other instruction takes. -/
def stepInstruction (p : Program) (f : Function) (a : Activation) (below : List Activation)
    (id : InstId) (inst : Inst) (world : World) : Progress :=
  match Exec.run (instruction p f a id inst) world with
  | (.ok v, world) => .running ⟨world, a.deliver v :: below⟩
  | (.error e, world) => .failed e world

/-- The step at the end of a block. -/
def stepJump (p : Program) (f : Function) (a : Activation) (below : List Activation)
    (world : World) : Progress :=
  match Exec.run (follow p f a ((f.block? a.block).bind Block.term)) world with
  | (.error e, world) => .failed e world
  | (.ok (.inl v), world) => leave a below v world
  | (.ok (.inr target), world) =>
    match blockStart f target with
    | .error e => .failed e world
    | .ok rest =>
      .running ⟨world, { a with block := target, rest, prev := some a.block } :: below⟩

/-- One step of a running program. -/
def step (p : Program) (m : Machine) : Progress :=
  match m with
  | ⟨world, []⟩ => .returned .void world
  | ⟨world, a :: below⟩ =>
    match p.module.function? a.func with
    | none => .failed (.notFunction a.func) world
    | some f =>
      match a.rest with
      | [] => stepJump p f a below world
      | id :: _ =>
        match f.inst? id with
        | none => .failed (.notComputed id) world
        | some ⟨.call callee args, _⟩ => stepCall p a below callee args world
        | some inst => stepInstruction p f a below id inst world

end Machine

end TreeFlow
