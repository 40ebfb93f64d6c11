import TreeFlow.Flow.Basic
import TreeFlow.Machine.Memory

/-!
# The world of a running program

Everything that outlives a call: memory, where the globals are, where the stack ends, and what has
been printed. Slots on the stack are handed out upwards and cleared; what lies above the end of
the stack is free again.
-/

namespace TreeFlow

/-- What is fixed while a program runs. -/
structure Program where
  module : Module
  layout : Layout
  deriving Inhabited

namespace Program

/-- The size of a type. -/
def sizeOf (p : Program) (ty : Ty) : Except RunError Nat :=
  (p.layout.sizeOf p.module.types ty).mapError .noLayout

/-- The alignment of a type. -/
def alignOf (p : Program) (ty : Ty) : Except RunError Nat :=
  (p.layout.alignOf p.module.types ty).mapError .noLayout

/-- The offset of a field of an aggregate. -/
def fieldOffset (p : Program) (ty : Ty) (index : Nat) : Except RunError Nat :=
  (p.layout.fieldOffset p.module.types ty index).mapError .noLayout

end Program

/-- What changes while a program runs, apart from the calls that are open. -/
structure World where
  memory : Memory := {}
  /-- The address of each global. -/
  globals : Array UInt64 := #[]
  /-- The end of the stack. -/
  stackEnd : Nat := Memory.nullGuard
  /-- What has been printed. -/
  output : String := ""
  deriving Inhabited

/-- An operation of a running program. What was printed before an error stays printed. -/
abbrev Exec (α : Type) := ExceptT RunError (StateM World) α

/-- Carries out an operation in a world. -/
def Exec.run (m : Exec α) (w : World) : Except RunError α × World := m w

namespace World

/-- Something about the world. -/
def query (f : World → Except RunError α) : Exec α := fun w => (f w, w)

/-! ### Memory -/

/-- Where some bytes at an address lie. -/
def locate (address : UInt64) (length : Nat) : Exec Place :=
  query fun w => w.memory.locate address length

/-- The bytes at an address. -/
def loadBytes (address : UInt64) (length : Nat) : Exec (List UInt8) :=
  query fun w => w.memory.loadBytes address length

/-- Writes bytes at an address. -/
def storeBytes (address : UInt64) (contents : List UInt8) : Exec Unit := do
  let place ← locate address contents.length
  modify fun w => { w with memory := w.memory.putBytes place contents }

/-- Reads a value of a type. -/
def load (p : Program) (address : UInt64) (ty : Ty) : Exec RunValue := do
  let size ← p.sizeOf ty
  RunValue.decode? ty (← loadBytes address size)

/-- Writes a value as a type. -/
def store (p : Program) (address : UInt64) (ty : Ty) (v : RunValue) : Exec Unit := do
  let size ← p.sizeOf ty
  storeBytes address (← resizeBytes (← v.encode? ty) size)

/-- Hands out a cleared slot on the stack. -/
def alloca (p : Program) (ty : Ty) : Exec RunValue := do
  let size ← p.sizeOf ty
  let align ← p.alignOf ty
  let address := Memory.alignUp (← get).stackEnd align
  let stop := address + max size 1
  if Memory.addressLimit ≤ stop then throw .addressOverflow
  if Memory.stackLimit < stop then throw .stackOverflow
  modify fun w => { w with
    memory := w.memory.reserve address stop
    stackEnd := stop }
  return .pointer (.ofNat address)

/-- Hands out a cleared block on the heap. -/
def malloc (size : Nat) : Exec RunValue := do
  let start := Memory.alignUp (← get).memory.heap.size Memory.heapAlign
  let stop := (start + max size 1) % Memory.addressLimit
  if Memory.blockLimit ≤ stop then throw .addressOverflow
  modify fun w => { w with memory := w.memory.resizeHeap stop }
  return .pointer (.ofNat (Memory.heapBase + start))

/-- Prints a text. -/
def print (text : String) : Exec Unit := modify fun w => { w with output := w.output ++ text }

/-! ### Constants -/

/-- The value of a type whose bytes are all zero. -/
def zero (p : Program) (ty : Ty) : Except RunError RunValue :=
  match ty with
  | .void | .function .. => .ok .void
  | .bool | .int _ | .bitField _ => .ok (.int 0)
  | .float | .double => .ok (.float 0)
  | .pointer _ => .ok (.pointer 0)
  | .array .. | .struct _ | .union _ => do return .bytes (← resizeBytes [] (← p.sizeOf ty))

/-- The value of a constant, given where the globals are. -/
def constant (p : Program) (globals : Array UInt64) : Constant → Except RunError RunValue
  | .int v _ => .ok (.int v)
  | .float x | .double x => .ok (.float x)
  | .null _ => .ok (.pointer 0)
  | .zero ty | .undef ty => zero p ty
  | .bytes contents => .ok (.bytes contents)
  | .global id _ =>
    match globals[id.index]? with
    | some address => .ok (.pointer address)
    | none => .error (.noStorage id)
  | .function id _ => .ok (.pointer (.ofNat (Memory.functionBase + id.index)))

/-! ### Static data -/

/-- Places some globals one after the other from an address on; yields where each is, and the end
of the last. -/
def place (p : Program) : List Global → Nat → Except RunError (List UInt64 × Nat)
  | [], stop => .ok ([], stop)
  | g :: gs, free => do
    let size ← p.sizeOf g.ty
    let address := Memory.alignUp free (← p.alignOf g.ty)
    let (addresses, stop) ← place p gs ((address + max size 1) % Memory.addressLimit)
    return (.ofNat address :: addresses, stop)

/-- Writes the initial values of some globals. -/
def fillGlobals (p : Program) : List (Global × UInt64) → Exec Unit
  | [] => pure ()
  | (g, address) :: rest => do
    match g.init with
    | some c =>
      let globals := (← get).globals
      store p address g.ty (← constant p globals c)
    | none => pure ()
    fillGlobals p rest

/-- Gives every global its place and its initial value. -/
def loadGlobals (p : Program) : Exec Unit := do
  let globals := p.module.globals.toList
  let (addresses, stop) ← place p globals Memory.nullGuard
  if Memory.blockLimit ≤ stop then throw .addressOverflow
  modify fun w => { w with
    memory := w.memory.resizeLow stop
    globals := addresses.toArray
    stackEnd := stop }
  fillGlobals p (globals.zip addresses)

end World

end TreeFlow
