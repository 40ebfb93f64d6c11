import TreeFlow.Flow.Fold
import TreeFlow.Flow.Text
import TreeFlow.Text.Utf8

/-!
# Building flow graphs

A builder is a module with a cursor: the function being built and the block that takes the next
instruction. An operation on constants that can be folded yields a constant and emits nothing.
Code after a terminator goes to a fresh block, so a closed block stays as it is; stack slots are
the exception, they always go to the front of the entry block, where they dominate every use.

An operation either succeeds with a new builder, or fails and leaves the builder as it was. A
snapshot saves what is needed to throw away code that was only built to look at it.
-/

namespace TreeFlow

/-- A module under construction. -/
structure Builder where
  mod : Module
  /-- The function being built. -/
  func : Option FuncId := none
  /-- The block that takes the next instruction. -/
  block : Option BlockId := none
  deriving Inhabited

/-- Why the builder refused. -/
inductive BuildFault where
  | noFunction
  | noEntry
  /-- The cursor is at a block that the function does not have. -/
  | missingBlock (id : BlockId)
  deriving DecidableEq, Repr

/-- What is said of a refusal. -/
def BuildFault.message : BuildFault → String
  | noFunction => "No function is being built"
  | noEntry => "Function has no entry block"
  | missingBlock id => s!"There is no block {id.index}"

/-- An operation on a builder. -/
abbrev Build (α : Type) := StateT Builder (Except BuildFault) α

namespace Builder

/-- A builder of an empty module. -/
def ofName (name : String) : Builder := { mod := { name } }

/-! ### Functions -/

/-- Adds a function without a body. -/
def declareFunction (b : Builder) (name : String) (sig : Signature) (linkage : Linkage) :
    FuncId × Builder :=
  let (id, mod) := b.mod.addFunction { name, sig, linkage }
  (id, { b with mod })

/-- Changes the function being built; the cursor is left without a block. -/
def setFunction (b : Builder) (id : Option FuncId) : Builder :=
  { b with func := id, block := none }

/-- The function being built. -/
def function? (b : Builder) : Option Function := b.func >>= b.mod.function?

/-- Changes the block that takes the next instruction. -/
def setBlock (b : Builder) (id : BlockId) : Builder := { b with block := some id }

/-- Is the cursor at a closed block, or at none? Code emitted now could not be reached. -/
def isTerminated (b : Builder) : Bool :=
  match b.function?, b.block with
  | some f, some id => f.isTerminated id
  | _, _ => true

/-! ### Globals -/

/-- Adds a global; yields its address. -/
def addGlobal (b : Builder) (g : Global) : Constant × Builder :=
  let (id, mod) := b.mod.addGlobal g
  (.global id g.pointerTy, { b with mod })

/-- Adds a read-only copy of a text that ends in a zero byte; yields its address and the array
type. -/
def globalString (b : Builder) (s : String) : (Constant × Ty) × Builder :=
  let contents := Utf8.encode s ++ [0]
  let ty := Ty.array .char contents.length
  let (address, b) := b.addGlobal {
    name := s!".str.{b.mod.globals.size}"
    ty
    linkage := .internal
    init := some (.bytes contents)
    constant := true }
  ((address, ty), b)

/-- The address of a function. -/
def functionRef (b : Builder) (id : FuncId) : Constant :=
  let ty := ((b.mod.function? id).map fun f => Ty.ofSignature f.sig).getD .void
  .function id ty.pointerTo

end Builder

namespace Build

/-! ### The function being built -/

/-- The function being built, with its position. -/
def function : Build (FuncId × Function) := do
  let b ← get
  match b.func with
  | none => throw .noFunction
  | some id =>
    match b.mod.function? id with
    | none => throw .noFunction
    | some f => return (id, f)

/-- Changes the function being built and yields something. -/
def withFunction (change : Function → α × Function) : Build α := do
  let (id, f) ← function
  let (a, f) := change f
  modify fun b => { b with mod := b.mod.modifyFunction id fun _ => f }
  return a

/-- The type of an operand. -/
def operandTy (v : Operand) : Build Ty := do return (← function).2.operandTy v

/-! ### Blocks -/

/-- Creates a block at the end of the layout. -/
def newBlock : Build BlockId := withFunction Function.newBlock

/-- Creates a block that is laid out right before another one. -/
def newBlockBefore (anchor : BlockId) : Build BlockId := withFunction (·.newBlockBefore anchor)

/-- Moves a block so that it is laid out right after another one. -/
def moveBlockAfter (id anchor : BlockId) : Build Unit :=
  withFunction fun f => ((), f.moveBlockAfter id anchor)

/-- Is a block closed? -/
def isBlockTerminated (id : BlockId) : Build Bool := do
  return (← function).2.isTerminated id

/-- The blocks that may pass control to a block. -/
def predecessors (id : BlockId) : Build (List BlockId) := do
  return (← function).2.predecessors id

/-- The block that takes the next instruction. When there is none, or it is closed, a fresh one
is started. -/
def insertionBlock : Build BlockId := do
  let (_, f) ← function
  match (← get).block with
  | none => fresh
  | some id =>
    match f.block? id with
    | none => throw (.missingBlock id)
    | some b => if b.isTerminated then fresh else return id
where
  /-- Starts a block at the end of the layout. -/
  fresh : Build BlockId := do
    let id ← newBlock
    modify (·.setBlock id)
    return id

/-- Emits an instruction; yields its value. -/
def insert (kind : InstKind) (ty : Ty) : Build Operand := do
  let block ← insertionBlock
  withFunction fun f =>
    let (id, f) := f.addInst ⟨kind, ty⟩
    (.inst id, f.appendInst block id)

/-! ### Instructions -/

/-- Reserves a stack slot, behind those at the front of the entry block; yields its address. -/
def alloca (ty : Ty) : Build Operand := do
  let (_, f) ← function
  match f.entry? with
  | none => throw .noEntry
  | some entry =>
    withFunction fun f =>
      let (id, f) := f.addInst ⟨.alloca ty, ty.pointerTo⟩
      let present := ((f.block? entry).map Block.insts).getD []
      let slots := present.takeWhile fun i => ((f.inst? i).map (·.kind.isAlloca)).getD false
      (.inst id, f.insertInst entry slots.length id)

/-- Loads a value. -/
def load (ptr : Operand) (ty : Ty) : Build Operand := insert (.load ptr) ty

/-- Stores a value. -/
def store (ptr value : Operand) : Build Unit := do discard <| insert (.store ptr value) .void

/-- Copies a whole value. -/
def copy (dst src : Operand) (ty : Ty) : Build Unit := do
  discard <| insert (.copy dst src ty) .void

/-- Calculates with two values. -/
def binary (op : BinOp) (l r : Operand) (ty : Ty) : Build Operand :=
  match (do Constant.foldBinary? op (← l.const?) (← r.const?) ty) with
  | some c => return .const c
  | none => insert (.binary op l r) ty

/-- Compares two values; yields a truth value. -/
def cmp (op : CmpOp) (l r : Operand) : Build Operand :=
  match (do Constant.foldCmp? op (← l.const?) (← r.const?)) with
  | some c => return .const c
  | none => insert (.cmp op l r) .bool

/-- Converts a value. -/
def cast (op : CastOp) (v : Operand) (target : Ty) : Build Operand :=
  match (do Constant.foldCast? op (← v.const?) target) with
  | some c => return .const c
  | none => insert (.cast op v) target

/-- The address some elements past a pointer, of the same pointer type. -/
def offset (ptr index : Operand) (ty : Ty) : Build Operand :=
  if index.const?.bind Constant.int? = some 0 then return ptr
  else insert (.offset ptr index) ty

/-- The address of a field; the type is a pointer to that of the field. -/
def field (base : Operand) (index : Nat) (ty : Ty) : Build Operand :=
  insert (.field base index) ty

/-- Calls a function; yields what it returns. -/
def call (callee : Operand) (args : List Operand) (result : Ty) : Build Operand :=
  insert (.call callee args) result

/-- The constant that all incoming values of a phi are equal to. -/
def commonConstant? : List (Operand × BlockId) → Option Operand
  | [] => none
  | (first, _) :: rest =>
    if first.const?.isSome && first == first && rest.all (fun (v, _) => v == first)
    then some first else none

/-- Joins the values that come from different blocks. -/
def phi (incoming : List (Operand × BlockId)) (ty : Ty) : Build Operand :=
  match commonConstant? incoming with
  | some c => return c
  | none => insert (.phi incoming) ty

/-! ### Terminators -/

/-- Closes the current block. -/
def terminate (term : Terminator) : Build Unit := do
  let block ← insertionBlock
  withFunction fun f => ((), f.terminate block term)

/-- Returns to the caller. -/
def ret (value : Option Operand) : Build Unit := terminate (.ret value)

/-- Goes to a block. -/
def goto (target : BlockId) : Build Unit := terminate (.goto target)

/-- Goes to one of two blocks. -/
def branch (cond : Operand) (yes no : BlockId) : Build Unit := terminate (.branch cond yes no)

/-- Marks the end of the current block as never reached. -/
def unreachable : Build Unit := terminate .unreachable

end Build

/-! ### Snapshots -/

/-- What is kept of all that was built since a snapshot. Code is always thrown away. -/
inductive Keep where
  | nothing
  /-- Aggregates declared or defined. -/
  | types
  /-- Aggregates and globals. -/
  | typesAndGlobals
  deriving DecidableEq, Repr

/-- A saved state of a builder. -/
structure Snapshot where
  func : Option FuncId
  block : Option BlockId
  /-- The function that was being built. -/
  function : Option Function
  functions : Nat
  globals : Nat
  types : TypeTable

namespace Builder

/-- Saves the state. When no function is being built, a scratch function is started, so that
instructions have somewhere to go. -/
def snapshot (b : Builder) : Snapshot × Builder :=
  let saved : Snapshot := {
    func := b.func
    block := b.block
    function := b.function?
    functions := b.mod.functions.size
    globals := b.mod.globals.size
    types := b.mod.types }
  match b.func with
  | some _ => (saved, b)
  | none =>
    let (id, b) := b.declareFunction ".scratch" ⟨.void, [], false⟩ .internal
    let b := b.setFunction (some id)
    (saved, { b with mod := b.mod.modifyFunction id fun f => f.newBlock.2 })

/-- Throws away the functions added since the snapshot and the code added to the function that
was being built, and of the types and globals what is not kept. The cursor is put back. -/
def restore (b : Builder) (s : Snapshot) (keep : Keep) : Builder :=
  let m := { b.mod with functions := b.mod.functions.take s.functions }
  let m := match s.func, s.function with
    | some id, some f => m.modifyFunction id fun _ => f
    | _, _ => m
  let m := if keep = .typesAndGlobals then m else { m with globals := m.globals.take s.globals }
  let m := if keep = .nothing then { m with types := s.types } else m
  { mod := m, func := s.func, block := s.block }

end Builder

end TreeFlow
