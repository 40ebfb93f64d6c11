import TreeFlow.Flow.Order
import TreeFlow.Flow.Text

/-!
# Converting flow graphs

A module is converted into another form by telling a target about it, piece by piece: aggregates,
globals, functions, initial values, and then each body. In a body all blocks are created first and
then visited in an order in which every value is known before it is used; phis are given their
incoming values once every block is done.

The walk owns all that concerns structure, above all which of the target's values stands for
which instruction. A target only converts single operations, in a monad of its own, so it may
keep state and fail for reasons of its own.
-/

namespace TreeFlow

/-- Why a module cannot be converted. -/
inductive ConvertError where
  /-- A block is open. -/
  | missingTerminator (id : BlockId)
  /-- An operand stands for an instruction that has no value yet. -/
  | valueNotFound
  | notAPointer
  | notAFunctionPointer
  deriving DecidableEq, Repr

/-- What is said of a module that cannot be converted. -/
def ConvertError.message : ConvertError → String
  | missingTerminator id => s!"{id.text} has no terminator"
  | valueNotFound => "ValueNotFound"
  | notAPointer => "NotAPointer"
  | notAFunctionPointer => "NotAFunctionPointer"

/-- A form that modules are converted into. `V` stands for its values. -/
structure Target (m : Type → Type) (V : Type) where
  /-- Declares an aggregate without its fields. -/
  addType : AggregateDef → m Unit
  /-- Gives an aggregate its fields. -/
  defineType : AggregateDef → m Unit
  addGlobal : GlobalId → Global → m Unit
  initGlobal : GlobalId → Constant → m Unit
  addFunction : FuncId → Function → m Unit
  addCtor : Nat → FuncId → m Unit
  /-- Starts the body of a function. -/
  openFunction : FuncId → m Unit
  createBlock : BlockId → m Unit
  setBlock : BlockId → m Unit
  arg : Nat → m V
  constant : Constant → m V
  alloca : Ty → m V
  load : (ptr : V) → Ty → m V
  store : (ptr value : V) → m Unit
  copy : (dst src : V) → Ty → m Unit
  binary : BinOp → V → V → Ty → m V
  cmp : CmpOp → V → V → m V
  cast : CastOp → V → Ty → m V
  /-- The address some elements of a type past a pointer. -/
  offset : (ptr index : V) → (element : Ty) → m V
  /-- The address of a field of an aggregate. -/
  field : (base : V) → (aggregate : Ty) → Nat → m V
  /-- Calls a function; nothing is yielded by one that returns nothing. -/
  call : (callee : V) → Signature → List V → m (Option V)
  /-- Creates a phi without incoming values. -/
  phi : Ty → m V
  addIncoming : V → List (V × BlockId) → m Unit
  ret : Option V → m Unit
  goto : BlockId → m Unit
  branch : V → BlockId → BlockId → m Unit
  unreachable : m Unit

/-- What is known in the middle of a body. -/
structure Conversion (V : Type) where
  /-- The values of the instructions visited so far. -/
  values : List (InstId × V) := []
  /-- The phis that wait for their incoming values, the last one first. -/
  phis : List (V × List (Operand × BlockId)) := []

namespace Target

variable {m : Type → Type} [Monad m] {V : Type}

/-- Runs an operation of the target. -/
def tell (x : m α) : ExceptT ConvertError m α := ExceptT.lift x

/-- Something that has to be there. -/
def demand (e : ConvertError) : Option α → ExceptT ConvertError m α
  | some a => pure a
  | none => throw e

/-- The value of an operand. -/
def operand (t : Target m V) (c : Conversion V) : Operand → ExceptT ConvertError m V
  | .const k => tell (t.constant k)
  | .arg i => tell (t.arg i)
  | .inst id => demand .valueNotFound (c.values.lookup id)

/-- Converts an instruction; yields its value, and a phi's incoming values for later. -/
def instruction (t : Target m V) (f : Function) (c : Conversion V) (i : Inst) :
    ExceptT ConvertError m (Option V × Conversion V) := do
  let operand := t.operand c
  match i.kind with
  | .alloca ty => return (← tell (t.alloca ty), c)
  | .load ptr => return (← tell (t.load (← operand ptr) i.ty), c)
  | .store ptr value =>
    let ptr ← operand ptr
    let value ← operand value
    tell (t.store ptr value)
    return (none, c)
  | .copy dst src ty =>
    let dst ← operand dst
    let src ← operand src
    tell (t.copy dst src ty)
    return (none, c)
  | .binary op l r =>
    let l ← operand l
    let r ← operand r
    return (← tell (t.binary op l r i.ty), c)
  | .cmp op l r =>
    let l ← operand l
    let r ← operand r
    return (← tell (t.cmp op l r), c)
  | .cast op v => return (← tell (t.cast op (← operand v) i.ty), c)
  | .offset ptr index =>
    let element ← demand .notAPointer i.ty.pointee?
    let ptr ← operand ptr
    let index ← operand index
    return (← tell (t.offset ptr index element), c)
  | .field base index =>
    let aggregate ← demand .notAPointer (f.operandTy base).pointee?
    return (← tell (t.field (← operand base) aggregate index), c)
  | .call callee args =>
    let sig ← demand .notAFunctionPointer (f.operandTy callee).calleeSignature?
    let callee ← operand callee
    let args ← args.mapM operand
    return (← tell (t.call callee sig args), c)
  | .phi incoming =>
    let v ← tell (t.phi i.ty)
    return (some v, { c with phis := (v, incoming) :: c.phis })

/-- Converts the instructions of a block. -/
def instructions (t : Target m V) (f : Function) (c : Conversion V) :
    List InstId → ExceptT ConvertError m (Conversion V)
  | [] => return c
  | id :: rest => do
    match f.inst? id with
    | none => instructions t f c rest
    | some i =>
      let (v, c) ← t.instruction f c i
      let c := match v with
        | some v => { c with values := (id, v) :: c.values }
        | none => c
      instructions t f c rest

/-- Converts a terminator. -/
def terminator (t : Target m V) (c : Conversion V) : Terminator → ExceptT ConvertError m Unit
  | .ret none => tell (t.ret none)
  | .ret (some v) => do tell (t.ret (some (← t.operand c v)))
  | .goto target => tell (t.goto target)
  | .branch cond yes no => do tell (t.branch (← t.operand c cond) yes no)
  | .unreachable => tell t.unreachable

/-- Converts a block. -/
def block (t : Target m V) (f : Function) (c : Conversion V) (id : BlockId) :
    ExceptT ConvertError m (Conversion V) := do
  tell (t.setBlock id)
  let b := (f.block? id).getD {}
  let c ← t.instructions f c b.insts
  t.terminator c (← demand (.missingTerminator id) b.term)
  return c

/-- Gives a phi its incoming values. -/
def completePhi (t : Target m V) (c : Conversion V) (phi : V × List (Operand × BlockId)) :
    ExceptT ConvertError m Unit := do
  let incoming ← phi.2.mapM fun (v, id) => return (← t.operand c v, id)
  tell (t.addIncoming phi.1 incoming)

/-- Converts the body of a function. -/
def body (t : Target m V) (f : Function) : ExceptT ConvertError m Unit := do
  f.layout.forM fun id => tell (t.createBlock id)
  let c ← f.visitOrder.foldlM (t.block f) {}
  c.phis.reverse.forM (t.completePhi c)

/-- Converts the body of a function, if it has one. -/
def function (t : Target m V) (id : FuncId) (f : Function) : ExceptT ConvertError m Unit :=
  if f.isDeclaration then return
  else do
    tell (t.openFunction id)
    t.body f

/-- Converts a module. -/
def convert (t : Target m V) (mod : Module) : ExceptT ConvertError m Unit := do
  let types := mod.types.entries.toList
  let globals := mod.globals.toList.mapIdx fun i g => (GlobalId.mk i, g)
  let functions := mod.functions.toList.mapIdx fun i f => (FuncId.mk i, f)
  types.forM fun d => tell (t.addType d)
  types.forM fun d => tell (t.defineType d)
  globals.forM fun (id, g) => tell (t.addGlobal id g)
  functions.forM fun (id, f) => tell (t.addFunction id f)
  globals.forM fun (id, g) =>
    match g.init with
    | some c => tell (t.initGlobal id c)
    | none => return
  mod.orderedCtors.forM fun (priority, id) => tell (t.addCtor priority id)
  functions.forM fun (id, f) => t.function id f

end Target

end TreeFlow
