import TreeFlow.Number.Signed
import TreeFlow.Ty.Aggregate

/-!
# Flow graphs

A lowered unit is a module: functions, globals and aggregates. A function is a flow graph. Its
blocks and instructions live in two arenas and are referred to by position; the layout lists the
blocks in the order in which they are written, the entry first. A function without blocks is a
declaration whose body lies elsewhere.

Every instruction is in one block and yields one value, of type `void` when there is none. A block
is open until it has a terminator.
-/

namespace TreeFlow

/-! ### Positions -/

/-- The position of a function in its module. -/
structure FuncId where
  index : Nat
  deriving DecidableEq, Repr, Inhabited

/-- The position of a global in its module. -/
structure GlobalId where
  index : Nat
  deriving DecidableEq, Repr, Inhabited

/-- The position of a block in its function. -/
structure BlockId where
  index : Nat
  deriving DecidableEq, Repr, Inhabited

/-- The position of an instruction in its function. -/
structure InstId where
  index : Nat
  deriving DecidableEq, Repr, Inhabited

/-! ### Operations -/

/-- Arithmetic on two values of one type. -/
inductive BinOp where
  | add | sub | mul | sdiv | srem | shl | ashr | and | or | xor
  | fadd | fsub | fmul | fdiv | frem
  deriving DecidableEq, Repr, Inhabited

/-- Does the operation work on floats? -/
def BinOp.isFloat : BinOp → Bool
  | .fadd | .fsub | .fmul | .fdiv | .frem => true
  | _ => false

/-- Comparisons of two values of one type. -/
inductive CmpOp where
  | eq | ne | slt | sle | sgt | sge
  | oeq | one | olt | ole | ogt | oge
  deriving DecidableEq, Repr, Inhabited

namespace CmpOp

/-- Does the comparison work on floats? -/
def isFloat : CmpOp → Bool
  | oeq | one | olt | ole | ogt | oge => true
  | _ => false

/-- The outcome on integers. -/
def evalInt (op : CmpOp) (l r : Int) : Bool :=
  match op with
  | eq | oeq => l == r
  | ne | one => l != r
  | slt | olt => l < r
  | sle | ole => l ≤ r
  | sgt | ogt => r < l
  | sge | oge => r ≤ l

/-- The outcome on floats. -/
def evalFloat (op : CmpOp) (l r : Float) : Bool :=
  match op with
  | eq | oeq => l == r
  | ne | one => l != r
  | slt | olt => l < r
  | sle | ole => l ≤ r
  | sgt | ogt => r < l
  | sge | oge => r ≤ l

end CmpOp

/-- Conversions of a value to another type. -/
inductive CastOp where
  | trunc | zext | sext | fptrunc | fpext | fptosi | sitofp | ptrtoint | inttoptr | bitcast
  deriving DecidableEq, Repr, Inhabited

/-! ### Constants and operands -/

/-- A constant. -/
inductive Constant where
  /-- A value of type `bool`, `iN` or `int:N`, within the range of that type. -/
  | int (value : Int) (ty : Ty)
  | float (value : Float)
  | double (value : Float)
  /-- The null pointer of a pointer type. -/
  | null (ty : Ty)
  /-- The value of a type whose bytes are all zero. -/
  | zero (ty : Ty)
  /-- An array of bytes, such as the contents of a string literal. -/
  | bytes (contents : List UInt8)
  /-- The address of a global, with its pointer type. -/
  | global (id : GlobalId) (ty : Ty)
  /-- The address of a function, with its pointer type. -/
  | function (id : FuncId) (ty : Ty)
  | undef (ty : Ty)
  deriving Inhabited, Repr, BEq

namespace Constant

/-- An integer of the given width; the value is wrapped to fit. -/
def ofInt (value : Int) (bits : Nat) : Constant := int (Signed.wrap bits value) (.int bits)

/-- A truth value. -/
def ofBool (b : Bool) : Constant := int (if b then 1 else 0) .bool

/-- A value of an integral type; it is wrapped to fit, and `bool` only tells zero apart. -/
def integral (value : Int) : Ty → Constant
  | .bool => ofBool (value != 0)
  | ty => int (Signed.wrap (ty.bits?.getD 64) value) ty

/-- The type of a constant. -/
def ty : Constant → Ty
  | int _ ty | null ty | zero ty | undef ty | global _ ty | function _ ty => ty
  | float _ => .float
  | double _ => .double
  | bytes contents => .array .char contents.length

/-- The value of an integral constant. -/
def int? : Constant → Option Int
  | int v _ => some v
  | zero ty => if ty.isInteger then some 0 else none
  | _ => none

/-- The value of a floating point constant. -/
def float? : Constant → Option Float
  | float x | double x => some x
  | zero ty => if ty.isFloat then some 0 else none
  | _ => none

/-- Whether a constant counts as true, if that is known. -/
def truth? : Constant → Option Bool
  | int v _ => some (v != 0)
  | float x | double x => some (x != 0)
  | null _ | zero _ => some false
  | global .. | function .. => some true
  | bytes _ | undef _ => none

end Constant

/-- An argument of an instruction. -/
inductive Operand where
  | const (c : Constant)
  /-- What an instruction of the same function yields. -/
  | inst (id : InstId)
  /-- An argument of the function. -/
  | arg (index : Nat)
  deriving Inhabited, Repr, BEq

/-- The constant that an operand is, if it is one. -/
def Operand.const? : Operand → Option Constant
  | .const c => some c
  | _ => none

instance : Coe Constant Operand := ⟨.const⟩

/-! ### Instructions and blocks -/

/-- What an instruction does. -/
inductive InstKind where
  /-- Reserves a stack slot for a value; yields its address. -/
  | alloca (ty : Ty)
  | load (ptr : Operand)
  | store (ptr value : Operand)
  | binary (op : BinOp) (left right : Operand)
  | cmp (op : CmpOp) (left right : Operand)
  | cast (op : CastOp) (value : Operand)
  /-- The address some elements past a pointer. -/
  | offset (ptr index : Operand)
  /-- The address of a field of the struct that a pointer points to. -/
  | field (base : Operand) (index : Nat)
  | call (callee : Operand) (args : List Operand)
  /-- Selects a value by the block that control came from. -/
  | phi (incoming : List (Operand × BlockId))
  /-- Copies a whole value. -/
  | copy (dst src : Operand) (ty : Ty)
  deriving Inhabited, Repr, BEq

/-- Is it a stack slot? -/
def InstKind.isAlloca : InstKind → Bool
  | .alloca _ => true
  | _ => false

/-- An instruction and the type of what it yields. -/
structure Inst where
  kind : InstKind
  ty : Ty
  deriving Inhabited, Repr, BEq

/-- How control leaves a block. -/
inductive Terminator where
  | ret (value : Option Operand)
  | goto (target : BlockId)
  | branch (cond : Operand) (yes no : BlockId)
  /-- Control never gets here. -/
  | unreachable
  deriving Inhabited, Repr, BEq

/-- The blocks that control may go to. -/
def Terminator.successors : Terminator → List BlockId
  | .ret _ | .unreachable => []
  | .goto target => [target]
  | .branch _ yes no => [yes, no]

/-- Instructions that run one after the other. -/
structure Block where
  insts : List InstId := []
  /-- How control leaves; an open block has no terminator yet. -/
  term : Option Terminator := none
  deriving Inhabited, Repr, BEq

/-- Is the block closed? -/
def Block.isTerminated (b : Block) : Bool := b.term.isSome

/-! ### Functions -/

/-- Whether a name is visible outside of its module. -/
inductive Linkage where
  | external | internal
  deriving DecidableEq, Repr, Inhabited

/-- A function. -/
structure Function where
  name : String
  sig : Signature
  linkage : Linkage
  /-- Every block ever created. -/
  blocks : Array Block := #[]
  /-- The order in which blocks are written; the first one is the entry. -/
  layout : List BlockId := []
  /-- Every instruction ever created. -/
  insts : Array Inst := #[]
  deriving Inhabited, Repr, BEq

/-- Puts `x` right before `anchor`, or at the end if there is no such element. -/
def insertBefore [DecidableEq α] (x anchor : α) : List α → List α
  | [] => [x]
  | y :: ys => if y = anchor then x :: y :: ys else y :: insertBefore x anchor ys

/-- Puts `x` right after `anchor`, or at the end if there is no such element. -/
def insertAfter [DecidableEq α] (x anchor : α) : List α → List α
  | [] => [x]
  | y :: ys => if y = anchor then y :: x :: ys else y :: insertAfter x anchor ys

namespace Function

/-- Does the function lack a body? -/
def isDeclaration (f : Function) : Bool := f.layout.isEmpty

/-- The block where a call starts. -/
def entry? (f : Function) : Option BlockId := f.layout.head?

/-- The block at a position. -/
def block? (f : Function) (id : BlockId) : Option Block := f.blocks[id.index]?

/-- The instruction at a position. -/
def inst? (f : Function) (id : InstId) : Option Inst := f.insts[id.index]?

/-- Is there a closed block at the position? -/
def isTerminated (f : Function) (id : BlockId) : Bool :=
  ((f.block? id).map Block.isTerminated).getD false

/-- Changes the block at a position. -/
def modifyBlock (f : Function) (id : BlockId) (change : Block → Block) : Function :=
  { f with blocks := f.blocks.modify id.index change }

/-- Changes the instruction at a position. -/
def modifyInst (f : Function) (id : InstId) (change : Inst → Inst) : Function :=
  { f with insts := f.insts.modify id.index change }

/-- The position of the next block. -/
def nextBlock (f : Function) : BlockId := ⟨f.blocks.size⟩

/-- Creates an empty block at the end of the layout. -/
def newBlock (f : Function) : BlockId × Function :=
  (f.nextBlock,
    { f with blocks := f.blocks.push {}, layout := f.layout ++ [f.nextBlock] })

/-- Creates an empty block that is laid out right before another one. -/
def newBlockBefore (f : Function) (anchor : BlockId) : BlockId × Function :=
  (f.nextBlock,
    { f with
      blocks := f.blocks.push {}
      layout := insertBefore f.nextBlock anchor f.layout })

/-- Moves a block so that it is laid out right after another one. -/
def moveBlockAfter (f : Function) (id anchor : BlockId) : Function :=
  if id = anchor then f
  else { f with layout := insertAfter id anchor (f.layout.filter (· ≠ id)) }

/-- Creates an instruction that is in no block yet. -/
def addInst (f : Function) (inst : Inst) : InstId × Function :=
  (⟨f.insts.size⟩, { f with insts := f.insts.push inst })

/-- Puts an instruction at the end of a block. -/
def appendInst (f : Function) (id : BlockId) (inst : InstId) : Function :=
  f.modifyBlock id fun b => { b with insts := b.insts ++ [inst] }

/-- Puts an instruction at a place in a block. -/
def insertInst (f : Function) (id : BlockId) (place : Nat) (inst : InstId) : Function :=
  f.modifyBlock id fun b => { b with insts := b.insts.take place ++ inst :: b.insts.drop place }

/-- Closes a block. -/
def terminate (f : Function) (id : BlockId) (term : Terminator) : Function :=
  f.modifyBlock id fun b => { b with term := some term }

/-- The blocks that control may go to from a block. -/
def successors (f : Function) (id : BlockId) : List BlockId :=
  (((f.block? id).bind Block.term).map Terminator.successors).getD []

/-- The blocks that may pass control to a block, in the order of the layout. -/
def predecessors (f : Function) (target : BlockId) : List BlockId :=
  f.layout.filter fun id => (f.successors id).contains target

/-- The type of an operand. An argument that the function does not have counts as `void`. -/
def operandTy (f : Function) : Operand → Ty
  | .const c => c.ty
  | .inst id => ((f.inst? id).map Inst.ty).getD .void
  | .arg i => f.sig.params[i]?.getD .void

end Function

/-! ### Modules -/

/-- Storage that exists as long as the program runs. -/
structure Global where
  name : String
  ty : Ty
  linkage : Linkage
  /-- The initial value; nothing for a declaration whose storage lies elsewhere. -/
  init : Option Constant
  /-- Is the storage read only? -/
  constant : Bool
  deriving Inhabited, Repr, BEq

/-- The type of the address of a global. -/
def Global.pointerTy (g : Global) : Ty := g.ty.pointerTo

/-- A lowered unit. -/
structure Module where
  name : String
  functions : Array Function := #[]
  globals : Array Global := #[]
  types : TypeTable := {}
  /-- Functions that run before `main`, with their priority, in the order they were added. -/
  ctors : List (Nat × FuncId) := []
  deriving Inhabited

namespace Module

/-- The function at a position. -/
def function? (m : Module) (id : FuncId) : Option Function := m.functions[id.index]?

/-- The global at a position. -/
def global? (m : Module) (id : GlobalId) : Option Global := m.globals[id.index]?

/-- Changes the function at a position. -/
def modifyFunction (m : Module) (id : FuncId) (change : Function → Function) : Module :=
  { m with functions := m.functions.modify id.index change }

/-- Changes the global at a position. -/
def modifyGlobal (m : Module) (id : GlobalId) (change : Global → Global) : Module :=
  { m with globals := m.globals.modify id.index change }

/-- Adds a function. -/
def addFunction (m : Module) (f : Function) : FuncId × Module :=
  (⟨m.functions.size⟩, { m with functions := m.functions.push f })

/-- Adds a global. -/
def addGlobal (m : Module) (g : Global) : GlobalId × Module :=
  (⟨m.globals.size⟩, { m with globals := m.globals.push g })

/-- Adds a function that runs before `main`. -/
def addCtor (m : Module) (priority : Nat) (id : FuncId) : Module :=
  { m with ctors := m.ctors ++ [(priority, id)] }

/-- The first function with a name. -/
def findFunction? (m : Module) (name : String) : Option FuncId :=
  (m.functions.findIdx? (·.name == name)).map FuncId.mk

/-- The functions that run before `main` in the order they run: the lowest priority first, and
those of one priority in the order they were added. -/
def orderedCtors (m : Module) : List (Nat × FuncId) := m.ctors.mergeSort fun a b => a.1 ≤ b.1

end Module

end TreeFlow
