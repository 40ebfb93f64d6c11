import TreeFlow.Flow.Basic

/-!
# Lowered values

What lowering an expression yields. An expression that names storage yields the address of that
storage, one that names a function its address; the type then is that of what lies at the address.
Aggregates are always handled by address, unless a call has just returned one.
-/

namespace TreeFlow

/-- What the operand of a lowered value is. -/
inductive Form where
  /-- The value itself. -/
  | value
  /-- The address of storage that holds the value. -/
  | storage
  /-- The address of a function. -/
  | function
  deriving DecidableEq, Repr, Inhabited

/-- What an expression was lowered to. -/
structure Value where
  op : Operand
  /-- The type of the value, of what is in the storage, or of the function. -/
  ty : Ty
  form : Form
  /-- The values that comma expressions computed before this one. -/
  effects : List Operand := []
  deriving Inhabited, Repr, BEq

namespace Value

/-- The value that an operand holds. -/
def ofOperand (op : Operand) (ty : Ty) : Value := { op, ty, form := .value }

/-- The value of a constant. -/
def ofConstant (c : Constant) : Value := .ofOperand c c.ty

/-- What is in storage at an address. -/
def inStorage (addr : Operand) (ty : Ty) : Value := { op := addr, ty, form := .storage }

/-- The function at an address. -/
def ofFunction (addr : Operand) (ty : Ty) : Value := { op := addr, ty, form := .function }

/-- The value of an expression of type `void`. -/
def nothing : Value := .ofConstant (.undef .void)

/-- Is it the address of storage? -/
def isStorage (v : Value) : Bool := v.form == .storage

/-- Is it the address of a function? -/
def isFunction (v : Value) : Bool := v.form == .function

/-- Did comma expressions compute values before it? -/
def hasEffects (v : Value) : Bool := !v.effects.isEmpty

/-- Is it known before the program runs? -/
def isConst (v : Value) : Bool := !v.isStorage && v.op.const?.isSome

end Value

end TreeFlow
