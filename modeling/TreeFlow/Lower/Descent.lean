import TreeFlow.Lower.Conversion

/-!
# The children of a node

How a node is lowered depends on how its children are. The rules for one node take that as an
argument, a `Descent`, and never call each other in a circle; `Lower.descentTo` ties the knot once,
for all kinds of nodes.
-/

namespace TreeFlow

/-! ### Declarators -/

/-- Where a declarator stands; it decides how dimensions and `void` are treated. -/
inductive DeclaratorMode where
  /-- A variable or function. -/
  | normal
  /-- A type name, which may stand for `void`. -/
  | typedef
  /-- A field of a struct or union. -/
  | field
  /-- A parameter of a function, where every dimension becomes a pointer. -/
  | param
  deriving DecidableEq, Repr, Inhabited

/-- What a declarator declares. -/
structure DeclaratorInfo where
  /-- The type; on the way through a chain, the type built so far. -/
  ty : Ty
  name : Option String := none
  init : Option ExprId := none
  /-- The parameters of the function link nearest to the name. -/
  params : Option (List DeclaratorInfo) := none
  variadic : Bool := false
  line : Nat

instance : Inhabited DeclaratorInfo := ⟨{ ty := .void, line := 0 }⟩

/-! ### Descents -/

/-- How the children of a node are lowered. -/
structure Descent where
  /-- An expression, in its natural form: storage by address, functions by name. -/
  raw : ExprId → Lower Value
  /-- A type specifier. -/
  spec : SpecId → Lower Ty
  /-- The rest of a chain of declarators, given what its outer links came to. -/
  link : DeclaratorMode → DeclaratorId → DeclaratorInfo → Lower DeclaratorInfo

namespace Descent

/-- A descent that is out of depth. -/
def endless : Descent where
  raw _ := Lower.halt .endless
  spec _ := Lower.halt .endless
  link _ _ _ := Lower.halt .endless

/-- Lowers an expression in the current mode. -/
def expr (sub : Descent) (e : ExprId) : Lower Value := do
  let v ← sub.raw e
  if ← Lower.read (·.lvalue) then return v
  else Lower.toRvalue v (← Lower.expr e).line.toNat

/-- Lowers an expression for its value. -/
def rvalue (sub : Descent) (e : ExprId) : Lower Value := Lower.withLvalue false (sub.expr e)

/-- Lowers an expression for its storage. -/
def lvalue (sub : Descent) (e : ExprId) : Lower Value := Lower.withLvalue true (sub.expr e)

/-- The natural form of an expression whose storage is asked for. -/
def storage (sub : Descent) (e : ExprId) : Lower Value := Lower.withLvalue true (sub.raw e)

/-- The type of an expression, which is not evaluated. -/
def typeOf (sub : Descent) (e : ExprId) : Lower Ty :=
  Lower.probe do return (← Lower.withLvalue false (sub.raw e)).ty

/-- The value of an integral expression that is known before the program runs. -/
def constInt (sub : Descent) (e : ExprId) : Lower (Option Int) :=
  Lower.probe do
    let v ← Lower.attempt (sub.rvalue e)
    return v.bind fun v => if v.ty.isInteger then v.op.const?.bind Constant.int? else none

end Descent

end TreeFlow
