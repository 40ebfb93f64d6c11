import TreeFlow.Lower.Expression
import TreeFlow.Lower.Spec

/-!
# Descending into the tree

`Lower.descentTo` descends at most so many nodes deep. In a tree without cycles a chain of nodes is
no longer than the tree is large. Where handles form a cycle, a chain that comes back to a node in
the same mode, with the same tags bound, comes back to it for ever; `Tree.exprDepth` is larger than
the length of any other.
-/

namespace TreeFlow

/-- How deep a chain of expressions, specifiers and declarators can be without repeating itself:
each node in one of two modes, between any two new bodies of aggregates. -/
def Tree.exprDepth (t : Tree) : Nat := 2 * (t.exprSize + 1) * (t.specs.size + 1)

namespace Lower

/-- Descends at most so many nodes deep. -/
def descentTo : Nat → Descent
  | 0 => .endless
  | depth + 1 => {
      raw := fun e => rawWith (descentTo depth) e
      spec := fun id => specWith (descentTo depth) id
      link := fun mode id info => linkWith (descentTo depth) mode id info }

/-- Runs a step that may descend as deep as the tree at hand needs. -/
def descend (step : Descent → Lower α) : Lower α := fun env s =>
  step (descentTo env.tree.exprDepth) env s

/-- Lowers an expression for its value. -/
def rvalue (e : ExprId) : Lower Value := descend (·.rvalue e)

/-- Lowers a type specifier. -/
def resolve (id : SpecId) : Lower Ty := descend (·.spec id)

/-- Follows a chain of declarators from a base type on. -/
def resolveDeclarator (mode : DeclaratorMode) (id : DeclaratorId) (base : Ty) :
    Lower DeclaratorInfo := descend fun sub => declare sub mode id base

/-- The parameters of a function. -/
def resolveParams (ps : List ParamDecl) (line : Nat) : Lower (List DeclaratorInfo) :=
  descend fun sub => params sub ps line

end Lower

end TreeFlow
