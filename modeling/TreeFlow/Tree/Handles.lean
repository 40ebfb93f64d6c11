import TreeFlow.Tree.Basic

/-!
# Sound trees

A tree is sound when every handle stored in it refers to a node that exists. `Tree.handles` lists
the handles in a fixed order, node by node; `Tree.validate` reports the first one out of range.
Handles may still form a cycle: soundness says nothing about where a chain of them ends.
-/

namespace TreeFlow

/-- A handle of any kind. -/
inductive Handle where
  | expr (id : ExprId)
  | stmt (id : StmtId)
  | spec (id : SpecId)
  | declarator (id : DeclaratorId)
  deriving DecidableEq, Repr

namespace Handle

/-- Does the handle refer to a node of the tree? -/
def InRange (t : Tree) : Handle → Prop
  | .expr id => id.index < t.exprs.size
  | .stmt id => id.index < t.stmts.size
  | .spec id => id.index < t.specs.size
  | .declarator id => id.index < t.declarators.size

instance (t : Tree) (h : Handle) : Decidable (h.InRange t) := by
  cases h <;> unfold InRange <;> infer_instance

/-- What is said of a handle that refers to nothing. -/
def outOfRange : Handle → String
  | .expr id => s!"Expression handle {id.text} is out of range"
  | .stmt id => s!"Statement handle {id.text} is out of range"
  | .spec id => s!"Type specifier handle {id.text} is out of range"
  | .declarator id => s!"Declarator handle {id.text} is out of range"

end Handle

/-! ### The handles in a node -/

/-- The handles of a parameter. -/
def ParamDecl.handles (p : ParamDecl) : List Handle :=
  .spec p.spec :: (p.declarator.map Handle.declarator).toList

/-- The handles of a declaration of variables. -/
def VariableDecl.handles (v : VariableDecl) : List Handle :=
  .spec v.spec :: v.declarators.map .declarator

/-- The handles of a struct or union. -/
def AggregateDecl.handles (a : AggregateDecl) : List Handle :=
  (a.fields.getD []).flatMap VariableDecl.handles

/-- The handles of an expression. -/
def ExprKind.handles : ExprKind → List Handle
  | .integer _ | .char _ | .bool _ | .double _ | .str _ | .identifier _ => []
  | .call callee args => .expr callee :: args.map .expr
  | .field base _ => [.expr base]
  | .index base position => [.expr base, .expr position]
  | .binary _ left right => [.expr left, .expr right]
  | .unary _ operand | .step _ operand | .globalScope operand => [.expr operand]
  | .sizeOf spec | .alignOf spec => [.spec spec]
  | .cast spec operand => [.spec spec, .expr operand]
  | .assign target value => [.expr target, .expr value]
  | .conditional cond yes no => [.expr cond, .expr yes, .expr no]
  | .comma first second => [.expr first, .expr second]

/-- The handles of a statement. -/
def StmtKind.handles : StmtKind → List Handle
  | .expression e => [.expr e]
  | .block body | .namespaceBlock _ body => body.map .stmt
  | .branch cond yes no => [.expr cond, .stmt yes] ++ (no.map Handle.stmt).toList
  | .whileLoop cond body => [.expr cond, .stmt body]
  | .forLoop init cond step body =>
    (init.map Handle.stmt).toList ++ (cond.map Handle.expr).toList ++
      (step.map Handle.expr).toList ++ [.stmt body]
  | .ret value => (value.map Handle.expr).toList
  | .brk | .cont | .goto _ => []
  | .label _ body => [.stmt body]
  | .variable decl => decl.handles
  | .function decl =>
    [.spec decl.result, .declarator decl.declarator] ++ (decl.body.map Handle.stmt).toList
  | .struct decl | .union decl => decl.handles
  | .typedef spec declarator => [.spec spec, .declarator declarator]
  | .delegate result _ params _ => .spec result :: params.flatMap ParamDecl.handles

/-- The handles of a type specifier. -/
def SpecKind.handles : SpecKind → List Handle
  | .named _ | .bitField _ => []
  | .struct decl | .union decl => decl.handles
  | .typeOf e => [.expr e]
  | .derived base _ => [.spec base]

/-- The handles of a declarator. -/
def DeclaratorKind.handles : DeclaratorKind → List Handle
  | .identifier _ | .anonymous => []
  | .pointer inner _ => [.declarator inner]
  | .array inner dims => .declarator inner :: (dims.filterMap id).map .expr
  | .function inner params _ => .declarator inner :: params.flatMap ParamDecl.handles
  | .init inner value => [.declarator inner, .expr value]

namespace Tree

/-- Every handle stored in the tree, in the order in which they are checked. -/
def handles (t : Tree) : List Handle :=
  t.exprs.toList.flatMap (·.kind.handles) ++ t.stmts.toList.flatMap (·.kind.handles) ++
    t.specs.toList.flatMap (·.kind.handles) ++ t.declarators.toList.flatMap (·.kind.handles) ++
      (t.externs ++ t.root).map .stmt

/-- Reports the first handle that refers to nothing. -/
def validate (t : Tree) : Except Handle Unit :=
  match t.handles.find? fun h => ¬h.InRange t with
  | some h => .error h
  | none => .ok ()

/-- A tree passes exactly when all its handles are in range. -/
theorem validate_eq_ok_iff (t : Tree) :
    t.validate = .ok () ↔ ∀ h ∈ t.handles, h.InRange t := by
  unfold validate
  split
  · rename_i h hf
    simp only [reduceCtorEq, false_iff]
    intro hall
    have := hall h (List.mem_of_find?_eq_some hf)
    have hnot := List.find?_some hf
    simp [this] at hnot
  · rename_i hf
    simpa using hf

end Tree

end TreeFlow
