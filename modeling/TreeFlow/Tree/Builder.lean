import TreeFlow.Tree.Handles

/-!
# Growing trees

A tree is grown from the leaves up. Each step adds a node at the end of its list and yields the
handle of that node, so a parent is always added after its children and the handles it stores are
in range. Nodes carry the line that was set last; at the start that is line one.
-/

namespace TreeFlow

/-- A tree that is being grown. -/
structure TreeBuilder where
  tree : Tree
  /-- The line of the nodes to come. -/
  line : UInt32 := 1
  deriving Inhabited

/-- A builder of an empty tree. -/
def TreeBuilder.ofFile (file : String) : TreeBuilder := { tree := { file } }

/-- A step that grows a tree. -/
abbrev Grow (α : Type) := StateM TreeBuilder α

namespace Grow

/-! ### Nodes -/

/-- Sets the line of the nodes to come. -/
def atLine (line : UInt32) : Grow Unit := modify fun b => { b with line }

/-- Adds an expression. -/
def expr (kind : ExprKind) : Grow ExprId := fun b =>
  (.ofNat b.tree.exprs.size,
    { b with tree := { b.tree with exprs := b.tree.exprs.push ⟨kind, b.line⟩ } })

/-- Adds a statement. -/
def stmt (kind : StmtKind) : Grow StmtId := fun b =>
  (.ofNat b.tree.stmts.size,
    { b with tree := { b.tree with stmts := b.tree.stmts.push ⟨kind, b.line⟩ } })

/-- Adds a type specifier. -/
def spec (kind : SpecKind) : Grow SpecId := fun b =>
  (.ofNat b.tree.specs.size,
    { b with tree := { b.tree with specs := b.tree.specs.push ⟨kind, b.line⟩ } })

/-- Adds a declarator. -/
def declarator (kind : DeclaratorKind) : Grow DeclaratorId := fun b =>
  (.ofNat b.tree.declarators.size,
    { b with tree := { b.tree with declarators := b.tree.declarators.push ⟨kind, b.line⟩ } })

/-- Adds a statement to the top level. -/
def root (id : StmtId) : Grow Unit :=
  modify fun b => { b with tree := { b.tree with root := b.tree.root ++ [id] } }

/-- Adds a declaration that is lowered before the top level. -/
def foreign (id : StmtId) : Grow Unit :=
  modify fun b => { b with tree := { b.tree with externs := b.tree.externs ++ [id] } }

/-! ### Short forms -/

/-- A call of a function by its name. -/
def callNamed (name : String) (args : List ExprId) : Grow ExprId := do
  let callee ← expr (.identifier name)
  expr (.call callee args)

/-- A struct or union in the place of a type; without fields it refers to one declared before. -/
def aggregate (kind : AggregateDecl → SpecKind) (name : Option String)
    (fields : Option (List VariableDecl)) : Grow SpecId := spec (kind ⟨name, fields⟩)

/-- A parameter `ty name` whose type is given by its name. -/
def param (ty name : String) : Grow ParamDecl := do
  let spec ← spec (.named ty)
  let declarator ← declarator (.identifier name)
  return { spec, declarator := some declarator }

/-- A parameter without a name, such as a lone `void`. -/
def unnamedParam (ty : String) : Grow ParamDecl := do
  return { spec := ← spec (.named ty), declarator := none }

/-- The field `ty name;` of a struct or union. -/
def field (ty name : String) : Grow VariableDecl := do
  let spec ← spec (.named ty)
  let declarator ← declarator (.identifier name)
  return { storage := .normal, spec, declarators := [declarator] }

/-- A variable `ty name;` or `ty name = init;`. -/
def simpleVariable (ty name : String) (init : Option ExprId) : Grow StmtId := do
  let spec ← spec (.named ty)
  let bare ← declarator (.identifier name)
  let declared ← match init with
    | some value => declarator (.init bare value)
    | none => pure bare
  stmt (.variable { storage := .normal, spec, declarators := [declared] })

/-- A function `ty name(params)`, with a body if it is a definition. -/
def simpleFunction (ty name : String) (params : List ParamDecl) (body : Option (List StmtId)) :
    Grow StmtId := do
  let result ← spec (.named ty)
  let bare ← declarator (.identifier name)
  let declared ← declarator (.function bare params false)
  let body ← match body with
    | some stmts => some <$> stmt (.block stmts)
    | none => pure none
  stmt (.function { storage := .normal, result, declarator := declared, body })

end Grow

end TreeFlow
