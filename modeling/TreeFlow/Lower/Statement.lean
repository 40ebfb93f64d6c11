import TreeFlow.Lower.Function

/-!
# Statements and declarations

Statements become blocks and jumps between them. A statement that fails has queued what is wrong
with it, and lowering goes on with the next one; so `Lower.statement` itself never fails.

Declarations are lowered where they stand. Any other statement at the top level, of the unit or of
a namespace, belongs to the startup routine.
-/

namespace TreeFlow

/-- How deep a chain of statements can be without repeating itself: each statement outside of
functions and inside of one. -/
def Tree.stmtDepth (t : Tree) : Nat := 2 * (t.stmts.size + 1)

namespace Lower

/-! ### Branches and loops -/

/-- Lowers a condition. One that cannot be lowered counts as false, so that the branches are
still looked at. -/
def condition (e : ExprId) (line : Nat) : Lower Operand := do
  return (← attempt (descend fun sub => truth sub e line)).getD (.const (.ofBool false))

/-- Goes to a block, unless the current one has ended already. -/
def fallThrough (target : BlockId) (line : Nat) : Lower Unit := do
  if !(← read (·.builder.isTerminated)) then emit line (Build.goto target)

/-- `if`, with or without `else`. -/
def branch (lower : StmtId → Lower Unit) (cond : ExprId) (yes : StmtId) (no : Option StmtId)
    (line : Nat) : Lower Unit := do
  let c ← condition cond line
  let endBlock ← emit line Build.newBlock
  let yesBlock ← emit line (Build.newBlockBefore endBlock)
  let noBlock ← match no with
    | some _ => emit line (Build.newBlockBefore endBlock)
    | none => pure endBlock
  emit line (Build.branch c yesBlock noBlock)
  setBlock yesBlock
  lower yes
  fallThrough endBlock line
  match no with
  | none => pure ()
  | some no =>
    setBlock noBlock
    lower no
    fallThrough endBlock line
  setBlock endBlock

/-- Lowers the body of a loop. -/
def loopBody (lower : StmtId → Lower Unit) (body : StmtId) (targets : LoopTargets) :
    Lower Unit := do
  update fun s => { s with loops := targets :: s.loops }
  lower body
  update fun s => { s with loops := s.loops.tail }

/-- `while`. -/
def whileLoop (lower : StmtId → Lower Unit) (cond : ExprId) (body : StmtId) (line : Nat) :
    Lower Unit := do
  let condBlock ← emit line Build.newBlock
  let bodyBlock ← emit line Build.newBlock
  let endBlock ← emit line Build.newBlock
  fallThrough condBlock line
  setBlock condBlock
  let c ← condition cond line
  emit line (Build.branch c bodyBlock endBlock)
  setBlock bodyBlock
  loopBody lower body ⟨endBlock, condBlock⟩
  fallThrough condBlock line
  setBlock endBlock

/-- `for`. -/
def forLoop (lower : StmtId → Lower Unit) (init : Option StmtId) (cond step : Option ExprId)
    (body : StmtId) (line : Nat) : Lower Unit := do
  match init with
  | some init => lower init
  | none => pure ()
  let condBlock ← emit line Build.newBlock
  let bodyBlock ← emit line Build.newBlock
  let stepBlock ← emit line Build.newBlock
  let endBlock ← emit line Build.newBlock
  fallThrough condBlock line
  setBlock condBlock
  match cond with
  | some cond =>
    let c ← condition cond line
    emit line (Build.branch c bodyBlock endBlock)
  | none => emit line (Build.goto bodyBlock)
  setBlock bodyBlock
  loopBody lower body ⟨endBlock, stepBlock⟩
  fallThrough stepBlock line
  setBlock stepBlock
  match step with
  | some step => ignoring (rvalue step)
  | none => pure ()
  fallThrough condBlock line
  setBlock endBlock

/-! ### Jumps -/

/-- A jump that only a loop around it gives a target. -/
def loopJump (target : LoopTargets → BlockId) (otherwise : DiagnosticKind) (line : Nat) :
    Lower Unit := do
  match ← read (·.loops) with
  | targets :: _ => emit line (Build.goto (target targets))
  | [] => failWith otherwise line

/-- What the code at hand returns; outside of functions nothing. -/
def resultTy : Lower Ty := return ((← read (·.func)).map OpenFunction.result).getD .void

/-- The operand that is returned. -/
def returned (value : Option ExprId) (ty : Ty) (line : Nat) : Lower (Option Operand) := do
  match value with
  | none => return if ty.isVoid then none else some (.const (.zero ty))
  | some e =>
    let v ← rvalue e
    if ty.isVoid then return none
    else if ty.isAggregate && v.ty == ty then return some (← loadAggregate v line)
    else return some (← convertOrReport v ty line)

/-- `return`, with or without a value. -/
def ret (value : Option ExprId) (line : Nat) : Lower Unit := do
  let op ← returned value (← resultTy) line
  emit line (Build.ret op)

/-- The block that a jump to a label goes to. A label that was not met yet gets a block, which it
takes over when it is. -/
def labelTarget (name : String) (line : Nat) : Lower BlockId := do
  match (← read (·.scopes)).label? name with
  | some block => return block
  | none =>
    match (← read (·.pending)).find? (·.name == name) with
    | some label => return label.block
    | none =>
      let block ← emit line Build.newBlock
      update fun s => { s with pending := s.pending ++ [⟨name, block, line⟩] }
      return block

/-- `goto`. -/
def goto (name : String) (line : Nat) : Lower Unit := do
  let target ← labelTarget name line
  emit line (Build.goto target)

/-- The block of a label that is being defined. -/
def labelBlock (name : String) (line : Nat) : Lower BlockId := do
  match (← read (·.pending)).find? (·.name == name) with
  | some label =>
    update fun s => { s with pending := s.pending.filter (·.name != name) }
    return label.block
  | none => emit line Build.newBlock

/-- A label and the statement behind it. A second label of one name is no target, but its
statement is lowered. -/
def label (lower : StmtId → Lower Unit) (name : String) (body : StmtId) (line : Nat) :
    Lower Unit := do
  if ((← read (·.scopes)).label? name).isSome then
    report (.redefinitionOfLabel name) line
    lower body
    fail
  else
    let block ← labelBlock name line
    match (← read (·.scopes)).defineLabel name block with
    | .error fault => failWith (.internal fault.message) line
    | .ok scopes =>
      update fun s => { s with scopes }
      fallThrough block line
      setBlock block
      lower body

/-! ### Declarations -/

/-- What a variable of some type lacks the fields of, if anything. -/
def incompletePart (table : TypeTable) (ty : Ty) : Option String :=
  match ty.core.key? with
  | none => none
  | some key => if table.isDefined key then none else some (table.describe ty.core)

/-- One declarator of a declaration: a variable, or a function without a body. -/
def declareOne (storage : Storage) (info : DeclaratorInfo) : Lower Unit := do
  match info.name with
  | none => pure ()
  | some name =>
    match info.ty.signature? with
    | some sig => discard <| declareFunction name sig storage info.line
    | none =>
      let table ← types
      match if storage = .foreign then none else incompletePart table info.ty with
      | some part => failWith (.incompleteTypeUse part) info.line
      | none =>
        if (← read (·.func)).isSome then localVariable name storage info.ty info.init info.line
        else globalVariable name storage info.ty info.init info.line

/-- A declaration of variables. -/
def variableList (decl : VariableDecl) : Lower Unit := do
  let base ← resolve decl.spec
  decl.declarators.forM fun id =>
    ignoring do declareOne decl.storage (← resolveDeclarator .normal id base)

/-- A struct or union as a statement. -/
def aggregate (kind : AggregateKind) (decl : AggregateDecl) (line : Nat) : Lower Unit :=
  match decl.fields, decl.name with
  | some _, _ => discard <| descend fun sub => defineAggregate sub kind decl line
  | none, some name => discard <| declareAggregate kind name
  | none, none => pure ()

/-- A name for a type. -/
def typedef (id : SpecId) (d : DeclaratorId) : Lower Unit := do
  let base ← resolve id
  let info ← resolveDeclarator .typedef d base
  match info.name with
  | some name => updateScopes (·.defineType name info.ty)
  | none => pure ()

/-- A name for pointers to functions of a type. -/
def delegate (result : SpecId) (name : String) (ps : List ParamDecl) (variadic : Bool)
    (line : Nat) : Lower Unit := do
  let result ← resolve result
  let ps ← resolveParams ps line
  let ty := Ty.function result (ps.map (·.ty)) variadic
  updateScopes (·.defineType name ty.pointerTo)

/-! ### All kinds -/

/-- A statement at the top level, of the unit or of a namespace. -/
def topLevel (lower : StmtId → Lower Unit) (id : StmtId) : Lower Unit := do
  let declares := (← stmt id).kind.isDeclaration
  if declares || (← read (·.func)).isSome then lower id
  else ignoring (inStartup (lower id))

/-- One statement, which may fail. -/
def statementWith (lower : StmtId → Lower Unit) (id : StmtId) : Lower Unit := do
  let s ← stmt id
  let line := s.line.toNat
  match s.kind with
  | .expression e => discard <| rvalue e
  | .block body => localScope (body.forM lower)
  | .branch cond yes no => branch lower cond yes no line
  | .whileLoop cond body => whileLoop lower cond body line
  | .forLoop init cond step body => localScope (forLoop lower init cond step body line)
  | .ret value => ret value line
  | .brk => loopJump LoopTargets.brk .breakWithoutIteration line
  | .cont => loopJump LoopTargets.cont .continueWithoutIteration line
  | .goto name => goto name line
  | .label name body => label lower name body line
  | .variable decl => variableList decl
  | .function decl => function lower decl line
  | .struct decl => aggregate .struct decl line
  | .union decl => aggregate .union decl line
  | .typedef id d => typedef id d
  | .delegate result name ps variadic => delegate result name ps variadic line
  | .namespaceBlock name body => inNamespace name (body.forM (topLevel lower))

/-- Lowers a statement, descending at most so many statements deep. -/
def statementTo : Nat → StmtId → Lower Unit
  | 0, _ => halt .endless
  | depth + 1, id => ignoring (statementWith (statementTo depth) id)

/-- Lowers a statement. -/
def statement (id : StmtId) : Lower Unit := fun env s =>
  statementTo env.tree.stmtDepth id env s

/-- Lowers a statement at the top level. -/
def global (id : StmtId) : Lower Unit := fun env s =>
  topLevel (statementTo env.tree.stmtDepth) id env s

end Lower

end TreeFlow
