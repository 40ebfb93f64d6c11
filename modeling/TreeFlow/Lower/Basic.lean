import TreeFlow.Config
import TreeFlow.Diagnostic.Queue
import TreeFlow.Flow.Builder
import TreeFlow.Scope.Stack
import TreeFlow.Tree.Handles

/-!
# The state of lowering

Lowering walks a tree and emits a module. A step of it has one of three outcomes: it yields
something; it **fails**, when the node cannot be lowered; or it is **stuck**, when the tree is not
one that can be walked at all. After a failure the walk goes on with the siblings of the node, so
that one pass reports every independent problem. Nothing goes on when the walk is stuck.

The state holds the module under construction, the scopes, the queued diagnostics, and what the
place in the tree determines: the loops around it, the function it belongs to, the labels it has
jumped to ahead of their definition.
-/

namespace TreeFlow

/-! ### State -/

/-- Where a jump out of a loop, or to its next round, goes. -/
structure LoopTargets where
  brk : BlockId
  cont : BlockId
  deriving DecidableEq, Repr, Inhabited

/-- The function whose body is being lowered. -/
structure OpenFunction where
  id : FuncId
  name : String
  result : Ty
  deriving DecidableEq, Repr, Inhabited

/-- A label that was jumped to ahead of its definition. -/
structure PendingLabel where
  name : String
  block : BlockId
  /-- The line of the first jump. -/
  line : Nat
  deriving DecidableEq, Repr, Inhabited

/-- The routine that runs before `main`. -/
structure Startup where
  id : FuncId
  /-- Where its code ends so far. -/
  block : Option BlockId
  deriving DecidableEq, Repr, Inhabited

namespace Lower

/-- What is fixed while a unit is lowered. -/
structure Env where
  tree : Tree
  config : Config
  deriving Inhabited

/-- What changes while a unit is lowered. -/
structure State where
  builder : Builder
  scopes : ScopeStack := {}
  diags : DiagnosticQueue := {}
  /-- Do expressions yield the storage they name rather than the value in it? -/
  lvalue : Bool := false
  /-- The loops around the place, the innermost first. -/
  loops : List LoopTargets := []
  /-- The function around the place; none at the top level. -/
  func : Option OpenFunction := none
  /-- Labels without a definition so far, the earliest jump first. -/
  pending : List PendingLabel := []
  startup : Option Startup := none
  deriving Inhabited

/-- The state before anything has been lowered. -/
def State.initial (config : Config) : State := { builder := .ofName config.module }

/-- Why a tree cannot be walked. -/
inductive Stuck where
  /-- A handle refers to nothing. -/
  | dangling (h : Handle)
  /-- A jump leads to a block of another function. -/
  | missingBlock (id : BlockId)
  /-- A chain of nodes comes back to itself. -/
  | endless
  /-- The size of an aggregate that contains itself by value is asked for. -/
  | bottomless (key : String)
  deriving DecidableEq, Repr

/-- What became of a step of lowering. -/
inductive Outcome (α : Type) where
  | done (value : α)
  | failed
  | stuck (why : Stuck)
  deriving Repr

end Lower

/-! ### Steps -/

/-- A step of lowering: what becomes of it, and the state after it. -/
def Lower (α : Type) : Type := Lower.Env → Lower.State → Lower.Outcome α × Lower.State

namespace Lower

/-- A step that yields something and changes nothing. -/
protected def pure (a : α) : Lower α := fun _ s => (.done a, s)

/-- One step after another. -/
protected def bind (m : Lower α) (next : α → Lower β) : Lower β := fun env s =>
  match m env s with
  | (.done a, s) => next a env s
  | (.failed, s) => (.failed, s)
  | (.stuck why, s) => (.stuck why, s)

instance : Monad Lower where
  pure := Lower.pure
  bind := Lower.bind

/-- The node cannot be lowered. -/
def fail : Lower α := fun _ s => (.failed, s)

/-- The tree cannot be walked. -/
def halt (why : Stuck) : Lower α := fun _ s => (.stuck why, s)

/-- Yields nothing where a step fails. -/
def attempt (m : Lower α) : Lower (Option α) := fun env s =>
  match m env s with
  | (.done a, s) => (.done (some a), s)
  | (.failed, s) => (.done none, s)
  | (.stuck why, s) => (.stuck why, s)

/-- Goes on where a step fails. -/
def ignoring (m : Lower α) : Lower Unit := do discard (attempt m)

/-- What is fixed. -/
def env : Lower Env := fun env s => (.done env, s)

/-- Something about the state. -/
def read (f : State → α) : Lower α := fun _ s => (.done (f s), s)

/-- Changes the state. -/
def update (f : State → State) : Lower Unit := fun _ s => (.done (), f s)

/-- Changes the scopes. -/
def updateScopes (f : ScopeStack → ScopeStack) : Lower Unit :=
  update fun s => { s with scopes := f s.scopes }

/-- Changes the builder. -/
def updateBuilder (f : Builder → Builder) : Lower Unit :=
  update fun s => { s with builder := f s.builder }

/-- Changes the builder and yields something. -/
def withBuilder (f : Builder → α × Builder) : Lower α := fun _ s =>
  let (a, builder) := f s.builder
  (.done a, { s with builder })

/-! ### Diagnostics -/

/-- Queues a diagnostic. -/
def report (kind : DiagnosticKind) (line : Nat) : Lower Unit := fun env s =>
  (.done (), { s with diags := s.diags.push ⟨kind, env.tree.file, line⟩ })

/-- Queues a diagnostic and fails. -/
def failWith (kind : DiagnosticKind) (line : Nat) : Lower α := do
  report kind line
  fail

/-! ### The tree -/

/-- Yields what is there, or is stuck at a handle that refers to nothing. -/
def present (h : Handle) : Option α → Lower α
  | some a => pure a
  | none => halt (.dangling h)

/-- The expression at a handle. -/
def expr (id : ExprId) : Lower Expr := do present (.expr id) ((← env).tree.expr? id)

/-- The statement at a handle. -/
def stmt (id : StmtId) : Lower Stmt := do present (.stmt id) ((← env).tree.stmt? id)

/-- The type specifier at a handle. -/
def spec (id : SpecId) : Lower Spec := do present (.spec id) ((← env).tree.spec? id)

/-- The declarator at a handle. -/
def declarator (id : DeclaratorId) : Lower Declarator := do
  present (.declarator id) ((← env).tree.declarator? id)

/-! ### The module -/

/-- Emits code. What the builder refuses is an internal fault. -/
def emit (line : Nat) (m : Build α) : Lower α := fun env s =>
  match m s.builder with
  | .ok (a, builder) => (.done a, { s with builder })
  | .error (.missingBlock id) => (.stuck (.missingBlock id), s)
  | .error fault => failWith (.internal fault.message) line env s

/-- The aggregates. -/
def types : Lower TypeTable := read (·.builder.mod.types)

/-- Changes the table of aggregates and yields something. -/
def withTypes (f : TypeTable → α × TypeTable) : Lower α :=
  withBuilder fun b =>
    let (a, types) := f b.mod.types
    (a, { b with mod := { b.mod with types } })

/-- A type as it is shown in a message. -/
def describe (ty : Ty) : Lower String := return (← types).describe ty

/-- The block that takes the next instruction. -/
def currentBlock : Lower (Option BlockId) := read (·.builder.block)

/-- Goes on at a block. -/
def setBlock (id : BlockId) : Lower Unit := updateBuilder (·.setBlock id)

/-! ### Brackets -/

/-- Runs a step in an lvalue mode and brings back the mode from before. -/
def withLvalue (on : Bool) (m : Lower α) : Lower α := fun env s =>
  let (result, after) := m env { s with lvalue := on }
  (result, { after with lvalue := s.lvalue })

/-- Runs a step inside a namespace. -/
def inNamespace (name : String) (m : Lower α) : Lower α := fun env s =>
  let (result, after) := m env { s with scopes := s.scopes.pushNamespace name }
  (result, { after with scopes := after.scopes.popNamespace name })

/-- Runs a step in a scope of its own. Outside of functions everything is declared globally, and
no scope is opened. -/
def localScope (m : Lower α) : Lower α := fun env s =>
  match s.scopes.openLocal with
  | .error _ => m env s
  | .ok opened =>
    let (result, after) := m env { s with scopes := opened }
    match after.scopes.closeLocal with
    | .ok scopes => (result, { after with scopes })
    | .error fault => (result, (report (.internal fault.message) 0 env after).2)

/-- Runs a step and then throws away the code and the globals it made; the aggregates stay. -/
def probe (m : Lower α) : Lower α := fun env s =>
  let (saved, builder) := s.builder.snapshot
  let (result, after) := m env { s with builder }
  (result, { after with builder := after.builder.restore saved .types, lvalue := s.lvalue })

end Lower

end TreeFlow
