import TreeFlow.Proofs.Lowering.ShortCircuit

/-!
# What does not look around

An expression looks at the scopes where it names something, and where it has types in it. The rest of its lowering
has nothing to do with them. So an expression in which every name stands directly behind `::`, and which has no types
in it, means the same in any namespace and with any names declared around it (`overlooks_descentTo`): only the
variables and functions that are declared outside of functions matter.
-/

namespace TreeFlow

/-! ### Trees -/

/-- Every name in an expression stands directly behind `::`, and there are no types in it. -/
inductive Tree.NamesGlobally (t : Tree) : ExprId → Prop
  | global {e x : ExprId} {line line' : UInt32} {name : String} (he : t.expr? e = some ⟨.globalScope x, line⟩)
      (hx : t.expr? x = some ⟨.identifier name, line'⟩) : NamesGlobally t e
  | node {e : ExprId} {node : Expr} (he : t.expr? e = some node) (hname : ∀ name, node.kind ≠ .identifier name)
      (htypes : ∀ c ∈ node.kind.handles, ∃ x, c = .expr x)
      (hparts : ∀ x, .expr x ∈ node.kind.handles → NamesGlobally t x) : NamesGlobally t e

namespace Lower

variable {α β : Type} {env : Env}

/-! ### The judgement -/

/-- The state with other scopes. -/
def State.rescope (change : ScopeStack → ScopeStack) (s : State) : State := { s with scopes := change s.scopes }

/-- It makes no difference to a step if the scopes are changed before it or after it, as long as the same variables
and functions are declared outside of functions. -/
def Overlooks (env : Env) (m : Lower α) : Prop :=
  ∀ change : ScopeStack → ScopeStack, (∀ u, (change u).global.vars = u.global.vars) →
    ∀ s, Commutes env (State.rescope change) m s

namespace Overlooks

variable {m : Lower α} {next : α → Lower β}

theorem of_done (value : State → α) (after : State → State) (hm : ∀ s, m env s = (.done (value s), after s))
    (hvalue : ∀ change s, value (s.rescope change) = value s)
    (hafter : ∀ change s, after (s.rescope change) = (after s).rescope change) : Overlooks env m := fun change _ s => by
  rw [Commutes, hm, hm, hvalue, hafter]

@[grind ←] theorem pure (a : α) : Overlooks env (Pure.pure a : Lower α) := fun _ _ _ => rfl

@[grind ←] theorem fail : Overlooks env (Lower.fail : Lower α) := fun _ _ _ => rfl

@[grind ←] theorem halt (why : Stuck) : Overlooks env (Lower.halt why : Lower α) := fun _ _ _ => rfl

@[grind ←] theorem askEnv : Overlooks env Lower.env := fun _ _ _ => rfl

@[grind ←] theorem failWith (kind : DiagnosticKind) (line : Nat) :
    Overlooks env (Lower.failWith kind line : Lower α) := fun _ _ _ => rfl

theorem read {f : State → α} (hf : ∀ change s, f (State.rescope change s) = f s) : Overlooks env (Lower.read f) :=
  of_done f id (fun _ => rfl) hf fun _ _ => rfl

@[grind ←] theorem types : Overlooks env Lower.types := read fun _ _ => rfl

@[grind ←] theorem currentBlock : Overlooks env Lower.currentBlock := read fun _ _ => rfl

@[grind ←] theorem setBlock (b : BlockId) : Overlooks env (Lower.setBlock b) := fun _ _ _ => rfl

@[grind ←] theorem withBuilder (f : Builder → α × Builder) : Overlooks env (Lower.withBuilder f) := fun _ _ _ => rfl

@[grind ←] theorem emit (line : Nat) (m : Build α) : Overlooks env (Lower.emit line m) := fun change _ s => by
  have hbuilder : (s.rescope change).builder = s.builder := rfl
  unfold Commutes Lower.emit
  rw [hbuilder]
  rcases m s.builder with fault | ⟨a, b⟩
  · cases fault <;> rfl
  · rfl

@[grind ←] theorem bind (hm : Overlooks env m) (hnext : ∀ a, Overlooks env (next a)) : Overlooks env (m >>= next) :=
  fun change hchange s => (hm change hchange s).bind fun a t _ => hnext a change hchange t

@[grind ←] theorem attempt (hm : Overlooks env m) : Overlooks env (Lower.attempt m) :=
  fun change hchange s => (hm change hchange s).attempt

@[grind ←] theorem ignoring (hm : Overlooks env m) : Overlooks env (Lower.ignoring m) := hm.attempt.bind fun _ => .pure _

@[grind ←] theorem describe (ty : Ty) : Overlooks env (Lower.describe ty) := types.bind fun _ => .pure _

@[grind ←] theorem withLvalue (on : Bool) (hm : Overlooks env m) : Overlooks env (Lower.withLvalue on m) :=
  fun change hchange s => by
    have hinside : m env (State.rescope change { s with lvalue := on }) = _ := hm change hchange _
    have hmode : { s.rescope change with lvalue := on } = State.rescope change { s with lvalue := on } := rfl
    unfold Commutes Lower.withLvalue
    rw [hmode, hinside]
    rfl

/-- A node is there, or its handle is out of range. -/
theorem bindExpr {id : ExprId} {next : Expr → Lower β}
    (hnext : ∀ node, env.tree.expr? id = some node → Overlooks env (next node)) :
    Overlooks env (Lower.expr id >>= next) := by
  cases hnode : env.tree.expr? id with
  | none =>
    intro change _ s
    have hnone : ∀ u : State, (Lower.expr id >>= next) env u = (.stuck (.dangling (.expr id)), u) := fun u => by
      show Lower.bind (Lower.present _ (env.tree.expr? id)) next env u = _
      rw [hnode]
      rfl
    rw [Commutes, hnone, hnone]
  | some node =>
    intro change hchange s
    have hsome : ∀ u : State, (Lower.expr id >>= next) env u = next node env u :=
      fun u => bind_run (expr_of_expr? u hnode)
    rw [Commutes, hsome, hsome]
    exact hnext node hnode change hchange s

end Overlooks

/-! ### Values -/

section Values

variable (v l r : Value) (ty : Ty) (line : Nat)

@[grind ←] theorem overlooks_toRvalue : Overlooks env (toRvalue v line) := by grind [toRvalue]

@[grind ←] theorem overlooks_loadAggregate : Overlooks env (loadAggregate v line) := by grind [loadAggregate]

@[grind ←] theorem overlooks_toBool : Overlooks env (toBool v line) := by grind [toBool]

@[grind ←] theorem overlooks_applyConversion (c : Conversion) (op : Operand) :
    Overlooks env (applyConversion c op ty line) := by cases c <;> grind [applyConversion]

@[grind ←] theorem overlooks_convert : Overlooks env (convert v ty line) := by grind [convert]

@[grind ←] theorem overlooks_convertOrReport : Overlooks env (convertOrReport v ty line) := by
  grind [convertOrReport]

@[grind ←] theorem overlooks_promote : Overlooks env (promote l r line) := by grind [promote]

@[grind ←] theorem overlooks_pointerOffset (back : Bool) : Overlooks env (pointerOffset l r back line) := by
  grind [pointerOffset]

@[grind ←] theorem overlooks_elementSize : Overlooks env (elementSize ty line) := by
  refine .bind .askEnv fun env => .bind .types fun table => ?_
  split
  · exact .pure _
  · exact .halt _
  · exact .bind (.describe _) fun _ => .failWith _ _

@[grind ←] theorem overlooks_pointerDifference : Overlooks env (pointerDifference l r line) := by
  grind [pointerDifference]

@[grind ←] theorem overlooks_pointerCompare (op : BinaryOp) : Overlooks env (pointerCompare op l r line) := by
  grind [pointerCompare]

@[grind ←] theorem overlooks_addressAsInteger : Overlooks env (addressAsInteger v line) := by
  grind [addressAsInteger]

@[grind ←] theorem overlooks_arithmetic (op : BinaryOp) : Overlooks env (arithmetic op l r line) := by
  refine .bind (overlooks_addressAsInteger l line) fun l => .bind (overlooks_addressAsInteger r line) fun r => ?_
  split
  · exact .failWith _ _
  · refine .bind (overlooks_promote l r line).attempt fun found => ?_
    split
    · exact .failWith _ _
    · split
      · split
        · exact .bind (.emit _ _) fun _ => .pure _
        · exact .fail
      · split
        · exact .bind (.emit _ _) fun _ => .pure _
        · exact .failWith _ _

@[grind ←] theorem overlooks_combine (op : BinaryOp) : Overlooks env (combine op l r line) := by grind [combine]

@[grind ←] theorem overlooks_argument (param : Option Ty) : Overlooks env (argument v param line) := by
  cases param <;> grind [argument]

@[grind ←] theorem overlooks_fieldBase : Overlooks env (fieldBase v line) := by grind [fieldBase]

@[grind ←] theorem overlooks_putAggregate (addr : Operand) : Overlooks env (putAggregate addr v ty line) := by
  grind [putAggregate]

@[grind ←] theorem overlooks_alternative : Overlooks env (alternative v ty line) := by grind [alternative]

@[grind ←] theorem overlooks_joinFrom (source join : BlockId) : Overlooks env (joinFrom source join v ty line) := by
  grind [joinFrom]

end Values

/-- A name behind `::` is looked up outside of functions only. -/
theorem overlooks_identifier (name : String) (line : Nat) : Overlooks env (identifier name true line) := by
  intro change hchange s
  have hread : ∀ u : State, read (·.scopes) env u = (.done u.scopes, u) := fun _ => rfl
  have hsame : (change s.scopes).globalVar? name = s.scopes.globalVar? name := by
    rw [ScopeStack.globalVar?, ScopeStack.globalVar?, hchange]
  have hscopes : (s.rescope change).scopes = change s.scopes := rfl
  rw [Commutes, identifier, bind_run (hread _), bind_run (hread s), if_pos rfl, if_pos rfl, hscopes, hsame]
  cases s.scopes.globalVar? name <;> rfl

/-! ### The children of a node -/

section Children

variable {sub : Descent} {e left right : ExprId} (he : Overlooks env (sub.raw e))
  (hl : Overlooks env (sub.raw left)) (hr : Overlooks env (sub.raw right)) (line : Nat)

section
include he

@[grind ←] theorem overlooks_expr : Overlooks env (sub.expr e) := by
  refine he.bind fun v => .bind (.read fun _ _ => rfl) fun on => ?_
  split
  · exact .pure _
  · exact .bindExpr fun node _ => overlooks_toRvalue _ _

@[grind ←] theorem overlooks_rvalue : Overlooks env (sub.rvalue e) := (overlooks_expr he).withLvalue _

@[grind ←] theorem overlooks_lvalue : Overlooks env (sub.lvalue e) := (overlooks_expr he).withLvalue _

@[grind ←] theorem overlooks_storage : Overlooks env (sub.storage e) := he.withLvalue _

@[grind ←] theorem overlooks_truth : Overlooks env (truth sub e line) := by grind [truth]

@[grind ←] theorem overlooks_step (up before : Bool) : Overlooks env (step sub e up before line) := by
  refine .bindExpr fun node _ => .bind (overlooks_storage he) fun target => ?_
  dsimp only
  split
  · exact .failWith _ _
  · refine .bind (.emit _ _) fun old => ?_
    grind

@[grind ←] theorem overlooks_unary (op : UnaryOp) : Overlooks env (unary sub op e line) := by
  cases op <;> grind [unary, addressOf, deref, negate]

theorem overlooks_alternativeIn (block : BlockId) : Overlooks env (alternativeIn sub block e) := by
  refine .bind (.setBlock _) fun _ => .bind (overlooks_rvalue he).attempt fun v => .bind .currentBlock fun _ => .pure _

theorem overlooks_fieldAccess (name : String) : Overlooks env (fieldAccess sub e name line) := by
  refine .bind (overlooks_storage he) fun base => .bind (overlooks_fieldBase _ _) fun found => ?_
  refine .bind .types fun table => ?_
  dsimp only
  split
  · grind
  · split
    · grind
    · split
      · grind
      · exact .bind (.emit _ _) fun _ => .pure _

theorem overlooks_assignTo (target : Value) : Overlooks env (assignTo sub target e line) := by
  unfold assignTo
  split
  · refine .bind (overlooks_storage he) fun v => ?_
    grind
  · refine .bind (overlooks_rvalue he) fun v => ?_
    grind

end

section
include hl hr

theorem overlooks_logical (and : Bool) : Overlooks env (logical sub and left right line) := by
  refine .bind (overlooks_truth hl line) fun lb => ?_
  split
  · grind
  · refine .bind .currentBlock fun o => ?_
    cases o with
    | none => exact .failWith _ _
    | some source =>
      refine .bind (.emit _ _) fun rightBlock => .bind (.emit _ _) fun endBlock => ?_
      cases and <;> grind

theorem overlooks_binary (op : BinaryOp) : Overlooks env (binary sub op left right line) := by
  unfold binary
  split
  · exact overlooks_logical hl hr line true
  · exact overlooks_logical hl hr line false
  · refine .bind (overlooks_rvalue hl).attempt fun l => .bind (overlooks_rvalue hr).attempt fun r => ?_
    grind

theorem overlooks_element : Overlooks env (element sub left right line) := by grind [element]

theorem overlooks_assign : Overlooks env (assign sub left right line) := by
  refine .bindExpr fun node _ => .bind (overlooks_lvalue hl).attempt fun target => ?_
  have hassign := fun t => overlooks_assignTo hr line t
  grind

theorem overlooks_comma : Overlooks env (comma sub left right) :=
  .bind (overlooks_rvalue hl) fun _ => hr.bind fun _ => .pure _

include he in
theorem overlooks_conditional : Overlooks env (conditional sub e left right line) := by
  refine .bind (overlooks_truth he line) fun c => ?_
  refine .bind (.emit _ _) fun yesBlock => .bind (.emit _ _) fun noBlock => .bind (.emit _ _) fun join => ?_
  refine .bind (.emit _ _) fun _ => ?_
  refine .bind (overlooks_alternativeIn hl _) fun (y, yesEnd) => ?_
  refine .bind (overlooks_alternativeIn hr _) fun (n, noEnd) => ?_
  dsimp only
  split
  · split
    · exact .failWith _ _
    · refine .bind (overlooks_joinFrom _ _ _ _ _) fun fromYes => .bind (overlooks_joinFrom _ _ _ _ _) fun fromNo => ?_
      refine .bind (.setBlock _) fun _ => ?_
      grind
  · exact .fail

end

theorem overlooks_globalScope
    (h : (∃ name line, env.tree.expr? e = some ⟨.identifier name, line⟩) ∨ Overlooks env (sub.raw e)) :
    Overlooks env (globalScope sub e line) := by
  refine .bindExpr fun node hnode => ?_
  rcases h with ⟨name, line', hname⟩ | he
  · obtain rfl := Option.some.inj (hnode.symm.trans hname)
    exact overlooks_identifier name line
  · split
    · exact overlooks_identifier _ line
    · exact he

theorem overlooks_arguments {args : List ExprId} (hargs : ∀ a ∈ args, Overlooks env (sub.raw a)) (params : List Ty) :
    Overlooks env (arguments sub line params args) := by
  induction args generalizing params with
  | nil => exact .pure _
  | cons a rest ih =>
    refine .bind (overlooks_rvalue (hargs a List.mem_cons_self)) fun v => .bind (overlooks_argument v line _) fun op => ?_
    exact .bind (ih (fun b hb => hargs b (List.mem_cons_of_mem _ hb)) _) fun _ => .pure _

include he in
theorem overlooks_call {args : List ExprId} (hargs : ∀ a ∈ args, Overlooks env (sub.raw a)) :
    Overlooks env (call sub e args line) := by
  refine .bind (.read fun _ _ => rfl) fun on => ?_
  split
  · exact .failWith _ _
  · refine .bind (overlooks_rvalue he) fun f => ?_
    split
    · exact .failWith _ _
    · split
      · exact .failWith _ _
      · exact .bind (overlooks_arguments line hargs _) fun ops => .bind (.emit _ _) fun _ => .pure _

/-! ### Nodes -/

variable (hsub : ∀ x, env.tree.NamesGlobally x → Overlooks env (sub.raw x))
include hsub

theorem overlooks_rawWith (h : env.tree.NamesGlobally e) : Overlooks env (rawWith sub e) := by
  refine .bindExpr fun node hnode => ?_
  cases h with
  -- The sign looks at what stands behind it, which is not lowered on its own then.
  | global he hx =>
    obtain rfl := Option.some.inj (hnode.symm.trans he)
    exact overlooks_globalScope _ (.inl ⟨_, _, hx⟩)
  | node he hname htypes hparts =>
    obtain rfl := Option.some.inj (hnode.symm.trans he)
    have hchild : ∀ c ∈ node.kind.handles, ∃ x, c = .expr x ∧ Overlooks env (sub.raw x) := by
      intro c hc
      obtain ⟨x, rfl⟩ := htypes c hc
      exact ⟨x, rfl, hsub x (hparts x hc)⟩
    dsimp only
    -- Of each kind of node, `hchild` is left with its children; kinds with types in them have a child that is none.
    cases hkind : node.kind <;> rw [hkind] at hchild <;>
      simp only [ExprKind.handles, List.mem_cons, List.not_mem_nil, or_false, forall_eq_or_imp, forall_eq,
        Handle.expr.injEq, exists_eq_left', reduceCtorEq, false_and, exists_false] at hchild
    case integer n => exact .pure _
    case char c => exact .pure _
    case bool b => exact .pure _
    case double x => exact .pure _
    case str text => exact .bind (.withBuilder _) fun _ => .pure _
    case identifier name => exact absurd hkind (hname name)
    case globalScope operand => exact overlooks_globalScope _ (.inr hchild)
    case call callee args =>
      refine overlooks_call hchild.1 _ fun a ha => ?_
      simpa using hchild.2 _ (List.mem_map_of_mem ha)
    case field base name => exact overlooks_fieldAccess hchild _ name
    case index base position => exact overlooks_element hchild.1 hchild.2 _
    case binary op left right => exact overlooks_binary hchild.1 hchild.2 _ op
    case unary op operand => exact overlooks_unary hchild _ op
    case step op operand => exact overlooks_step hchild _ _ _
    case assign target value => exact overlooks_assign hchild.1 hchild.2 _
    case conditional cond yes no => exact overlooks_conditional hchild.1 hchild.2.1 hchild.2.2 _
    case comma first second => exact overlooks_comma hchild.1 hchild.2

end Children

/-- **An expression that names everything globally means the same everywhere.** Whatever is declared in functions, and
in whichever namespace the expression stands, however deep it is and whether it can be lowered or not: its lowering
only depends on the variables and functions that are declared outside of functions. -/
theorem overlooks_descentTo {e : ExprId} (h : env.tree.NamesGlobally e) (depth : Nat) :
    Overlooks env ((descentTo depth).raw e) := by
  induction depth generalizing e with
  | zero => exact .halt _
  | succ depth ih => exact overlooks_rawWith (fun x hx => ih hx) h

end Lower

end TreeFlow
