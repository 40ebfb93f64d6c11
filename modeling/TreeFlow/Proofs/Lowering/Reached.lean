import Mathlib.Logic.Relation
import TreeFlow.Proofs.Lowering.Spanning

/-!
# The states that lowering comes through

Names resolve wherever lowering is, not only where a unit begins and ends (`Reached.namesResolve`). A state
inside of a step is told by what was done before. On the way to it, whole nodes were lowered, at any depth;
frames and attempts were entered which are not left yet; and in between single things were done, down to
an instruction, a tag, or a name. Each of these is one step (`Step`), and a way is a run of steps.

What an attempt does is thrown away, so it has two ends. The states inside are reached from the snapshot
on, and what follows the attempt is reached by taking it as a whole.
-/

namespace TreeFlow.Lower

variable {α : Type}

/-- A step comes to an end in a state, whether it yields something or fails. -/
def RunsTo (m : Lower α) (env : Env) (s t : State) : Prop :=
  ∃ o, m env s = (o, t) ∧ ∀ why, o ≠ .stuck why

theorem RunsTo.of_isDone {m : Lower α} {env : Env} {s : State} (h : (m env s).1.isDone) :
    m.RunsTo env s (m env s).2 := by
  refine ⟨_, rfl, fun why hstuck => ?_⟩
  rw [hstuck] at h
  exact Bool.false_ne_true h

theorem Ends.of_runsTo {m : Lower α} {env : Env} {s t : State} {P : State → Prop} (h : Ends m env s P)
    (hrun : m.RunsTo env s t) : P t := by
  obtain ⟨o, hm, hstuck⟩ := hrun
  unfold Ends at h
  rw [hm] at h
  cases o with
  | stuck why => exact absurd rfl (hstuck why)
  | _ => exact h

theorem Ends.with_run {m : Lower α} {env : Env} {s : State} {P : State → Prop} (h : Ends m env s P) :
    Ends m env s fun t => P t ∧ m.RunsTo env s t := by
  unfold Ends at h ⊢
  rcases hrun : m env s with ⟨a | _ | why, t⟩
  · rw [hrun] at h
    exact ⟨h, _, hrun, nofun⟩
  · rw [hrun] at h
    exact ⟨h, _, hrun, nofun⟩
  · trivial

/-! ### What is done at one place -/

/-- What lowering does, wherever it is. -/
inductive Part : {α : Type} → Lower α → Prop
  -- Nodes, each with all that is below it.
  | expr (depth : Nat) (e : ExprId) : Part ((descentTo depth).raw e)
  | spec (depth : Nat) (id : SpecId) : Part ((descentTo depth).spec id)
  | link (depth : Nat) (mode : DeclaratorMode) (id : DeclaratorId) (info : DeclaratorInfo) :
      Part ((descentTo depth).link mode id info)
  | statement (depth : Nat) (id : StmtId) : Part (statementTo depth id)
  | topLevel (depth : Nat) (id : StmtId) : Part (topLevel (statementTo depth) id)
  | global (id : StmtId) : Part (global id)
  -- Attempts, each with what is kept of it.
  | typeOf (depth : Nat) (e : ExprId) : Part ((descentTo depth).typeOf e)
  | constInt (depth : Nat) (e : ExprId) : Part ((descentTo depth).constInt e)
  | constantInitializer (ty : Ty) (init : ExprId) (line : Nat) : Part (constantInitializer ty init line)
  -- Code.
  | insert (line : Nat) (kind : InstKind) (ty : Ty) : Part (emit line (Build.insert kind ty))
  | terminate (line : Nat) (t : Terminator) : Part (emit line (Build.terminate t))
  | alloca (line : Nat) (ty : Ty) : Part (emit line (Build.alloca ty))
  | newBlock (line : Nat) : Part (emit line Build.newBlock)
  | newBlockBefore (line : Nat) (b : BlockId) : Part (emit line (Build.newBlockBefore b))
  | setBlock (b : BlockId) : Part (setBlock b)
  -- Aggregates and names of types.
  | newAggregate (kind : AggregateKind) (base : String) : Part (withTypes (·.declare kind base))
  | tag (kind : AggregateKind) (name : String) : Part (declareTag kind name)
  | fields (depth : Nat) (kind : AggregateKind) (decl : AggregateDecl) (line : Nat) :
      Part (defineAggregate (descentTo depth) kind decl line)
  | typeName (name : String) (ty : Ty) : Part (updateScopes (·.defineType name ty))
  -- Globals and functions.
  | newGlobal (g : Global) : Part (withBuilder (·.addGlobal g))
  | globalAddress (name : String) (storage : Storage) (ty : Ty) (hasInit : Bool) (line : Nat) :
      Part (globalAddress name storage ty hasInit line)
  | completeGlobal (addr : Constant) (ty : Ty) (line : Nat) : Part (completeGlobal addr ty line)
  | setGlobalInit (addr init : Constant) (line : Nat) : Part (setGlobalInit addr init line)
  | newFunction (name : String) (sig : Signature) (linkage : Linkage) :
      Part (withBuilder (·.declareFunction name sig linkage))
  | declareFunction (name : String) (sig : Signature) (storage : Storage) (line : Nat) :
      Part (declareFunction name sig storage line)
  | makeInternal (id : FuncId) : Part (updateBuilder fun b =>
      { b with mod := b.mod.modifyFunction id fun f => { f with linkage := .internal } })
  | addCtor (priority : Nat) (id : FuncId) : Part (updateBuilder fun b =>
      { b with mod := b.mod.addCtor priority id })

/-- **Whatever is done leads on**, from every state. -/
theorem Part.steady {m : Lower α} (h : Part m) : Steady m := by
  cases h with
  | expr depth e => exact .of_calm ((calm_descentTo depth).raw e)
  | spec depth id => exact .of_calm ((calm_descentTo depth).spec id)
  | link depth mode id info => exact .of_calm ((calm_descentTo depth).link mode id info)
  | statement depth id => exact spans_statementTo depth id
  | topLevel depth id => exact spans_topLevel (spans_statementTo depth) id
  | global id => exact spans_global id
  | typeOf depth e => exact .of_calm (calm_subTypeOf (calm_descentTo depth) e)
  | constInt depth e => exact .of_calm (calm_subConstInt (calm_descentTo depth) e)
  | constantInitializer ty init line => exact .of_calm (calm_constantInitializer ty init line)
  | insert line kind ty => exact .emit line (Build.steady_insert kind ty)
  | terminate line t => exact .emit line (Build.steady_terminate t)
  | alloca line ty => exact .emit line (Build.steady_alloca ty)
  | newBlock line => exact .emit line Build.steady_newBlock
  | newBlockBefore line b => exact .emit line (Build.steady_newBlockBefore b)
  | setBlock b => exact .setBlock b
  | newAggregate kind base => exact .of_calm (Calm.withTypes fun t => t.extends_declare kind base)
  | tag kind name => exact .of_calm (calm_declareTag kind name)
  | fields depth kind decl line => exact .of_calm (calm_defineAggregate (calm_descentTo depth) line kind decl)
  | typeName name ty => exact .of_retains (.defineType name ty)
  | newGlobal g => exact fun _ s => .of_retains (.addGlobal s g)
  | globalAddress name storage ty hasInit line => exact spans_globalAddress name ty storage line hasInit
  | completeGlobal addr ty line => exact .of_retains (retains_completeGlobal ty line addr)
  | setGlobalInit addr init line => exact .of_retains (retains_setGlobalInit line addr init)
  | newFunction name sig linkage => exact .addFunction name sig linkage
  | declareFunction name sig storage line => exact spans_declareFunction line name sig storage
  | makeInternal id => exact .of_retains (.makeInternal id)
  | addCtor priority id => exact fun _ s => .of_retains (.addCtor s priority id)

/-! ### Steps -/

/-- What lowering a tree does next in a state. -/
inductive Step (env : Env) : State → State → Prop
  /-- Something is done that may be done anywhere. -/
  | part {α : Type} {m : Lower α} {s t : State} (hm : Part m) (hrun : m.RunsTo env s t) : Step env s t
  /-- Something changes that names have nothing to do with: what is queued, the mode, the namespace, the
  loops, the labels, or where the startup routine ends. -/
  | aside {s t : State} (hfunc : t.func = s.func) (hbuilder : t.builder = s.builder)
      (hglobal : t.scopes.global = s.scopes.global) (hlocals : t.scopes.locals = s.scopes.locals) : Step env s t
  /-- An attempt begins. -/
  | attempt (s : State) : Step env s { s with builder := s.builder.snapshot.2 }
  /-- Outside of functions, another one is built from now on. -/
  | setFunction {s : State} (hfunc : s.func = none) (id : Option FuncId) :
      Step env s { s with builder := s.builder.setFunction id }
  | openBody {s : State} {scopes : ScopeStack} {o : OpenFunction} (hopen : s.scopes.openFunction = .ok scopes)
      (hbuilding : s.builder.func = some o.id) : Step env s { s with scopes, func := some o }
  | closeBody {s : State} {scopes : ScopeStack} (hclose : s.scopes.closeFunction = .ok scopes) :
      Step env s { s with scopes, func := none }
  | openBlock {s : State} {scopes : ScopeStack} (hopen : s.scopes.openLocal = .ok scopes) :
      Step env s { s with scopes }
  | closeBlock {s : State} {scopes : ScopeStack} (hclose : s.scopes.closeLocal = .ok scopes) :
      Step env s { s with scopes }
  /-- A variable is declared in a function. -/
  | localVariable {s t : State} (name : String) (storage : Storage) (ty : Ty) (init : Option ExprId) (line : Nat)
      (hfunc : s.func.isSome) (hrun : (Lower.localVariable name storage ty init line).RunsTo env s t) :
      Step env s t
  /-- Some of the parameters of a function are declared. -/
  | params {s t : State} (i : Nat) (ps : List DeclaratorInfo) (hfunc : s.func.isSome)
      (hrun : (bindParams i ps).RunsTo env s t) : Step env s t

/-- **One step keeps names from dangling.** -/
theorem Step.isRooted {env : Env} {s t : State} (hst : Step env s t) (h : s.IsRooted) : t.IsRooted := by
  cases hst with
  | part hm hrun => exact ((hm.steady env s).of_runsTo hrun).rooted h
  | aside hfunc hbuilder hglobal hlocals => exact h.of_same hfunc hbuilder hglobal hlocals
  | attempt => exact h.snapshot
  | setFunction hfunc id => exact h.setFunction hfunc id
  | openBody hopen hbuilding =>
    obtain ⟨-, rfl⟩ := ScopeStack.openFunction_eq_ok hopen
    exact h.openBody rfl rfl rfl rfl hbuilding
  | closeBody hclose =>
    obtain rfl := ScopeStack.closeFunction_eq_ok hclose
    exact h.closeBody rfl rfl rfl rfl
  | openBlock hopen => exact h.openBlock hopen
  | closeBlock hclose => exact h.closeBlock hclose
  | localVariable name storage ty init line hfunc hrun =>
    have hleads := steadyInside_localVariable name ty init storage line env s hfunc
    exact (hleads.of_runsTo hrun).rooted h
  | params i ps hfunc hrun =>
    have hleads := steadyInside_bindParams i ps env s hfunc
    exact (hleads.of_runsTo hrun).rooted h

/-! ### Ways -/

/-- The states that lowering a tree comes through. -/
def Reached (env : Env) (s : State) : Prop := Relation.ReflTransGen (Step env) (.initial env.config) s

namespace Reached

variable {env : Env} {s t : State}

theorem start (env : Env) : Reached env (.initial env.config) := .refl

theorem step (h : Reached env s) (hst : Step env s t) : Reached env t := .tail h hst

/-- All along the way names do not dangle. -/
theorem isRooted (h : Reached env s) : s.IsRooted := by
  induction h with
  | refl => exact State.isRooted_initial env.config
  | tail _ hst ih => exact hst.isRooted ih

/-! ### Whole units -/

/-- What is done outside of functions comes to a state that is reached, outside of functions. -/
theorem ends {α : Type} {m : Lower α} (h : Reached env s) (hs : s.func = none) (hm : Part m) :
    Ends m env s fun t => Reached env t ∧ t.func = none := by
  have hled := hm.steady env s
  unfold Ends at hled ⊢
  rcases hrun : m env s with ⟨a | _ | _, t⟩
  · rw [hrun] at hled
    exact ⟨h.step (.part hm ⟨_, hrun, nofun⟩), hled.func.trans hs⟩
  · rw [hrun] at hled
    exact ⟨h.step (.part hm ⟨_, hrun, nofun⟩), hled.func.trans hs⟩
  · trivial

theorem ends_declarations {σ : Type} (hook : DiagnosticHook σ) (ids : List StmtId) (acc : σ)
    (h : Reached env s) (hs : s.func = none) :
    Ends (declarations hook ids acc) env s fun t => Reached env t ∧ t.func = none := by
  induction ids generalizing s acc with
  | nil => exact .of_done rfl ⟨h, hs⟩
  | cons id rest ih =>
    refine (h.ends hs (.global id)).bind (fun _ ht => ht) fun _ t ht _ => ?_
    refine .bind_of_done rfl (.bind_of_done rfl ?_)
    -- The hook may have taken diagnostics out.
    have hseen : Reached env { t with diags := (hook t.diags acc).1 } := ht.1.step (.aside rfl rfl rfl rfl)
    have hrest := ih (hook t.diags acc).2 hseen ht.2
    refine .bind_of_done rfl ?_
    split
    · exact .of_done rfl ⟨hseen, ht.2⟩
    · exact hrest

theorem ends_finishStartup (h : Reached env s) (hs : s.func = none) :
    Ends finishStartup env s fun t => Reached env t ∧ t.func = none := by
  have hrest : ∀ id u, Reached env u → u.func = none → Ends (do
      emit 0 (Build.ret none)
      updateBuilder (·.setFunction none)
      let priority := (← Lower.env).config.ctorPriority
      updateBuilder fun b => { b with mod := b.mod.addCtor priority id }) env u
        fun t => Reached env t ∧ t.func = none := by
    intro id u hu hnone
    refine (hu.ends hnone (.terminate 0 (.ret none))).bind (fun _ ht => ht) fun _ t ht _ => ?_
    have houter := ht.1.step (.setFunction ht.2 none)
    exact .bind_of_done rfl (.bind_of_done rfl (houter.ends ht.2 (.addCtor _ id)))
  refine .bind_of_done rfl ?_
  split
  · exact .of_done rfl ⟨h, hs⟩
  · next routine _ =>
    have hfound : Reached env { s with startup := none } := h.step (.aside rfl rfl rfl rfl)
    have hentered := hfound.step (.setFunction (s := { s with startup := none }) hs (some routine.id))
    refine .bind_of_done rfl (.bind_of_done rfl ?_)
    split
    · next block _ =>
      refine (hentered.ends hs (.setBlock block)).bind (fun _ ht => ht) fun _ t ht _ => ?_
      exact hrest routine.id t ht.1 ht.2
    · exact hrest routine.id _ hentered hs

/-- **The way leads to the end**: what lowering a whole unit comes to is reached. -/
theorem ends_completeUnit {σ : Type} (env : Env) (hook : DiagnosticHook σ) (start : σ) :
    Ends (completeUnit hook start) env (.initial env.config) (Reached env) := by
  have hunit : Ends (unit hook start) env (.initial env.config) fun t => Reached env t ∧ t.func = none :=
    .bind_of_done rfl (ends_declarations hook _ start (.start env) rfl)
  refine hunit.bind (fun _ ht => ht.1) fun acc t ht _ => ?_
  have hclosed : Ends (ignoring finishStartup) env t fun u => Reached env u ∧ u.func = none :=
    (ends_finishStartup ht.1 ht.2).bind_attempt fun _ u hu => .of_done rfl hu
  exact hclosed.bind (fun _ hu => hu.1) fun _ u hu _ => .of_done rfl hu.1

end Reached

/-! ### Names -/

/-- **Names never dangle.** In every state that lowering any tree comes through, however often code was
thrown away before, the tags of all frames stand for aggregates of their kind. The names outside of
functions stand for globals and functions with their full names and types. Those in a function stand for
globals and functions of their types, and for stack slots of that function that have room for them. -/
theorem Reached.namesResolve {env : Env} {s : State} (h : Reached env s) : s.NamesResolve :=
  h.isRooted.toNamesResolve

/-- The tree of `int a[sizeof(struct S { int x; })];`. -/
def dimensionTree : Tree where
  exprs := #[⟨.sizeOf ⟨1⟩, 1⟩]
  specs := #[⟨.named "int", 1⟩, ⟨.struct ⟨some "S", some [⟨.normal, ⟨0⟩, [⟨0⟩]⟩]⟩, 1⟩]
  declarators := #[⟨.identifier "x", 1⟩, ⟨.identifier "a", 1⟩, ⟨.array ⟨1⟩ [some ⟨0⟩], 1⟩]
  stmts := #[⟨.variable ⟨.normal, ⟨0⟩, [⟨2⟩]⟩, 1⟩]
  root := [⟨0⟩]

/-- The struct is defined in an attempt whose code is thrown away, and its tag stands for it. -/
theorem Reached.namesResolve_dimension : ∃ t,
    (global ⟨0⟩).RunsTo ⟨dimensionTree, {}⟩ (.initial {}) t ∧ t.scopes.tag? .struct "S" = some "struct.S" ∧
      t.builder.mod.types.kindOf? "struct.S" = some .struct := by
  have hdone : (global ⟨0⟩ ⟨dimensionTree, {}⟩ (.initial {})).1.isDone := by decide +kernel
  have htag : (global ⟨0⟩ ⟨dimensionTree, {}⟩ (.initial {})).2.scopes.tag? .struct "S" = some "struct.S" := by
    decide +kernel
  have hstart : Reached ⟨dimensionTree, {}⟩ (.initial {}) := .start _
  -- The environment is kept opaque, so that nothing evaluates the lowering but the two lines above.
  obtain ⟨env, henv⟩ : ∃ env : Env, env = ⟨dimensionTree, {}⟩ := ⟨_, rfl⟩
  rw [← henv] at hdone htag hstart ⊢
  have hrun := RunsTo.of_isDone hdone
  exact ⟨_, hrun, htag, (Reached.namesResolve (hstart.step (.part (.global ⟨0⟩) hrun))).of_tag? htag⟩

end TreeFlow.Lower
