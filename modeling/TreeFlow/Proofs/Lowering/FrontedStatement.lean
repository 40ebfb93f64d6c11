import TreeFlow.Proofs.Lowering.Fronted
import TreeFlow.Proofs.Machine.Slots

/-!
# Statements keep stack slots at the front

Whatever is lowered, the slots of all functions stand at the fronts of their first blocks. This holds at every
step of every unit, correct or not (`Lower.fronts_completeUnit`). Statements only send control to blocks that they
make in a function with a body, to the targets of loops, and to the blocks of labels.

So each call of a function of a compiled unit reserves its stack slots once, and first of all
(`Tree.compileWith_slots`).
-/

namespace TreeFlow

namespace Lower

variable {env : Env} {s t : State}

/-! ### Loops and branches -/

section Statements

variable {lower : StmtId → Lower Unit} (hlower : ∀ id, Fronts (lower id)) (line : Nat)

@[grind ←] theorem fronts_condition (e : ExprId) : Fronts (condition e line) :=
  .bind (Fronts.of_fronting (calm_descend fun _ h => calm_truth h e line)
    (fronting_descend fun _ h => brings_truth h e line)).attempt fun _ => .pure _

@[grind ←] theorem fronts_fallThrough {b : BlockId} (hb : b ≠ .first) : Fronts (fallThrough b line) := by
  grind [fallThrough]

theorem fronts_forM {ι : Type} {step : ι → Lower Unit} (hstep : ∀ i, Fronts (step i))
    (items : List ι) : Fronts (items.forM step) := by
  induction items with
  | nil => exact .pure ()
  | cons i rest ih => exact .bind (hstep i) fun _ => ih

include hlower

@[grind ←] theorem fronts_branch (cond : ExprId) (yes : StmtId) (no : Option StmtId) :
    Fronts (branch lower cond yes no line) := by
  refine .bind (fronts_condition line cond) fun c => ?_
  refine Fronts.bind_newBlock fun last hlast => Fronts.bind_newBlockBefore hlast fun first hfirst => ?_
  cases no with
  | none =>
    refine Fronts.pure_bind (.bind (Fronts.branch c hfirst hlast) fun _ => ?_)
    grind
  | some no =>
    refine Fronts.bind_newBlockBefore hlast fun second hsecond => ?_
    refine .bind (Fronts.branch c hfirst hsecond) fun _ => ?_
    grind

@[grind ←] theorem fronts_loopBody (body : StmtId) {targets : LoopTargets} (hbrk : targets.brk ≠ .first)
    (hcont : targets.cont ≠ .first) : Fronts (loopBody lower body targets) := by
  have hopen : Fronts (update fun s => { s with loops := targets :: s.loops }) :=
    Fronts.update fun _ hs => { hs with loops := List.forall_mem_cons.2 ⟨⟨hbrk, hcont⟩, hs.loops⟩ }
  have hclose : Fronts (update fun s => { s with loops := s.loops.tail }) :=
    Fronts.update fun _ hs => { hs with loops := fun targets h => hs.loops targets (List.mem_of_mem_tail h) }
  exact .bind hopen fun _ => .bind (hlower body) fun _ => hclose

@[grind ←] theorem fronts_whileLoop (cond : ExprId) (body : StmtId) : Fronts (whileLoop lower cond body line) := by
  refine Fronts.bind_newBlock fun first hfirst => Fronts.bind_newBlock fun inner hinner => ?_
  refine Fronts.bind_newBlock fun last hlast => ?_
  refine .bind (fronts_fallThrough line hfirst) fun _ => .bind (Fronts.setBlock _) fun _ => ?_
  refine .bind (fronts_condition line cond) fun c => .bind (Fronts.branch c hinner hlast) fun _ => ?_
  grind

theorem fronts_round (start : BlockId) {test next last : BlockId} (htest : test ≠ .first) (hnext : next ≠ .first)
    (hlast : last ≠ .first) (step : Option ExprId) (body : StmtId) :
    Fronts (do
      setBlock start
      loopBody lower body ⟨last, next⟩
      fallThrough next line
      setBlock next
      match step with
      | some step => ignoring (rvalue step)
      | none => pure ()
      fallThrough test line
      setBlock last) := by
  have hend : Fronts (do
      fallThrough test line
      setBlock last) := .bind (fronts_fallThrough line htest) fun _ => Fronts.setBlock _
  refine .bind (Fronts.setBlock _) fun _ => .bind (fronts_loopBody hlower _ hlast hnext) fun _ => ?_
  refine .bind (fronts_fallThrough line hnext) fun _ => .bind (Fronts.setBlock _) fun _ => ?_
  cases step with
  | none => exact hend
  | some step => exact .bind (fronts_rvalue step).ignoring fun _ => hend

theorem fronts_test (cond step : Option ExprId) (body : StmtId) : Fronts (do
    let condBlock ← emit line Build.newBlock
    let bodyBlock ← emit line Build.newBlock
    let stepBlock ← emit line Build.newBlock
    let endBlock ← emit line Build.newBlock
    fallThrough condBlock line
    setBlock condBlock
    match cond with
    | some cond =>
      let c ← condition cond line
      emit line (Build.branch c bodyBlock endBlock)
    | none => emit line (Build.goto bodyBlock)
    setBlock bodyBlock
    loopBody lower body ⟨endBlock, stepBlock⟩
    fallThrough stepBlock line
    setBlock stepBlock
    match step with
    | some step => ignoring (rvalue step)
    | none => pure ()
    fallThrough condBlock line
    setBlock endBlock) := by
  refine Fronts.bind_newBlock fun test htest => Fronts.bind_newBlock fun start hstart => ?_
  refine Fronts.bind_newBlock fun next hnext => Fronts.bind_newBlock fun last hlast => ?_
  refine .bind (fronts_fallThrough line htest) fun _ => .bind (Fronts.setBlock _) fun _ => ?_
  have hround := fronts_round hlower line start htest hnext hlast step body
  cases cond with
  | none => exact .bind (Fronts.goto hstart) fun _ => hround
  | some cond =>
    exact .bind (fronts_condition line cond) fun c => .bind (Fronts.branch c hstart hlast) fun _ => hround

theorem fronts_forLoop (init : Option StmtId) (cond step : Option ExprId) (body : StmtId) :
    Fronts (forLoop lower init cond step body line) := by
  cases init with
  | none => exact fronts_test hlower line cond step body
  | some init => exact .bind (hlower init) fun _ => fronts_test hlower line cond step body

omit hlower in
/-- The targets of loops are known not to be first blocks, whichever function they belong to. -/
theorem fronts_loopJump {target : LoopTargets → BlockId}
    (htarget : ∀ targets : LoopTargets, targets.brk ≠ .first → targets.cont ≠ .first → target targets ≠ .first)
    (otherwise : DiagnosticKind) : Fronts (loopJump target otherwise line) := by
  refine .of_ends fun env s hs => .bind_of_done (t := s) rfl ?_
  split
  · next targets rest hloops =>
    have hmem : targets ∈ s.loops := List.mem_of_mem_head? (congrArg List.head? hloops)
    obtain ⟨hbrk, hcont⟩ := hs.loops targets hmem
    exact Fronts.ends (.goto (htarget targets hbrk hcont)) hs
  · exact Fronts.ends (.failWith _ _) hs

omit hlower in
@[grind ←] theorem fronts_ret (value : Option ExprId) : Fronts (ret value line) := by
  have hreturned : ∀ ty, Fronts (returned value ty line) := fun ty => by
    refine .of_fronting ?_ ?_ <;> cases value <;> grind [returned]
  exact .bind (.bind (.read _) fun _ => .pure _) fun ty => .bind (hreturned ty) fun op => Fronts.ret op

/-! ### Labels -/

omit hlower

theorem labelTarget_ne {name : String} {b : BlockId} (hs : s.IsFronted)
    (hrun : labelTarget name line env s = (.done b, t)) : b ≠ .first := by
  obtain ⟨scopes, _, ⟨⟩, hrun⟩ := bind_eq_done hrun
  cases hplaced : s.scopes.label? name with
  | some block =>
    simp only [hplaced] at hrun
    cases hrun
    obtain ⟨key, -, hlookup⟩ := List.exists_of_findSome?_eq_some hplaced
    exact hs.labels _ (mem_of_lookup hlookup)
  | none =>
    simp only [hplaced] at hrun
    obtain ⟨pending, _, ⟨⟩, hrun⟩ := bind_eq_done hrun
    cases hlabel : s.pending.find? (·.name == name) with
    | some label =>
      simp only [hlabel] at hrun
      cases hrun
      exact hs.pending label (List.mem_of_find?_eq_some hlabel)
    | none =>
      simp only [hlabel] at hrun
      obtain ⟨block, u, hnew, hrun⟩ := bind_eq_done hrun
      obtain ⟨_, _, ⟨⟩, hrun⟩ := bind_eq_done hrun
      cases hrun
      exact (hs.builder.newBlock (Leaves.of_emit hnew)).1

theorem labelBlock_ne {name : String} {b : BlockId} (hs : s.IsFronted)
    (hrun : labelBlock name line env s = (.done b, t)) : b ≠ .first := by
  obtain ⟨pending, _, ⟨⟩, hrun⟩ := bind_eq_done hrun
  cases hlabel : s.pending.find? (·.name == name) with
  | some label =>
    simp only [hlabel] at hrun
    obtain ⟨_, _, ⟨⟩, hrun⟩ := bind_eq_done hrun
    cases hrun
    exact hs.pending label (List.mem_of_find?_eq_some hlabel)
  | none =>
    simp only [hlabel] at hrun
    exact (hs.builder.newBlock (Leaves.of_emit hrun)).1

theorem fronts_labelTarget (name : String) : Fronts (labelTarget name line) := by
  have hnote : ∀ b, b ≠ .first → Fronts (update fun s => { s with pending := s.pending ++ [⟨name, b, line⟩] }) :=
    fun b hb => Fronts.update fun _ hs =>
      { hs with pending := List.forall_mem_append.2 ⟨hs.pending, by simpa using hb⟩ }
  refine .bind (.read _) fun scopes => ?_
  split
  · exact .pure _
  · refine .bind (.read _) fun pending => ?_
    split
    · exact .pure _
    · exact Fronts.bind_newBlock fun b hb => .bind (hnote b hb) fun _ => .pure _

theorem fronts_labelBlock (name : String) : Fronts (labelBlock name line) := by
  have hmet : Fronts (update fun s => { s with pending := s.pending.filter (·.name != name) }) :=
    Fronts.update fun _ hs =>
      { hs with pending := fun label h => hs.pending label (List.mem_of_mem_filter h) }
  refine .bind (.read _) fun pending => ?_
  split
  · exact .bind hmet fun _ => .pure _
  · exact Fronts.newBlock

@[grind ←] theorem fronts_goto (name : String) : Fronts (goto name line) :=
  Fronts.bind_of (fronts_labelTarget line name) (fun _ _ _ _ => labelTarget_ne line) fun _ => Fronts.goto

include hlower

@[grind ←] theorem fronts_label (name : String) (body : StmtId) : Fronts (label lower name body line) := by
  refine .bind (.read _) fun scopes => ?_
  split
  · exact .bind (.report _ _) fun _ => .bind (hlower body) fun _ => .fail
  · refine Fronts.bind_of (fronts_labelBlock line name) (fun _ _ _ _ => labelBlock_ne line) fun b hb => ?_
    refine .of_ends fun env s hs => .bind_of_done (t := s) rfl ?_
    split
    · exact Fronts.ends (.failWith _ _) hs
    · next scopes hscopes =>
      have hdefined : State.IsFronted { s with scopes } := by
        obtain rfl := ScopeStack.defineLabel_eq_ok hscopes
        exact { hs with labels := List.forall_mem_cons.2 ⟨hb, hs.labels⟩ }
      refine .bind_of_done rfl (Fronts.ends ?_ hdefined)
      exact .bind (fronts_fallThrough line hb) fun _ => .bind (Fronts.setBlock b) fun _ => hlower body

/-! ### Declarations -/

omit hlower

theorem fronts_declareOne (storage : Storage) (info : DeclaratorInfo) : Fronts (declareOne storage info) := by
  unfold declareOne
  split
  · exact .pure ()
  · split
    · exact (fronts_declareFunction _ _ _ _).discard
    · refine .bind .types fun table => ?_
      split
      · exact .failWith _ _
      · refine .bind (.read _) fun o => ?_
        split
        · exact fronts_localVariable _ _ _ _ _
        · exact fronts_globalVariable _ _ _ _ _

@[grind ←] theorem fronts_variableList (decl : VariableDecl) : Fronts (variableList decl) :=
  .bind (fronts_resolve _) fun _ => fronts_forM (fun _ =>
    .ignoring (.bind (fronts_resolveDeclarator _ _ _) fun _ => fronts_declareOne _ _)) _

@[grind ←] theorem fronts_aggregate (kind : AggregateKind) (decl : AggregateDecl) : Fronts (aggregate kind decl line) := by
  refine .of_fronting (calm_aggregate line kind decl) ?_
  unfold aggregate
  split
  · exact .bind (fronting_descend fun _ h => .of_still (still_defineAggregate h.toStillDescent _ _ _)) fun _ => .pure _
  · exact .bind (by grind [declareAggregate]) fun _ => .pure _
  · exact .pure ()

@[grind ←] theorem fronts_typedef (id : SpecId) (d : DeclaratorId) : Fronts (typedef id d) := by
  refine .bind (fronts_resolve _) fun base => .bind (fronts_resolveDeclarator _ _ _) fun info => ?_
  split
  · exact Fronts.defineType _ _
  · exact .pure ()

@[grind ←] theorem fronts_delegate (result : SpecId) (name : String) (ps : List ParamDecl) (variadic : Bool) :
    Fronts (delegate result name ps variadic line) :=
  .bind (fronts_resolve _) fun _ => .bind (fronts_resolveParams _ _) fun _ => Fronts.defineType _ _

/-! ### All kinds -/

include hlower

variable (hsteady : ∀ id, Steady (lower id))
include hsteady

theorem fronts_topLevel (id : StmtId) : Fronts (topLevel lower id) := by
  refine .bind (.stmt _) fun stmt => .bind (.read _) fun o => ?_
  split
  · exact hlower id
  · exact (fronts_inStartup (hlower id) (hsteady id)).ignoring

theorem fronts_statementWith (id : StmtId) : Fronts (statementWith lower id) := by
  refine .bind (.stmt _) fun s => ?_
  cases s.kind with
  | expression e => exact (fronts_rvalue e).discard
  | block body => exact Fronts.localScope (fronts_forM hlower body)
  | forLoop init cond step body => exact Fronts.localScope (fronts_forLoop hlower _ init cond step body)
  | brk => exact fronts_loopJump _ (fun _ hbrk _ => hbrk) _
  | cont => exact fronts_loopJump _ (fun _ _ hcont => hcont) _
  | function decl => exact fronts_function _ hlower hsteady decl
  | namespaceBlock name body => exact Fronts.inNamespace name (fronts_forM (fronts_topLevel hlower hsteady) body)
  | _ => grind

omit hlower hsteady

/-- **Every statement keeps the slots of functions at their fronts,** however deep. -/
theorem fronts_statementTo (depth : Nat) (id : StmtId) : Fronts (statementTo depth id) := by
  induction depth generalizing id with
  | zero => exact .halt _
  | succ depth ih => exact (fronts_statementWith ih (steady_statementTo depth) id).ignoring

end Statements

/-! ### Units -/

theorem fronts_declarations {σ : Type} (hook : DiagnosticHook σ) (ids : List StmtId) (acc : σ) :
    Fronts (declarations hook ids acc) := by
  induction ids generalizing acc with
  | nil => exact .pure acc
  | cons id rest ih =>
    have hglobal : Fronts (global id) := fun env s => .of_eq (n := topLevel (statementTo env.tree.stmtDepth) id) rfl
      (fronts_topLevel (fronts_statementTo _) (steady_statementTo _) id env s)
    refine .bind hglobal fun _ => .bind (.read _) fun queue => ?_
    -- The hook may take diagnostics out.
    refine .bind (fun _ s => Chains.of_quiet (R := State.KeepsFronted) s _ s.lvalue) fun _ => .bind .env fun env => ?_
    split
    · exact .pure _
    · exact ih _

theorem fronts_finishStartup : Fronts finishStartup := by
  refine .of_ends fun env s hs => .bind_of_done (t := s) rfl ?_
  split
  · exact Fronts.ends (.pure ()) hs
  · next routine hroutine =>
    have hbody : ∀ i, some routine.id = some i → s.HasBody i := fun i hi =>
      Option.some.inj hi ▸ hs.startup routine hroutine
    have hentered : State.IsFronted { s with
        startup := none, builder := s.builder.setFunction (some routine.id) } :=
      { hs.setFunction hbody with startup := fun _ h => (by cases h) }
    have hleave : Fronts (updateBuilder (·.setFunction none)) :=
      Fronts.update fun _ hs => hs.setFunction fun _ h => (by cases h)
    have hctor : ∀ priority, Fronts (updateBuilder fun b => { b with mod := b.mod.addCtor priority routine.id }) :=
      fun priority => Fronts.update fun _ hs => { hs with builder := hs.builder.of_same rfl rfl }
    have hrest : Fronts (do
        emit 0 (Build.ret none)
        updateBuilder (·.setFunction none)
        let priority := (← Lower.env).config.ctorPriority
        updateBuilder fun b => { b with mod := b.mod.addCtor priority routine.id }) :=
      .bind (Fronts.ret none) fun _ => .bind hleave fun _ => .bind .env fun _ => hctor _
    refine .bind_of_done rfl (.bind_of_done rfl (Fronts.ends ?_ hentered))
    split
    · exact .bind (Fronts.setBlock _) fun _ => hrest
    · exact hrest

theorem fronts_completeUnit {σ : Type} (hook : DiagnosticHook σ) (start : σ) : Fronts (completeUnit hook start) :=
  .bind (.bind .env fun _ => fronts_declarations hook _ start) fun _ => .bind fronts_finishStartup.ignoring fun _ => .pure _

end Lower

namespace Tree

/-- **Each call reserves its stack slots once, before anything else.** The slots of a function of a compiled unit,
in the order in which they were made, are the front of its entry, and stand nowhere else; the entry is the block
that was made first, and no terminator leads to it. So a call runs each slot once, wherever its variable is
declared. -/
theorem compileWith_slots {σ : Type} (tree : Tree) (config : Config) (hook : DiagnosticHook σ) (start : σ)
    (unit : CompiledUnit) (acc : σ) (hunit : tree.compileWith config hook start = .ok (unit, acc))
    (id : FuncId) (f : Function) (hf : unit.module.function? id = some f) :
    (f.IsBlank ∨ f.entry? = some .first) ∧ (∀ b, .first ∉ f.successors b) ∧
      (∃ code, f.instsAt .first = f.slots ++ code ∧ ∀ x ∈ code, f.allocates x = false) ∧
      (∀ b, b ≠ .first → ∀ x ∈ f.instsAt b, f.allocates x = false) ∧ f.ReservesFirst := by
  have hmod : unit.module.IsFronted := by
    have hends : Lower.Ends (Lower.completeUnit hook start) ⟨tree, config⟩ (.initial config) Lower.State.IsFronted :=
      Lower.Fronts.ends (Lower.fronts_completeUnit hook start) (.of_initial config)
    unfold Lower.Ends at hends
    unfold compileWith at hunit
    rcases hrun : Lower.completeUnit hook start ⟨tree, config⟩ (.initial config) with ⟨_ | _ | _, t⟩ <;>
      rw [hrun] at hends hunit
    · cases hunit
      exact hends.builder.functions
    · cases hunit
      exact hends.builder.functions
    · cases hunit
  have hfronted : f.IsFronted := hmod id f hf
  obtain ⟨code, hcode, hplain⟩ := hfronted.reserves_start
  refine ⟨?_, hfronted.spared, ⟨code, hcode, hplain⟩, fun b hb x hx => hfronted.allocates_of_mem_instsAt hb hx,
    hfronted.reservesFirst⟩
  by_cases hnil : f.layout = []
  · exact .inl (hfronted.blank hnil)
  · exact .inr (hfronted.entry?_eq hnil)

/-- The tree of `void spin(bool more) { while (more) { int x; } return; int y; }`. -/
def spinningTree : Tree where
  exprs := #[⟨.identifier "more", 1⟩]
  specs := #[⟨.named "void", 1⟩, ⟨.named "bool", 1⟩, ⟨.named "int", 1⟩]
  declarators := #[⟨.identifier "x", 1⟩, ⟨.identifier "y", 1⟩, ⟨.identifier "more", 1⟩, ⟨.identifier "spin", 1⟩,
    ⟨.function ⟨3⟩ [⟨⟨1⟩, some ⟨2⟩⟩] false, 1⟩]
  stmts := #[⟨.variable ⟨.normal, ⟨2⟩, [⟨0⟩]⟩, 1⟩, ⟨.block [⟨0⟩], 1⟩, ⟨.whileLoop ⟨0⟩ ⟨1⟩, 1⟩, ⟨.ret none, 1⟩,
    ⟨.variable ⟨.normal, ⟨2⟩, [⟨1⟩]⟩, 1⟩, ⟨.block [⟨2⟩, ⟨3⟩, ⟨4⟩], 1⟩, ⟨.function ⟨.normal, ⟨0⟩, ⟨4⟩, some ⟨5⟩⟩, 1⟩]
  root := [⟨6⟩]

/-- The slots of the parameter, of a variable in a loop and of one in dead code come first. -/
theorem compileWith_slots_spinning :
    ∃ unit f, spinningTree.compileWith {} .keep () = .ok (unit, ()) ∧ unit.module.function? ⟨0⟩ = some f ∧
      f.slots = [⟨0⟩, ⟨3⟩, ⟨4⟩] ∧ (∃ code, f.instsAt .first = [⟨0⟩, ⟨3⟩, ⟨4⟩] ++ code) ∧ f.ReservesFirst := by
  have hslots : ((spinningTree.compileWith {} .keep ()).toOption.bind (·.1.module.function? ⟨0⟩)).map
      Function.slots = some [⟨0⟩, ⟨3⟩, ⟨4⟩] := by decide +kernel
  obtain ⟨f, hfound, hslots⟩ := Option.map_eq_some_iff.1 hslots
  obtain ⟨⟨unit, ⟨⟩⟩, hunit, hf⟩ := Option.bind_eq_some_iff.1 hfound
  have hunit : spinningTree.compileWith {} .keep () = .ok (unit, ()) := by
    cases hrun : spinningTree.compileWith {} .keep () with
    | error why => simp [hrun, Except.toOption] at hunit
    | ok found =>
      rw [hrun] at hunit
      exact congrArg Except.ok (Option.some.inj hunit)
  obtain ⟨-, -, ⟨code, hcode, -⟩, -, hfirst⟩ := compileWith_slots spinningTree {} .keep () unit () hunit ⟨0⟩ f hf
  exact ⟨unit, f, hunit, hf, hslots, ⟨code, hslots ▸ hcode⟩, hfirst⟩

end Tree

end TreeFlow
