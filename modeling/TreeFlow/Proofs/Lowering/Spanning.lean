import TreeFlow.Proofs.Lowering.Sound

/-!
# What holds of every statement

A relation between the states before and behind a step holds of every statement, however deep, if it holds of
what statements are made of (`Spans`, `spans_statementTo`). These are what takes nothing away, all that leads
on inside of a function, names declared outside of functions, and four brackets: a block, code for the startup
routine, a body, and one step after another.

Leading on is such a relation, so every statement is steady (`steady_statementTo`).
-/

namespace TreeFlow.Lower

variable {α β : Type} {R : State → State → Prop}

/-- A relation that holds of the states before and behind every statement, for it holds of the parts of
statements. -/
class Spans (R : State → State → Prop) : Prop extends Lenient R where
  func : ∀ {s t : State}, R s t → t.func = s.func
  of_retains : ∀ {s t : State}, s.Retains t → R s t
  inside : ∀ {s t : State}, s.func.isSome → s.Leads t → R s t
  defineGlobalVar : ∀ {s : State} {name : String} {b : Binding},
    b.Anchored s.builder.mod none (some (s.scopes.qualify name)) →
      R s { s with scopes := s.scopes.defineGlobalVar name b }
  localScope : ∀ {α : Type} {m : Lower α}, Leaves R m → Leaves R (localScope m)
  inStartup : ∀ {α : Type} {m : Lower α} {env : Env} {s : State}, Leaves R m → s.func = none →
    Ends (inStartup m) env s (R s)
  functionBody : ∀ {depth : Nat}, (∀ id, Leaves R (statementTo depth id)) →
    ∀ {env : Env} {s : State} {id : FuncId}, s.func = none → ¬ s.HasBody id →
      ∀ result ps body line, Ends (functionBody (statementTo depth) id result ps body line) env s (R s)

instance : Spans State.Leads where
  func h := h.func
  of_retains := .of_retains
  inside _ h := h
  defineGlobalVar := leads_defineGlobalVar
  localScope := steady_localScope
  inStartup hm hs := ends_inStartup hm hs
  functionBody hlower _ _ _ hs hid result ps body line := ends_functionBody line hlower hs hid result ps body

/-! ### Steps outside of functions -/

/-- A step that is taken outside of functions comes to a related state. -/
def LeavesOutside (R : State → State → Prop) (m : Lower α) : Prop :=
  ∀ env s, s.func = none → Ends m env s (R s)

namespace LeavesOutside

variable {m : Lower α} {next : α → Lower β}

theorem of_leaves (h : Leaves R m) : LeavesOutside R m := fun env s _ => h env s

theorem bind [Spans R] (hm : LeavesOutside R m) (hnext : ∀ a, LeavesOutside R (next a)) :
    LeavesOutside R (m >>= next) := fun env s hs =>
  (hm env s hs).bind (fun _ h => h) fun a t ht _ =>
    (hnext a env t ((Spans.func ht).trans hs)).after ht

end LeavesOutside

/-! ### What takes nothing away -/

namespace Leaves

/-- What takes nothing away comes to related states. -/
@[grind ←] theorem of_retains [Spans R] {m : Lower α} (h : Leaves State.Retains m) : Leaves R m :=
  fun env s => (h env s).imp fun _ => Spans.of_retains

@[grind ←] theorem inNamespace [Spans R] {m : Lower α} (name : String) (hm : Leaves R m) :
    Leaves R (Lower.inNamespace name m) :=
  hm.between (fun s => { s with scopes := s.scopes.pushNamespace name })
    (fun _ t => { t with scopes := t.scopes.popNamespace name }) (fun _ _ => rfl) fun s _ h =>
      have hs : R s { s with scopes := s.scopes.pushNamespace name } :=
        Spans.of_retains (.of_same rfl rfl rfl rfl rfl)
      Chains.trans hs (Chains.trans h (Spans.of_retains (.of_same rfl rfl rfl rfl rfl)))

theorem defineType (name : String) (ty : Ty) : Leaves State.Retains (updateScopes (·.defineType name ty)) :=
  fun _ _ => .of_type name ty

theorem updateLoops (f : List LoopTargets → List LoopTargets) :
    Leaves State.Retains (update fun s => { s with loops := f s.loops }) := fun _ _ => .of_same rfl rfl rfl rfl rfl

theorem updatePending (f : List PendingLabel → List PendingLabel) :
    Leaves State.Retains (update fun s => { s with pending := f s.pending }) :=
  fun _ _ => .of_same rfl rfl rfl rfl rfl

theorem makeInternal (id : FuncId) : Leaves State.Retains (updateBuilder fun b =>
    { b with mod := b.mod.modifyFunction id fun f => { f with linkage := .internal } }) := fun _ s =>
  .of_leads (t := { s with builder := { s.builder with
    mod := s.builder.mod.modifyFunction id fun f => { f with linkage := .internal } } })
    ⟨rfl, rfl, s.builder.mod.keeps_modifyLinkage id .internal⟩ rfl rfl rfl rfl

end Leaves


/-! ### Initializers -/

section Initializers

variable (ty : Ty) (init : ExprId) (line : Nat) (addr : Constant)

theorem retains_modifyGlobal {change : Global → Global} (hname : ∀ g, (change g).name = g.name)
    (hty : ∀ g, (change g).ty = g.ty) : Leaves State.Retains (modifyGlobal addr line change) := by
  have hchange : ∀ id : GlobalId, Leaves State.Retains (updateBuilder fun b =>
      { b with mod := b.mod.modifyGlobal id change }) := fun id _ s =>
    .of_leads (t := { s with builder := { s.builder with mod := s.builder.mod.modifyGlobal id change } })
      ⟨rfl, rfl, .of_functions (s.builder.mod.retains_modifyGlobal id hname hty) rfl⟩ rfl rfl rfl rfl
  unfold modifyGlobal globalId
  split
  · exact .bind (.pure _) fun _ => hchange _
  · exact .bind (.failWith _ line) fun _ => hchange _

@[grind ←] theorem retains_completeGlobal : Leaves State.Retains (completeGlobal addr ty line) :=
  retains_modifyGlobal line addr (fun _ => rfl) fun _ => rfl

@[grind ←] theorem retains_setGlobalInit (c : Constant) : Leaves State.Retains (setGlobalInit addr c line) :=
  retains_modifyGlobal line addr (fun _ => rfl) fun _ => rfl

@[grind ←] theorem calm_initializerValue : Calm (initializerValue ty init line) := by
  grind [initializerValue]

/-- A constant is kept with what it refers to; of any other attempt nothing is left. -/
@[grind ←] theorem calm_constantInitializer : Calm (constantInitializer ty init line) := by
  intro env s
  have hvalue := calm_initializerValue ty init line env { s with builder := s.builder.snapshot.2 }
  unfold Ends at hvalue ⊢
  simp only [constantInitializer]
  rcases hrun : initializerValue ty init line env { s with builder := s.builder.snapshot.2 } with
    ⟨op | _ | _, t⟩
  · rw [hrun] at hvalue
    dsimp only
    cases op.const? with
    | none => exact hvalue.of_undone _
    | some c => exact hvalue.of_attempt .typesAndGlobals (by decide) t.lvalue
  · rw [hrun] at hvalue
    exact hvalue.of_undone _
  · trivial

@[grind ←] theorem calm_arrayInitializer : Calm (arrayInitializer ty init line) := by
  cases ty <;> grind [arrayInitializer]

@[grind ←] theorem calm_storeArray (slot : Operand) : Calm (storeArray slot ty init line) := by
  refine .bind (.expr init) fun e => ?_
  split
  · grind
  · refine .bind (calm_descend fun _ h => calm_subStorage h init) fun v => ?_
    grind

@[grind ←] theorem calm_storeInitializer (slot : Operand) : Calm (storeInitializer slot ty init line) := by
  unfold storeInitializer
  split
  · exact calm_storeArray ty init line slot
  · refine .bind (calm_rvalue init) fun v => ?_
    grind

end Initializers

/-! ### Variables -/

section Variables

variable (name : String) (ty : Ty) (init : Option ExprId) (storage : Storage) (line : Nat)

theorem steadyInside_foreignLocal : SteadyInside (foreignLocal name ty) := by
  intro env s hs
  refine .bind_of_done (t := s) rfl ?_
  dsimp only
  split
  · next b hb =>
    obtain ⟨hglobal, -⟩ := Option.filter_eq_some_iff.1 hb
    exact .of_done rfl (.defineVar (Chains.refl s) hs name fun h =>
      (h.globalVars _ (mem_of_lookup hglobal)).inside)
  · exact .bind_of_done rfl (.of_done rfl (leads_addLocal hs name _))

theorem steadyInside_staticLocal : SteadyInside (staticLocal name ty init line) := by
  intro env s hs
  refine .bind_of_done (t := s) rfl (.bind_of_done rfl (.bind_of_done rfl ?_))
  refine .after (leads_addLocal hs name _) ?_
  cases init with
  | none => exact Leaves.pure () env _
  | some init =>
    refine Leaves.bind (.of_calm (calm_constantInitializer ty init line)) (fun found => ?_) env _
    grind

theorem steadyInside_stackLocal : SteadyInside (stackLocal name ty init line) := by
  refine .bind_alloca fun slot env t hsome hslot => ?_
  refine .bind_of_done rfl (.after (.defineVar (Chains.refl t) hsome name hslot) ?_)
  cases init with
  | none => exact Leaves.pure () env _
  | some init => exact Leaves.of_calm (calm_storeInitializer ty init line slot) env _

theorem steadyInside_localVariable : SteadyInside (localVariable name storage ty init line) := by
  cases storage with
  | foreign => exact steadyInside_foreignLocal name ty
  | static => exact steadyInside_staticLocal name ty init line
  | normal => exact steadyInside_stackLocal name ty init line

variable [Spans R]

@[grind ←] theorem spans_globalAddress (hasInit : Bool) :
    Leaves R (globalAddress name storage ty hasInit line) := by
  intro env s
  refine .bind_of_done (t := s) rfl ?_
  dsimp only
  split
  · split
    · split
      · exact .of_done rfl (Chains.refl s)
      · exact Leaves.failWith _ _ env s
    · exact Leaves.failWith _ _ env s
  · refine .bind_of_done rfl (.after (Spans.of_retains (.addGlobal s _)) ?_)
    exact .bind_of_done rfl (.of_done rfl (Spans.defineGlobalVar (s.builder.anchored_addGlobal _)))

theorem spans_initGlobal (addr : Constant) (e : ExprId) : LeavesOutside R (initGlobal addr storage ty e line) := by
  unfold initGlobal
  split
  · exact .of_leaves (.bind (.of_calm (calm_arrayInitializer ty e line)) fun _ => by grind)
  · refine .bind (.of_leaves (.of_calm (calm_constantInitializer ty e line))) fun found => ?_
    split
    · exact .of_leaves (by grind)
    · split
      · exact .of_leaves (.failWith _ _)
      · refine .bind (.of_leaves (.report _ _)) fun _ => .bind (.of_leaves (by grind)) fun _ => ?_
        exact fun env s => Spans.inStartup (.of_calm (calm_storeInitializer ty e line addr))

theorem spans_globalVariable : LeavesOutside R (globalVariable name storage ty init line) := by
  refine .bind (.of_leaves (spans_globalAddress name ty storage line _)) fun addr => ?_
  split
  · exact spans_initGlobal ty storage line addr _
  · exact .of_leaves (by grind)

end Variables

/-! ### Functions -/

section Functions

variable [Spans R] (line : Nat)

theorem ends_redeclare {env : Env} {s : State} (name full : String) {b : Binding}
    (hb : s.scopes.globalVar? full = some b) (sig : Signature) :
    Ends (redeclare name sig b line) env s (R s) := by
  simp only [redeclare]
  split
  · exact Leaves.failWith _ _ env s
  · split
    · refine .bind_of_done (t := s) rfl ?_
      split
      · next hsome =>
        refine .bind_of_done rfl (.of_done rfl (Spans.inside hsome ?_))
        exact .defineVar (Chains.refl s) hsome name fun h => (h.globalVars _ (mem_of_lookup hb)).inside
      · exact .of_done rfl (Chains.refl s)
    · exact Leaves.bind (.read _) (fun _ => .failWith _ _) env s

/-- A new function is declared outside of functions. -/
theorem spans_addFunctionVar (s : State) (name : String) (sig : Signature) (linkage : Linkage) :
    R s { s with
      builder := (s.builder.declareFunction (s.scopes.qualify name) sig linkage).2
      scopes := s.scopes.defineGlobalVar name (.ofFunction (.ofSignature sig)
        ((s.builder.declareFunction (s.scopes.qualify name) sig linkage).2.functionRef
          (s.builder.declareFunction (s.scopes.qualify name) sig linkage).1)) } :=
  let t : State := { s with builder := (s.builder.declareFunction (s.scopes.qualify name) sig linkage).2 }
  Chains.trans (Spans.of_retains (.addFunction s (s.scopes.qualify name) sig linkage))
    (Spans.defineGlobalVar (s := t) (s.builder.anchored_declareFunction (s.scopes.qualify name) sig linkage))

@[grind ←] theorem spans_declareFunction (name : String) (sig : Signature) (storage : Storage) :
    Leaves R (declareFunction name sig storage line) := by
  intro env s
  refine .bind_of_done (t := s) rfl ?_
  dsimp only
  split
  · -- The complaint about the type of `main` leaves the scopes as they are.
    refine .bind_of_done rfl (.after (Leaves.report _ _ env s) ?_)
    split
    · next b hb =>
      exact ends_redeclare line name (s.scopes.qualify name) (by exact hb) sig
    · exact .bind_of_done rfl (.bind_of_done rfl (.bind_of_done rfl
        (.of_done rfl (spans_addFunctionVar _ name sig _))))
  · split
    · next b hb => exact ends_redeclare line name _ hb sig
    · exact .bind_of_done rfl (.bind_of_done rfl (.bind_of_done rfl
        (.of_done rfl (spans_addFunctionVar s name sig _))))

variable {lower : StmtId → Lower Unit} (hbody : ∀ {env : Env} {s : State} {id : FuncId}, s.func = none →
  ¬ s.HasBody id → ∀ result ps body line, Ends (functionBody lower id result ps body line) env s (R s))
include hbody

@[grind ←] theorem spans_defineFunction (id : FuncId) (name : String) (result : Ty)
    (storage : Storage) (ps : List DeclaratorInfo) (body : StmtId) :
    Leaves R (defineFunction lower id name result storage ps body line) := by
  intro env s
  refine .bind_of_done (t := s) rfl ?_
  split
  · exact Leaves.failWith _ _ env s
  · next hfunc =>
    have hnone : s.func = none := Option.not_isSome_iff_eq_none.1 hfunc
    refine .bind_of_done (t := s) rfl ?_
    split
    · exact Leaves.failWith _ _ env s
    · next hdecl =>
      have hid : ¬ s.HasBody id := by
        rintro ⟨f, hf, hne⟩
        simp [hf, Function.isDeclaration, hne] at hdecl
      split
      · refine .bind_of_done rfl (.after (Leaves.of_retains (.makeInternal id) env s) ?_)
        refine hbody (by exact hnone) ?_ _ _ _ _
        rintro ⟨f, hf, hne⟩
        simp only [Module.function?, Module.modifyFunction, Array.getElem?_modify, if_true,
          Option.map_eq_some_iff] at hf
        obtain ⟨g, hg, rfl⟩ := hf
        exact hid ⟨g, hg, hne⟩
      · exact hbody hnone hid _ _ _ _

@[grind ←] theorem spans_function (decl : FunctionDecl) : Leaves R (function lower decl line) := by
  refine .bind (.of_calm (calm_resolve _)) fun result => ?_
  refine .bind (.of_calm (calm_resolveDeclarator _ _ _)) fun info => ?_
  split
  · exact .failWith _ _
  · split
    · exact .pure ()
    · refine .bind (spans_declareFunction line _ _ _) fun id => ?_
      split
      · exact .pure ()
      · exact spans_defineFunction line hbody id _ _ _ _ _

end Functions

/-! ### Statements -/

section Statements

variable [Spans R] {lower : StmtId → Lower Unit} (hlower : ∀ id, Leaves R (lower id)) (line : Nat)

@[grind ←] theorem spans_condition (e : ExprId) : Leaves R (condition e line) :=
  .bind (Leaves.of_calm (calm_descend fun _ h => calm_truth h e line)).attempt fun _ => .pure _

@[grind ←] theorem spans_fallThrough (b : BlockId) : Leaves R (fallThrough b line) := by
  grind [fallThrough]

@[grind ←] theorem spans_forM {ι : Type} {step : ι → Lower Unit} (hstep : ∀ i, Leaves R (step i))
    (items : List ι) : Leaves R (items.forM step) := by
  induction items with
  | nil => exact .pure ()
  | cons i rest ih => exact .bind (hstep i) fun _ => ih

include hlower

@[grind ←] theorem spans_branch (cond : ExprId) (yes : StmtId) (no : Option StmtId) :
    Leaves R (branch lower cond yes no line) := by
  refine .bind (spans_condition line cond) fun c => ?_
  refine .bind (.emit _ Build.steady_newBlock) fun last => ?_
  refine .bind (.emit _ (Build.steady_newBlockBefore _)) fun first => ?_
  cases no with
  | none => grind
  | some no =>
    refine .bind (.emit _ (Build.steady_newBlockBefore _)) fun second => ?_
    refine .bind (.emit _ (Build.steady_branch _ _ _)) fun _ => ?_
    grind

@[grind ←] theorem spans_loopBody (body : StmtId) (targets : LoopTargets) :
    Leaves R (loopBody lower body targets) :=
  .bind (.of_retains (.updateLoops _)) fun _ => .bind (hlower body) fun _ => .of_retains (.updateLoops _)

@[grind ←] theorem spans_whileLoop (cond : ExprId) (body : StmtId) :
    Leaves R (whileLoop lower cond body line) := by
  refine .bind (.emit _ Build.steady_newBlock) fun first => ?_
  refine .bind (.emit _ Build.steady_newBlock) fun inner => ?_
  refine .bind (.emit _ Build.steady_newBlock) fun last => ?_
  refine .bind (spans_fallThrough line _) fun _ => .bind (.setBlock _) fun _ => ?_
  refine .bind (spans_condition line cond) fun c => ?_
  refine .bind (.emit _ (Build.steady_branch _ _ _)) fun _ => .bind (.setBlock _) fun _ => ?_
  grind

theorem spans_round (test start next last : BlockId) (step : Option ExprId) (body : StmtId) :
    Leaves R (do
      setBlock start
      loopBody lower body ⟨last, next⟩
      fallThrough next line
      setBlock next
      match step with
      | some step => ignoring (rvalue step)
      | none => pure ()
      fallThrough test line
      setBlock last) := by
  have hend : Leaves R (do
      fallThrough test line
      setBlock last) := .bind (spans_fallThrough line _) fun _ => .setBlock _
  refine .bind (.setBlock _) fun _ => .bind (spans_loopBody hlower _ _) fun _ => ?_
  refine .bind (spans_fallThrough line _) fun _ => .bind (.setBlock _) fun _ => ?_
  cases step with
  | none => exact hend
  | some step => exact .bind (Leaves.of_calm (calm_rvalue step)).ignoring fun _ => hend

theorem spans_test (cond step : Option ExprId) (body : StmtId) : Leaves R (do
    let condBlock ← emit line Build.newBlock
    let bodyBlock ← emit line Build.newBlock
    let stepBlock ← emit line Build.newBlock
    let endBlock ← emit line Build.newBlock
    fallThrough condBlock line
    setBlock condBlock
    match cond with
    | some cond =>
      let c ← condition cond line
      emit line (Build.branch c bodyBlock endBlock)
    | none => emit line (Build.goto bodyBlock)
    setBlock bodyBlock
    loopBody lower body ⟨endBlock, stepBlock⟩
    fallThrough stepBlock line
    setBlock stepBlock
    match step with
    | some step => ignoring (rvalue step)
    | none => pure ()
    fallThrough condBlock line
    setBlock endBlock) := by
  refine .bind (.emit _ Build.steady_newBlock) fun test => ?_
  refine .bind (.emit _ Build.steady_newBlock) fun start => ?_
  refine .bind (.emit _ Build.steady_newBlock) fun next => ?_
  refine .bind (.emit _ Build.steady_newBlock) fun last => ?_
  refine .bind (spans_fallThrough line _) fun _ => .bind (.setBlock _) fun _ => ?_
  cases cond with
  | none => exact .bind (.emit _ (Build.steady_goto _)) fun _ => spans_round hlower _ _ _ _ _ _ _
  | some cond =>
    exact .bind (spans_condition line cond) fun c =>
      .bind (.emit _ (Build.steady_branch _ _ _)) fun _ => spans_round hlower _ _ _ _ _ _ _

@[grind ←] theorem spans_forLoop (init : Option StmtId) (cond step : Option ExprId)
    (body : StmtId) : Leaves R (forLoop lower init cond step body line) := by
  cases init with
  | none => exact spans_test hlower line cond step body
  | some init => exact .bind (hlower init) fun _ => spans_test hlower line cond step body

omit hlower in
@[grind ←] theorem spans_loopJump (target : LoopTargets → BlockId) (otherwise : DiagnosticKind) :
    Leaves R (loopJump target otherwise line) := by grind [loopJump]

omit hlower in
@[grind ←] theorem spans_ret (value : Option ExprId) : Leaves R (ret value line) := by
  have hreturned : ∀ ty, Leaves R (returned value ty line) := fun ty => by
    cases value <;> grind [returned]
  exact .bind (.bind (.read _) fun _ => .pure _) fun ty => .bind (hreturned ty) fun op =>
    .emit _ (Build.steady_ret op)

omit hlower in
@[grind ←] theorem spans_goto (name : String) : Leaves R (goto name line) := by
  have htarget : Leaves R (labelTarget name line) := by
    unfold labelTarget
    refine .bind (.read _) fun scopes => ?_
    split
    · exact .pure _
    · refine .bind (.read _) fun pending => ?_
      split
      · exact .pure _
      · exact .bind (.emit _ Build.steady_newBlock) fun b =>
          .bind (.of_retains (.updatePending (· ++ [⟨name, b, line⟩]))) fun _ => .pure _
  exact .bind htarget fun b => .emit _ (Build.steady_goto b)

omit hlower in
@[grind ←] theorem spans_labelBlock (name : String) : Leaves R (labelBlock name line) := by
  unfold labelBlock
  refine .bind (.read _) fun pending => ?_
  split
  · exact .bind (.of_retains (.updatePending (·.filter (·.name != name)))) fun _ => .pure _
  · exact .emit _ Build.steady_newBlock

omit hlower in
/-- A label is noted among the labels of the function, and nothing else changes. -/
theorem retains_defineLabel {s : State} {name : String} {b : BlockId} {scopes : ScopeStack}
    (h : s.scopes.defineLabel name b = .ok scopes) : s.Retains { s with scopes } := by
  obtain rfl := ScopeStack.defineLabel_eq_ok h
  exact .of_same rfl rfl rfl rfl rfl

@[grind ←] theorem spans_label (name : String) (body : StmtId) :
    Leaves R (label lower name body line) := by
  unfold label
  refine .bind (.read _) fun scopes => ?_
  split
  · exact .bind (.report _ _) fun _ => .bind (hlower body) fun _ => .fail
  · refine .bind (spans_labelBlock line name) fun b => fun env s => ?_
    refine .bind_of_done (t := s) rfl ?_
    split
    · exact Leaves.failWith _ _ env s
    · next scopes hscopes =>
      refine .bind_of_done rfl (.after (Spans.of_retains (retains_defineLabel hscopes)) ?_)
      exact Leaves.bind (spans_fallThrough line b) (fun _ => .bind (.setBlock b) fun _ =>
        hlower body) env _

omit hlower in
@[grind ←] theorem spans_declareOne (storage : Storage) (info : DeclaratorInfo) :
    Leaves R (declareOne storage info) := by
  unfold declareOne
  split
  · exact .pure ()
  · split
    · exact (spans_declareFunction _ _ _ _).discard
    · refine .bind .types fun table => ?_
      split
      · exact .failWith _ _
      · intro env s
        refine .bind_of_done (t := s) rfl ?_
        split
        · next hsome =>
          exact (steadyInside_localVariable _ _ _ _ _ env s hsome).imp fun _ => Spans.inside hsome
        · next hnone => exact spans_globalVariable _ _ _ _ _ env s (Option.not_isSome_iff_eq_none.1 hnone)

omit hlower in
@[grind ←] theorem spans_variableList (decl : VariableDecl) : Leaves R (variableList decl) :=
  .bind (.of_calm (calm_resolve _)) fun _ => spans_forM (fun _ =>
    .ignoring (.bind (.of_calm (calm_resolveDeclarator _ _ _)) fun _ => spans_declareOne _ _)) _

omit hlower in
@[grind ←] theorem calm_aggregate (kind : AggregateKind) (decl : AggregateDecl) :
    Calm (aggregate kind decl line) := by
  unfold aggregate
  split
  · exact (calm_descend fun _ h => calm_defineAggregate h _ _ _).discard
  · exact (calm_declareAggregate _ _).discard
  · exact .pure ()

omit hlower in
@[grind ←] theorem spans_typedef (id : SpecId) (d : DeclaratorId) : Leaves R (typedef id d) := by
  refine .bind (.of_calm (calm_resolve _)) fun base => ?_
  refine .bind (.of_calm (calm_resolveDeclarator _ _ _)) fun info => ?_
  split
  · exact .of_retains (.defineType _ _)
  · exact .pure ()

omit hlower in
@[grind ←] theorem spans_delegate (result : SpecId) (name : String) (ps : List ParamDecl)
    (variadic : Bool) : Leaves R (delegate result name ps variadic line) :=
  .bind (.of_calm (calm_resolve _)) fun _ => .bind (.of_calm (calm_resolveParams _ _)) fun _ =>
    .of_retains (.defineType _ _)

@[grind ←] theorem spans_topLevel (id : StmtId) : Leaves R (topLevel lower id) := by
  refine .bind (.stmt _) fun stmt => fun env s => ?_
  refine .bind_of_done (t := s) rfl ?_
  split
  · exact hlower id env s
  · next houtside =>
    have hnone : s.func = none := Option.not_isSome_iff_eq_none.1 fun hsome => houtside (by simp [hsome])
    exact .bind_attempt (Spans.inStartup (hlower id) hnone) fun _ t ht => .of_done rfl ht

theorem spans_statementWith (hbody : ∀ {env : Env} {s : State} {id : FuncId}, s.func = none → ¬ s.HasBody id →
      ∀ result ps body line, Ends (functionBody lower id result ps body line) env s (R s)) (id : StmtId) :
    Leaves R (statementWith lower id) := by
  refine .bind (.stmt _) fun s => ?_
  cases s.kind with
  | block body => exact Spans.localScope (spans_forM hlower body)
  | forLoop init cond step body => exact Spans.localScope (spans_forLoop hlower _ init cond step body)
  | function decl => exact spans_function _ hbody decl
  | _ => grind

omit hlower in
/-- A relation that spans what statements are made of spans every statement, however deep. -/
theorem spans_statementTo (depth : Nat) (id : StmtId) : Leaves R (statementTo depth id) := by
  induction depth generalizing id with
  | zero => exact .halt _
  | succ depth ih => exact (spans_statementWith ih (Spans.functionBody ih) id).ignoring

omit hlower in
theorem spans_global (id : StmtId) : Leaves R (global id) := fun env s =>
  .of_eq (n := topLevel (statementTo env.tree.stmtDepth) id) rfl
    (spans_topLevel (spans_statementTo _) id env s)

omit hlower in
theorem spans_declarations {σ : Type} (hook : DiagnosticHook σ) (ids : List StmtId) (acc : σ) :
    Leaves R (declarations hook ids acc) := by
  induction ids generalizing acc with
  | nil => exact .pure acc
  | cons id rest ih =>
    refine .bind (spans_global id) fun _ => .bind (.read _) fun queue => ?_
    -- The hook may take diagnostics out.
    refine .bind (fun _ _ => Spans.of_retains (.of_same rfl rfl rfl rfl rfl)) fun _ => .bind .env fun env => ?_
    split
    · exact .pure _
    · exact ih _

end Statements

/-- Every statement is steady, however deep. -/
theorem steady_statementTo (depth : Nat) (id : StmtId) : Steady (statementTo depth id) := spans_statementTo depth id

end TreeFlow.Lower
