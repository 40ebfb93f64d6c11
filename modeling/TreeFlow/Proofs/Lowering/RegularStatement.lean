import TreeFlow.Proofs.Lowering.RegularExpression

/-!
# Statements are regular

All steps that statements are made of, down to the initializers of variables, are loud. A statement
never fails itself, so nobody asks what it has reported.
-/

namespace TreeFlow.Lower

variable {α β : Type} {env : Env} {F : Footing env} {loud : Bool}

/-! ### Initializers -/

section Initializers

variable (ty : Ty) {init : ExprId} (line : Nat) (addr : Constant)

theorem regular_modifyGlobal (change : Global → Global) :
    Regular F loud (modifyGlobal addr line change) := by
  unfold modifyGlobal globalId
  split
  · exact .bind (.pure _) fun _ => .updateBuilder _
  · exact .bind (.failWith _ fun _ => rfl) fun _ => .updateBuilder _

theorem regular_completeGlobal : Regular F loud (completeGlobal addr ty line) :=
  regular_modifyGlobal _ _ _

theorem regular_setGlobalInit (c : Constant) : Regular F loud (setGlobalInit addr c line) :=
  regular_modifyGlobal _ _ _

variable (hinit : F.Bears env.tree.exprDepth (.expr init))
include hinit

theorem regular_initializerValue : Regular F false (initializerValue ty init line) := by
  refine .bind (regular_rvalue hinit) fun v => ?_
  split
  · exact .fail
  · exact regular_convert _ _ _

theorem regular_constantInitializer : Regular F loud (constantInitializer ty init line) :=
  .constantInitializer (regular_initializerValue ty line hinit)

theorem regular_arrayInitializer (hty : ty.isArray) :
    Regular F loud (arrayInitializer ty init line) := by
  unfold arrayInitializer
  split
  · refine .bindExpr hinit fun node _ => ?_
    split
    · split
      · exact .pure _
      · exact .failWith _ fun _ => rfl
    · exact .failWith _ fun _ => rfl
  · next hnot =>
    cases ty with
    | array element length => exact absurd rfl (hnot element length)
    | _ => exact nomatch hty

theorem regular_storeArray (hty : ty.isArray) (slot : Operand) :
    Regular F loud (storeArray slot ty init line) := by
  refine .bindExpr hinit fun node _ => ?_
  split
  · exact .bind (regular_arrayInitializer ty line hinit hty) fun _ => .emit _ _
  · refine .bind (regular_descend fun h => h.storage hinit) fun v => ?_
    split
    · exact .failWith _ fun _ => rfl
    · exact .emit _ _

theorem regular_storeInitializer (slot : Operand) :
    Regular F loud (storeInitializer slot ty init line) := by
  unfold storeInitializer
  split
  · next hty => exact regular_storeArray ty line hinit hty slot
  · refine .bind (regular_rvalue hinit) fun v => ?_
    split
    · split
      · exact .failWith _ fun _ => rfl
      · exact regular_putAggregate _ _ _ _
    · exact .bind (regular_convertOrReport _ _ _) fun _ => .emit _ _

end Initializers

/-! ### The startup routine -/

theorem regular_startupRoutine : Regular F loud startupRoutine := by
  refine .bind (.read fun _ _ => rfl) fun o => ?_
  split
  · exact .pure _
  · exact .bind (.read fun _ _ => rfl) fun name => .bind (.withBuilder _) fun id => .pure _

theorem regular_enterStartup : Regular F loud enterStartup := by
  refine .bind (.read fun _ _ => rfl) fun prev => .bind regular_startupRoutine fun routine => ?_
  refine .bind (.updateBuilder _) fun _ => ?_
  have hrest : ∀ b, Regular F loud (do
      setBlock b
      update fun s => { s with startup := some ⟨routine.id, some b⟩ }
      return prev) := fun b =>
    .bind (.setBlock b) fun _ => .bind (.update fun _ _ => rfl) fun _ => .pure _
  split
  · exact hrest _
  · exact .bind (.emit _ _) fun b => hrest b

theorem regular_inStartup {m : Lower α} (hm : Regular F loud m) : Regular F loud (inStartup m) := by
  refine .bind regular_enterStartup fun prev => ?_
  cases loud with
  | false =>
    refine .bind (.attempt hm) fun result => .bind (.update fun _ _ => rfl) fun _ => ?_
    split
    · exact .pure _
    · exact .fail
  | true =>
    exact .bindTried hm (fun a => .bind (.update fun _ _ => rfl) fun _ => .pure a)
      (.bind (.update fun _ _ => rfl) fun _ => .fail)

theorem regular_finishStartup : Regular F false finishStartup := by
  refine .bind (.read fun _ _ => rfl) fun o => ?_
  split
  · exact .pure _
  · next routine =>
    refine .bind (.update fun _ _ => rfl) fun _ => .bind (.updateBuilder _) fun _ => ?_
    have hrest : Regular F false (do
        emit 0 (Build.ret none)
        updateBuilder (·.setFunction none)
        let priority := (← Lower.env).config.ctorPriority
        updateBuilder fun b => { b with mod := b.mod.addCtor priority routine.id }) :=
      .bind (.emit _ _) fun _ => .bind (.updateBuilder _) fun _ =>
        .bind .askEnv fun _ => .updateBuilder _
    split
    · exact .bind (.setBlock _) fun _ => hrest
    · exact hrest

/-! ### Variables -/

section Variables

variable (name : String) (ty : Ty) {init : Option ExprId} (storage : Storage) (line : Nat)

theorem regular_foreignLocal : Regular F loud (foreignLocal name ty) := by
  refine .bind (.read fun _ _ => rfl) fun scopes => ?_
  dsimp only
  split
  · exact .bind (.pure _) fun _ => .updateScopes _
  · exact .bind (.withBuilder _) fun _ => .bind (.pure _) fun _ => .updateScopes _

theorem regular_globalAddress (hasInit : Bool) :
    Regular F loud (globalAddress name storage ty hasInit line) := by
  refine .bind (.read fun _ _ => rfl) fun scopes => ?_
  dsimp only
  split
  · split
    · split
      · exact .pure _
      · exact .failWith _ fun _ => rfl
    · exact .failWith _ fun _ => rfl
  · exact .bind (.withBuilder _) fun addr => .bind (.updateScopes _) fun _ => .pure addr

theorem regular_initGlobal (addr : Constant) {e : ExprId}
    (he : F.Bears env.tree.exprDepth (.expr e)) :
    Regular F loud (initGlobal addr storage ty e line) := by
  unfold initGlobal
  split
  · next hty => exact .bind (regular_arrayInitializer ty line he hty) fun c => regular_setGlobalInit _ _ _
  · refine .bind (regular_constantInitializer ty line he) fun o => ?_
    split
    · exact regular_setGlobalInit _ _ _
    · split
      · exact .failWith _ fun _ => rfl
      · exact .bind (.report _ _) fun _ => .bind (regular_completeGlobal _ _ _) fun _ =>
          regular_inStartup (regular_storeInitializer ty line he _)

variable (hinit : ∀ e, init = some e → F.Bears env.tree.exprDepth (.expr e))
include hinit

theorem regular_staticLocal : Regular F loud (staticLocal name ty init line) := by
  refine .bind (.read fun _ _ => rfl) fun o => .bind (.withBuilder _) fun addr => ?_
  refine .bind (.updateScopes _) fun _ => ?_
  split
  · exact .pure _
  · refine .bind (regular_constantInitializer ty line (hinit _ rfl)) fun o => ?_
    split
    · exact regular_setGlobalInit _ _ _
    · exact .report _ _

theorem regular_stackLocal : Regular F loud (stackLocal name ty init line) := by
  refine .bind (.emit _ _) fun slot => .bind (.updateScopes _) fun _ => ?_
  split
  · exact .pure _
  · exact regular_storeInitializer ty line (hinit _ rfl) slot

theorem regular_localVariable : Regular F loud (localVariable name storage ty init line) := by
  cases storage with
  | foreign => exact regular_foreignLocal name ty
  | static => exact regular_staticLocal name ty line hinit
  | normal => exact regular_stackLocal name ty line hinit

theorem regular_globalVariable : Regular F loud (globalVariable name storage ty init line) := by
  refine .bind (regular_globalAddress name ty storage line _) fun addr => ?_
  split
  · exact regular_initGlobal ty storage line addr (hinit _ rfl)
  · split
    · exact .pure _
    · exact regular_completeGlobal _ _ _

end Variables

/-! ### Functions -/

section Functions

variable (line : Nat)

theorem regular_redeclare (name : String) (sig : Signature) (b : Binding) :
    Regular F loud (redeclare name sig b line) := by
  simp only [redeclare]
  split
  · exact .failWith _ fun _ => rfl
  · split
    · refine .bind (.read fun _ _ => rfl) fun o => ?_
      split
      · exact .bind (.updateScopes _) fun _ => .pure _
      · exact .pure _
    · exact .bind (.read fun _ _ => rfl) fun _ => .failWith _ fun _ => rfl

theorem regular_declareFunction (name : String) (sig : Signature) (storage : Storage) :
    Regular F loud (declareFunction name sig storage line) := by
  refine .bind (.read fun _ _ => rfl) fun scopes => ?_
  have hnew : ∀ full, Regular F loud (do
      let id ← withBuilder (·.declareFunction full sig (linkageOf storage))
      let addr := (← read (·.builder)).functionRef id
      updateScopes (·.defineGlobalVar name (.ofFunction (.ofSignature sig) addr))
      return id) := fun full =>
    .bind (.withBuilder _) fun id => .bind (.read fun _ _ => rfl) fun b =>
      .bind (.updateScopes _) fun _ => .pure id
  dsimp only
  split
  · refine .bind (.report _ _) fun _ => ?_
    split
    · exact regular_redeclare line name sig _
    · exact hnew _
  · split
    · exact regular_redeclare line name sig _
    · exact hnew _

theorem regular_functionAt (id : FuncId) : Regular F loud (functionAt id) := .read fun _ _ => rfl

theorem regular_closeLast (f : OpenFunction) : Regular F loud (closeLast f line) := by
  have hrest : ∀ reached : Bool, Regular F loud (do
      if !reached then emit line Build.unreachable
      else if f.result.isVoid then emit line (Build.ret none)
      else
        report .missingReturnStatement line
        emit line (Build.ret (some (.const (.zero f.result))))) := fun reached => by grind
  refine .bind .currentBlock fun o => ?_
  cases o with
  | none => exact .bind (.pure _) hrest
  | some b =>
    exact .bind (.emit _ _) fun _ => .bind (regular_functionAt _) fun _ => .bind (.pure _) hrest

theorem regular_closePending (labels : List PendingLabel) : Regular F false (closePending labels) := by
  induction labels with
  | nil => exact .pure ()
  | cons l rest ih =>
    exact .bind (.report _ _) fun _ => .bind (.setBlock _) fun _ => .bind (.emit _ _) fun _ => ih

theorem regular_closeBlocks (bs : List BlockId) : Regular F false (closeBlocks line bs) := by
  induction bs with
  | nil => exact .pure ()
  | cons b rest ih => exact .bind (.setBlock _) fun _ => .bind (.emit _ _) fun _ => ih

theorem regular_finishFunction (hjumps : F.Jumps) : Regular F false (finishFunction line) := by
  refine .bind (.read fun _ _ => rfl) fun o => ?_
  split
  · exact .fail
  · next f =>
    refine .bind (.read fun _ _ => rfl) fun closed => ?_
    split
    on_goal 1 => refine .bind (regular_closeLast line f) fun _ => ?_
    all_goals
      refine .bind (.readJumps hjumps fun _ _ => rfl) fun _ => ?_
      refine .bind (.updateJumps hjumps fun _ _ => rfl) fun _ => ?_
      refine .bind (regular_closePending _) fun _ => .bind (regular_functionAt _) fun g => ?_
      split
      · exact .pure _
      · exact regular_closeBlocks _ _

/-- What is left to do when a body has ended. -/
theorem regular_leaveBody (hjumps : F.Jumps) (lowered finished : Option Unit) (prev : Option FuncId) :
    Regular F false (do
      update fun s => { s with func := none, loops := [], pending := [] }
      match (← read (·.scopes)).closeFunction with
      | .ok scopes => update fun s => { s with scopes }
      | .error fault => report (.internal fault.message) line
      updateBuilder (·.setFunction prev)
      if lowered.isSome && finished.isSome then pure () else fail) := by
  refine .bind (.updateJumps hjumps fun _ _ => rfl) fun _ => .bind (.read fun _ _ => rfl) fun scopes => ?_
  have hend : Regular F false (do
      updateBuilder (·.setFunction prev)
      if lowered.isSome && finished.isSome then pure () else fail) := by
    refine .bind (.updateBuilder _) fun _ => ?_
    split
    · exact .pure _
    · exact .fail
  dsimp only
  cases scopes.closeFunction with
  | ok scopes => exact .bind (.update fun _ _ => rfl) fun _ => hend
  | error fault => exact .bind (.report _ _) fun _ => hend

theorem regular_bindParams (i : Nat) (ps : List DeclaratorInfo) :
    Regular F loud (bindParams i ps) := by
  induction ps generalizing i with
  | nil => exact .pure ()
  | cons p ps ih =>
    unfold bindParams
    split
    · exact .bind (.report _ _) fun _ => ih _
    · exact .bind (.emit _ _) fun slot => .bind (.emit _ _) fun _ =>
        .bind (.updateScopes _) fun _ => ih _

variable {lower : StmtId → Lower Unit} {d : Nat}
  (hlower : ∀ {id}, F.Bears d (.stmt id) → Regular F false (lower id))
include hlower

theorem regular_functionContents (ps : List DeclaratorInfo) {body : StmtId}
    (hbody : F.Bears d (.stmt body)) : Regular F false (functionContents lower ps body line) :=
  .bind (.emit _ _) fun _ => .bind (.setBlock _) fun _ => .bind (regular_bindParams 0 ps) fun _ =>
    hlower hbody

theorem regular_functionBody (hjumps : F.Jumps) (id : FuncId) (result : Ty) (ps : List DeclaratorInfo)
    {body : StmtId} (hbody : F.Bears d (.stmt body)) : Regular F false (functionBody lower id result ps body line) := by
  refine .bind (.read fun _ _ => rfl) fun prev => .bind (regular_functionAt _) fun f => ?_
  refine .bind (.updateBuilder _) fun _ => .bind (.read fun _ _ => rfl) fun scopes => ?_
  split
  · exact .bind (.report _ _) fun _ => .bind (.updateBuilder _) fun _ => .fail
  · refine .bind (.update fun _ _ => rfl) fun _ => ?_
    refine .bind (.attempt (regular_functionContents line hlower ps hbody)) fun lowered => ?_
    exact .bind (.attempt (regular_finishFunction line hjumps)) fun finished =>
      regular_leaveBody line hjumps lowered finished prev

theorem regular_defineFunction (hjumps : F.Jumps) (id : FuncId) (name : String) (result : Ty)
    (storage : Storage) (ps : List DeclaratorInfo) {body : StmtId} (hbody : F.Bears d (.stmt body)) :
    Regular F false (defineFunction lower id name result storage ps body line) := by
  have hdefine := regular_functionBody line hlower hjumps id result ps hbody
  refine .bind (.read fun _ _ => rfl) fun o => ?_
  split
  · exact .complain _ _
  · refine .bind (regular_functionAt _) fun f => ?_
    split
    · exact .complain _ _
    · split
      · exact .bind (.updateBuilder _) fun _ => hdefine
      · exact hdefine

theorem regular_function (hjumps : F.Jumps) {decl : FunctionDecl}
    (hresult : F.Bears env.tree.exprDepth (.spec decl.result))
    (hdecl : F.Bears env.tree.exprDepth (.declarator decl.declarator))
    (hbody : ∀ body, decl.body = some body → F.Bears d (.stmt body)) :
    Regular F false (function lower decl line) := by
  refine .bind (regular_resolve hresult) fun result => ?_
  refine .bind (regular_resolveDeclarator hdecl _ _) fun info => ?_
  split
  · exact .complain _ _
  · split
    · exact .pure ()
    · refine .bind (regular_declareFunction line _ _ _) fun id => ?_
      split
      · exact .pure ()
      · next body heq => exact regular_defineFunction line hlower hjumps id _ _ _ _ (hbody body heq)

end Functions

/-! ### Statements -/

section Statements

variable (line : Nat)

theorem regular_condition {e : ExprId} (he : F.Bears env.tree.exprDepth (.expr e)) :
    Regular F false (condition e line) :=
  .bind (.attempt (regular_descend fun h => h.truth he line)) fun _ => .pure _

theorem regular_fallThrough (b : BlockId) : Regular F false (fallThrough b line) := by
  refine .bind (.read fun _ _ => rfl) fun closed => ?_
  split
  · exact .emit _ _
  · exact .pure _

theorem regular_forM {ι : Type} {step : ι → Lower Unit} {items : List ι}
    (hstep : ∀ i ∈ items, Regular F false (step i)) : Regular F false (items.forM step) := by
  induction items with
  | nil => exact .pure ()
  | cons i rest ih =>
    exact .bind (hstep i List.mem_cons_self) fun _ => ih fun i hi => hstep i (List.mem_cons_of_mem _ hi)

theorem regular_loopJump (hjumps : F.Jumps) (target : LoopTargets → BlockId) {otherwise : DiagnosticKind}
    (h : otherwise.severity = .error) : Regular F loud (loopJump target otherwise line) := by
  refine .bind (.readJumps hjumps fun _ _ => rfl) fun loops => ?_
  split
  · exact .emit _ _
  · exact .failWith _ fun _ => h

theorem regular_returned {value : Option ExprId} (ty : Ty)
    (hvalue : ∀ e, value = some e → F.Bears env.tree.exprDepth (.expr e)) :
    Regular F loud (returned value ty line) := by
  cases value with
  | none => exact .pure _
  | some e =>
    refine .bind (regular_rvalue (hvalue e rfl)) fun v => ?_
    grind

theorem regular_ret {value : Option ExprId}
    (hvalue : ∀ e, value = some e → F.Bears env.tree.exprDepth (.expr e)) :
    Regular F loud (ret value line) :=
  .bind (.bind (.read fun _ _ => rfl) fun _ => .pure _) fun ty =>
    .bind (regular_returned line ty hvalue) fun _ => .emit _ _

theorem regular_labelTarget (hjumps : F.Jumps) (name : String) : Regular F false (labelTarget name line) := by
  unfold labelTarget
  refine .bind (.read fun _ _ => rfl) fun scopes => ?_
  split
  · exact .pure _
  · refine .bind (.readJumps hjumps fun _ _ => rfl) fun pending => ?_
    split
    · exact .pure _
    · exact .bind (.emit _ _) fun b => .bind (.updateJumps hjumps fun _ _ => rfl) fun _ => .pure _

theorem regular_goto (hjumps : F.Jumps) (name : String) : Regular F false (goto name line) :=
  .bind (regular_labelTarget line hjumps name) fun _ => .emit _ _

theorem regular_labelBlock (hjumps : F.Jumps) (name : String) : Regular F false (labelBlock name line) := by
  refine .bind (.readJumps hjumps fun _ _ => rfl) fun pending => ?_
  split
  · exact .bind (.updateJumps hjumps fun _ _ => rfl) fun _ => .pure _
  · exact .emit _ _

theorem regular_declareOne (storage : Storage) {info : DeclaratorInfo} (hinfo : F.BearsInit info) :
    Regular F loud (declareOne storage info) := by
  unfold declareOne
  split
  · exact .pure ()
  · split
    · exact (regular_declareFunction _ _ _ _).discard
    · refine .bind .types fun table => ?_
      split
      · exact .failWith _ fun _ => rfl
      · refine .bind (.read fun _ _ => rfl) fun o => ?_
        split
        · exact regular_localVariable _ _ _ _ hinfo
        · exact regular_globalVariable _ _ _ _ hinfo

theorem regular_variableList {decl : VariableDecl}
    (hdecl : ∀ c ∈ decl.handles, F.Bears env.tree.exprDepth c) :
    Regular F false (variableList decl) := by
  refine .bind (regular_resolve (hdecl _ List.mem_cons_self)) fun base => ?_
  refine regular_forM fun id hid => .ignoring ?_
  have hid := hdecl _ (List.mem_cons_of_mem _ (List.mem_map_of_mem hid))
  exact .bindProduced (regular_resolveDeclarator hid _ _) fun info hinfo =>
    regular_declareOne _ (bearsInit_resolveDeclarator hid hinfo)

theorem regular_aggregate (kind : AggregateKind) {decl : AggregateDecl}
    (hdecl : ∀ c ∈ decl.handles, F.Bears env.tree.exprDepth c) :
    Regular F false (aggregate kind decl line) := by
  unfold aggregate
  split
  · exact (regular_descend fun h => h.defineAggregate line kind hdecl).discard
  · refine .discard (.bind (.read fun _ _ => rfl) fun scopes => ?_)
    split
    · exact .pure _
    · exact regular_declareTag _ _
  · exact .pure ()

theorem regular_typedef {id : SpecId} {n : DeclaratorId} (hid : F.Bears env.tree.exprDepth (.spec id))
    (hn : F.Bears env.tree.exprDepth (.declarator n)) : Regular F false (typedef id n) := by
  refine .bind (regular_resolve hid) fun base => .bind (regular_resolveDeclarator hn _ _) fun info => ?_
  split
  · exact .updateScopes _
  · exact .pure ()

theorem regular_delegate {result : SpecId} (name : String) {ps : List ParamDecl} (variadic : Bool)
    (hresult : F.Bears env.tree.exprDepth (.spec result))
    (hps : ∀ p ∈ ps, ∀ c ∈ p.handles, F.Bears env.tree.exprDepth c) :
    Regular F false (delegate result name ps variadic line) :=
  .bind (regular_resolve hresult) fun _ => .bind (regular_resolveParams hps _) fun _ => .updateScopes _

variable {lower : StmtId → Lower Unit} {d : Nat}
  (hlower : ∀ {id}, F.Bears d (.stmt id) → Regular F false (lower id))
include hlower

theorem regular_branch {cond : ExprId} {yes : StmtId} {no : Option StmtId}
    (hcond : F.Bears env.tree.exprDepth (.expr cond)) (hyes : F.Bears d (.stmt yes))
    (hno : ∀ id, no = some id → F.Bears d (.stmt id)) :
    Regular F false (branch lower cond yes no line) := by
  refine .bind (regular_condition line hcond) fun c => ?_
  refine .bind (.emit _ _) fun last => .bind (.emit _ _) fun first => ?_
  cases no with
  | none =>
    exact .bind (.pure _) fun _ => .bind (.emit _ _) fun _ => .bind (.setBlock _) fun _ =>
      .bind (hlower hyes) fun _ => .bind (regular_fallThrough line _) fun _ => .setBlock _
  | some no =>
    exact .bind (.emit _ _) fun second => .bind (.emit _ _) fun _ => .bind (.setBlock _) fun _ =>
      .bind (hlower hyes) fun _ => .bind (regular_fallThrough line _) fun _ => .bind (.setBlock _)
        fun _ => .bind (hlower (hno no rfl)) fun _ => .bind (regular_fallThrough line _) fun _ =>
          .setBlock _

theorem regular_loopBody (hjumps : F.Jumps) {body : StmtId} (targets : LoopTargets)
    (hbody : F.Bears d (.stmt body)) : Regular F false (loopBody lower body targets) :=
  .bind (.updateJumps hjumps fun _ _ => rfl) fun _ => .bind (hlower hbody) fun _ =>
    .updateJumps hjumps fun _ _ => rfl

theorem regular_whileLoop (hjumps : F.Jumps) {cond : ExprId} {body : StmtId}
    (hcond : F.Bears env.tree.exprDepth (.expr cond)) (hbody : F.Bears d (.stmt body)) :
    Regular F false (whileLoop lower cond body line) := by
  refine .bind (.emit _ _) fun first => .bind (.emit _ _) fun inner => .bind (.emit _ _) fun last => ?_
  refine .bind (regular_fallThrough line _) fun _ => .bind (.setBlock _) fun _ => ?_
  refine .bind (regular_condition line hcond) fun c => .bind (.emit _ _) fun _ => ?_
  exact .bind (.setBlock _) fun _ => .bind (regular_loopBody hlower hjumps _ hbody) fun _ =>
    .bind (regular_fallThrough line _) fun _ => .setBlock _

theorem regular_forLoop (hjumps : F.Jumps) {init : Option StmtId} {cond step : Option ExprId} {body : StmtId}
    (hinit : ∀ id, init = some id → F.Bears d (.stmt id))
    (hcond : ∀ e, cond = some e → F.Bears env.tree.exprDepth (.expr e))
    (hstep : ∀ e, step = some e → F.Bears env.tree.exprDepth (.expr e))
    (hbody : F.Bears d (.stmt body)) : Regular F false (forLoop lower init cond step body line) := by
  have hround : ∀ (test start next last : BlockId) {advance : Lower Unit}, Regular F false advance →
      Regular F false (do
        setBlock start
        loopBody lower body ⟨last, next⟩
        fallThrough next line
        setBlock next
        advance
        fallThrough test line
        setBlock last) := fun test start next last advance hadvance =>
    .bind (.setBlock _) fun _ => .bind (regular_loopBody hlower hjumps _ hbody) fun _ =>
      .bind (regular_fallThrough line _) fun _ => .bind (.setBlock _) fun _ => .bind hadvance fun _ =>
        .bind (regular_fallThrough line _) fun _ => .setBlock _
  have htest : Regular F false (forLoop lower none cond step body line) := by
    refine .bind (.emit _ _) fun test => .bind (.emit _ _) fun start => ?_
    refine .bind (.emit _ _) fun next => .bind (.emit _ _) fun last => ?_
    refine .bind (regular_fallThrough line _) fun _ => .bind (.setBlock _) fun _ => ?_
    cases cond
    case' none => refine .bind (.emit _ _) fun _ => ?_
    case' some cond =>
      refine .bind (regular_condition line (hcond cond rfl)) fun c => .bind (.emit _ _) fun _ => ?_
    all_goals
      cases step with
      | none => exact hround _ _ _ _ (.pure ())
      | some step => exact hround _ _ _ _ (.ignoring (regular_rvalue (hstep step rfl)))
  cases init with
  | none => exact htest
  | some init => exact .bind (hlower (hinit init rfl)) fun _ => htest

theorem regular_label (hjumps : F.Jumps) (name : String) {body : StmtId} (hbody : F.Bears d (.stmt body)) :
    Regular F false (label lower name body line) := by
  unfold label
  refine .bind (.read fun _ _ => rfl) fun scopes => ?_
  split
  · exact .bind (.report _ _) fun _ => .bind (hlower hbody) fun _ => .fail
  · refine .bind (regular_labelBlock line hjumps name) fun b => .bind (.read fun _ _ => rfl) fun scopes => ?_
    split
    · exact .complain _ _
    · exact .bind (.update fun _ _ => rfl) fun _ => .bind (regular_fallThrough line b) fun _ =>
        .bind (.setBlock b) fun _ => hlower hbody

theorem regular_topLevel {id : StmtId} (hid : F.Bears d (.stmt id)) :
    Regular F false (topLevel lower id) := by
  refine .bindStmt hid fun s _ => .bind (.read fun _ _ => rfl) fun inside => ?_
  split
  · exact hlower hid
  · exact .ignoring (regular_inStartup (hlower hid))

theorem regular_statementWith (hjumps : F.Jumps) {id : StmtId} (hid : F.Bears (d + 1) (.stmt id)) :
    Regular F false (statementWith lower id) := by
  refine .bindStmt hid fun s hs => ?_
  obtain ⟨hstmt, hother⟩ := F.bears_of_stmt hs hid
  dsimp only
  cases hkind : s.kind <;> rw [hkind] at hstmt hother
  case expression e => exact .discard (regular_rvalue (hother _ (by simp [StmtKind.handles]) rfl))
  case block body =>
    exact .localScope (regular_forM fun id hid => hlower (hstmt _ (List.mem_map_of_mem hid)))
  case branch cond yes no =>
    refine regular_branch _ hlower (hother _ (by simp [StmtKind.handles]) rfl)
      (hstmt _ (by simp [StmtKind.handles])) fun id hid => hstmt _ (by simp [StmtKind.handles, hid])
  case whileLoop cond body =>
    exact regular_whileLoop _ hlower hjumps (hother _ (by simp [StmtKind.handles]) rfl)
      (hstmt _ (by simp [StmtKind.handles]))
  case forLoop init cond step body =>
    exact .localScope (regular_forLoop _ hlower hjumps
      (fun id hid => hstmt _ (by simp [StmtKind.handles, hid]))
      (fun e he => hother _ (by simp [StmtKind.handles, he]) rfl)
      (fun e he => hother _ (by simp [StmtKind.handles, he]) rfl)
      (hstmt _ (by simp [StmtKind.handles])))
  case ret value =>
    exact regular_ret _ fun e he => hother _ (by simp [StmtKind.handles, he]) rfl
  case brk => exact regular_loopJump _ hjumps _ rfl
  case cont => exact regular_loopJump _ hjumps _ rfl
  case goto name => exact regular_goto _ hjumps name
  case label name body => exact regular_label _ hlower hjumps name (hstmt _ (by simp [StmtKind.handles]))
  next decl =>
    exact regular_variableList fun c hc => hother c hc (VariableDecl.not_isStmt hc)
  case function decl =>
    exact regular_function _ hlower hjumps (hother _ (by simp [StmtKind.handles]) rfl)
      (hother _ (by simp [StmtKind.handles]) rfl)
      fun body hbody => hstmt _ (by simp [StmtKind.handles, hbody])
  case struct decl => exact regular_aggregate _ _ fun c hc => hother c hc (AggregateDecl.not_isStmt hc)
  case union decl => exact regular_aggregate _ _ fun c hc => hother c hc (AggregateDecl.not_isStmt hc)
  case typedef id n =>
    exact regular_typedef (hother _ (by simp [StmtKind.handles]) rfl)
      (hother _ (by simp [StmtKind.handles]) rfl)
  case delegate result name ps variadic =>
    refine regular_delegate _ name variadic (hother _ List.mem_cons_self rfl) fun p hp c hc => ?_
    exact hother c (List.mem_cons_of_mem _ (List.mem_flatMap_of_mem hp hc)) (ParamDecl.not_isStmt hc)
  case namespaceBlock name body =>
    exact .inNamespace _ (regular_forM fun id hid =>
      regular_topLevel hlower (hstmt _ (List.mem_map_of_mem hid)))

end Statements

/-- Every statement is regular, however deep, and no statement fails. -/
theorem regular_statementTo (hjumps : F.Jumps) {d : Nat} {id : StmtId} (hid : F.Bears d (.stmt id)) :
    Regular F loud (statementTo d id) := by
  induction d generalizing id loud with
  | zero => exact .halt (F.endless hid)
  | succ d ih => exact .ignoring (regular_statementWith ih hjumps hid)

theorem regular_global (hjumps : F.Jumps) {id : StmtId} (hid : F.Bears env.tree.stmtDepth (.stmt id)) :
    Regular F false (global id) :=
  .ofEq (n := topLevel (statementTo env.tree.stmtDepth) id) (fun _ => rfl)
    (regular_topLevel (regular_statementTo hjumps) hid)

end TreeFlow.Lower
