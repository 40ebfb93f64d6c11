import TreeFlow.Lower.Unit
import TreeFlow.Proofs.Lowering.ProperExpression

/-!
# Whole units stay in range

Statements and declarations are made of steps on expressions and types, which stay in range. What they add is
names, whose types and addresses have just been lowered, initial values that were found to be constants, and the
functions and routines that code is written to.

So every integer constant of a lowered unit is in the range of its type.
-/

namespace TreeFlow

namespace Lower

variable {α : Type} {line : Nat}

/-! ### Globals -/

theorem properly_modifyGlobal (addr : Constant) {change : Global → Global}
    (hchange : ∀ g, g.IsProper → (change g).IsProper) : StaysProper (modifyGlobal addr line change) := by
  have hid : StaysProper (globalId addr line) := by
    unfold globalId
    split
    · exact .pure trivial
    · exact .failWith _ _
  exact .bind hid fun id _ => .updateBuilder fun _ hb => hb.modifyGlobal id hchange

theorem properly_completeGlobal (addr : Constant) (ty : Ty) : StaysProper (completeGlobal addr ty line) :=
  properly_modifyGlobal addr fun g hg c hc => by
    cases hinit : g.init with
    | none =>
      rw [hinit] at hc
      exact Option.some.inj hc ▸ trivial
    | some k =>
      rw [hinit] at hc
      exact hg c (hinit.trans hc)

theorem properly_setGlobalInit (addr : Constant) {init : Constant} (hinit : init.IsProper) :
    StaysProper (setGlobalInit addr init line) :=
  properly_modifyGlobal addr fun _ _ _ hc => Option.some.inj hc ▸ hinit

/-! ### Initializers -/

section Initializers

variable {ty : Ty} (hty : ty.IsProper) (init : ExprId)
include hty

theorem properly_initializerValue : Properly Operand.IsProper (initializerValue ty init line) := by
  refine .bind (properly_rvalue init) fun v hv => ?_
  split
  · exact .fail
  · exact properly_convert hv hty

/-- An initializer that is a constant is one in range, and one that is not leaves no trace. -/
theorem properly_constantInitializer :
    Properly (fun o => ∀ c, o = some c → c.IsProper) (constantInitializer ty init line) := fun env s hs => by
  -- How much is undone depends on what was yielded, so the outcomes are gone through one by one.
  have hvalue : Properly Operand.IsProper (initializerValue ty init line) := properly_initializerValue hty init
  have hrun := hvalue env { s with builder := s.builder.snapshot.2 }
    { hs with mod := Builder.isProper_snapshot hs.mod }
  unfold constantInitializer
  dsimp only
  rcases hms : initializerValue ty init line env { s with builder := s.builder.snapshot.2 } with ⟨o, t⟩
  rw [hms] at hrun
  obtain ⟨ht, hop⟩ := hrun
  have hundone : State.IsProper { t with
      builder := t.builder.restore s.builder.snapshot.1 .nothing
      scopes := s.scopes
      diags := t.diags.truncate s.diags.size } :=
    { ht with mod := Builder.isProper_restore ht.mod hs.mod _, scopes := hs.scopes }
  cases o with
  | stuck why => exact ⟨ht, fun _ h => by cases h⟩
  | failed =>
    refine ⟨hundone, fun o ho c hc => ?_⟩
    cases ho
    cases hc
  | done op =>
    cases hconst : op.const? with
    | none =>
      refine ⟨by simpa only [hconst] using hundone, fun o ho c hc => ?_⟩
      simp only [hconst] at ho
      cases ho
      cases hc
    | some k =>
      refine ⟨?_, fun o ho c hc => ?_⟩
      · simp only [hconst]
        exact { ht with mod := Builder.isProper_restore ht.mod hs.mod _ }
      · simp only [hconst] at ho
        cases ho
        cases hc
        exact (hop op rfl).of_const? hconst

omit hty in
theorem properly_arrayInitializer (ty : Ty) : Properly Constant.IsProper (arrayInitializer ty init line) := by
  unfold arrayInitializer
  split
  · refine .bind (.expr init) fun e _ => ?_
    split
    · split
      · exact .pure trivial
      · exact .failWith _ _
    · exact .failWith _ _
  · exact .fail

omit hty in
theorem properly_storeArray {slot : Operand} (hslot : slot.IsProper) (ty : Ty) :
    StaysProper (storeArray slot ty init line) := by
  refine .bind (.expr init) fun e _ => ?_
  split
  · exact .bind (properly_arrayInitializer init ty) fun _ hc =>
      .emit (Build.properly_store hslot (Operand.isProper_const hc))
  · refine .bind (properly_descend fun _ hsub => properly_subStorage hsub init) fun v hv => ?_
    split
    · exact .failWith _ _
    · exact .emit (Build.properly_copy hslot hv.op ty)

theorem properly_storeInitializer {slot : Operand} (hslot : slot.IsProper) :
    StaysProper (storeInitializer slot ty init line) := by
  unfold storeInitializer
  split
  · exact properly_storeArray init hslot ty
  · refine .bind (properly_rvalue init) fun v hv => ?_
    split
    · split
      · exact .failWith _ _
      · exact properly_putAggregate hslot hv ty
    · exact .bind (properly_convertOrReport hv hty) fun _ hop => .emit (Build.properly_store hslot hop)

end Initializers

/-! ### Startup -/

theorem properly_declareFunctionWith (name : String) (sig : Signature) (linkage : Linkage) :
    StaysProper (withBuilder (·.declareFunction name sig linkage)) :=
  .withBuilder fun _ hb => ⟨hb.addFunction (Function.isProper_declared name sig linkage), trivial⟩

theorem properly_startupRoutine : StaysProper startupRoutine := by
  refine .bind (.look _) fun o _ => ?_
  split
  · exact .pure trivial
  · exact .bind (.look _) fun _ _ => .bind (properly_declareFunctionWith _ _ _) fun _ _ => .pure trivial

theorem properly_enterStartup : StaysProper enterStartup := by
  refine .bind (.look _) fun prev _ => .bind properly_startupRoutine fun routine _ => ?_
  refine .bind (.updateBuilder fun _ hb => hb) fun _ _ => ?_
  have hrest : ∀ block : BlockId, StaysProper (do
      setBlock block
      update fun s => { s with startup := some ⟨routine.id, some block⟩ }
      return prev) := fun block =>
    .bind (.setBlock _) fun _ _ => .bind (.update fun _ hs => { hs with }) fun _ _ => .pure trivial
  split
  · exact hrest _
  · exact .bind (.emit Build.properly_newBlock) fun block _ => hrest block

theorem properly_inStartup {m : Lower α} (hm : StaysProper m) : StaysProper (inStartup m) := by
  refine .bind properly_enterStartup fun prev _ => .bind hm.attempt fun o _ => ?_
  refine .bind (.update fun _ hs => { hs with mod := hs.mod }) fun _ _ => ?_
  split
  · exact .pure trivial
  · exact .fail

theorem properly_finishStartup : StaysProper finishStartup := by
  refine .bind (.look _) fun o _ => ?_
  split
  · exact .pure trivial
  · next routine =>
    have hrest : StaysProper (do
        emit 0 (Build.ret none)
        updateBuilder (·.setFunction none)
        let priority := (← Lower.env).config.ctorPriority
        updateBuilder fun b => { b with mod := b.mod.addCtor priority routine.id }) :=
      .bind (.emit (Build.properly_ret nofun)) fun _ _ => .bind (.updateBuilder fun _ hb => hb) fun _ _ =>
        .bind .env fun _ _ => .updateBuilder fun _ hb => { hb with }
    refine .bind (.update fun _ hs => { hs with }) fun _ _ => .bind (.updateBuilder fun _ hb => hb) fun _ _ => ?_
    split
    · exact .bind (.setBlock _) fun _ _ => hrest
    · exact hrest

/-! ### Variables -/

section Variables

variable {ty : Ty} (name : String)

theorem properly_defineVar {b : Binding} (hb : b.IsProper) : StaysProper (updateScopes (·.defineVar name b)) :=
  .updateScopes fun _ hs => hs.defineVar hb

variable (hty : ty.IsProper)
include hty

theorem properly_foreignLocal : StaysProper (foreignLocal name ty) := by
  refine .bind .scopes fun scopes hscopes => ?_
  dsimp only
  split
  · next b hb =>
    obtain ⟨hfound, -⟩ := Option.filter_eq_some_iff.1 hb
    exact properly_defineVar name (hscopes.of_globalVar? hfound)
  · exact .bind (properly_addGlobal fun _ h => by cases h) fun _ haddr =>
      properly_defineVar name ⟨hty, Operand.isProper_const haddr⟩

theorem properly_staticLocal (init : Option ExprId) : StaysProper (staticLocal name ty init line) := by
  refine .bind (.look _) fun owner _ => ?_
  refine .bind (properly_addGlobal fun _ h => Option.some.inj h ▸ trivial) fun addr haddr => ?_
  refine .bind (properly_defineVar name ⟨hty, Operand.isProper_const haddr⟩) fun _ _ => ?_
  split
  · exact .pure trivial
  · refine .bind (properly_constantInitializer hty _) fun o ho => ?_
    split
    · exact properly_setGlobalInit addr (ho _ rfl)
    · exact .report _ _

theorem properly_stackLocal (init : Option ExprId) : StaysProper (stackLocal name ty init line) := by
  refine .bind (.emit (Build.properly_alloca ty)) fun slot hslot => ?_
  refine .bind (properly_defineVar name ⟨hty, hslot⟩) fun _ _ => ?_
  split
  · exact .pure trivial
  · exact properly_storeInitializer hty _ hslot

theorem properly_localVariable (storage : Storage) (init : Option ExprId) :
    StaysProper (localVariable name storage ty init line) := by
  cases storage with
  | foreign => exact properly_foreignLocal name hty
  | static => exact properly_staticLocal name hty init
  | normal => exact properly_stackLocal name hty init

theorem properly_globalAddress (storage : Storage) (hasInit : Bool) :
    Properly Constant.IsProper (globalAddress name storage ty hasInit line) := by
  refine .bind .scopes fun scopes hscopes => ?_
  dsimp only
  split
  · next b hb =>
    split
    · split
      · next addr haddr => exact .pure ((hscopes.of_globalVar? hb).addr.of_const? haddr)
      · exact .failWith _ _
    · exact .failWith _ _
  · refine .bind (properly_addGlobal fun c hc => ?_) fun addr haddr =>
      .bind (.updateScopes fun _ hs => hs.defineGlobalVar ⟨hty, Operand.isProper_const haddr⟩) fun _ _ => .pure haddr
    dsimp only at hc
    split at hc
    · cases hc
    · exact Option.some.inj hc ▸ trivial

theorem properly_initGlobal {addr : Constant} (haddr : addr.IsProper) (storage : Storage) (init : ExprId) :
    StaysProper (initGlobal addr storage ty init line) := by
  unfold initGlobal
  split
  · exact .bind (properly_arrayInitializer init ty) fun _ hc => properly_setGlobalInit addr hc
  · refine .bind (properly_constantInitializer hty init) fun o ho => ?_
    split
    · exact properly_setGlobalInit addr (ho _ rfl)
    · split
      · exact .failWith _ _
      · exact .bind (.report _ _) fun _ _ => .bind (properly_completeGlobal addr ty) fun _ _ =>
          properly_inStartup (properly_storeInitializer hty init (Operand.isProper_const haddr))

theorem properly_globalVariable (storage : Storage) (init : Option ExprId) :
    StaysProper (globalVariable name storage ty init line) := by
  refine .bind (properly_globalAddress name hty storage _) fun addr haddr => ?_
  split
  · exact properly_initGlobal hty haddr storage _
  · split
    · exact .pure trivial
    · exact properly_completeGlobal addr ty

end Variables

/-! ### Functions -/

theorem properly_redeclare (name : String) (sig : Signature) {b : Binding} (hb : b.IsProper) :
    StaysProper (redeclare name sig b line) := by
  unfold redeclare
  dsimp only
  split
  · exact .failWith _ _
  · split
    · next id _ _ =>
      refine .bind (.look _) fun _ _ => ?_
      split
      · exact .bind (properly_defineVar name hb) fun _ _ => .pure trivial
      · exact .pure trivial
    · exact .bind .scopes fun _ _ => .failWith _ _

theorem properly_declareFunction (name : String) {sig : Signature} (hsig : (Ty.ofSignature sig).IsProper)
    (storage : Storage) : StaysProper (declareFunction name sig storage line) := by
  refine .bind .scopes fun scopes hscopes => ?_
  dsimp only
  cases hfound : scopes.globalVar? (scopes.qualify name) with
  | some b =>
    have hrest : StaysProper (redeclare name sig b line) := properly_redeclare name sig (hscopes.of_globalVar? hfound)
    split
    · exact .bind (.report _ _) fun _ _ => hrest
    · exact hrest
  | none =>
    have hrest : StaysProper (do
        let id ← withBuilder (·.declareFunction (scopes.qualify name) sig (linkageOf storage))
        let addr := (← read (·.builder)).functionRef id
        updateScopes (·.defineGlobalVar name (.ofFunction (.ofSignature sig) addr))
        return id) :=
      .bind (properly_declareFunctionWith _ _ _) fun _ _ => .bind (.look _) fun _ _ =>
        .bind (.updateScopes fun _ hs => hs.defineGlobalVar ⟨hsig, Operand.isProper_const trivial⟩) fun _ _ =>
          .pure trivial
    split
    · exact .bind (.report _ _) fun _ _ => hrest
    · exact hrest

theorem properly_closeLast (f : OpenFunction) : StaysProper (closeLast f line) := by
  have hrest : ∀ reached : Bool, StaysProper (do
      if !reached then emit line Build.unreachable
      else if f.result.isVoid then emit line (Build.ret none)
      else
        report .missingReturnStatement line
        emit line (Build.ret (some (.const (.zero f.result))))) := fun reached => by
    split
    · exact .emit Build.properly_unreachable
    · split
      · exact .emit (Build.properly_ret nofun)
      · exact .bind (.report _ _) fun _ _ => .emit (Build.properly_ret fun op hop =>
          Option.some.inj hop ▸ Operand.isProper_const trivial)
  refine .bind .currentBlock fun o _ => ?_
  cases o with
  | none => exact hrest false
  | some block =>
    exact .bind (.emit (Build.properly_predecessors block)) fun _ _ => .bind (.look _) fun _ _ => hrest _

theorem properly_closePending (labels : List PendingLabel) : StaysProper (closePending labels) := by
  induction labels with
  | nil => exact .pure trivial
  | cons label rest ih =>
    exact .bind (.report _ _) fun _ _ => .bind (.setBlock _) fun _ _ =>
      .bind (.emit Build.properly_unreachable) fun _ _ => ih

theorem properly_closeBlocks (blocks : List BlockId) : StaysProper (closeBlocks line blocks) := by
  induction blocks with
  | nil => exact .pure trivial
  | cons block rest ih =>
    exact .bind (.setBlock _) fun _ _ => .bind (.emit Build.properly_unreachable) fun _ _ => ih

theorem properly_finishFunction : StaysProper (finishFunction line) := by
  refine .bind (.look _) fun o _ => ?_
  split
  · exact .fail
  · next f =>
    refine .bind (.look _) fun closed _ => ?_
    split
    on_goal 1 => refine .bind (properly_closeLast f) fun _ _ => ?_
    all_goals
      refine .bind (.look _) fun labels _ => .bind (.update fun _ hs => { hs with }) fun _ _ => ?_
      refine .bind (properly_closePending _) fun _ _ => .bind (.look _) fun g _ => ?_
      split
      · exact .pure trivial
      · exact properly_closeBlocks _

theorem properly_bindParams (i : Nat) {ps : List DeclaratorInfo} (hps : ∀ p ∈ ps, p.ty.IsProper) :
    StaysProper (bindParams i ps) := by
  induction ps generalizing i with
  | nil => exact .pure trivial
  | cons p ps ih =>
    obtain ⟨hp, hps⟩ := List.forall_mem_cons.1 hps
    have hrest := ih (i + 1) hps
    unfold bindParams
    split
    · exact .bind (.report _ _) fun _ _ => hrest
    · exact .bind (.emit (Build.properly_alloca _)) fun _ hslot =>
        .bind (.emit (Build.properly_store hslot (Operand.isProper_arg i))) fun _ _ =>
          .bind (properly_defineVar _ ⟨hp, hslot⟩) fun _ _ => hrest

section Statements

variable {lower : StmtId → Lower Unit} (hlower : ∀ id, StaysProper (lower id))
include hlower

theorem properly_functionContents {ps : List DeclaratorInfo} (hps : ∀ p ∈ ps, p.ty.IsProper) (body : StmtId) :
    StaysProper (functionContents lower ps body line) :=
  .bind (.emit Build.properly_newBlock) fun _ _ => .bind (.setBlock _) fun _ _ =>
    .bind (properly_bindParams 0 hps) fun _ _ => hlower body

theorem properly_functionBody (id : FuncId) {result : Ty} (hresult : result.IsProper) {ps : List DeclaratorInfo}
    (hps : ∀ p ∈ ps, p.ty.IsProper) (body : StmtId) :
    StaysProper (functionBody lower id result ps body line) := by
  refine .bind (.look _) fun prev _ => .bind (.look _) fun f _ => ?_
  refine .bind (.updateBuilder fun _ hb => hb) fun _ _ => .bind .scopes fun scopes hscopes => ?_
  split
  · exact .bind (.report _ _) fun _ _ => .bind (.updateBuilder fun _ hb => hb) fun _ _ => .fail
  · next opened hopen =>
    refine .bind (.update fun s hs => { hs with
      scopes := hscopes.openFunction hopen
      result := fun f hf => Option.some.inj hf ▸ hresult }) fun _ _ => ?_
    refine .bind (properly_functionContents hlower hps body).attempt fun lowered _ => ?_
    refine .bind properly_finishFunction.attempt fun finished _ => ?_
    refine .bind (.update fun _ hs => { hs with result := nofun }) fun _ _ => .bind .scopes fun inner hinner => ?_
    have hrest : StaysProper (do
        updateBuilder (·.setFunction prev)
        if lowered.isSome && finished.isSome then pure () else fail) := by
      refine .bind (.updateBuilder fun _ hb => hb) fun _ _ => ?_
      split
      · exact .pure trivial
      · exact .fail
    dsimp only
    split
    · next scopes hclose =>
      exact .bind (.update fun _ hs => { hs with scopes := hinner.closeFunction hclose }) fun _ _ => hrest
    · exact .bind (.report _ _) fun _ _ => hrest

theorem properly_defineFunction (id : FuncId) (name : String) {result : Ty} (hresult : result.IsProper)
    (storage : Storage) {ps : List DeclaratorInfo} (hps : ∀ p ∈ ps, p.ty.IsProper) (body : StmtId) :
    StaysProper (defineFunction lower id name result storage ps body line) := by
  have hrest : StaysProper (functionBody lower id result ps body line) :=
    properly_functionBody hlower id hresult hps body
  refine .bind (.look _) fun nested _ => ?_
  split
  · exact .failWith _ _
  · refine .bind (.look _) fun f _ => ?_
    split
    · exact .failWith _ _
    · split
      · exact .bind (.updateBuilder fun _ hb => hb.modifyFunction id fun _ hf => ⟨hf.insts, hf.terms⟩) fun _ _ => hrest
      · exact hrest

theorem properly_function (decl : FunctionDecl) : StaysProper (function lower decl line) := by
  refine .bind (properly_resolve _) fun result hresult => ?_
  refine .bind (properly_resolveDeclarator _ _ hresult) fun info hinfo => ?_
  split
  · exact .failWith _ _
  · next sig hsig =>
    obtain ⟨hsigResult, hsigParams⟩ := hinfo.ty.signature hsig
    split
    · exact .pure trivial
    · refine .bind (properly_declareFunction _ (.ofSignature hsigResult hsigParams) _) fun id _ => ?_
      split
      · exact .pure trivial
      · refine properly_defineFunction hlower id _ hsigResult _ (fun p hp => ?_) _
        cases hparams : info.params with
        | none => simp [hparams] at hp
        | some ps =>
          rw [hparams] at hp
          exact hinfo.params ps hparams p hp

/-! ### Branches and loops -/

omit hlower in
theorem properly_condition (e : ExprId) : Properly Operand.IsProper (condition e line) := by
  refine .bind (properly_descend fun _ hsub => properly_truth hsub e).attempt fun o ho => .pure ?_
  cases o with
  | none => exact isProper_ofBool false
  | some op => exact ho op rfl

omit hlower in
theorem properly_fallThrough (target : BlockId) : StaysProper (fallThrough target line) := by
  refine .bind (.look _) fun closed _ => ?_
  split
  · exact .emit (Build.properly_goto target)
  · exact .pure trivial

theorem properly_branch (cond : ExprId) (yes : StmtId) (no : Option StmtId) :
    StaysProper (branch lower cond yes no line) := by
  refine .bind (properly_condition cond) fun c hc => .bind (.emit Build.properly_newBlock) fun endBlock _ => ?_
  refine .bind (.emit (Build.properly_newBlockBefore _)) fun yesBlock _ => ?_
  cases no with
  | none =>
    exact .bind (.pure trivial) fun _ (_ : True) => .bind (.emit (Build.properly_branch hc _ _)) fun _ _ =>
      .bind (.setBlock _) fun _ _ => .bind (hlower yes) fun _ _ => .bind (properly_fallThrough _) fun _ _ =>
        .setBlock _
  | some no =>
    exact .bind (.emit (Build.properly_newBlockBefore _)) fun _ _ =>
      .bind (.emit (Build.properly_branch hc _ _)) fun _ _ => .bind (.setBlock _) fun _ _ =>
        .bind (hlower yes) fun _ _ => .bind (properly_fallThrough _) fun _ _ => .bind (.setBlock _) fun _ _ =>
          .bind (hlower no) fun _ _ => .bind (properly_fallThrough _) fun _ _ => .setBlock _

theorem properly_loopBody (body : StmtId) (targets : LoopTargets) : StaysProper (loopBody lower body targets) :=
  .bind (.update fun _ hs => { hs with }) fun _ _ => .bind (hlower body) fun _ _ => .update fun _ hs => { hs with }

theorem properly_whileLoop (cond : ExprId) (body : StmtId) : StaysProper (whileLoop lower cond body line) :=
  .bind (.emit Build.properly_newBlock) fun _ _ => .bind (.emit Build.properly_newBlock) fun _ _ =>
    .bind (.emit Build.properly_newBlock) fun _ _ => .bind (properly_fallThrough _) fun _ _ =>
      .bind (.setBlock _) fun _ _ => .bind (properly_condition cond) fun _ hc =>
        .bind (.emit (Build.properly_branch hc _ _)) fun _ _ => .bind (.setBlock _) fun _ _ =>
          .bind (properly_loopBody hlower body _) fun _ _ => .bind (properly_fallThrough _) fun _ _ => .setBlock _

theorem properly_forLoop (init : Option StmtId) (cond step : Option ExprId) (body : StmtId) :
    StaysProper (forLoop lower init cond step body line) := by
  -- What is left to do after the first clause is a loop without one.
  have htest : StaysProper (forLoop lower none cond step body line) := by
    refine .bind (.emit Build.properly_newBlock) fun condBlock _ => ?_
    refine .bind (.emit Build.properly_newBlock) fun bodyBlock _ => ?_
    refine .bind (.emit Build.properly_newBlock) fun stepBlock _ => ?_
    refine .bind (.emit Build.properly_newBlock) fun endBlock _ => ?_
    refine .bind (properly_fallThrough _) fun _ _ => .bind (.setBlock _) fun _ _ => ?_
    have hend : StaysProper (do
        fallThrough condBlock line
        setBlock endBlock) := .bind (properly_fallThrough _) fun _ _ => .setBlock _
    cases cond
    case' none => refine .bind (.emit (Build.properly_goto _)) fun _ _ => ?_
    case' some cond =>
      refine .bind (properly_condition cond) fun c hc => .bind (.emit (Build.properly_branch hc _ _)) fun _ _ => ?_
    all_goals
      refine .bind (.setBlock _) fun _ _ => .bind (properly_loopBody hlower body _) fun _ _ => ?_
      refine .bind (properly_fallThrough _) fun _ _ => .bind (.setBlock _) fun _ _ => ?_
      cases step with
      | none => exact hend
      | some step => exact .bind (properly_rvalue step).ignoring fun _ _ => hend
  cases init with
  | none => exact htest
  | some init => exact .bind (hlower init) fun _ _ => htest

/-! ### Jumps and labels -/

omit hlower in
theorem properly_loopJump (target : LoopTargets → BlockId) (otherwise : DiagnosticKind) :
    StaysProper (loopJump target otherwise line) := by
  refine .bind (.look _) fun loops _ => ?_
  split
  · exact .emit (Build.properly_goto _)
  · exact .failWith _ _

omit hlower in
theorem properly_resultTy : Properly Ty.IsProper resultTy := by
  refine .bind (P := fun f => ∀ o, f = some o → o.result.IsProper) (.read fun _ hs => hs.result) fun f hf => .pure ?_
  cases f with
  | none => exact .void
  | some f => exact hf f rfl

omit hlower in
theorem properly_returned (value : Option ExprId) {ty : Ty} (hty : ty.IsProper) :
    Properly (fun o => ∀ op, o = some op → op.IsProper) (returned value ty line) := by
  unfold returned
  split
  · refine .pure fun op hop => ?_
    split at hop
    · cases hop
    · exact Option.some.inj hop ▸ Operand.isProper_const trivial
  · refine .bind (properly_rvalue _) fun v hv => ?_
    split
    · exact .pure nofun
    · split
      · exact .bind (properly_loadAggregate hv) fun op hop => .pure fun _ h => Option.some.inj h ▸ hop
      · exact .bind (properly_convertOrReport hv hty) fun op hop => .pure fun _ h => Option.some.inj h ▸ hop

omit hlower in
theorem properly_ret (value : Option ExprId) : StaysProper (ret value line) :=
  .bind properly_resultTy fun _ hty => .bind (properly_returned value hty) fun _ hop => .emit (Build.properly_ret hop)

omit hlower in
theorem properly_labelTarget (name : String) : StaysProper (labelTarget name line) := by
  refine .bind (.look _) fun scopes _ => ?_
  split
  · exact .pure trivial
  · refine .bind (.look _) fun labels _ => ?_
    split
    · exact .pure trivial
    · exact .bind (.emit Build.properly_newBlock) fun _ _ => .bind (.update fun _ hs => { hs with }) fun _ _ =>
        .pure trivial

omit hlower in
theorem properly_goto (name : String) : StaysProper (Lower.goto name line) :=
  .bind (properly_labelTarget name) fun _ _ => .emit (Build.properly_goto _)

omit hlower in
theorem properly_labelBlock (name : String) : StaysProper (labelBlock name line) := by
  refine .bind (.look _) fun labels _ => ?_
  split
  · exact .bind (.update fun _ hs => { hs with }) fun _ _ => .pure trivial
  · exact .emit Build.properly_newBlock

theorem properly_label (name : String) (body : StmtId) : StaysProper (label lower name body line) := by
  refine .bind .scopes fun scopes hscopes => ?_
  split
  · exact .bind (.report _ _) fun _ _ => .bind (hlower body) fun _ _ => .fail
  · refine .bind (properly_labelBlock name) fun block _ => .bind .scopes fun scopes hscopes => ?_
    split
    · exact .failWith _ _
    · next placed hplaced =>
      exact .bind (.update fun _ hs => { hs with scopes := hscopes.defineLabel hplaced }) fun _ _ =>
        .bind (properly_fallThrough _) fun _ _ => .bind (.setBlock _) fun _ _ => hlower body

/-! ### Declarations -/

omit hlower in
theorem properly_declareOne (storage : Storage) {info : DeclaratorInfo} (hinfo : info.IsProper) :
    StaysProper (declareOne storage info) := by
  unfold declareOne
  split
  · exact .pure trivial
  · next name _ =>
    split
    · next sig hsig =>
      obtain ⟨hresult, hparams⟩ := hinfo.ty.signature hsig
      exact .discard (properly_declareFunction name (.ofSignature hresult hparams) storage)
    · refine .bind .types fun table _ => ?_
      split
      · exact .failWith _ _
      · refine .bind (.look _) fun inside _ => ?_
        split
        · exact properly_localVariable name hinfo.ty storage info.init
        · exact properly_globalVariable name hinfo.ty storage info.init

omit hlower in
theorem properly_variableList (decl : VariableDecl) : StaysProper (variableList decl) :=
  .bind (properly_resolve decl.spec) fun _ hbase => .forM fun id _ =>
    .ignoring (.bind (properly_resolveDeclarator .normal id hbase) fun _ hinfo =>
      properly_declareOne decl.storage hinfo)

omit hlower in
theorem properly_aggregate (kind : AggregateKind) (decl : AggregateDecl) :
    StaysProper (aggregate kind decl line) := by
  unfold aggregate
  split
  · exact .discard (properly_descend fun _ hsub => properly_defineAggregate hsub kind decl)
  · exact .discard (properly_declareAggregate kind _)
  · exact .pure trivial

omit hlower in
theorem properly_typedef (id : SpecId) (d : DeclaratorId) : StaysProper (typedef id d) := by
  refine .bind (properly_resolve id) fun base hbase => ?_
  refine .bind (properly_resolveDeclarator .typedef d hbase) fun info hinfo => ?_
  split
  · exact .updateScopes fun _ hs => hs.defineType hinfo.ty
  · exact .pure trivial

omit hlower in
theorem properly_delegate (result : SpecId) (name : String) (ps : List ParamDecl) (variadic : Bool) :
    StaysProper (delegate result name ps variadic line) := by
  refine .bind (properly_resolve result) fun result hresult => .bind (properly_resolveParams ps) fun infos hinfos => ?_
  have hty : (Ty.function result (infos.map (·.ty)) variadic).IsProper := .function hresult (fun t ht => by
    obtain ⟨p, hp, rfl⟩ := List.mem_map.1 ht
    exact hinfos p hp) variadic
  exact .updateScopes fun _ hs => hs.defineType hty.pointerTo

/-! ### All kinds -/

theorem properly_topLevel (id : StmtId) : StaysProper (topLevel lower id) := by
  refine .bind (.stmt id) fun s _ => .bind (.look _) fun inside _ => ?_
  split
  · exact hlower id
  · exact .ignoring (properly_inStartup (hlower id))

theorem properly_statementWith (id : StmtId) : StaysProper (statementWith lower id) := by
  refine .bind (.stmt id) fun s _ => ?_
  cases s.kind with
  | expression e => exact .discard (properly_rvalue e)
  | block body => exact .localScope (.forM fun id _ => hlower id)
  | branch cond yes no => exact properly_branch hlower cond yes no
  | whileLoop cond body => exact properly_whileLoop hlower cond body
  | forLoop init cond step body => exact .localScope (properly_forLoop hlower init cond step body)
  | ret value => exact properly_ret value
  | brk => exact properly_loopJump _ _
  | cont => exact properly_loopJump _ _
  | goto name => exact properly_goto name
  | label name body => exact properly_label hlower name body
  | «variable» decl => exact properly_variableList decl
  | function decl => exact properly_function hlower decl
  | struct decl => exact properly_aggregate .struct decl
  | union decl => exact properly_aggregate .union decl
  | typedef id d => exact properly_typedef id d
  | delegate result name ps variadic => exact properly_delegate result name ps variadic
  | namespaceBlock name body => exact .inNamespace name (.forM fun id _ => properly_topLevel hlower id)

omit hlower

/-- **Every statement keeps what is lowered in range,** however deep. -/
theorem properly_statementTo (depth : Nat) (id : StmtId) : StaysProper (statementTo depth id) := by
  induction depth generalizing id with
  | zero => exact .halt _
  | succ depth ih => exact .ignoring (properly_statementWith ih id)

end Statements

/-! ### Units -/

theorem properly_declarations {σ : Type} (hook : DiagnosticHook σ) (ids : List StmtId) (acc : σ) :
    StaysProper (declarations hook ids acc) := by
  induction ids generalizing acc with
  | nil => exact .pure trivial
  | cons id rest ih =>
    have hglobal : StaysProper (global id) := fun env s hs =>
      properly_topLevel (properly_statementTo env.tree.stmtDepth) id env s hs
    refine .bind hglobal fun _ _ => .bind (.look _) fun queue _ => ?_
    dsimp only
    refine .bind (.update fun _ hs => { hs with }) fun _ _ => .bind .env fun _ _ => ?_
    split
    · exact .pure trivial
    · exact ih _

theorem properly_completeUnit {σ : Type} (hook : DiagnosticHook σ) (start : σ) :
    StaysProper (completeUnit hook start) :=
  .bind (.bind .env fun _ _ => properly_declarations hook _ start) fun _ _ =>
    .bind properly_finishStartup.ignoring fun _ _ => .pure trivial

/-- Whatever is lowered from a proper state, on the way too, the state stays proper, and the integers that expressions
come to and those that the module mentions are in the ranges of their types. -/
structure KeepsRanges (env : Env) : Prop where
  initial : (State.initial env.config).IsProper
  expression : ∀ depth e s, s.IsProper → ((descentTo depth).raw e env s).2.IsProper
  statement : ∀ depth id s, s.IsProper → (statementTo depth id env s).2.IsProper
  yielded : ∀ depth e s v, s.IsProper → ((descentTo depth).raw e env s).1 = .done v →
    ∀ n ty, .const (.int n ty) ∈ v.op :: v.effects → ty.Holds n
  mentioned : ∀ s : State, s.IsProper → ∀ n ty, s.builder.mod.Mentions (.int n ty) → ty.Holds n

theorem keepsRanges (env : Env) : KeepsRanges env where
  initial := State.isProper_initial env.config
  expression depth e s hs := ((proper_descentTo depth).raw e env s hs).1
  statement depth id s hs := (properly_statementTo depth id env s hs).1
  yielded depth e s v hs hv n ty hmem := by
    have hproper : v.IsProper := ((proper_descentTo depth).raw e env s hs).2 v hv
    exact List.forall_mem_cons.2 ⟨hproper.op, hproper.effects⟩ _ hmem _ rfl
  mentioned s hs n ty h := hs.mod.of_mentions h

end Lower

namespace Tree

theorem isProper_compileWith {σ : Type} {tree : Tree} {config : Config} {hook : DiagnosticHook σ} {start acc : σ}
    {unit : CompiledUnit} (h : tree.compileWith config hook start = .ok (unit, acc)) : unit.module.IsProper := by
  have hrun := (Lower.properly_completeUnit hook start ⟨tree, config⟩ _ (Lower.State.isProper_initial config)).1
  unfold compileWith at h
  rcases hlowered : Lower.completeUnit hook start ⟨tree, config⟩ (.initial config) with ⟨_ | _ | _, t⟩ <;>
    rw [hlowered] at hrun h
  · cases h
    exact hrun.mod
  · cases h
    exact hrun.mod
  · cases h

/-- **Folding is exact up to the width of the type, and nothing that is lowered is out of range.** At each width that
the unit has room for, operations on two integers of the width come to what their exact results leave in it. Every
integer constant that lowering comes to, and so every one of a compiled unit, is a number that its type holds. -/
theorem compileWith_inRange {σ : Type} (tree : Tree) (config : Config) (hook : DiagnosticHook σ) (start : σ) :
    (∀ bits ty x y l r, 1 ≤ bits → bits ≤ 128 → (ty = .int bits ∨ ty = .bitField bits) →
        x.int? = some l → y.int? = some r → Signed.InRange bits l → Signed.InRange bits r →
        Constant.FoldsExactly bits ty x y l r) ∧
      Lower.KeepsRanges ⟨tree, config⟩ ∧
      ∀ unit acc, tree.compileWith config hook start = .ok (unit, acc) →
        ∀ n ty, unit.module.Mentions (.int n ty) → ty.Holds n :=
  ⟨fun _ _ _ _ _ _ hbits hunit hty hx hy hl _ => Constant.foldsExactly hbits hunit hty hx hy hl,
    Lower.keepsRanges _, fun _ _ h _ _ hmentions => (isProper_compileWith h).of_mentions hmentions⟩

/-- The tree of `char c = 100 + 100;`. -/
def narrowingTree : Tree where
  exprs := #[⟨.integer 100, 1⟩, ⟨.binary .add ⟨0⟩ ⟨0⟩, 1⟩]
  specs := #[⟨.named "char", 1⟩]
  declarators := #[⟨.identifier "c", 1⟩, ⟨.init ⟨0⟩ ⟨1⟩, 1⟩]
  stmts := #[⟨.variable ⟨.normal, ⟨0⟩, [⟨1⟩]⟩, 1⟩]
  root := [⟨0⟩]

/-- The least number of eight bits is what is left of it divided by minus one, and a sum that is too large for
its variable becomes what its bits stand for. -/
theorem compileWith_inRange_narrowing :
    Constant.foldBinary? .sdiv (.int (-128) .char) (.int (-1) .char) .char = some (.int (-128) .char) ∧
      ∃ unit, narrowingTree.compileWith {} .keep () = .ok (unit, ()) ∧ unit.module.Mentions (.int (-56) .char) ∧
        Ty.char.Holds (-56) := by
  obtain ⟨hfold, -, hrange⟩ := compileWith_inRange narrowingTree {} .keep ()
  have hexact : Constant.FoldsExactly 8 .char (.int (-128) .char) (.int (-1) .char) (-128) (-1) :=
    hfold 8 .char _ _ (-128) (-1) (by decide) (by decide) (.inl rfl) rfl rfl (by decide) (by decide)
  refine ⟨hexact.least (by decide) rfl, ?_⟩
  have hinit : ((narrowingTree.compileWith {} .keep ()).toOption.bind (·.1.module.global? ⟨0⟩)).bind
      (fun g => g.init.map fun c => (c.int?, c.ty)) = some (some (-56), .char) := by decide +kernel
  obtain ⟨g, hfound, hinit⟩ := Option.bind_eq_some_iff.1 hinit
  obtain ⟨⟨unit, ⟨⟩⟩, hunit, hg⟩ := Option.bind_eq_some_iff.1 hfound
  have hunit : narrowingTree.compileWith {} .keep () = .ok (unit, ()) := by
    cases hrun : narrowingTree.compileWith {} .keep () with
    | error why => simp [hrun, Except.toOption] at hunit
    | ok found =>
      rw [hrun] at hunit
      exact congrArg Except.ok (Option.some.inj hunit)
  obtain ⟨c, hc, hvalue⟩ := Option.map_eq_some_iff.1 hinit
  have hmentions : unit.module.Mentions (.int (-56) .char) := by
    cases c with
    | int n ty =>
      cases hvalue
      exact .init hg hc
    | zero ty =>
      simp only [Constant.int?, Constant.ty, Prod.mk.injEq] at hvalue
      split at hvalue <;> simp at hvalue
    | _ => cases hvalue
  exact ⟨unit, hunit, hmentions, hrange unit () hunit (-56) .char hmentions⟩

end Tree

end TreeFlow
