import TreeFlow.Proofs.Lowering.Place

/-!
# Statements

Every statement in the body of a function leads from place to place, and lowering it never fails
(`statementTo_sound`). Loops, jumps and labels only ever send control to targets, and code behind a jump
goes to a block of its own, so nothing has to be known of where the cursor is between statements.
-/

namespace TreeFlow.Lower

variable {env : Env} {line : Nat}

/-! ### Initializers -/

namespace Site

variable {x : Site} {v : Value} {ty : Ty}

theorem writes_initializerValue {e : Env} {l : Nat} (ty : Ty) (init : ExprId) :
    x.Writes e (initializerValue ty init l) fun _ _ => True := by
  refine (writes_expression init).bind fun v y _ hv => ?_
  split
  · exact .fail
  · exact (writes_convert hv ty).imp fun _ _ _ _ => trivial

/-- The attempt to find a constant leaves no code. -/
theorem reads_constantInitializer (ty : Ty) (init : ExprId) :
    x.Reads env (constantInitializer ty init line) fun _ _ => True := by
  have hvalue := writes_initializerValue (x := x) (e := env) (l := line) ty init
  refine reads_of_same (Q := fun _ => True) ?_
  have hundone : ∀ {y : Site} {b : Builder} {diags : DiagnosticQueue}, x.Reaches y →
      { y.state with builder := b, scopes := x.state.scopes, diags }.context =
        x.state.context := by
    intro y b diags hxy
    have h := hxy.context
    simp only [State.context, Context.mk.injEq] at h ⊢
    simp [h]
  unfold Writes Yields Runs at hvalue
  unfold Runs
  simp only [constantInitializer, x.snapshot_snd]
  rcases hrun : initializerValue ty init line env x.state with ⟨op | _ | why, t⟩
  · rw [hrun] at hvalue
    obtain ⟨y, rfl, hxy, -⟩ := hvalue
    dsimp only
    cases op.const? with
    | none => exact ⟨hxy.same_restore .nothing rfl (hundone hxy), trivial⟩
    | some c => exact ⟨hxy.same_restore .typesAndGlobals rfl hxy.context, trivial⟩
  · rw [hrun] at hvalue
    obtain ⟨y, rfl, hxy⟩ := hvalue
    exact ⟨hxy.same_restore .nothing rfl (hundone hxy), trivial⟩
  · rw [hrun] at hvalue
    exact hvalue

theorem reads_modifyGlobal (addr : Constant) (change : Global → Global) :
    x.Reads env (modifyGlobal addr line change) fun _ _ => True := by
  unfold modifyGlobal globalId
  split
  · exact reads_of_same (Q := fun _ => True) (Runs.of_done rfl ⟨⟨rfl, rfl, rfl, rfl⟩, trivial⟩)
  · exact reads_failWith.bind fun _ _ _ h => h

theorem reads_arrayInitializer (ty : Ty) (init : ExprId) :
    x.Reads env (arrayInitializer ty init line) fun _ _ => True := by
  unfold arrayInitializer
  split
  · refine .bind_expr fun _ _ => ?_
    split
    · split
      · exact .pure trivial
      · exact reads_failWith
    · exact reads_failWith
  · exact .fail

theorem writes_storeArray {slot : Operand} (hslot : x.Knows slot) (ty : Ty) (init : ExprId) :
    x.Writes env (storeArray slot ty init line) fun _ _ => True := by
  refine .bind_expr fun _ _ => ?_
  split
  · refine (reads_arrayInitializer ty init).writes.bind fun contents y hxy _ => ?_
    exact (writes_store (hslot.mono hxy) (y.knows_const _)).imp fun _ _ _ _ => trivial
  · refine (writes_descend fun _ hsub => writes_storage hsub init).bind fun v y hxy hv => ?_
    split
    · exact writes_failWith
    · exact (writes_copy (hslot.mono hxy) hv.knows _).imp fun _ _ _ _ => trivial

theorem writes_storeInitializer {slot : Operand} (hslot : x.Knows slot) (ty : Ty)
    (init : ExprId) : x.Writes env (storeInitializer slot ty init line) fun _ _ => True := by
  unfold storeInitializer
  split
  · exact writes_storeArray hslot ty init
  · refine (writes_expression init).bind fun v y hxy hv => ?_
    split
    · split
      · exact writes_failWith
      · exact writes_putAggregate (hslot.mono hxy) hv.knows _
    · refine (writes_convertOrReport hv ty).bind fun op z hyz hop => ?_
      exact (writes_store ((hslot.mono hxy).mono hyz) hop.knows).imp fun _ _ _ _ => trivial

end Site

namespace Place

variable {p q : Place} {b : BlockId}

/-! ### Local variables -/

theorem inserts_foreignLocal (name : String) (ty : Ty) :
    p.Inserts env (foreignLocal name ty) fun _ _ => True := by
  refine .bind_read ?_
  dsimp only
  split
  · next b hb =>
    obtain ⟨hglobal, -⟩ := Option.filter_eq_some_iff.1 hb
    exact inserts_defineVar (p.names b (visible_of_globalVar? hglobal))
  · have hadd : p.toSite.Reads env (withBuilder (·.addGlobal
        { name, ty, linkage := .external, init := none, constant := false })) fun _ _ => True :=
      Site.reads_of_same (Q := fun _ => True) (Runs.of_done rfl ⟨⟨rfl, rfl, rfl, rfl⟩, trivial⟩)
    exact (inserts_of_reads hadd).bind fun addr q _ _ =>
      inserts_defineVar (knownAnywhere_const _ _)

theorem inserts_staticLocal (name : String) (ty : Ty) (init : Option ExprId) :
    p.Inserts env (staticLocal name ty init line) fun _ _ => True := by
  refine .bind_read ?_
  have hadd : ∀ g : Global, p.toSite.Reads env (withBuilder (·.addGlobal g)) fun _ _ => True :=
    fun g => Site.reads_of_same (Q := fun _ => True)
      (Runs.of_done rfl ⟨⟨rfl, rfl, rfl, rfl⟩, trivial⟩)
  refine (inserts_of_reads (hadd _)).bind fun addr q _ _ => ?_
  refine (inserts_defineVar (knownAnywhere_const _ _)).bind fun _ q _ _ => ?_
  split
  · exact .pure trivial
  · refine (inserts_of_reads (Site.reads_constantInitializer _ _)).bind fun c q _ _ => ?_
    split
    · exact inserts_of_reads (Site.reads_modifyGlobal _ _)
    · exact inserts_report _ _

theorem inserts_stackLocal (name : String) (ty : Ty) (init : Option ExprId) :
    p.Inserts env (stackLocal name ty init line) fun _ _ => True := by
  refine (inserts_of_writes (Site.writes_alloca ty)).bind fun slot q _ hslot => ?_
  refine (inserts_defineVar hslot).bind fun _ r hqr _ => ?_
  split
  · exact .pure trivial
  · exact inserts_of_writes (Site.writes_storeInitializer
      (Site.knows_of_anywhere (knownAnywhere_mono hqr.toContinues hslot)) _ _)

theorem inserts_localVariable (name : String) (storage : Storage) (ty : Ty)
    (init : Option ExprId) : p.Inserts env (localVariable name storage ty init line) fun _ _ => True := by
  cases storage with
  | foreign => exact inserts_foreignLocal name ty
  | static => exact inserts_staticLocal name ty init
  | normal => exact inserts_stackLocal name ty init

/-! ### Functions in functions -/

theorem func_isSome (p : Place) : p.state.func.isSome := by
  obtain ⟨o, ho, -⟩ := p.func
  rw [ho]
  rfl

theorem inserts_redeclare (name : String) (sig : Signature) {b : Binding}
    (hb : p.function.KnownAnywhere b.addr) :
    p.Inserts env (redeclare name sig b line) fun _ _ => True := by
  simp only [redeclare]
  split
  · exact inserts_failWith
  · split
    · refine .bind_read ?_
      split
      · exact (inserts_defineVar hb).bind fun _ _ _ _ => .pure trivial
      · exact .pure trivial
    · exact .bind_read inserts_failWith

theorem inserts_declareFunction (name : String) (sig : Signature) (storage : Storage) :
    p.Inserts env (declareFunction name sig storage line) fun _ _ => True := by
  have hnew : ∀ (q : Place) (full : String), q.Inserts env (do
      let id ← withBuilder (·.declareFunction full sig (linkageOf storage))
      let addr := (← read (·.builder)).functionRef id
      updateScopes (·.defineGlobalVar name (.ofFunction (.ofSignature sig) addr))
      return id) fun _ _ => True := by
    intro q full
    refine (inserts_addFunction _ _ _).bind fun id r _ _ => .bind_read ?_
    exact (inserts_defineGlobalVar (knownAnywhere_const _ _)).bind fun _ _ _ _ => .pure trivial
  refine .bind_read ?_
  have hnames : ∀ b, p.state.scopes.globalVar? (p.state.scopes.qualify name) = some b →
      p.function.KnownAnywhere b.addr := fun b hb => p.names b (visible_of_globalVar? hb)
  dsimp only
  split
  · refine (inserts_report _ _).bind fun _ q hpq _ => ?_
    split
    · next b hb => exact inserts_redeclare name sig (knownAnywhere_mono hpq.toContinues (hnames b hb))
    · exact hnew q _
  · split
    · next b hb => exact inserts_redeclare name sig (hnames b hb)
    · exact hnew p _

/-! ### Branches and loops -/

section Body

variable {lower : StmtId → Lower Unit} (hlower : ∀ (p : Place) id, p.Completes env (lower id) fun _ _ => True)

theorem walks_condition (e : ExprId) :
    p.Walks env (condition e line) fun c q => q.Knows c := by
  have htruth : p.toSite.Writes env (descend fun sub => truth sub e line) fun c y => y.Knows c :=
    (Site.writes_descend fun _ hsub => Site.writes_truth hsub e).imp fun _ _ _ h => h.knows
  refine (walks_of_writes htruth).attempt.bind fun c q _ hc => .pure ?_
  cases c with
  | none => exact q.knows_const _
  | some c => exact hc c rfl

include hlower

/-- The two arms of a branch, which come together in a block behind them. -/
theorem walks_arms {c : Operand} {first second last : BlockId} (hc : p.Knows c)
    (hfirst : p.Target first) (hsecond : p.Target second) (hlast : p.Target last) (yes : StmtId)
    (no : Option StmtId) : p.Walks env (do
      emit line (Build.branch c first second)
      setBlock first
      lower yes
      fallThrough last line
      match no with
      | none => pure ()
      | some no =>
        setBlock second
        lower no
        fallThrough last line
      setBlock last) fun _ _ => True := by
  refine (walks_branch hc hfirst hsecond).bind fun _ p₁ h₁ _ => ?_
  refine (walks_setBlock (h₁.target hfirst).has).bind fun _ p₂ h₂ _ => ?_
  refine (hlower p₂ yes).walks.bind fun _ p₃ h₃ _ => ?_
  have h₁₃ : p.Continues p₃ := IsTrans.trans _ _ _ h₁ (IsTrans.trans _ _ _ h₂ h₃)
  replace hlast := h₁₃.target hlast
  refine (walks_fallThrough hlast).bind fun _ p₄ h₄ _ => ?_
  replace hlast := h₄.target hlast
  cases no with
  | none => exact walks_setBlock hlast.has
  | some no =>
    refine (walks_setBlock (h₄.target (h₁₃.target hsecond)).has).bind fun _ p₅ h₅ _ => ?_
    refine (hlower p₅ no).walks.bind fun _ p₆ h₆ _ => ?_
    replace hlast := h₆.target (h₅.target hlast)
    exact (walks_fallThrough hlast).bind fun _ p₇ h₇ _ => walks_setBlock (h₇.target hlast).has

theorem walks_branchStatement (cond : ExprId) (yes : StmtId) (no : Option StmtId) :
    p.Walks env (Lower.branch lower cond yes no line) fun _ _ => True := by
  refine (walks_condition cond).bind fun c p₁ _ hc => ?_
  refine walks_newBlock.bind fun last p₂ _ ⟨hlast, hmono⟩ => ?_
  replace hc := hmono c hc
  refine (walks_newBlockBefore hlast).bind fun first p₃ h₃ ⟨hfirst, hmono⟩ => ?_
  replace hc := hmono c hc
  replace hlast := h₃.target hlast
  cases no with
  | none => exact walks_arms hlower hc hfirst hlast hlast yes none
  | some no =>
    refine (walks_newBlockBefore hlast).bind fun second p₄ h₄ ⟨hsecond, hmono⟩ => ?_
    exact walks_arms hlower (hmono c hc) (h₄.target hfirst) hsecond (h₄.target hlast) yes (some no)

/-- The body of a loop whose targets are known. -/
theorem completes_loopBody {t : LoopTargets} (hbrk : p.Target t.brk) (hcont : p.Target t.cont)
    (body : StmtId) : p.Completes env (loopBody lower body t) fun _ _ => True := by
  let q := p.amend { p.state with loops := t :: p.state.loops } p.builds rfl rfl p.inside p.names
    (fun u hu => (List.mem_cons.1 hu).elim (fun heq => heq ▸ ⟨hbrk, hcont⟩) (p.loops u)) p.pending
    p.labels
  refine Runs.bind_of_done (s := p.state) (t := q.state) rfl ?_
  refine Runs.bind (Runs.imp (hlower q body) ?_ fun _ h => h)
  rintro _ _ ⟨r, rfl, hr, -⟩
  have hloops : r.state.loops = t :: p.state.loops := hr.loops
  exact Runs.of_done rfl ⟨r.amend { r.state with loops := r.state.loops.tail } r.builds rfl rfl
    r.inside r.names (fun u hu => r.loops u (List.mem_of_mem_tail hu)) r.pending r.labels, rfl,
    ⟨hr.id, hr.ext, hr.func, congrArg List.tail hloops, hr.depth⟩, trivial⟩

theorem walks_whileLoop (cond : ExprId) (body : StmtId) :
    p.Walks env (whileLoop lower cond body line) fun _ _ => True := by
  refine walks_newBlock.bind fun test p₁ _ ⟨htest, _⟩ => ?_
  refine walks_newBlock.bind fun start p₂ h₂ ⟨hstart, _⟩ => ?_
  replace htest := h₂.target htest
  refine walks_newBlock.bind fun last p₃ h₃ ⟨hlast, _⟩ => ?_
  replace htest := h₃.target htest
  replace hstart := h₃.target hstart
  refine (walks_fallThrough htest).bind fun _ p₄ h₄ _ => ?_
  refine (walks_setBlock (h₄.target htest).has).bind fun _ p₅ h₅ _ => ?_
  refine (walks_condition cond).bind fun c p₆ h₆ hc => ?_
  have h₃₆ : p₃.Continues p₆ := IsTrans.trans _ _ _ h₄ (IsTrans.trans _ _ _ h₅ h₆)
  replace htest := h₃₆.target htest
  replace hstart := h₃₆.target hstart
  replace hlast := h₃₆.target hlast
  refine (walks_branch hc hstart hlast).bind fun _ p₇ h₇ _ => ?_
  refine (walks_setBlock (h₇.target hstart).has).bind fun _ p₈ h₈ _ => ?_
  have h₆₈ : p₆.Continues p₈ := IsTrans.trans _ _ _ h₇ h₈
  replace htest := h₆₈.target htest
  replace hlast := h₆₈.target hlast
  refine (completes_loopBody hlower (t := ⟨last, test⟩) hlast htest body).walks.bind
    fun _ p₉ h₉ _ => ?_
  refine (walks_fallThrough (h₉.target htest)).bind fun _ _ h _ => ?_
  exact walks_setBlock (h.target (h₉.target hlast)).has

/-- The part of a `for` behind its condition. -/
theorem walks_round {test start next last : BlockId} (htest : p.Target test)
    (hstart : p.Target start) (hnext : p.Target next) (hlast : p.Target last) (step : Option ExprId)
    (body : StmtId) : p.Walks env (do
      setBlock start
      loopBody lower body ⟨last, next⟩
      fallThrough next line
      setBlock next
      match step with
      | some step => ignoring (rvalue step)
      | none => pure ()
      fallThrough test line
      setBlock last) fun _ _ => True := by
  refine (walks_setBlock hstart.has).bind fun _ p₁ h₁ _ => ?_
  refine (completes_loopBody hlower (t := ⟨last, next⟩) (h₁.target hlast) (h₁.target hnext)
    body).walks.bind fun _ p₂ h₂ _ => ?_
  have h₀₂ : p.Continues p₂ := IsTrans.trans _ _ _ h₁ h₂
  refine (walks_fallThrough (h₀₂.target hnext)).bind fun _ p₃ h₃ _ => ?_
  have h₀₃ : p.Continues p₃ := IsTrans.trans _ _ _ h₀₂ h₃
  refine (walks_setBlock (h₀₃.target hnext).has).bind fun _ p₄ h₄ _ => ?_
  have hend : ∀ q : Place, p₄.Continues q →
      q.Walks env (do fallThrough test line; setBlock last) fun _ _ => True := fun q h => by
    have h₀ : p.Continues q := IsTrans.trans _ _ _ h₀₃ (IsTrans.trans _ _ _ h₄ h)
    exact (walks_fallThrough (h₀.target htest)).bind fun _ r hr _ =>
      walks_setBlock (hr.target (h₀.target hlast)).has
  cases step with
  | none => exact hend p₄ (Std.Refl.refl p₄)
  | some step =>
    exact (walks_of_writes (Site.writes_expression step)).ignoring.bind fun _ q h _ => hend q h

theorem walks_forLoop (init : Option StmtId) (cond step : Option ExprId) (body : StmtId) :
    p.Walks env (forLoop lower init cond step body line) fun _ _ => True := by
  have hblocks : ∀ q : Place, q.Walks env (do
      let condBlock ← emit line Build.newBlock
      let bodyBlock ← emit line Build.newBlock
      let stepBlock ← emit line Build.newBlock
      let endBlock ← emit line Build.newBlock
      fallThrough condBlock line
      setBlock condBlock
      match cond with
      | some cond =>
        let c ← condition cond line
        emit line (Build.branch c bodyBlock endBlock)
      | none => emit line (Build.goto bodyBlock)
      setBlock bodyBlock
      loopBody lower body ⟨endBlock, stepBlock⟩
      fallThrough stepBlock line
      setBlock stepBlock
      match step with
      | some step => ignoring (rvalue step)
      | none => pure ()
      fallThrough condBlock line
      setBlock endBlock) fun _ _ => True := by
    intro q
    refine walks_newBlock.bind fun test p₁ _ ⟨htest, _⟩ => ?_
    refine walks_newBlock.bind fun start p₂ h₂ ⟨hstart, _⟩ => ?_
    refine walks_newBlock.bind fun next p₃ h₃ ⟨hnext, _⟩ => ?_
    refine walks_newBlock.bind fun last p₄ h₄ ⟨hlast, _⟩ => ?_
    replace hnext := h₄.target hnext
    replace hstart := h₄.target (h₃.target hstart)
    replace htest := h₄.target (h₃.target (h₂.target htest))
    refine (walks_fallThrough htest).bind fun _ p₅ h₅ _ => ?_
    refine (walks_setBlock (h₅.target htest).has).bind fun _ p₆ h₆ _ => ?_
    have h₄₆ : p₄.Continues p₆ := IsTrans.trans _ _ _ h₅ h₆
    cases cond with
    | none =>
      refine (walks_goto (h₄₆.target hstart)).bind fun _ r hr _ => ?_
      have h : p₄.Continues r := IsTrans.trans _ _ _ h₄₆ hr
      exact walks_round hlower (h.target htest) (h.target hstart) (h.target hnext)
        (h.target hlast) step body
    | some cond =>
      refine (walks_condition cond).bind fun c p₇ h₇ hc => ?_
      have h₄₇ : p₄.Continues p₇ := IsTrans.trans _ _ _ h₄₆ h₇
      refine (walks_branch hc (h₄₇.target hstart) (h₄₇.target hlast)).bind fun _ r hr _ => ?_
      have h : p₄.Continues r := IsTrans.trans _ _ _ h₄₇ hr
      exact walks_round hlower (h.target htest) (h.target hstart) (h.target hnext)
        (h.target hlast) step body
  cases init with
  | none => exact hblocks p
  | some init => exact (hlower p init).walks.bind fun _ q _ _ => hblocks q

omit hlower

/-! ### Jumps -/

theorem walks_loopJump {target : LoopTargets → BlockId}
    (htarget : ∀ t, p.Target t.brk → p.Target t.cont → p.Target (target t))
    (otherwise : DiagnosticKind) :
    p.Walks env (loopJump target otherwise line) fun _ _ => True := by
  refine .bind_read ?_
  cases hloops : p.state.loops with
  | nil => exact walks_failWith
  | cons t rest =>
    obtain ⟨hbrk, hcont⟩ := p.loops t (hloops ▸ List.mem_cons_self)
    exact walks_goto (htarget t hbrk hcont)

theorem writes_returned {x : Site} (value : Option ExprId) (ty : Ty) :
    x.Writes env (returned value ty line) fun o y => ∀ v, o = some v → y.Knows v := by
  unfold returned
  cases value with
  | none =>
    dsimp only
    split
    · exact .pure fun _ h => nomatch h
    · exact .pure fun v h => Option.some.inj h ▸ Site.knows_const _ _
  | some e =>
    refine (Site.writes_expression e).bind fun v y _ hv => ?_
    split
    · exact .pure fun _ h => nomatch h
    · split
      · exact (Site.writes_loadAggregate hv.knows).bind fun op z _ hop =>
          .pure fun _ h => Option.some.inj h ▸ hop
      · exact (Site.writes_convertOrReport hv ty).bind fun op z _ hop =>
          .pure fun _ h => Option.some.inj h ▸ hop.knows

theorem walks_ret (value : Option ExprId) : p.Walks env (ret value line) fun _ _ => True := by
  refine .bind_read ?_
  refine (walks_of_writes (writes_returned value _)).bind fun o q _ ho => ?_
  exact walks_terminate (by simpa [Terminator.operands] using ho) (by simp [Terminator.successors])

/-- A label stands for a block that control may be sent to. -/
theorem target_of_label? {name : String} {b : BlockId}
    (h : p.state.scopes.label? name = some b) : p.Target b := by
  obtain ⟨c, -, hc⟩ := List.exists_of_findSome?_eq_some h
  exact p.labels _ (mem_of_lookup hc)

theorem target_of_pending {name : String} {l : PendingLabel}
    (h : p.state.pending.find? (·.name == name) = some l) : p.Target l.block :=
  p.pending l (List.mem_of_find?_eq_some h)

theorem walks_labelTarget (name : String) :
    p.Walks env (labelTarget name line) fun b q => q.Target b := by
  unfold labelTarget
  refine .bind_read ?_
  split
  · next b hb => exact .pure (target_of_label? hb)
  · refine .bind_read ?_
    split
    · next l hl => exact .pure (target_of_pending hl)
    · refine walks_newBlock.bind fun b q _ ⟨hb, _⟩ => ?_
      have hpending : ∀ l ∈ q.state.pending ++ [⟨name, b, line⟩], q.Target l.block := fun l hl =>
        (List.mem_append.1 hl).elim (q.pending l) fun hl => List.mem_singleton.1 hl ▸ hb
      refine (walks_updatePending (f := (· ++ [⟨name, b, line⟩])) hpending).bind
        fun _ r hr _ => ?_
      exact .pure (hr.target hb)

theorem walks_gotoStatement (name : String) :
    p.Walks env (Lower.goto name line) fun _ _ => True := by
  refine (walks_labelTarget name).bind fun target q _ htarget => ?_
  exact walks_goto htarget

theorem walks_labelBlock (name : String) :
    p.Walks env (labelBlock name line) fun b q => q.Target b := by
  refine .bind_read ?_
  split
  · next l hl =>
    refine (walks_updatePending (f := (·.filter (·.name != name))) fun k hk =>
      p.pending k (List.mem_of_mem_filter hk)).bind fun _ r hr _ => .pure ?_
    exact hr.target (target_of_pending hl)
  · exact walks_newBlock.imp fun _ _ _ h => h.1

/-- A label is placed at a target. -/
theorem walks_defineLabel {name : String} {scopes : ScopeStack}
    (h : p.state.scopes.defineLabel name b = .ok scopes) (hb : p.Target b) :
    p.Walks env (update fun s => { s with scopes }) fun _ _ => True := by
  obtain rfl := ScopeStack.defineLabel_eq_ok h
  exact Runs.of_done rfl ⟨p.amend { p.state with scopes := { p.state.scopes with
    labels := (p.state.scopes.qualify name, b) :: p.state.scopes.labels } } p.builds rfl rfl
    p.inside p.names p.loops p.pending fun l hl =>
      (List.mem_cons.1 hl).elim (fun heq => heq ▸ hb) (p.labels l), rfl,
    ⟨rfl, .refl _ _, rfl, rfl, rfl⟩, trivial⟩

include hlower in
theorem walks_label (name : String) (body : StmtId) :
    p.Walks env (label lower name body line) fun _ _ => True := by
  unfold label
  refine .bind_read ?_
  split
  · refine (walks_report _ _).bind fun _ q _ _ => ?_
    exact (hlower q body).walks.bind fun _ _ _ _ => .fail
  · refine (walks_labelBlock name).bind fun b q _ hb => .bind_read ?_
    split
    · exact walks_failWith
    · next scopes hdefine =>
      refine (walks_defineLabel hdefine hb).bind fun _ r hr _ => ?_
      replace hb := hr.target hb
      refine (walks_fallThrough hb).bind fun _ r' hr' _ => ?_
      exact (walks_setBlock (hr'.target hb).has).bind fun _ r'' _ _ => (hlower r'' body).walks

/-! ### Declarations -/

theorem inserts_declareOne (storage : Storage) (info : DeclaratorInfo) :
    p.Inserts env (declareOne storage info) fun _ _ => True := by
  unfold declareOne
  split
  · exact .pure trivial
  · split
    · exact (inserts_declareFunction _ _ _).bind fun _ _ _ _ => .pure trivial
    · refine .bind_read ?_
      split
      · exact inserts_failWith
      · refine .bind_read ?_
        rw [if_pos p.func_isSome]
        exact inserts_localVariable _ _ _ _

/-- Some steps, one for each item. -/
theorem walks_forM {ι : Type} {step : ι → Lower Unit} (items : List ι)
    (hstep : ∀ (q : Place) i, q.Walks env (step i) fun _ _ => True) :
    p.Walks env (items.forM step) fun _ _ => True := by
  induction items generalizing p with
  | nil => exact .pure trivial
  | cons i rest ih => exact (hstep p i).bind fun _ q _ _ => ih

theorem walks_variableList (decl : VariableDecl) :
    p.Walks env (variableList decl) fun _ _ => True := by
  refine (walks_of_reads (Site.reads_resolve _)).bind fun base q _ _ => ?_
  refine walks_forM _ fun r id => ?_
  exact ((walks_of_reads (Site.reads_resolveDeclarator _ _ _)).bind fun info _ _ _ =>
    (inserts_declareOne _ info).walks).ignoring

theorem reads_aggregate {x : Site} (kind : AggregateKind) (decl : AggregateDecl) :
    x.Reads env (aggregate kind decl line) fun _ _ => True := by
  unfold aggregate
  split
  · exact (Site.reads_descend fun _ hsub => Site.reads_defineAggregate hsub _ _).bind
      fun _ _ _ _ => .pure trivial
  · exact (Site.reads_declareAggregate _ _).bind fun _ _ _ _ => .pure trivial
  · exact .pure trivial

theorem walks_typedef (id : SpecId) (d : DeclaratorId) :
    p.Walks env (typedef id d) fun _ _ => True := by
  refine (walks_of_reads (Site.reads_resolve _)).bind fun base q _ _ => ?_
  refine (walks_of_reads (Site.reads_resolveDeclarator _ _ _)).bind fun info r _ _ => ?_
  split
  · exact walks_defineType _ _
  · exact .pure trivial

theorem walks_delegate (result : SpecId) (name : String) (ps : List ParamDecl)
    (variadic : Bool) : p.Walks env (delegate result name ps variadic line) fun _ _ => True := by
  refine (walks_of_reads (Site.reads_resolve _)).bind fun _ q _ _ => ?_
  refine (walks_of_reads (Site.reads_resolveParams _)).bind fun _ r _ _ => ?_
  exact walks_defineType _ _

/-- A function inside of another one is declared, but gets no body. -/
theorem walks_function (decl : FunctionDecl) :
    p.Walks env (function lower decl line) fun _ _ => True := by
  refine (walks_of_reads (Site.reads_resolve _)).bind fun _ q _ _ => ?_
  refine (walks_of_reads (Site.reads_resolveDeclarator _ _ _)).bind fun info r _ _ => ?_
  split
  · exact walks_failWith
  · split
    · exact .pure trivial
    · refine (inserts_declareFunction _ _ _).walks.bind fun id q' _ _ => ?_
      split
      · exact .pure trivial
      · refine .bind_read ?_
        rw [if_pos q'.func_isSome]
        exact walks_failWith

/-! ### All kinds -/

include hlower in
theorem walks_topLevel (id : StmtId) : p.Walks env (topLevel lower id) fun _ _ => True := by
  refine .bind_stmt fun s _ => .bind_read ?_
  rw [p.func_isSome, Bool.or_true, if_pos rfl]
  exact (hlower p id).walks

include hlower in
theorem walks_statementWith (id : StmtId) :
    p.Walks env (statementWith lower id) fun _ _ => True := by
  refine .bind_stmt fun s _ => ?_
  dsimp only
  split
  · exact (walks_of_writes (Site.writes_expression _)).bind fun _ _ _ _ => .pure trivial
  · exact walks_localScope fun q => walks_forM _ fun r i => (hlower r i).walks
  · exact walks_branchStatement hlower _ _ _
  · exact walks_whileLoop hlower _ _
  · exact walks_localScope fun q => walks_forLoop hlower _ _ _ _
  · exact walks_ret _
  · exact walks_loopJump (fun _ hbrk _ => hbrk) _
  · exact walks_loopJump (fun _ _ hcont => hcont) _
  · exact walks_gotoStatement _
  · exact walks_label hlower _ _
  · exact walks_variableList _
  · exact walks_function _
  · exact walks_of_reads (reads_aggregate _ _)
  · exact walks_of_reads (reads_aggregate _ _)
  · exact walks_typedef _ _
  · exact walks_delegate _ _ _ _
  · exact walks_inNamespace _ fun q => walks_forM _ fun r i => walks_topLevel hlower i

end Body

/-- **Every statement in a body leads from place to place,** and lowering it never fails. -/
theorem statementTo_completes (depth : Nat) (p : Place) (id : StmtId) :
    p.Completes env (statementTo depth id) fun _ _ => True := by
  induction depth generalizing p id with
  | zero => exact Runs.of_stuck rfl fun _ h => nomatch h
  | succ depth ih => exact completes_ignoring (walks_statementWith ih id)

end Place

end TreeFlow.Lower
