import TreeFlow.Proofs.Lowering.TypedFunction

/-!
# Whole units keep types in order

Every statement leaves types in order, however deep (`upholds_statementTo`), and so does a whole unit. Two results
follow for every state that is in order, where lowering begins and between any two of its steps. An expression is
lowered to **what its tag says**, but for the cast of an aggregate to its own type (`operandTy_of_done`). And **no
aggregate lies in itself**, so a search for a size only goes on for ever if a field is an array of aggregates
(`State.IsTyped.exists_array_of_recursive`).
-/

namespace TreeFlow

namespace Lower

variable {α : Type}

section Steps

variable {s : State} {env : Env} {line : Nat} {events : List Event}

/-! ### Statements -/

/-- A block is made in the function that code belongs to. -/
theorem upholds_bind_newBlock {next : BlockId → Lower α} {P : α → Prop}
    (h : ∀ block b, s.Stays { s with builder := b } → State.Owns { s with builder := b } block →
      State.Upholds { s with builder := b } env (next block) P) :
    s.Upholds env (emit line Build.newBlock >>= next) P := by
  refine .bind_emit Build.steady_newBlock fun block b hrun hst => h block b hst ?_
  obtain ⟨id, f, hbuilding, hf, -, hblock⟩ := Build.newBlock_ok hrun
  have hbehind : b.func = some id := (Build.steady_newBlock _ _ _ hrun).func.trans hbuilding
  exact ⟨id, f, hst.inPlace.home hbehind, hf, hblock⟩

theorem upholds_condition (e : ExprId) : s.Upholds env (condition e line) fun _ => True :=
  .bind (.of_yields (yields_descend fun _ hsub => yields_truth hsub e).attempt) fun _ _ _ _ => .pure trivial

theorem upholds_fallThrough (block : BlockId) : s.Upholds env (fallThrough block line) fun _ => True := by
  refine .bind_read ?_
  split
  · exact .emit_steady (Build.steady_goto _)
  · exact .pure trivial

section Statements

variable {lower : StmtId → Lower Unit} (hlower : ∀ (s : State) id, s.Upholds env (lower id) fun _ => True)
include hlower

theorem upholds_branch (cond : ExprId) (yes : StmtId) (no : Option StmtId) :
    s.Upholds env (branch lower cond yes no line) fun _ => True := by
  refine .bind (upholds_condition cond) fun c _ _ _ => .bind (.emit_steady Build.steady_newBlock) fun last _ _ _ => ?_
  refine .bind (.emit_steady (Build.steady_newBlockBefore _)) fun first _ _ _ => ?_
  cases no with
  | none =>
    refine .bind (P := fun _ _ => True) (.pure trivial) fun _ _ _ _ => ?_
    exact .bind (.emit_steady (Build.steady_branch _ _ _)) fun _ _ _ _ => .bind (.setBlock _) fun _ _ _ _ =>
      .bind (hlower _ yes) fun _ _ _ _ => .bind (upholds_fallThrough _) fun _ _ _ _ => .setBlock _
  | some no =>
    refine .bind (.emit_steady (Build.steady_newBlockBefore _)) fun _ _ _ _ => ?_
    exact .bind (.emit_steady (Build.steady_branch _ _ _)) fun _ _ _ _ => .bind (.setBlock _) fun _ _ _ _ =>
      .bind (hlower _ yes) fun _ _ _ _ => .bind (upholds_fallThrough _) fun _ _ _ _ => .bind (.setBlock _)
        fun _ _ _ _ => .bind (hlower _ no) fun _ _ _ _ => .bind (upholds_fallThrough _) fun _ _ _ _ => .setBlock _

theorem upholds_loopBody (body : StmtId) {targets : LoopTargets} (hbrk : s.Owns targets.brk)
    (hcont : s.Owns targets.cont) : s.Upholds env (loopBody lower body targets) fun _ => True :=
  .bind (upholds_update rfl rfl rfl rfl rfl (.openLoop hbrk hcont)) fun _ _ _ _ =>
    .bind (hlower _ body) fun _ t _ _ => upholds_update rfl rfl rfl rfl rfl (.closeLoop t)

theorem upholds_whileLoop (cond : ExprId) (body : StmtId) :
    s.Upholds env (whileLoop lower cond body line) fun _ => True := by
  refine upholds_bind_newBlock fun test _ _ htest => ?_
  refine .bind (.emit_steady Build.steady_newBlock) fun start _ hstart _ => ?_
  refine upholds_bind_newBlock fun last _ hlast howned => ?_
  refine .bind (upholds_fallThrough _) fun _ _ hfall _ => .bind (.setBlock _) fun _ _ hset _ => ?_
  refine .bind (upholds_condition cond) fun c _ hcond _ =>
    .bind (.emit_steady (Build.steady_branch _ _ _)) fun _ _ hbranch _ => .bind (.setBlock _) fun _ _ hset' _ => ?_
  have hbehind := hfall.trans (hset.trans (hcond.trans (hbranch.trans hset')))
  refine .bind (upholds_loopBody hlower body (hbehind.owns howned) ?_) fun _ _ _ _ =>
    .bind (upholds_fallThrough _) fun _ _ _ _ => .setBlock _
  exact (hstart.trans (hlast.trans hbehind)).owns htest

theorem upholds_forLoop (init : Option StmtId) (cond step : Option ExprId) (body : StmtId) :
    s.Upholds env (forLoop lower init cond step body line) fun _ => True := by
  -- What is left to do after the first clause is a loop without one.
  have htest : ∀ t : State, t.Upholds env (forLoop lower none cond step body line) fun _ => True := fun t => by
    refine .bind (.emit_steady Build.steady_newBlock) fun test _ _ _ => ?_
    refine .bind (.emit_steady Build.steady_newBlock) fun start _ _ _ => ?_
    refine upholds_bind_newBlock fun next _ _ hnext => upholds_bind_newBlock fun last _ hlast howned => ?_
    refine .bind (upholds_fallThrough _) fun _ u hfall _ => .bind (.setBlock _) fun _ v hset _ => ?_
    have hround : ∀ (w : State) (ending : Lower Unit), v.Stays w → (∀ y : State, y.Upholds env ending fun _ => True) →
        w.Upholds env (do
          setBlock start
          loopBody lower body ⟨last, next⟩
          fallThrough next line
          setBlock next
          ending) fun _ => True := fun w ending hvw hending => by
      refine .bind (.setBlock _) fun _ x hset' _ => ?_
      have hbehind := hfall.trans (hset.trans (hvw.trans hset'))
      refine .bind (upholds_loopBody hlower body (hbehind.owns howned) ((hlast.trans hbehind).owns hnext)) fun _ _ _ _ => ?_
      exact .bind (upholds_fallThrough _) fun _ _ _ _ => .bind (.setBlock _) fun _ y _ _ => hending y
    have hend : ∀ z : State, z.Upholds env (do
        fallThrough test line
        setBlock last) fun _ => True := fun z => .bind (upholds_fallThrough _) fun _ _ _ _ => .setBlock _
    cases cond
    case' none => refine .bind (.emit_steady (Build.steady_goto _)) fun _ w hvw _ => hround w _ hvw fun y => ?_
    case' some cond =>
      refine .bind (upholds_condition cond) fun c _ hcond _ => .bind (.emit_steady (Build.steady_branch _ _ _))
        fun _ w hbranch _ => hround w _ (hcond.trans hbranch) fun y => ?_
    all_goals
      cases step with
      | none => exact hend y
      | some step => exact .bind (.ignoring (.of_yields (yields_rvalue step))) fun _ z _ _ => hend z
  cases init with
  | none => exact htest s
  | some init => exact .bind (hlower s init) fun _ t _ _ => htest t

/-! ### Jumps and labels -/

omit hlower in
theorem upholds_loopJump (target : LoopTargets → BlockId) (otherwise : DiagnosticKind) :
    s.Upholds env (loopJump target otherwise line) fun _ => True := by
  refine .bind_read ?_
  split
  · exact .emit_steady (Build.steady_goto _)
  · exact .failWith _ _

omit hlower in
theorem upholds_returned (value : Option ExprId) (ty : Ty) :
    s.Upholds env (returned value ty line) fun _ => True := by
  unfold returned
  split
  · exact .pure trivial
  · refine .bind (.of_yields (yields_rvalue _)) fun v _ hst hv => ?_
    split
    · exact .pure trivial
    · split
      · exact .bind (.of_yields yields_loadAggregate) fun _ _ _ _ => .pure trivial
      · exact .bind (.of_yields (yields_convertOrReport hv)) fun _ _ _ _ => .pure trivial

omit hlower in
theorem upholds_ret (value : Option ExprId) : s.Upholds env (ret value line) fun _ => True :=
  .bind (P := fun _ _ => True) (.bind_read (.pure trivial)) fun ty _ _ _ => .bind (upholds_returned value ty)
    fun _ _ _ _ => .emit_steady (Build.steady_ret _)

omit hlower in
theorem upholds_labelTarget (name : String) : s.Upholds env (labelTarget name line) fun _ => True := by
  refine .bind_read ?_
  split
  · exact .pure trivial
  · next hplaced =>
    refine .bind_read ?_
    split
    · exact .pure trivial
    · next hawaited =>
      refine upholds_bind_newBlock fun block b _ hblock => ?_
      have hnew : State.target? { s with builder := b } name = none := by
        simp [State.target?, State.awaited?, hplaced, hawaited]
      exact .bind (upholds_update rfl rfl rfl rfl rfl (.await ⟨name, block, line⟩ hnew hblock))
        fun _ _ _ _ => .pure trivial

omit hlower in
theorem upholds_goto (name : String) : s.Upholds env (Lower.goto name line) fun _ => True :=
  .bind (upholds_labelTarget name) fun _ _ _ _ => .emit_steady (Build.steady_goto _)

omit hlower in
/-- No label is placed outside of functions. -/
theorem State.IsSound.func_eq_none (hs : s.IsSound) {name : String} {block : BlockId} {fault : ScopeFault}
    (h : s.scopes.defineLabel name block = .error fault) : s.func = none := by
  refine Option.not_isSome_iff_eq_none.1 fun hsome => ?_
  have hinside : s.scopes.inFunction = true := by simp [ScopeStack.inFunction, hs.inside hsome]
  rw [ScopeStack.defineLabel, if_pos hinside] at h
  cases h

omit hlower in
/-- A label is noted where it was placed. -/
theorem upholds_placed {name : String} {block : BlockId} {placed : ScopeStack} (hnew : s.scopes.label? name = none)
    (hblock : s.awaited? name = some block ∨ s.awaited? name = none ∧ s.Owns block)
    (hplaced : s.scopes.defineLabel name block = .ok placed) : s.Upholds env
      (update fun s => { s with pending := s.pending.filter (·.name != name), scopes := placed }) fun _ => True :=
  .of_done rfl (fun hs => hs.stays_of_retains
    ((retains_defineLabel hplaced).trans (.of_same rfl rfl rfl rfl rfl)) (hs.names.defineLabel hplaced) hs.types
    (.place hnew hblock hplaced)) fun _ => trivial

theorem upholds_label (name : String) (body : StmtId) :
    s.Upholds env (label lower name body line) fun _ => True := by
  refine .bind_read ?_
  split
  · exact .bind (.report _ _) fun _ _ _ _ => .bind (hlower _ body) fun _ _ _ _ => .fail
  · next hknown =>
    have hnew : s.scopes.label? name = none := Option.not_isSome_iff_eq_none.1 hknown
    have hrest : ∀ (t : State) (block : BlockId), t.Upholds env (do
        fallThrough block line
        setBlock block
        lower body) fun _ => True := fun t block =>
      .bind (upholds_fallThrough _) fun _ _ _ _ => .bind (.setBlock _) fun _ _ _ _ => hlower _ body
    cases hfind : s.pending.find? (·.name == name) with
    | some label =>
      -- The label takes over the block where it is awaited.
      have hblock : labelBlock name line env s =
          (.done label.block, { s with pending := s.pending.filter (·.name != name) }) := by
        simp only [labelBlock, Bind.bind, Lower.bind, read, hfind, update]
        rfl
      cases hplaced : s.scopes.defineLabel name label.block with
      | error fault =>
        refine .of_known fun hs => .bind_of_done hblock (fun _ => ?_) (.bind_read ?_)
        · exact hs.stays_of_same rfl rfl rfl rfl rfl (.forget (hs.toIsSound.func_eq_none hplaced) name)
        · simp only [hplaced]
          exact .failWith _ _
      | ok placed =>
        refine .of_eq ?_ (.bind (upholds_placed hnew (.inl (by simp [State.awaited?, hfind])) hplaced) fun _ t _ _ =>
          hrest t label.block)
        simp only [Bind.bind, Lower.bind, hblock, read, hplaced, update]
    | none =>
      -- The label gets a block of its own.
      have hblock : labelBlock name line env s = emit line Build.newBlock env s := by
        simp only [labelBlock, Bind.bind, Lower.bind, read, hfind]
      refine .bind_of_eq hblock (upholds_bind_newBlock fun block b _ howns => .bind_read ?_)
      split
      · exact .failWith _ _
      · next placed hplaced =>
        refine .bind (.of_eq ?_ (upholds_placed (by exact hnew) (.inr ⟨by simp [State.awaited?, hfind], howns⟩) hplaced))
          fun _ t _ _ => hrest t block
        simp only [update, State.filter_pending hfind]

/-! ### Declarations -/

omit hlower in
theorem upholds_declareOne (storage : Storage) {info : DeclaratorInfo} (hinfo : info.WellFormed) :
    s.Upholds env (declareOne storage info) fun _ => True := by
  unfold declareOne
  split
  · exact .pure trivial
  · next name _ =>
    split
    · next sig hsig =>
      obtain ⟨hresult, hparams⟩ := hinfo.ty.signature hsig
      exact .discard (upholds_declareFunction name (.ofSignature hresult hparams) storage)
    · refine .bind_types ?_
      split
      · exact .failWith _ _
      · refine .bind_read ?_
        split
        · next hinside => exact upholds_localVariable hinside hinfo.ty name info.init storage
        · next houtside =>
          exact upholds_globalVariable (Option.not_isSome_iff_eq_none.1 houtside) hinfo.ty name storage info.init

omit hlower in
theorem upholds_variableList (decl : VariableDecl) : s.Upholds env (variableList decl) fun _ => True :=
  .bind (.of_yields (yields_resolve decl.spec)) fun _ _ _ hbase => upholds_forM (fun _ id =>
    .ignoring (.bind (.of_yields (yields_resolveDeclarator .normal id hbase)) fun _ _ _ hinfo =>
      upholds_declareOne decl.storage hinfo)) _

omit hlower in
theorem yields_aggregate (kind : AggregateKind) (decl : AggregateDecl) :
    s.Yields env (aggregate kind decl line) fun _ _ => True := by
  unfold aggregate
  split
  · exact .discard (yields_descend fun _ hsub => yields_defineAggregate hsub kind decl)
  · exact .discard (yields_declareAggregate kind _)
  · exact .pure trivial

omit hlower in
theorem upholds_typedef (id : SpecId) (d : DeclaratorId) : s.Upholds env (typedef id d) fun _ => True := by
  refine .bind (.of_yields (yields_resolve id)) fun base _ _ hbase => ?_
  refine .bind (.of_yields (yields_resolveDeclarator .typedef d hbase)) fun info _ _ hinfo => ?_
  split
  · exact upholds_defineType hinfo.ty _
  · exact .pure trivial

omit hlower in
theorem upholds_delegate (result : SpecId) (name : String) (ps : List ParamDecl) (variadic : Bool) :
    s.Upholds env (delegate result name ps variadic line) fun _ => True := by
  refine .bind (.of_yields (yields_resolve result)) fun result _ _ hresult => ?_
  refine .bind (.of_yields (yields_resolveParams ps)) fun infos _ _ hinfos => ?_
  have hty : (Ty.function result (infos.map (·.ty)) variadic).WellFormed := .function hresult (fun t ht => by
    obtain ⟨p, hp, rfl⟩ := List.mem_map.1 ht
    exact hinfos p hp) variadic
  exact upholds_defineType hty.pointerTo name

/-! ### All kinds -/

omit hlower in
/-- Frames were opened or closed. -/
theorem State.InPlace.stays_of_frames {scopes : ScopeStack} (hs : s.InPlace)
    (hrooted : State.IsRooted { s with scopes }) (hnames : scopes.All Ty.WellFormed Binding.IsTyped)
    (hmove : Move s events { s with scopes }) : s.Stays { s with scopes } :=
  ⟨rfl, fun _ => rfl, ⟨⟨hrooted, hnames, hs.types⟩, ⟨hs.listed, hs.startup⟩, hs.cursor⟩, ⟨_, .of_move hmove⟩⟩

omit hlower in
/-- A block is opened before a step, and closed behind it. -/
theorem upholds_localScope {m : Lower α} {P : α → Prop} (hm : ∀ t : State, t.Upholds env m P) :
    s.Upholds env (localScope m) P := fun hs => by
  unfold localScope
  split
  · exact hm s hs
  · next opened hopen =>
    have hopened := hs.stays_of_frames (hs.openBlock hopen) (hs.names.openLocal hopen) (.openBlock hopen)
    have hrun := hm _ hopened.inPlace
    have hclosed : ∀ {t : State} {scopes : ScopeStack}, State.Stays { s with scopes := opened } t →
        t.scopes.closeLocal = .ok scopes → s.Stays { t with scopes } := fun ht hclose =>
      hopened.trans (ht.trans (ht.inPlace.stays_of_frames (ht.inPlace.closeBlock hclose)
        (ht.inPlace.names.closeLocal hclose) (.closeBlock hclose)))
    have hreported : ∀ {t : State} (kind : DiagnosticKind), State.Stays { s with scopes := opened } t →
        s.Stays (report kind 0 env t).2 := fun _ ht =>
      hopened.trans (ht.trans (ht.inPlace.stays_of_same rfl rfl rfl rfl rfl (.peeks (.of_quiet rfl rfl rfl rfl rfl rfl))))
    rcases hcame : m env { s with scopes := opened } with ⟨a | _ | why, t⟩ <;> rw [hcame] at hrun <;> dsimp only
    · split
      · next scopes hclose => exact ⟨hclosed hrun.1 hclose, hrun.2⟩
      · exact ⟨hreported _ hrun.1, hrun.2⟩
    · split
      · next scopes hclose => exact hclosed hrun hclose
      · exact hreported _ hrun
    · split <;> trivial

omit hlower in
theorem upholds_inNamespace {m : Lower α} {P : α → Prop} (name : String) (hm : ∀ t : State, t.Upholds env m P) :
    s.Upholds env (inNamespace name m) P := fun hs => by
  have hpushed : s.Stays { s with scopes := s.scopes.pushNamespace name } :=
    hs.stays_of_same rfl rfl rfl rfl rfl (.rename s _)
  refine (hm _ hpushed.inPlace).after (fun t => { t with scopes := t.scopes.popNamespace name })
    (fun t ht => hpushed.trans (ht.trans ?_)) fun _ _ => id
  exact ht.inPlace.stays_of_same rfl rfl rfl rfl rfl (.rename t _)

theorem upholds_topLevel (id : StmtId) : s.Upholds env (topLevel lower id) fun _ => True := by
  refine .bind_stmt fun _ => .bind_read ?_
  split
  · exact hlower s id
  · next houtside =>
    have hfunc : s.func = none := Option.not_isSome_iff_eq_none.1 fun hsome => houtside (by simp [hsome])
    exact .ignoring (upholds_inStartup (fun t => hlower t id) hfunc)

theorem upholds_statementWith (hsteady : ∀ id, Steady (lower id)) (id : StmtId) :
    s.Upholds env (statementWith lower id) fun _ => True := by
  refine .bind_stmt fun d => ?_
  cases d.kind with
  | expression e => exact .discard (.of_yields (yields_rvalue e))
  | block body => exact upholds_localScope fun _ => upholds_forM hlower body
  | branch cond yes no => exact upholds_branch hlower cond yes no
  | whileLoop cond body => exact upholds_whileLoop hlower cond body
  | forLoop init cond step body => exact upholds_localScope fun _ => upholds_forLoop hlower init cond step body
  | ret value => exact upholds_ret value
  | brk => exact upholds_loopJump _ _
  | cont => exact upholds_loopJump _ _
  | goto name => exact upholds_goto name
  | label name body => exact upholds_label hlower name body
  | «variable» decl => exact upholds_variableList decl
  | function decl => exact upholds_function hlower hsteady decl
  | struct decl => exact .of_yields (yields_aggregate .struct decl)
  | union decl => exact .of_yields (yields_aggregate .union decl)
  | typedef id d => exact upholds_typedef id d
  | delegate result name ps variadic => exact upholds_delegate result name ps variadic
  | namespaceBlock name body =>
    exact upholds_inNamespace name fun _ => upholds_forM (fun _ => upholds_topLevel hlower) body

end Statements

/-- **Every statement keeps types in order**, however deep. -/
theorem upholds_statementTo (depth : Nat) (id : StmtId) : s.Upholds env (statementTo depth id) fun _ => True := by
  induction depth generalizing s id with
  | zero => exact .halt _
  | succ depth ih => exact .ignoring (upholds_statementWith (fun _ => ih) (steady_statementTo depth) id)

/-! ### Units -/

theorem upholds_global (id : StmtId) : s.Upholds env (global id) fun _ => True :=
  .of_eq (n := topLevel (statementTo env.tree.stmtDepth) id) rfl
    (upholds_topLevel (fun _ => upholds_statementTo _) id)

theorem upholds_declarations {σ : Type} (hook : DiagnosticHook σ) (ids : List StmtId) (acc : σ) :
    s.Upholds env (declarations hook ids acc) fun _ => True := by
  induction ids generalizing s acc with
  | nil => exact .pure trivial
  | cons id rest ih =>
    refine .bind (upholds_global id) fun _ _ _ _ => .bind_read ?_
    dsimp only
    refine .bind (upholds_update rfl rfl rfl rfl rfl (.peeks (.of_quiet rfl rfl rfl rfl rfl rfl))) fun _ _ _ _ => ?_
    refine .bind_env ?_
    split
    · exact .pure trivial
    · exact ih _

/-- The startup routine is closed outside of functions, where names and types stay as they are. -/
theorem isTyped_finishStartup (hs : s.IsTyped) (hfunc : s.func = none) : Ends finishStartup env s State.IsTyped := by
  have hset : ∀ {t : State}, t.IsTyped → t.func = none → ∀ id : Option FuncId,
      State.IsTyped { t with builder := t.builder.setFunction id } := fun ht hnone id =>
    ⟨ht.setFunction hnone id, ht.names, ht.types⟩
  have hrest : ∀ (routine : Startup) (t : State), t.IsTyped → t.func = none → Ends (do
      emit 0 (Build.ret none)
      updateBuilder (·.setFunction none)
      let priority := (← Lower.env).config.ctorPriority
      updateBuilder fun b => { b with mod := b.mod.addCtor priority routine.id }) env t State.IsTyped :=
    fun routine t ht hnone => by
      have hret : t.Yields env (emit 0 (Build.ret none)) fun _ _ => True := .emit_steady (Build.steady_ret none)
      refine (hret.ends ht).bind (fun _ h => ht.later h) fun _ u htu _ => ?_
      have hu := hset (ht.later htu) (htu.func.trans hnone) none
      exact .bind_of_done rfl (.bind_of_done rfl (.of_done rfl
        ⟨hu.toIsRooted.of_retains (.addCtor _ _ routine.id), hu.names, hu.types⟩))
  refine .bind_of_done rfl ?_
  split
  · exact .of_done rfl hs
  · next routine _ =>
    have hdropped : State.IsTyped { s with startup := none } :=
      ⟨hs.toIsRooted.of_same rfl rfl rfl rfl, hs.names, hs.types⟩
    have hentered := hset hdropped hfunc (some routine.id)
    refine .bind_of_done rfl (.bind_of_done rfl ?_)
    split
    · next block _ =>
      have hwrites := hentered.goesTo_of_writes (b := (s.builder.setFunction (some routine.id)).setBlock block)
        ⟨rfl, rfl, .refl _ _⟩
      exact .bind_of_done rfl (hrest routine _ (hentered.later hwrites) hfunc)
    · exact hrest routine _ hentered hfunc

/-- **Whole units keep types in order.** -/
theorem isTyped_completeUnit {σ : Type} (hook : DiagnosticHook σ) (start : σ) (hs : s.InPlace) (hfunc : s.func = none) :
    Ends (completeUnit hook start) env s State.IsTyped := by
  have hunit : s.Upholds env (unit hook start) fun _ => True := .bind_env (upholds_declarations hook _ start)
  refine (hunit.ends hs).bind (fun _ h => h.inPlace.toIsTyped) fun acc t hst _ => ?_
  have hclosed : Ends (ignoring finishStartup) env t State.IsTyped :=
    .bind_attempt (isTyped_finishStartup hst.inPlace.toIsTyped (hst.func.trans hfunc)) fun _ _ hu => .of_done rfl hu
  exact hclosed.bind (fun _ hu => hu) fun _ _ hu _ => .of_done rfl hu

end Steps

/-! ### What is known of every state in order -/

section Results

variable {env : Env} {s t : State} {v : Value}

/-- **Values are what their tags say.** In a state that is in order, an expression is lowered to storage or to a
function by an address, whose type is a pointer to the type of the value. Any other value is there itself: its operand
has that type, or it is an integer of the same width. Only in a tree where conversions are written, what is called
the value of an aggregate may be the address of one. The state behind is in order again. -/
theorem operandTy_of_done (hs : s.IsTyped) (depth : Nat) (e : ExprId)
    (hrun : (descentTo depth).raw e env s = (.done v, t) ∨ (descentTo depth).expr e env s = (.done v, t)) :
    t.IsTyped ∧ ∀ f, t.builder.function? = some f →
      (v.form ≠ .value → f.operandTy v.op = v.ty.pointerTo) ∧
        (v.form = .value → (f.operandTy v.op).StandsFor v.ty ∨
          env.tree.HasCast ∧ v.ty.isAggregate = true ∧ f.operandTy v.op = v.ty.pointerTo) := by
  have hdone : s.GoesTo t ∧ v.IsTyped env.tree t.builder := by
    rcases hrun with hraw | hexpr
    · exact State.Comes.of_eq_done ((typed_descentTo depth).raw s e) hs hraw
    · exact State.Comes.of_eq_done (yields_subExpr (typed_descentTo depth) e) hs hexpr
  exact ⟨hs.later hdone.1, fun f hf => hdone.2.fits.operandTy hf⟩

/-- **No aggregate lies in itself**, however many fields one goes down. -/
theorem State.IsTyped.not_embeds (hs : s.IsTyped) (key : String) :
    ¬ Relation.TransGen s.builder.mod.types.Embeds key key := hs.types.layered.not_embeds key

/-- Where no field is an array of aggregates, every search for a size, an alignment or an offset comes to an end. -/
theorem State.IsTyped.exists_array_of_recursive (hs : s.IsTyped) {L : Layout} {ty : Ty} {key : String}
    (h : L.sizeOf s.builder.mod.types ty = .error (.recursive key) ∨
      L.alignOf s.builder.mod.types ty = .error (.recursive key) ∨
      ∃ index, L.fieldOffset s.builder.mod.types ty index = .error (.recursive key)) :
    s.builder.mod.types.HoldsArray := Layout.exists_array_of_recursive hs.types.layered h

/-- **Lowering begins in order, and every declaration keeps that up**, up to the end of a unit, where types still are
in order. -/
theorem isTyped_run (env : Env) :
    (State.initial env.config).InPlace ∧
      (∀ s depth id, s.InPlace → Ends (statementTo depth id) env s State.InPlace) ∧
      (∀ s id, s.InPlace → Ends (global id) env s State.InPlace) ∧
      ∀ {σ : Type} (hook : DiagnosticHook σ) (start : σ),
        Ends (completeUnit hook start) env (.initial env.config) State.IsTyped :=
  have hinitial := State.inPlace_initial env.config
  ⟨hinitial, fun _ depth id hs => ((upholds_statementTo depth id).ends hs).imp fun _ h => h.inPlace,
    fun _ id hs => ((upholds_global id).ends hs).imp fun _ h => h.inPlace,
    fun hook start => isTyped_completeUnit hook start hinitial rfl⟩

/-- **All that lowering does is moves.** From a state in order there is a way to where a statement ends, and from the
beginning to where the declarations of a unit end. -/
theorem exists_way (env : Env) :
    (∀ s depth id, s.InPlace → Ends (statementTo depth id) env s fun t => ∃ events, Way s events t) ∧
      ∀ {σ : Type} (hook : DiagnosticHook σ) (start : σ),
        Ends (unit hook start) env (.initial env.config) fun t => ∃ events, Way (.initial env.config) events t := by
  refine ⟨fun _ depth id hs => ((upholds_statementTo depth id).ends hs).imp fun _ h => h.way, fun hook start => ?_⟩
  have hunit : State.Upholds (.initial env.config) env (unit hook start) fun _ => True :=
    .bind_env (upholds_declarations hook _ start)
  exact (hunit.ends (State.inPlace_initial env.config)).imp fun _ h => h.way

end Results

end Lower

namespace Tree

variable {σ : Type} {tree : Tree} {config : Config} {hook : DiagnosticHook σ} {start acc : σ} {unit : CompiledUnit}

/-- In a compiled unit aggregates come in layers. -/
theorem isLayered_compileWith (h : tree.compileWith config hook start = .ok (unit, acc)) :
    unit.module.types.IsLayered := by
  have hrun := (Lower.isTyped_run ⟨tree, config⟩).2.2.2 hook start
  unfold Lower.Ends at hrun
  unfold compileWith at h
  rcases hlowered : Lower.completeUnit hook start ⟨tree, config⟩ (.initial config) with ⟨_ | _ | _, t⟩ <;>
    rw [hlowered] at hrun h
  · cases h
    exact hrun.types.layered
  · cases h
    exact hrun.types.layered
  · cases h

end Tree

end TreeFlow
