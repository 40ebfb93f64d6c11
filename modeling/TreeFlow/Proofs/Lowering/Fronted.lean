import TreeFlow.Proofs.Lowering.Fronting
import TreeFlow.Proofs.Lowering.Lasting

/-!
# Stack slots stay at the front

Between the statements of a unit the slots of all functions stand at the fronts of their first blocks, and control
does not come back to these (`State.IsFronted`). A statement may send control to the targets of loops and to the
blocks of labels, so none of these is a first block, not even where a loop or a label of another function is meant.

A function is without a body, and so without a first block, when its body begins, and so is the startup routine
when it is entered for the first time. These are the only steps that are not taken one by one
(`State.IsFronted.exists_newBlock`).
-/

namespace TreeFlow.Lower

variable {α β : Type} {env : Env} {s t : State}

/-! ### States -/

/-- The slots of all functions stand at their fronts, what is being built has a body, and so has the startup
routine. No block that code may be sent to is the first one of a function. -/
structure State.IsFronted (s : State) : Prop where
  builder : s.builder.IsFronted
  loops : ∀ targets ∈ s.loops, targets.brk ≠ .first ∧ targets.cont ≠ .first
  pending : ∀ label ∈ s.pending, label.block ≠ .first
  labels : ∀ entry ∈ s.scopes.labels, entry.2 ≠ .first
  startup : ∀ routine, s.startup = some routine → s.HasBody routine.id

/-- If the slots stand at the front in the first state, they do in the second one. -/
def State.KeepsFronted (s t : State) : Prop := s.IsFronted → t.IsFronted

/-- A step keeps the slots at the front, and sends control to no first block. -/
abbrev Fronts (m : Lower α) : Prop := Leaves State.KeepsFronted m

namespace State.IsFronted

theorem of_initial (config : Config) : (State.initial config).IsFronted where
  builder := {
    functions := fun id f hf => by simp [State.initial, Builder.ofName, Module.function?] at hf
    building := fun _ hid => nomatch hid }
  loops _ h := absurd h List.not_mem_nil
  pending _ h := absurd h List.not_mem_nil
  labels _ h := absurd h List.not_mem_nil
  startup _ h := nomatch h

/-- The builder went on, and nothing else changed that matters. -/
theorem of_retains (h : s.IsFronted) (hst : s.Retains t) (hfunctions : t.builder.mod.IsFronted)
    (hloops : t.loops = s.loops) (hpending : t.pending = s.pending) (hlabels : t.scopes.labels = s.scopes.labels) :
    t.IsFronted where
  builder := ⟨hfunctions, fun id hid =>
    (State.Settles.of_retains hst).body id (h.builder.building id (hst.building ▸ hid))⟩
  loops := hloops ▸ h.loops
  pending := hpending ▸ h.pending
  labels := hlabels ▸ h.labels
  startup routine hroutine := by
    obtain ⟨before, hbefore, hid⟩ : ∃ before, s.startup = some before ∧ before.id = routine.id :=
      Option.map_eq_some_iff.1 (by rw [← hst.startup, hroutine]; rfl)
    exact (State.Settles.of_retains hst).body _ (hid ▸ h.startup before hbefore)

theorem of_peeks (h : s.IsFronted) (hst : s.Peeks t) (hfunctions : t.builder.mod.IsFronted) : t.IsFronted := by
  obtain ⟨structs, unions, hscopes⟩ := hst.scopes
  exact h.of_retains hst.retains hfunctions hst.loops hst.pending (by rw [hscopes, ScopeStack.labels_bindTags])

/-- Another function is built from now on, which has a body. -/
theorem setFunction (h : s.IsFronted) {id : Option FuncId} (hid : ∀ i, id = some i → s.HasBody i) :
    State.IsFronted { s with builder := s.builder.setFunction id } :=
  { h with builder := ⟨h.builder.functions, hid⟩ }

/-- A function that is there is built from now on, and a block is made in it, so it has a body. -/
theorem exists_newBlock (h : s.IsFronted) (env : Env) (line : Nat) {id : FuncId} {f : Function}
    (hf : s.builder.mod.function? id = some f) : ∃ b builder,
      emit line Build.newBlock env { s with builder := s.builder.setFunction (some id) } =
        (.done b, { s with builder }) ∧
      State.IsFronted { s with builder } ∧ State.HasBody { s with builder } id ∧
        ∀ i, s.HasBody i → State.HasBody { s with builder } i := by
  have hbuilds : (s.builder.setFunction (some id)).Builds id f := ⟨rfl, hf⟩
  have hrun := Build.newBlock_eq hbuilds
  obtain ⟨i, g, hi, hg, hne, -⟩ := Build.newBlock_ok hrun
  obtain rfl : id = i := Option.some.inj hi
  have hbody : ∀ i, s.HasBody i → State.HasBody { s with builder := _ } i := fun i ⟨k, hk, hbody⟩ =>
    (Build.steady_newBlock _ _ _ hrun).mod.keeps.body i k hk hbody
  exact ⟨_, _, emit_of_ok hrun, { h with
    builder := Builder.isFronted_newBlock (b := s.builder.setFunction (some id)) h.builder.functions hrun
    startup := fun routine hroutine => hbody _ (h.startup routine hroutine) }, ⟨g, hg, hne⟩, hbody⟩

end State.IsFronted

instance : Chains State.KeepsFronted where
  of_quiet _ _ _ h := ⟨h.builder, h.loops, h.pending, h.labels, h.startup⟩
  trans hst htu h := htu (hst h)

/-! ### Steps -/

namespace Fronts

variable {m : Lower α} {next : α → Lower β} {line : Nat}

theorem of_ends (h : ∀ env s, s.IsFronted → Ends m env s State.IsFronted) : Fronts m := fun env s => by
  by_cases hs : s.IsFronted
  · exact (h env s hs).imp fun _ ht _ => ht
  · unfold Ends
    split
    · trivial
    · exact fun h => absurd h hs

theorem ends (h : Fronts m) (hs : s.IsFronted) : Ends m env s State.IsFronted := (h env s).imp fun _ ht => ht hs

/-- An expression was lowered, or a part of one. -/
@[grind ←] theorem of_fronting (hcalm : Calm m) (hm : Fronting m) : Fronts m := of_ends fun env s hs => by
  have hpeeks := hcalm env s
  unfold Ends at hpeeks ⊢
  rcases hrun : m env s with ⟨a | _ | _, t⟩
  · rw [hrun] at hpeeks
    exact hs.of_peeks hpeeks ((hm env s).1 a t hrun hs.builder).functions
  · rw [hrun] at hpeeks
    exact hs.of_peeks hpeeks ((hm env s).2 t hrun hs.builder).functions
  · trivial

/-- What is yielded is known of when it is used. -/
theorem bind_of {P : α → Prop} (hm : Fronts m) (hP : ∀ env s a t, s.IsFronted → m env s = (.done a, t) → P a)
    (hnext : ∀ a, P a → Fronts (next a)) : Fronts (m >>= next) := of_ends fun env s hs =>
  (ends hm hs).bind (fun _ h => h) fun a t ht hrun => ends (hnext a (hP env s a t hs hrun)) ht

theorem pure_bind {a : α} (h : Fronts (next a)) : Fronts (Pure.pure a >>= next) := h

@[grind ←] theorem setBlock (b : BlockId) : Fronts (Lower.setBlock b) := .of_fronting (.setBlock b) (.setBlock b)

@[grind ←] theorem newBlock : Fronts (Lower.emit line Build.newBlock) :=
  .of_fronting (.emit line Build.steady_newBlock) (.emit fun _ _ _ hb hrun => (hb.newBlock hrun).2)

theorem bind_newBlock {next : BlockId → Lower β} (hnext : ∀ b, b ≠ .first → Fronts (next b)) :
    Fronts (Lower.emit line Build.newBlock >>= next) :=
  bind_of newBlock (fun _ _ _ _ hs hrun => (hs.builder.newBlock (Leaves.of_emit hrun)).1) hnext

theorem bind_newBlockBefore {anchor : BlockId} (hanchor : anchor ≠ .first) {next : BlockId → Lower β}
    (hnext : ∀ b, b ≠ .first → Fronts (next b)) : Fronts (Lower.emit line (Build.newBlockBefore anchor) >>= next) :=
  bind_of (.of_fronting (.emit line (Build.steady_newBlockBefore anchor))
      (.emit fun _ _ _ hb hrun => (hb.newBlockBefore hanchor hrun).2))
    (fun _ _ _ _ hs hrun => (hs.builder.newBlockBefore hanchor (Leaves.of_emit hrun)).1) hnext

theorem terminate {term : Terminator} (h : .first ∉ term.successors) :
    Fronts (Lower.emit line (Build.terminate term)) :=
  .of_fronting (.emit line (Build.steady_terminate term)) (.terminate h)

@[grind ←] theorem unreachable : Fronts (Lower.emit line Build.unreachable) := terminate (by simp [Terminator.successors])

@[grind ←] theorem ret (op : Option Operand) : Fronts (Lower.emit line (Build.ret op)) :=
  terminate (by simp [Terminator.successors])

@[grind ←] theorem goto {b : BlockId} (hb : b ≠ .first) : Fronts (Lower.emit line (Build.goto b)) :=
  .of_fronting (.emit line (Build.steady_goto b)) (.goto hb)

@[grind ←] theorem branch (c : Operand) {yes no : BlockId} (hyes : yes ≠ .first) (hno : no ≠ .first) :
    Fronts (Lower.emit line (Build.branch c yes no)) :=
  .of_fronting (.emit line (Build.steady_branch c yes no)) (.branch c hyes hno)

@[grind ←] theorem linear {m : Build α} (hsteady : m.Steady) (hm : m.Linear) : Fronts (Lower.emit line m) :=
  .of_fronting (.emit line hsteady) (Emits.emit line hm)

theorem update {f : State → State} (h : ∀ s, s.IsFronted → (f s).IsFronted) : Fronts (Lower.update f) :=
  of_ends fun _ s hs => h s hs

/-- Names and types have nothing to do with code. -/
theorem updateScopes {f : ScopeStack → ScopeStack} (h : ∀ scopes, (f scopes).labels = scopes.labels) :
    Fronts (Lower.updateScopes f) :=
  update fun s hs => { hs with labels := h s.scopes ▸ hs.labels }

theorem defineVar (name : String) (b : Binding) : Fronts (Lower.updateScopes (·.defineVar name b)) :=
  updateScopes fun scopes => by cases hl : scopes.locals <;> simp [ScopeStack.defineVar, ScopeStack.modifyTop, hl]

theorem defineType (name : String) (ty : Ty) : Fronts (Lower.updateScopes (·.defineType name ty)) :=
  updateScopes fun scopes => by cases hl : scopes.locals <;> simp [ScopeStack.defineType, ScopeStack.modifyTop, hl]

theorem defineGlobalVar (name : String) (b : Binding) :
    Fronts (Lower.updateScopes (·.defineGlobalVar name b)) := updateScopes fun _ => rfl

theorem addGlobal (g : Global) : Fronts (withBuilder (·.addGlobal g)) := of_ends fun _ s hs =>
  hs.of_retains (.addGlobal s g) hs.builder.functions rfl rfl rfl

theorem declareFunction (name : String) (sig : Signature) (linkage : Linkage) :
    Fronts (withBuilder (·.declareFunction name sig linkage)) := of_ends fun _ s hs =>
  hs.of_retains (.addFunction s name sig linkage)
    (Module.forall_addFunction hs.builder.functions (.declared name sig linkage)) rfl rfl rfl

theorem inNamespace (name : String) (hm : Fronts m) : Fronts (Lower.inNamespace name m) :=
  hm.between (fun s => { s with scopes := s.scopes.pushNamespace name })
    (fun _ t => { t with scopes := t.scopes.popNamespace name }) (fun _ _ => rfl) fun _ t h hs =>
      have ht : t.IsFronted := h { hs with }
      { ht with }

/-- A block of statements has the labels of the function around it. -/
theorem localScope (hm : Fronts m) : Fronts (Lower.localScope m) := by
  intro env s
  unfold Ends Lower.localScope
  cases hopen : s.scopes.openLocal with
  | error fault => exact hm env s
  | ok opened =>
    obtain ⟨top, below, -, rfl⟩ := ScopeStack.openLocal_eq_ok hopen
    have hrun := hm env { s with scopes := { s.scopes with locals := top :: s.scopes.locals } }
    unfold Ends at hrun
    dsimp only
    rcases hm' : m env { s with scopes := { s.scopes with locals := top :: s.scopes.locals } } with ⟨o, t⟩
    rw [hm'] at hrun
    have hopened : s.IsFronted → State.IsFronted
        { s with scopes := { s.scopes with locals := top :: s.scopes.locals } } := fun hs => { hs with }
    cases hclose : t.scopes.closeLocal with
    | error fault =>
      have hreported : State.KeepsFronted t (Lower.report (.internal fault.message) 0 env t).2 :=
        Chains.of_quiet t _ t.lvalue
      cases o with
      | stuck => trivial
      | done => exact fun hs => hreported (hrun (hopened hs))
      | failed => exact fun hs => hreported (hrun (hopened hs))
    | ok scopes =>
      obtain ⟨_, _, _, -, rfl⟩ := ScopeStack.closeLocal_eq_ok hclose
      cases o with
      | stuck => trivial
      | done => exact fun hs => { hrun (hopened hs) with }
      | failed => exact fun hs => { hrun (hopened hs) with }

end Fronts

/-! ### Variables -/

section Variables

variable (name : String) (ty : Ty) (init : Option ExprId) (storage : Storage) (line : Nat) (addr : Constant)

theorem fronts_modifyGlobal (change : Global → Global) : Fronts (modifyGlobal addr line change) := by
  have hchange : ∀ id : GlobalId, Fronts (updateBuilder fun b =>
      { b with mod := b.mod.modifyGlobal id change }) := fun id =>
    Fronts.update fun _ hs => { hs with builder := hs.builder.of_same rfl rfl }
  unfold modifyGlobal globalId
  split
  · exact .bind (.pure _) fun _ => hchange _
  · exact .bind (.failWith _ line) fun _ => hchange _

@[grind ←] theorem fronts_completeGlobal : Fronts (completeGlobal addr ty line) := fronts_modifyGlobal line addr _

@[grind ←] theorem fronts_setGlobalInit (c : Constant) : Fronts (setGlobalInit addr c line) :=
  fronts_modifyGlobal line addr _

@[grind ←] theorem fronts_constantInitializer (e : ExprId) : Fronts (constantInitializer ty e line) :=
  .of_fronting (calm_constantInitializer ty e line) (fronting_constantInitializer ty e line)

@[grind ←] theorem fronts_storeInitializer (slot : Operand) (e : ExprId) : Fronts (storeInitializer slot ty e line) :=
  .of_fronting (calm_storeInitializer ty e line slot) (fronting_storeInitializer ty e line slot)

theorem fronts_foreignLocal : Fronts (foreignLocal name ty) := by
  refine .bind (.read _) fun scopes => ?_
  dsimp only
  split
  · exact .bind (.pure _) fun _ => Fronts.defineVar _ _
  · exact .bind (Fronts.addGlobal _) fun _ => .bind (.pure _) fun _ => Fronts.defineVar _ _

theorem fronts_staticLocal : Fronts (staticLocal name ty init line) := by
  refine .bind (.read _) fun o => .bind (Fronts.addGlobal _) fun addr => .bind (Fronts.defineVar _ _) fun _ => ?_
  cases init with
  | none => exact .pure ()
  | some init => refine .bind (fronts_constantInitializer ty line init) fun found => ?_; grind

theorem fronts_stackLocal : Fronts (stackLocal name ty init line) := by
  refine .bind (Fronts.linear (Build.steady_alloca ty) (Build.linear_alloca ty)) fun slot => ?_
  refine .bind (Fronts.defineVar _ _) fun _ => ?_
  cases init <;> grind

@[grind ←] theorem fronts_localVariable : Fronts (localVariable name storage ty init line) := by
  cases storage with
  | foreign => exact fronts_foreignLocal name ty
  | static => exact fronts_staticLocal name ty init line
  | normal => exact fronts_stackLocal name ty init line

@[grind ←] theorem fronts_globalAddress (hasInit : Bool) :
    Fronts (globalAddress name storage ty hasInit line) := by
  refine .bind (.read _) fun scopes => ?_
  dsimp only
  split
  · grind
  · exact .bind (Fronts.addGlobal _) fun _ => .bind (Fronts.defineGlobalVar _ _) fun _ => .pure _

/-! ### The startup routine -/

/-- A routine that is there is entered, and then it has a body. -/
theorem fronted_enterRoutine (hs : s.IsFronted) (prev : Option FuncId) {routine : Startup} {f : Function}
    (hf : s.builder.mod.function? routine.id = some f)
    (hbody : routine.block.isSome → s.HasBody routine.id) :
    Ends (enterRoutine prev routine) env s fun t => t.IsFronted ∧ ∀ i, s.HasBody i → t.HasBody i := by
  have hrest : ∀ (block : BlockId) (t : State), t.IsFronted → t.HasBody routine.id →
      (∀ i, s.HasBody i → t.HasBody i) → Ends (do
        setBlock block
        update fun s => { s with startup := some ⟨routine.id, some block⟩ }
        return prev) env t fun t => t.IsFronted ∧ ∀ i, s.HasBody i → t.HasBody i := by
    intro block t ht hid hbodies
    have hset : State.IsFronted { t with builder := t.builder.setBlock block } :=
      { ht with builder := ht.builder.of_same rfl rfl }
    refine .bind_of_done rfl (.bind_of_done rfl (.of_done rfl ⟨?_, hbodies⟩))
    exact { hset with startup := fun _ hroutine => Option.some.inj hroutine ▸ hid }
  refine .bind_of_done rfl ?_
  cases hblock : routine.block with
  | some block =>
    have hid : s.HasBody routine.id := hbody (by simp [hblock])
    exact .bind_of_done rfl (hrest block _ (hs.setFunction fun i hi => Option.some.inj hi ▸ hid) hid fun _ h => h)
  | none =>
    obtain ⟨b, builder, hrun, hfronted, hid, hbodies⟩ := hs.exists_newBlock env 0 hf
    exact .bind_of_done hrun (hrest b _ hfronted hid hbodies)

theorem fronted_enterStartup (hs : s.IsFronted) :
    Ends enterStartup env s fun t => t.IsFronted ∧ ∀ i, s.HasBody i → t.HasBody i := by
  refine .bind_of_done rfl ?_
  cases hstartup : s.startup with
  | some routine =>
    have hbody := hs.startup routine hstartup
    obtain ⟨f, hf, -⟩ := hbody
    exact .bind_of_done (startupRoutine_of_some env hstartup)
      (fronted_enterRoutine hs _ hf fun _ => hs.startup routine hstartup)
  | none =>
    obtain ⟨name, hnew⟩ := startupRoutine_eq env hstartup
    let declared : State :=
      { s with builder := (s.builder.declareFunction name ⟨.void, [], false⟩ .internal).2 }
    have hrun : Ends (withBuilder (·.declareFunction name ⟨.void, [], false⟩ .internal)) env s State.IsFronted :=
      Fronts.ends (Fronts.declareFunction name _ _) hs
    have hdeclared : declared.IsFronted := hrun.of_eq_done rfl
    have hf : declared.builder.mod.function? ⟨s.builder.mod.functions.size⟩ =
        some { name, sig := ⟨.void, [], false⟩, linkage := .internal } := Array.getElem?_push_size
    have hbodies := (State.Settles.of_retains (.addFunction s name ⟨.void, [], false⟩ .internal)).body
    refine .bind_of_done hnew ?_
    refine Ends.imp (fronted_enterRoutine hdeclared s.builder.func hf fun h => ?_) fun t ht =>
      ⟨ht.1, fun i hi => ht.2 i (hbodies i hi)⟩
    cases h

/-- Code for the startup routine keeps the slots at the front. -/
theorem fronts_inStartup {m : Lower α} (hm : Fronts m) (hsteady : Steady m) : Fronts (inStartup m) := by
  refine .of_ends fun env s hs => (fronted_enterStartup hs).bind (fun _ h => h.1) fun prev t ht hrun => ?_
  obtain rfl := enterStartup_prev hrun
  refine .bind_attempt ((hsteady env t).and (Fronts.ends hm ht.1)) fun result u hu => ?_
  have hleft : State.IsFronted { u with
      startup := u.startup.map fun routine => { routine with block := u.builder.block }
      builder := u.builder.setFunction s.builder.func } := by
    have hprev : ∀ i, s.builder.func = some i → u.HasBody i := fun i hi =>
      hu.1.settles.body i (ht.2 i (hs.builder.building i hi))
    have hset := hu.2.setFunction hprev
    refine { hset with startup := fun routine hroutine => ?_ }
    obtain ⟨before, hbefore, rfl⟩ := Option.map_eq_some_iff.1 hroutine
    exact hu.2.startup before hbefore
  refine .bind_of_done rfl ?_
  split
  · exact .of_done rfl hleft
  · exact hleft

@[grind ←] theorem fronts_initGlobal (e : ExprId) : Fronts (initGlobal addr storage ty e line) := by
  unfold initGlobal
  split
  · have harray : Fronts (arrayInitializer ty e line) :=
      .of_fronting (calm_arrayInitializer ty e line) (fronting_arrayInitializer ty e line)
    exact .bind harray fun _ => fronts_setGlobalInit line addr _
  · refine .bind (fronts_constantInitializer ty line e) fun found => ?_
    split
    · grind
    · split
      · exact .failWith _ _
      · refine .bind (.report _ _) fun _ => .bind (fronts_completeGlobal ty line addr) fun _ => ?_
        exact fronts_inStartup (fronts_storeInitializer ty line addr e) (.of_calm (calm_storeInitializer ty e line addr))

@[grind ←] theorem fronts_globalVariable : Fronts (globalVariable name storage ty init line) := by
  refine .bind (fronts_globalAddress name ty storage line _) fun addr => ?_
  split <;> grind

end Variables

/-! ### Specifiers and declarators -/

@[grind ←] theorem fronts_rvalue (e : ExprId) : Fronts (rvalue e) := .of_fronting (calm_rvalue e) (fronting_rvalue e)

@[grind ←] theorem fronts_resolve (id : SpecId) : Fronts (resolve id) :=
  .of_fronting (calm_resolve id) (fronting_descend fun _ h => .of_still (h.spec id))

@[grind ←] theorem fronts_resolveDeclarator (mode : DeclaratorMode) (id : DeclaratorId) (base : Ty) :
    Fronts (resolveDeclarator mode id base) :=
  .of_fronting (calm_resolveDeclarator mode id base)
    (fronting_descend fun _ h => .of_still (still_declare h.toStillDescent mode id base))

@[grind ←] theorem fronts_resolveParams (ps : List ParamDecl) (line : Nat) : Fronts (resolveParams ps line) :=
  .of_fronting (calm_resolveParams ps line)
    (fronting_descend fun _ h => .of_still (still_params h.toStillDescent line ps))

/-! ### Functions -/

section Functions

variable (line : Nat)

theorem fronts_redeclare (name : String) (sig : Signature) (b : Binding) : Fronts (redeclare name sig b line) := by
  simp only [redeclare]
  split
  · exact .failWith _ _
  · split
    · refine .bind (.read _) fun o => ?_
      split
      · exact .bind (Fronts.defineVar _ _) fun _ => .pure _
      · exact .pure _
    · exact .bind (.read _) fun _ => .failWith _ _

@[grind ←] theorem fronts_declareFunction (name : String) (sig : Signature) (storage : Storage) :
    Fronts (declareFunction name sig storage line) := by
  have hnew : ∀ full : String, Fronts (do
      let id ← withBuilder (·.declareFunction full sig (linkageOf storage))
      let addr := (← read (·.builder)).functionRef id
      updateScopes (·.defineGlobalVar name (.ofFunction (.ofSignature sig) addr))
      return id) := fun full =>
    .bind (Fronts.declareFunction _ _ _) fun _ => .bind (.read _) fun _ =>
      .bind (Fronts.defineGlobalVar _ _) fun _ => .pure _
  refine .bind (.read _) fun scopes => ?_
  dsimp only
  split
  · refine .bind (.report _ _) fun _ => ?_
    split
    · exact fronts_redeclare line name sig _
    · exact hnew _
  · split
    · exact fronts_redeclare line name sig _
    · exact hnew _

/-! ### Bodies -/

@[grind ←] theorem fronts_closeLast (f : OpenFunction) : Fronts (closeLast f line) := by
  have hrest : ∀ reached : Bool, Fronts (do
      if !reached then emit line Build.unreachable
      else if f.result.isVoid then emit line (Build.ret none)
      else
        report .missingReturnStatement line
        emit line (Build.ret (some (.const (.zero f.result))))) := fun reached => by grind
  refine .bind .currentBlock fun o => ?_
  cases o with
  | none => exact .bind (.pure _) hrest
  | some b =>
    exact .bind (Fronts.of_fronting (.emit _ (Build.steady_predecessors _)) (.predecessors b)) fun _ =>
      .bind (.read _) fun _ => .bind (.pure _) hrest

@[grind ←] theorem fronts_closePending (labels : List PendingLabel) : Fronts (closePending labels) := by
  induction labels with
  | nil => exact .pure ()
  | cons l rest ih =>
    exact .bind (.report _ _) fun _ => .bind (Fronts.setBlock _) fun _ => .bind Fronts.unreachable fun _ => ih

@[grind ←] theorem fronts_closeBlocks (bs : List BlockId) : Fronts (closeBlocks line bs) := by
  induction bs with
  | nil => exact .pure ()
  | cons b rest ih => exact .bind (Fronts.setBlock _) fun _ => .bind Fronts.unreachable fun _ => ih

theorem fronts_finishFunction : Fronts (finishFunction line) := by
  have hpending : Fronts (update fun s => { s with pending := [] }) :=
    Fronts.update fun _ hs => { hs with pending := fun _ h => absurd h List.not_mem_nil }
  have hrest : ∀ id, Fronts (closeRest line id) := fun id =>
    .bind (.read _) fun _ => .bind hpending fun _ => .bind (fronts_closePending _) fun _ =>
      .bind (.read _) fun g => by grind
  refine .bind (.read _) fun o => ?_
  split
  · exact .fail
  · next f =>
    refine .bind (.read _) fun closed => ?_
    split
    · exact .bind (fronts_closeLast line f) fun _ => hrest f.id
    · exact hrest f.id

theorem fronts_bindParams (i : Nat) (ps : List DeclaratorInfo) : Fronts (bindParams i ps) := by
  induction ps generalizing i with
  | nil => exact .pure ()
  | cons p ps ih =>
    unfold bindParams
    split
    · exact .bind (.report _ _) fun _ => ih _
    · exact .bind (Fronts.linear (Build.steady_alloca _) (Build.linear_alloca _)) fun slot =>
        .bind (Fronts.linear (Build.steady_store _ _) (Build.linear_store _ _)) fun _ =>
        .bind (Fronts.defineVar _ _) fun _ => ih _

variable {lower : StmtId → Lower Unit} (hlower : ∀ id, Fronts (lower id)) (hsteady : ∀ id, Steady (lower id))
include hlower hsteady

/-- The body of a function that was declared. Its first block is made before anything else. -/
theorem fronted_functionBody (hs : s.IsFronted) {id : FuncId} {f : Function}
    (hf : s.builder.mod.function? id = some f) (result : Ty) (ps : List DeclaratorInfo) (body : StmtId) :
    Ends (functionBody lower id result ps body line) env s State.IsFronted := by
  cases hlocals : s.scopes.locals with
  | cons frame rest =>
    have hopen : s.scopes.openFunction = .error .openSecondFunction := by
      rw [ScopeStack.openFunction, hlocals]
    refine .bind_of_done rfl (.bind_of_done rfl (.bind_of_done rfl (.bind_of_done rfl ?_)))
    dsimp only
    rw [hopen]
    exact .bind_of_done rfl (.bind_of_done rfl { hs with builder := hs.builder.of_same rfl rfl })
  | nil =>
    let opened : State := { s with
      scopes := { s.scopes with locals := [{}], labels := [] }
      func := some ⟨id, ((s.builder.mod.function? id).map Function.name).getD "", result⟩ }
    have hopened : opened.IsFronted := { hs with labels := fun _ h => absurd h List.not_mem_nil }
    have hcontents : Ends (functionContents lower ps body line) env (s.openBody id result) State.IsFronted := by
      obtain ⟨b, builder, hrun, hfronted, -, -⟩ := hopened.exists_newBlock env line hf
      refine .bind_of_done hrun ?_
      exact Fronts.ends (.bind (Fronts.setBlock b) fun _ => .bind (fronts_bindParams 0 ps) fun _ => hlower body)
        hfronted
    refine ends_bodyOf line hlocals
      (hcontents.and (steadyInside_functionContents line hsteady ps body env _ rfl)) fun t ht => ?_
    refine ((Fronts.ends (fronts_finishFunction line) ht.1).and (steady_finishFunction line env t)).imp
      fun u hu => ?_
    have hleads : (s.openBody id result).Leads u := Chains.trans ht.2 hu.2
    refine ⟨hleads.depth, ?_⟩
    -- What was being built before has the body that it had.
    have hbody : ∀ i, s.builder.func = some i → u.HasBody i := fun i hi =>
      hleads.settles.body i (hs.builder.building i hi)
    have hprev := hu.1.setFunction hbody
    exact { hprev with
      loops := fun _ h => absurd h List.not_mem_nil
      pending := fun _ h => absurd h List.not_mem_nil
      labels := fun _ h => absurd h List.not_mem_nil }

theorem fronts_defineFunction (id : FuncId) (name : String) (result : Ty) (storage : Storage)
    (ps : List DeclaratorInfo) (body : StmtId) :
    Fronts (defineFunction lower id name result storage ps body line) := by
  refine .of_ends fun env s hs => .bind_of_done (t := s) rfl ?_
  split
  · exact Fronts.ends (.failWith _ _) hs
  · refine .bind_of_done (t := s) rfl ?_
    split
    · exact Fronts.ends (.failWith _ _) hs
    · next hdecl =>
      obtain ⟨f, hf⟩ : ∃ f, s.builder.mod.function? id = some f := by
        cases hf : s.builder.mod.function? id with
        | none => simp [hf] at hdecl
        | some f => exact ⟨f, rfl⟩
      split
      · let internal : State := { s with builder := { s.builder with
          mod := s.builder.mod.modifyFunction id fun f => { f with linkage := .internal } } }
        have hinternal : internal.IsFronted :=
          hs.of_retains ((Leaves.makeInternal id env s).of_eq_done rfl)
            (s.builder.mod.forall_modifyFunction hs.builder.functions id fun _ h => h.setLinkage .internal)
            rfl rfl rfl
        have hf' : internal.builder.mod.function? id = some { f with linkage := .internal } := by
          rw [Module.function?] at hf
          simp [internal, Module.function?, Module.modifyFunction, Array.getElem?_modify, hf]
        exact .bind_of_done rfl (fronted_functionBody line hlower hsteady hinternal hf' _ _ _)
      · exact fronted_functionBody line hlower hsteady hs hf _ _ _

@[grind ←] theorem fronts_function (decl : FunctionDecl) : Fronts (function lower decl line) := by
  refine .bind (fronts_resolve _) fun result => .bind (fronts_resolveDeclarator _ _ _) fun info => ?_
  split
  · exact .failWith _ _
  · split
    · exact .pure ()
    · refine .bind (fronts_declareFunction line _ _ _) fun id => ?_
      split
      · exact .pure ()
      · exact fronts_defineFunction line hlower hsteady id _ _ _ _ _

end Functions

end TreeFlow.Lower
