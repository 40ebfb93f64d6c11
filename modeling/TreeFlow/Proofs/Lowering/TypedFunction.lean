import TreeFlow.Proofs.Lowering.TypedExpression
import TreeFlow.Proofs.Lowering.Ways

/-!
# Declarations keep types in order

A variable or function is declared with a type that specifiers and declarators came to, and at an address of that
type. So a state in which types are in order is left for another one (`State.Upholds`), also where an initializer is
only tried, where code goes to the startup routine (`upholds_inStartup`), and where the body of a function is lowered
in a frame of its own (`upholds_functionBody`).
-/

namespace TreeFlow

namespace Binding.IsTyped

variable {b : Builder} {ty : Ty}

theorem ofSlot {x : InstId} (hty : ty.WellFormed) : (Binding.ofVariable ty (.inst x)).IsTyped where
  ty := hty
  const c hc := by cases hc

theorem ofGlobal (hty : ty.WellFormed) {g : Global} (hg : g.ty = ty) :
    (Binding.ofVariable ty (b.addGlobal g).1).IsTyped where
  ty := hty
  const c hc := by
    obtain rfl := Operand.const.inj hc
    exact congrArg Ty.pointerTo hg

theorem ofDeclared {sig : Signature} (hsig : (Ty.ofSignature sig).WellFormed) (name : String) (linkage : Linkage) :
    (Binding.ofFunction (.ofSignature sig) ((b.declareFunction name sig linkage).2.functionRef
      (b.declareFunction name sig linkage).1)).IsTyped where
  ty := hsig
  const c hc := by
    have hf : (b.declareFunction name sig linkage).2.mod.function? ⟨b.mod.functions.size⟩ =
        some { name, sig, linkage } := by
      simp [Builder.declareFunction, Module.addFunction, Module.function?]
    obtain rfl := Operand.const.inj hc
    show ((((b.declareFunction name sig linkage).2.mod.function? ⟨b.mod.functions.size⟩).map
      fun f => Ty.ofSignature f.sig).getD .void).pointerTo = _
    rw [hf]
    rfl

end Binding.IsTyped

namespace Lower

variable {α β : Type}

section Steps

variable {s : State} {env : Env} {ty : Ty} {line : Nat} {events : List Event}

theorem upholds_of_ends {m : Lower α} (h : s.InPlace → Ends m env s s.Stays) : s.Upholds env m fun _ => True :=
  fun hs => by
    have hrun := h hs
    unfold Ends at hrun
    rcases hms : m env s with ⟨a | _ | _, t⟩ <;> rw [hms] at hrun
    · exact ⟨hrun, trivial⟩
    · exact hrun
    · trivial

/-- Something is noted that names and code have nothing to do with. -/
theorem upholds_update {f : State → State} (hfunc : (f s).func = s.func) (hbuilder : (f s).builder = s.builder)
    (hstartup : (f s).startup = s.startup) (hglobal : (f s).scopes.global = s.scopes.global)
    (hlocals : (f s).scopes.locals = s.scopes.locals) (hmove : Move s events (f s)) :
    s.Upholds env (update f) fun _ => True :=
  .of_done rfl (fun hs => hs.stays_of_same hfunc hbuilder hstartup hglobal hlocals hmove) fun _ => trivial

theorem upholds_forM {ι : Type} {step : ι → Lower Unit} (hstep : ∀ (s : State) i, s.Upholds env (step i) fun _ => True)
    (items : List ι) : s.Upholds env (items.forM step) fun _ => True := by
  induction items generalizing s with
  | nil => exact .pure trivial
  | cons i rest ih => exact .bind (hstep s i) fun _ _ _ _ => ih

theorem upholds_defineType (hty : ty.WellFormed) (name : String) :
    s.Upholds env (updateScopes (·.defineType name ty)) fun _ => True :=
  .of_done rfl (fun hs => hs.stays_of_retains (.of_type name ty) (hs.names.defineType hty) hs.types
    (.typeName s name ty)) fun _ => trivial

theorem upholds_defineVar (hfunc : s.func.isSome) (name : String) {b : Binding} (hb : b.IsTyped)
    (hanchored : b.Anchored s.builder.mod (s.func.map OpenFunction.id) none) :
    s.Upholds env (updateScopes (·.defineVar name b)) fun _ => True :=
  .of_done rfl (fun hs => hs.stays_of_leads (.defineVar (Chains.refl s) hfunc name fun _ => hanchored)
    (hs.names.defineVar hb) hs.types (.localName (hs.inside hfunc) name b)) fun _ => trivial

/-! ### Initializers -/

theorem upholds_modifyGlobal {change : Global → Global} (hname : ∀ g, (change g).name = g.name)
    (hty : ∀ g, (change g).ty = g.ty) (hlinkage : ∀ g, (change g).linkage = g.linkage) (addr : Constant) :
    s.Upholds env (modifyGlobal addr line change) fun _ => True := by
  have hchange : ∀ (id : GlobalId) (t : State), t.Upholds env (updateBuilder fun b =>
      { b with mod := b.mod.modifyGlobal id change }) fun _ => True := fun id t => by
    refine .of_done rfl (fun ht => ht.stays_of_retains (.of_leads ?_ rfl rfl rfl rfl) ht.names ht.types
      (.modifyGlobal id hname hty hlinkage)) fun _ => trivial
    exact ⟨rfl, rfl, .of_functions (t.builder.mod.retains_modifyGlobal id hname hty) rfl⟩
  unfold modifyGlobal globalId
  split
  · exact .bind (P := fun _ _ => True) (.pure trivial) fun id t _ _ => hchange id t
  · exact .bind (P := fun _ _ => True) (.failWith _ line) fun id t _ _ => hchange id t

theorem upholds_setGlobalInit (addr c : Constant) : s.Upholds env (setGlobalInit addr c line) fun _ => True := by
  refine upholds_modifyGlobal ?_ ?_ ?_ addr <;> exact fun _ => rfl

theorem upholds_completeGlobal (addr : Constant) (ty : Ty) :
    s.Upholds env (completeGlobal addr ty line) fun _ => True := by
  refine upholds_modifyGlobal ?_ ?_ ?_ addr <;> exact fun _ => rfl

theorem yields_initializerValue (ty : Ty) (init : ExprId) :
    s.Yields env (initializerValue ty init line) fun _ _ => True := by
  refine .bind (yields_rvalue init) fun v _ _ hv => ?_
  split
  · exact .fail
  · exact (yields_convert hv).imp fun _ _ _ => trivial

/-- Aggregates are in order whether what an initializer came to is kept or not. -/
theorem yields_constantInitializer (ty : Ty) (init : ExprId) :
    s.Yields env (constantInitializer ty init line) fun _ _ => True := fun hs => by
  have hvalue : State.Came State.GoesTo { s with builder := s.builder.snapshot.2 } (fun _ _ => True)
      (initializerValue ty init line env { s with builder := s.builder.snapshot.2 }) :=
    yields_initializerValue ty init hs.snapshot
  have hkept : ∀ {t : State} (keep : Keep), State.GoesTo { s with builder := s.builder.snapshot.2 } t →
      (t.builder.restore s.builder.snapshot.1 keep).mod.types.IsTyped := fun {t} keep ht => by
    rw [congrArg (·.mod.types) (Builder.restore_eq ht.mod keep)]
    dsimp only
    split
    · exact hs.types
    · exact ht.types
  simp only [constantInitializer]
  rcases hrun : initializerValue ty init line env { s with builder := s.builder.snapshot.2 } with
    ⟨op | _ | _, t⟩
  · rw [hrun] at hvalue
    dsimp only
    cases op.const? with
    | none => exact ⟨⟨hvalue.1.of_undone _, hvalue.1.mode, hkept .nothing hvalue.1⟩, trivial⟩
    | some c =>
      exact ⟨⟨hvalue.1.of_attempt .typesAndGlobals (by decide) t.lvalue, hvalue.1.mode, hkept _ hvalue.1⟩, trivial⟩
  · rw [hrun] at hvalue
    exact ⟨⟨hvalue.of_undone _, hvalue.mode, hkept .nothing hvalue⟩, trivial⟩
  · trivial

theorem yields_arrayInitializer (ty : Ty) (init : ExprId) :
    s.Yields env (arrayInitializer ty init line) fun _ _ => True := by
  unfold arrayInitializer
  split
  · refine .bind_expr fun e _ => ?_
    split
    · split
      · exact .pure trivial
      · exact .failWith _ _
    · exact .failWith _ _
  · exact .fail

theorem yields_storeArray (slot : Operand) (ty : Ty) (init : ExprId) :
    s.Yields env (storeArray slot ty init line) fun _ _ => True := by
  refine .bind_expr fun e _ => ?_
  split
  · exact .bind (yields_arrayInitializer ty init) fun _ _ _ _ => .emit_steady (Build.steady_store _ _)
  · refine .bind (yields_descend fun _ hsub => yields_subStorage hsub init) fun v _ _ _ => ?_
    split
    · exact .failWith _ _
    · exact .emit_steady (Build.steady_copy _ _ _)

theorem yields_storeInitializer (ty : Ty) (slot : Operand) (init : ExprId) :
    s.Yields env (storeInitializer slot ty init line) fun _ _ => True := by
  unfold storeInitializer
  split
  · exact yields_storeArray slot ty init
  · refine .bind (yields_rvalue init) fun v _ _ hv => ?_
    split
    · split
      · exact .failWith _ _
      · exact yields_putAggregate _ _ _
    · exact .bind (yields_convertOrReport hv) fun _ _ _ _ => .emit_steady (Build.steady_store _ _)

/-! ### Variables -/

theorem yields_addGlobal {g : Global} (hg : g.ty.WellFormed) (hinternal : g.linkage = .internal) :
    s.Yields env (withBuilder (·.addGlobal g)) fun b c =>
      (Binding.ofVariable g.ty c).IsTyped ∧ (Binding.ofVariable g.ty c).Anchored b.mod none (some g.name) :=
  .of_done rfl (fun hs => hs.goesTo_of_writes (.addGlobal s.builder hinternal)) fun _ =>
    ⟨.ofGlobal hg rfl, s.builder.anchored_addGlobal g⟩

/-- A slot is reserved in the function at hand. -/
theorem yields_alloca (hfunc : s.func.isSome) (hty : ty.WellFormed) :
    s.Yields env (emit line (Build.alloca ty)) fun b slot => (Binding.ofVariable ty slot).IsTyped ∧
      (Binding.ofVariable ty slot).Anchored b.mod (s.func.map OpenFunction.id) none := by
  refine .of_known fun hs => .emit (Build.steady_alloca ty) fun slot b halloca => ?_
  obtain ⟨o, ho⟩ := Option.isSome_iff_exists.1 hfunc
  have hbuilding := (Build.steady_alloca ty _ _ _ halloca).func.trans (hs.building o ho)
  obtain ⟨x, id, f, rfl, hid, hf, hx⟩ := Build.alloca_ok halloca
  exact ⟨.ofSlot hty, .slot rfl (by rw [ho, ← hid, hbuilding]; rfl) hf hx⟩

section Variables

variable (hfunc : s.func.isSome) (hty : ty.WellFormed) (name : String) (init : Option ExprId)
include hfunc hty

theorem upholds_foreignLocal : s.Upholds env (foreignLocal name ty) fun _ => True := by
  refine .of_known fun hs => .bind_read ?_
  dsimp only
  split
  · next b hb =>
    obtain ⟨hglobal, -⟩ := Option.filter_eq_some_iff.1 hb
    exact upholds_defineVar hfunc name (hs.names.of_globalVar? hglobal) (hs.toNamesResolve.of_globalVar? hglobal)
  · next hunknown =>
    -- A global of its own is added for the name.
    have hnew : ∀ b, s.scopes.globalVar? name = some b → b.ty = ty → b.isFunction = true := fun b hb hbty =>
      by_contra fun hvariable => by simp [hb, hbty, hvariable] at hunknown
    refine .bind_of_done rfl (fun hs => hs.stays_of_retains (.addGlobal s _) hs.names hs.types (.foreign hfunc hnew)) ?_
    exact upholds_defineVar (by exact hfunc) name (.ofGlobal hty rfl) (s.builder.anchored_addGlobal _).inside

theorem upholds_staticLocal : s.Upholds env (staticLocal name ty init line) fun _ => True := by
  refine .bind_read (.bind (.of_yields (yields_addGlobal hty rfl)) fun addr t hst haddr => ?_)
  refine .bind (upholds_defineVar (hst.func ▸ hfunc) name haddr.1 haddr.2.inside) fun _ _ _ _ => ?_
  cases init with
  | none => exact .pure trivial
  | some init =>
    refine .bind (.of_yields (yields_constantInitializer ty init)) fun found _ _ _ => ?_
    split
    · exact upholds_setGlobalInit _ _
    · exact .report _ _

theorem upholds_stackLocal : s.Upholds env (stackLocal name ty init line) fun _ => True := by
  refine .bind (.of_yields (yields_alloca hfunc hty)) fun slot t hst hslot => ?_
  refine .bind (upholds_defineVar (hst.func ▸ hfunc) name hslot.1 (hst.func ▸ hslot.2)) fun _ _ _ _ => ?_
  cases init with
  | none => exact .pure trivial
  | some init => exact .of_yields (yields_storeInitializer ty slot init)

theorem upholds_localVariable (storage : Storage) :
    s.Upholds env (localVariable name storage ty init line) fun _ => True := by
  cases storage with
  | foreign => exact upholds_foreignLocal hfunc hty name
  | static => exact upholds_staticLocal hfunc hty name init
  | normal => exact upholds_stackLocal hfunc hty name init

end Variables

/-- A variable is declared outside of functions, whose full name is new. -/
theorem upholds_newVariable {name : String} {g : Global} (hg : g.ty.WellFormed) (hname : g.name = s.scopes.qualify name)
    (hnew : s.scopes.globalVar? g.name = none) : s.Upholds env (do
      let addr ← withBuilder (·.addGlobal g)
      updateScopes (·.defineGlobalVar name (.ofVariable g.ty addr))
      return addr) fun _ => True := by
  refine .of_done rfl (fun hs => hs.stays_of_leads ?_ (hs.names.defineGlobalVar (.ofGlobal hg rfl)) hs.types
    (.variable hname hnew)) fun _ => trivial
  have hadded : s.Leads { s with builder := (s.builder.addGlobal g).2 } := .of_retains (.addGlobal s g)
  exact hadded.trans (leads_defineGlobalVar (hname ▸ s.builder.anchored_addGlobal g))

theorem upholds_globalAddress (hty : ty.WellFormed) (name : String) (storage : Storage) (hasInit : Bool) :
    s.Upholds env (globalAddress name storage ty hasInit line) fun _ => True := by
  refine .bind_read ?_
  dsimp only
  split
  · split
    · split
      · exact .pure trivial
      · exact .failWith _ _
    · exact .failWith _ _
  · next hnew => exact upholds_newVariable (by exact hty) rfl hnew

/-! ### The startup routine -/

/-- To enter the startup routine, a function and a block may be made, and nothing else changes. -/
theorem adds_enterStartup : Leaves State.Adds enterStartup := by
  have hroutine : Leaves State.Adds startupRoutine := by
    refine .bind (.read _) fun found => ?_
    split
    · exact .pure _
    · exact .bind (.read _) fun _ => .bind
        (fun _ s => ⟨rfl, rfl, rfl, rfl, rfl, rfl, s.builder.mod.retains_addFunction _⟩) fun _ => .pure _
  have hblock : Leaves State.Adds (emit 0 Build.newBlock) := fun env s => by
    unfold Ends emit
    rcases hrun : Build.newBlock s.builder with fault | ⟨a, b⟩
    · cases fault with
      | missingBlock id => trivial
      | _ => exact Leaves.failWith (α := BlockId) _ 0 env s
    · have hretains := (Build.steady_newBlock _ _ _ hrun).mod.retains
      obtain ⟨id, f, -, -, -, rfl⟩ := Build.Steady.withFunction_ok hrun
      exact ⟨rfl, rfl, rfl, rfl, rfl, rfl, hretains⟩
  refine .bind (.read _) fun prev => .bind hroutine fun routine =>
    .bind (fun _ _ => ⟨rfl, rfl, rfl, rfl, rfl, rfl, .refl _⟩) fun _ => ?_
  have hrest : ∀ block, Leaves State.Adds (do
      setBlock block
      update fun s => { s with startup := some ⟨routine.id, some block⟩ }
      return prev) := fun block => .bind (fun _ _ => ⟨rfl, rfl, rfl, rfl, rfl, rfl, .refl _⟩) fun _ =>
    .bind (fun _ _ => ⟨rfl, rfl, rfl, rfl, rfl, rfl, .refl _⟩) fun _ => .pure _
  split
  · exact .bind (.pure _) hrest
  · exact .bind hblock hrest

/-- The startup routine is entered outside of functions, from nowhere or from amid that routine. -/
theorem upholds_enterStartup (hfunc : s.func = none) :
    s.Upholds env enterStartup fun prev => prev = none ∨ prev = s.startup.map Startup.id := by
  refine .of_known fun hs => ?_
  obtain ⟨t, routine, hrun, hnoted, hbuilding, hbefore⟩ := enterStartup_eq env hs.toIsOrderly
  have hkeeps := (ends_enterStartup hfunc).of_eq_done hrun
  have hadds := (adds_enterStartup env s).of_eq_done hrun
  have hroutine : ∀ before, s.startup = some before → t.startup.map Startup.id = some before.id :=
    fun before hstartup => by rw [hnoted, hbefore before hstartup]; rfl
  refine .of_done hrun (fun _ => ?_) fun _ => hs.cursor hfunc
  exact {
    func := hkeeps.func
    home := fun hsome => by
      cases hstartup : s.startup with
      | none => simp [State.home, hfunc, hstartup] at hsome
      | some before => simp [State.home, hfunc, hkeeps.func, hstartup, hroutine before hstartup]
    inPlace := {
      toIsTyped := ⟨hkeeps.rooted hs.toIsRooted, hadds.scopes ▸ hs.names, hadds.types ▸ hs.types⟩
      toIsOrderly := hkeeps.settles.orderly hs.toIsOrderly
      cursor := fun _ => .inr (by rw [hbuilding, hnoted]; rfl) }
    way := ⟨_, .of_move (.enterStartup hfunc ⟨hadds, hroutine, by rw [hbuilding, hnoted]; rfl⟩)⟩ }

theorem upholds_leaveStartup (hfunc : s.func = none) {prev : Option FuncId}
    (hprev : prev = none ∨ prev = s.startup.map Startup.id) : s.Upholds env (leaveStartup prev) fun _ => True := by
  have hsame : (s.startup.map fun routine : Startup => { routine with block := s.builder.block }).map Startup.id =
      s.startup.map Startup.id := by simp [Function.comp_def]
  refine .of_done rfl (fun hs => ?_) fun _ => trivial
  exact {
    func := rfl
    home := fun _ => by simp only [State.home, hsame]
    inPlace := {
      toIsRooted := (hs.toIsRooted.setFunction hfunc prev).of_same rfl rfl rfl rfl
      names := hs.names
      types := hs.types
      listed := hs.listed
      startup := fun routine hroutine => by
        obtain ⟨before, hbefore, rfl⟩ := Option.map_eq_some_iff.1 hroutine
        exact hs.startup before hbefore
      cursor := fun _ => hprev.imp_right fun h => h.trans hsame.symm }
    way := ⟨_, .of_move (.leaveStartup hfunc hprev)⟩ }

/-- The startup routine is entered and left outside of functions, and in between types stay in order. -/
theorem upholds_inStartup {m : Lower α} {P : α → Prop} (hm : ∀ t : State, t.Upholds env m P) (hfunc : s.func = none) :
    s.Upholds env (inStartup m) P := by
  refine .bind (upholds_enterStartup hfunc) fun prev t hst hprev => .bind (hm t).attempt fun result u htu hresult => ?_
  have hsu := hst.trans htu
  refine .bind (upholds_leaveStartup (hsu.func.trans hfunc) (hsu.previous hfunc hprev)) fun _ _ _ _ => ?_
  split
  · exact .pure (hresult _ rfl)
  · exact .fail

theorem upholds_initGlobal (hfunc : s.func = none) (ty : Ty) (addr : Constant) (storage : Storage)
    (init : ExprId) : s.Upholds env (initGlobal addr storage ty init line) fun _ => True := by
  unfold initGlobal
  split
  · exact .bind (.of_yields (yields_arrayInitializer ty init)) fun _ _ _ _ => upholds_setGlobalInit _ _
  · refine .bind (.of_yields (yields_constantInitializer ty init)) fun found t hst _ => ?_
    split
    · exact upholds_setGlobalInit _ _
    · split
      · exact .failWith _ _
      · refine .bind (.report _ _) fun _ u htu _ => .bind (upholds_completeGlobal _ _) fun _ v huv _ => ?_
        exact upholds_inStartup (fun _ => .of_yields (yields_storeInitializer ty _ init))
          (huv.func.trans (htu.func.trans (hst.func.trans hfunc)))

theorem upholds_globalVariable (hfunc : s.func = none) (hty : ty.WellFormed) (name : String) (storage : Storage)
    (init : Option ExprId) : s.Upholds env (globalVariable name storage ty init line) fun _ => True := by
  refine .bind (upholds_globalAddress hty name storage _) fun addr t hst _ => ?_
  split
  · exact upholds_initGlobal (hst.func.trans hfunc) ty addr storage _
  · split
    · exact .pure trivial
    · exact upholds_completeGlobal _ _

/-! ### Functions -/

theorem upholds_redeclare (name full : String) {b : Binding} (hb : s.scopes.globalVar? full = some b)
    (sig : Signature) : s.Upholds env (redeclare name sig b line) fun _ => True := by
  unfold redeclare
  refine .of_known fun hs => ?_
  dsimp only
  split
  · exact .failWith _ _
  · split
    · refine .bind_read ?_
      split
      · next hfunc =>
        exact .bind (upholds_defineVar hfunc name (hs.names.of_globalVar? hb) (hs.toNamesResolve.of_globalVar? hb))
          fun _ _ _ _ => .pure trivial
      · exact .pure trivial
    · exact .bind_read (.failWith _ _)

/-- A new function is declared outside of functions. -/
theorem upholds_newFunction {name : String} (hnew : s.scopes.globalVar? (s.scopes.qualify name) = none) {sig : Signature}
    (hsig : (Ty.ofSignature sig).WellFormed) (linkage : Linkage) : s.Upholds env (do
      let id ← withBuilder (·.declareFunction (s.scopes.qualify name) sig linkage)
      let addr := (← read (·.builder)).functionRef id
      updateScopes (·.defineGlobalVar name (.ofFunction (.ofSignature sig) addr))
      return id) fun _ => True := by
  refine .of_done rfl (fun hs => hs.stays_of_leads ?_ (hs.names.defineGlobalVar (.ofDeclared hsig _ _)) hs.types
    (.function hnew sig linkage)) fun _ => trivial
  have hadded := State.Leads.of_retains (.addFunction s (s.scopes.qualify name) sig linkage)
  exact hadded.trans (leads_defineGlobalVar (s.builder.anchored_declareFunction (s.scopes.qualify name) sig linkage))

theorem upholds_declareFunction (name : String) {sig : Signature} (hsig : (Ty.ofSignature sig).WellFormed)
    (storage : Storage) : s.Upholds env (declareFunction name sig storage line) fun _ => True := by
  refine .bind_read ?_
  dsimp only
  split
  · -- The complaint about the type of `main` leaves the scopes as they are.
    refine .bind_of_done rfl (fun hs => hs.stays_of_same rfl rfl rfl rfl rfl
      (.peeks (.of_quiet rfl rfl rfl rfl rfl rfl))) ?_
    split
    · next b hb => exact upholds_redeclare name (s.scopes.qualify name) (by exact hb) sig
    · next hnew => exact upholds_newFunction (by exact hnew) hsig (linkageOf storage)
  · split
    · next b hb => exact upholds_redeclare name (s.scopes.qualify name) hb sig
    · next hnew => exact upholds_newFunction hnew hsig (linkageOf storage)

/-! ### The end of a body -/

theorem upholds_closeLast (f : OpenFunction) : s.Upholds env (closeLast f line) fun _ => True := by
  have hrest : ∀ (reached : Bool) (t : State), t.Upholds env (do
      if !reached then emit line Build.unreachable
      else if f.result.isVoid then emit line (Build.ret none)
      else
        report .missingReturnStatement line
        emit line (Build.ret (some (.const (.zero f.result))))) fun _ => True := fun reached t => by
    split
    · exact .emit_steady Build.steady_unreachable
    · split
      · exact .emit_steady (Build.steady_ret _)
      · exact .bind (.report _ _) fun _ _ _ _ => .emit_steady (Build.steady_ret _)
  refine .bind_currentBlock fun o => ?_
  cases o with
  | none => exact .bind (P := fun _ _ => True) (.pure trivial) fun reached t _ _ => hrest reached t
  | some block =>
    exact .bind (.emit_steady (Build.steady_predecessors _)) fun _ _ _ _ => .bind_read
      (.bind (P := fun _ _ => True) (.pure trivial) fun reached t _ _ => hrest reached t)

theorem upholds_closePending (labels : List PendingLabel) : s.Upholds env (closePending labels) fun _ => True := by
  induction labels generalizing s with
  | nil => exact .pure trivial
  | cons label rest ih =>
    exact .bind (.report _ _) fun _ _ _ _ => .bind (.setBlock _) fun _ _ _ _ =>
      .bind (.emit_steady Build.steady_unreachable) fun _ _ _ _ => ih

theorem upholds_closeBlocks (blocks : List BlockId) : s.Upholds env (closeBlocks line blocks) fun _ => True := by
  induction blocks generalizing s with
  | nil => exact .pure trivial
  | cons block rest ih =>
    exact .bind (.setBlock _) fun _ _ _ _ => .bind (.emit_steady Build.steady_unreachable) fun _ _ _ _ => ih

theorem upholds_closeRest (id : FuncId) : s.Upholds env (closeRest line id) fun _ => True := by
  refine .bind_read (.bind (upholds_update rfl rfl rfl rfl rfl (.settle s)) fun _ _ _ _ => ?_)
  refine .bind (upholds_closePending _) fun _ _ _ _ => .bind_read ?_
  split
  · exact .pure trivial
  · exact upholds_closeBlocks _

theorem upholds_finishFunction : s.Upholds env (finishFunction line) fun _ => True := by
  refine .bind_read ?_
  split
  · exact .fail
  · next f _ =>
    refine .bind_read ?_
    split
    · exact .bind (upholds_closeLast f) fun _ _ _ _ => upholds_closeRest f.id
    · exact upholds_closeRest f.id

/-! ### Bodies -/

theorem upholds_bindParams (hfunc : s.func.isSome) {ps : List DeclaratorInfo} (hps : ∀ p ∈ ps, p.ty.WellFormed)
    (i : Nat) : s.Upholds env (bindParams i ps) fun _ => True := by
  induction ps generalizing s i with
  | nil => exact .pure trivial
  | cons p ps ih =>
    obtain ⟨hp, hps⟩ := List.forall_mem_cons.1 hps
    unfold bindParams
    split
    · exact .bind (.report _ _) fun _ _ hst _ => ih (hst.func ▸ hfunc) hps _
    · next name _ =>
      refine .bind (.of_yields (yields_alloca hfunc hp)) fun slot t hst hslot => ?_
      have hstore : t.Yields env (emit p.line (Build.store slot (.arg i))) fun b _ =>
          (Binding.ofVariable p.ty slot).Anchored b.mod (s.func.map OpenFunction.id) none :=
        .emit (Build.steady_store _ _) fun _ b hrun => hslot.2.mono (Build.steady_store _ _ _ _ _ hrun).mod.retains
      refine .bind (.of_yields hstore) fun _ u htu hslot' => ?_
      have hsame : u.func = s.func := htu.func.trans hst.func
      refine .bind (upholds_defineVar (hsame ▸ hfunc) name hslot.1 (hsame ▸ hslot')) fun _ _ huv _ => ?_
      exact ih ((huv.func.trans hsame) ▸ hfunc) hps _

section Bodies

variable {lower : StmtId → Lower Unit} (hlower : ∀ (s : State) id, s.Upholds env (lower id) fun _ => True)
include hlower

theorem upholds_functionContents (hfunc : s.func.isSome) {ps : List DeclaratorInfo}
    (hps : ∀ p ∈ ps, p.ty.WellFormed) (body : StmtId) :
    s.Upholds env (functionContents lower ps body line) fun _ => True :=
  .bind (.emit_steady Build.steady_newBlock) fun _ _ hst _ => .bind (.setBlock _) fun _ _ htu _ =>
    .bind (upholds_bindParams ((htu.func.trans hst.func) ▸ hfunc) hps 0) fun _ _ _ _ => hlower _ body

omit hlower in
/-- A body begins in order. -/
theorem State.InPlace.openBody (hs : s.InPlace) (hfunc : s.func = none) (id : FuncId) (result : Ty) :
    (s.openBody id result).InPlace where
  toIsRooted := hs.toIsRooted.openBody rfl rfl rfl rfl rfl
  names := hs.names.openFunction (by rw [ScopeStack.openFunction, hs.outside hfunc]; rfl)
  types := hs.types
  listed := hs.listed
  startup := hs.startup
  cursor := nofun

/-- A body is lowered in a frame of its own, which is closed again. -/
theorem upholds_functionBody (hsteady : ∀ id, Steady (lower id)) (hfunc : s.func = none) {ps : List DeclaratorInfo}
    (hps : ∀ p ∈ ps, p.ty.WellFormed) (id : FuncId) (result : Ty) (body : StmtId) :
    s.Upholds env (functionBody lower id result ps body line) fun _ => True := by
  refine upholds_of_ends fun hs => ?_
  have hopened := hs.openBody hfunc id result
  have hcontents := ((upholds_functionContents hlower rfl hps body).ends hopened).and
    (steadyInside_functionContents line hsteady ps body env _ rfl)
  refine ends_bodyOf line (hs.outside hfunc) hcontents ?_
  rintro t ⟨ht, hleads⟩
  refine ((upholds_finishFunction.ends ht.inPlace).and (steady_finishFunction line env t)).imp ?_
  rintro u ⟨htu, hleads'⟩
  have hu := ht.trans htu
  have hbehind := hleads.trans hleads'
  -- The startup routine is still the one from before the body.
  have hroutine : u.startup.map Startup.id = s.startup.map Startup.id :=
    (hbehind.startup hopened.toIsOrderly).resolve_right fun hnone => Option.some_ne_none _ hnone.1
  have hprev : s.builder.func = none ∨ s.builder.func = u.startup.map Startup.id := hroutine ▸ hs.cursor hfunc
  have ⟨_, hway⟩ := hu.way
  refine ⟨hbehind.depth, ?_⟩
  exact {
    func := hfunc.symm
    home := fun _ => by simpa [State.home, State.closeBody, hfunc] using hroutine
    inPlace := {
      toIsRooted := hu.inPlace.toIsRooted.closeBody rfl rfl rfl rfl
      names := List.forall_mem_singleton.2 (List.forall_mem_cons.1 hu.inPlace.names).1
      types := hu.inPlace.types
      listed := hu.inPlace.listed
      startup := hu.inPlace.startup
      cursor := fun _ => hprev }
    way := ⟨_, ((Way.of_move (.openBody hfunc id result)).trans hway).step (.closeBody hprev)⟩ }

theorem upholds_defineFunction (hsteady : ∀ id, Steady (lower id)) {ps : List DeclaratorInfo}
    (hps : ∀ p ∈ ps, p.ty.WellFormed) (id : FuncId) (name : String) (result : Ty)
    (storage : Storage) (body : StmtId) :
    s.Upholds env (defineFunction lower id name result storage ps body line) fun _ => True := by
  refine .bind_read ?_
  split
  · exact .failWith _ _
  · next houtside =>
    have hfunc : s.func = none := Option.not_isSome_iff_eq_none.1 houtside
    refine .bind_read ?_
    split
    · exact .failWith _ _
    · split
      · have hmake : s.Upholds env (updateBuilder fun b =>
            { b with mod := b.mod.modifyFunction id fun f => { f with linkage := .internal } }) fun _ => True :=
          .of_done rfl (fun hs => hs.stays_of_retains
            (.of_leads ⟨rfl, rfl, s.builder.mod.keeps_modifyLinkage id .internal⟩ rfl rfl rfl rfl) hs.names hs.types
            (.makeInternal s id)) fun _ => trivial
        exact .bind hmake fun _ _ hst _ =>
          upholds_functionBody hlower hsteady (hst.func.trans hfunc) hps id result body
      · exact upholds_functionBody hlower hsteady hfunc hps id result body

theorem upholds_function (hsteady : ∀ id, Steady (lower id)) (decl : FunctionDecl) :
    s.Upholds env (function lower decl line) fun _ => True := by
  refine .bind (.of_yields (yields_resolve _)) fun result _ _ hresult => ?_
  refine .bind (.of_yields (yields_resolveDeclarator _ _ hresult)) fun info _ _ hinfo => ?_
  split
  · exact .failWith _ _
  · next sig hsig =>
    split
    · exact .pure trivial
    · obtain ⟨hresult, hparams⟩ := hinfo.ty.signature hsig
      refine .bind (upholds_declareFunction _ (.ofSignature hresult hparams) _) fun id _ _ _ => ?_
      split
      · exact .pure trivial
      · refine upholds_defineFunction hlower hsteady ?_ id _ _ _ _
        cases hps : info.params with
        | none => exact List.forall_mem_nil _
        | some ps => exact hinfo.params ps hps

end Bodies

end Steps

end Lower

end TreeFlow
