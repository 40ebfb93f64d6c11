import TreeFlow.Proofs.Lowering.Basic
import TreeFlow.Proofs.Lowering.Steady

/-!
# Sound states

Lowering begins in a sound state where all names resolve (`State.isRooted_initial`). What takes a proof that
it leads on are the steps where names are declared, where frames are opened and closed, and where another
function is built for a while: a block (`steady_localScope`), code for the startup routine
(`ends_inStartup`), and the body of a function (`ends_functionBody`). A few steps are steady only inside of a
function, where the names that they declare go to a frame that is closed again.
-/

namespace TreeFlow.Lower

variable {α β : Type}

theorem State.isSound_initial (config : Config) : (State.initial config).IsSound where
  globals := fun _ h => absurd h List.not_mem_nil
  tidy := fun id f h => by
    simp [State.initial, Builder.ofName, Module.function?] at h
  inside := fun h => nomatch h

theorem State.isRooted_initial (config : Config) : (State.initial config).IsRooted where
  toIsSound := isSound_initial config
  toNamesResolve := namesResolve_initial config
  outside _ := rfl
  building _ h := nomatch h

/-! ### Names -/

theorem State.Retains.addFunction (s : State) (name : String) (sig : Signature) (linkage : Linkage) :
    s.Retains { s with builder := (s.builder.declareFunction name sig linkage).2 } :=
  .of_leads ⟨rfl, rfl, s.builder.mod.keeps_addFunction ⟨rfl, rfl⟩⟩ rfl rfl rfl rfl

theorem State.Retains.addGlobal (s : State) (g : Global) : s.Retains { s with builder := (s.builder.addGlobal g).2 } :=
  .of_leads ⟨rfl, rfl, s.builder.mod.keeps_addGlobal g⟩ rfl rfl rfl rfl

theorem Steady.addFunction (name : String) (sig : Signature) (linkage : Linkage) :
    Steady (withBuilder (·.declareFunction name sig linkage)) := fun _ s => .of_retains (.addFunction s name sig linkage)

/-- A name is declared in the innermost frame of a function. -/
theorem State.Leads.defineVar {s t : State} (hst : s.Leads t) (ht : t.func.isSome) (name : String)
    {b : Binding} (hb : s.IsRooted → b.Anchored t.builder.mod (t.func.map OpenFunction.id) none) :
    s.Leads { t with scopes := t.scopes.defineVar name b } := by
  have hdepth : (t.scopes.defineVar name b).locals.length = t.scopes.locals.length := by
    cases hl : t.scopes.locals <;> simp [ScopeStack.defineVar, ScopeStack.modifyTop, hl]
  have hsound : t.IsSound → State.IsSound { t with scopes := t.scopes.defineVar name b } := by
    intro h
    refine ⟨fun entry hentry => h.globals entry ?_, h.tidy, fun hsome hnil => h.inside hsome ?_⟩
    · obtain ⟨top, below, hl⟩ := List.exists_cons_of_ne_nil (h.inside ht)
      simpa [ScopeStack.defineVar, ScopeStack.modifyTop, hl] using hentry
    · exact List.eq_nil_of_length_eq_zero (by rw [← hdepth]; exact congrArg List.length hnil)
  exact {
    func := hst.func
    depth := hdepth.trans hst.depth
    sound := fun h => hsound (hst.sound h)
    rooted := fun h =>
      have hrooted := hst.rooted h
      { toIsSound := hsound hrooted.toIsSound
        toNamesResolve := hrooted.toNamesResolve.defineVar name (hrooted.inside ht) (hb h)
        outside := fun hnone => absurd ht (by rw [hnone]; exact Bool.false_ne_true)
        building := hrooted.building }
    settles := hst.settles.trans (.of_same rfl rfl)
    building := hst.building
    startup := hst.startup }

/-- A new global is declared in the innermost frame of a function. -/
theorem leads_addLocal {s : State} (hs : s.func.isSome) (name : String) (g : Global) :
    s.Leads { s with
      builder := (s.builder.addGlobal g).2
      scopes := s.scopes.defineVar name (.ofVariable g.ty (s.builder.addGlobal g).1) } :=
  have hadded : s.Leads { s with builder := (s.builder.addGlobal g).2 } :=
    .of_retains (.addGlobal s g)
  hadded.defineVar hs name fun _ => (s.builder.anchored_addGlobal g).inside

/-- A constant is declared outside of functions. -/
theorem leads_defineGlobalVar {s : State} {name : String} {b : Binding}
    (hb : b.Anchored s.builder.mod none (some (s.scopes.qualify name))) :
    s.Leads { s with scopes := s.scopes.defineGlobalVar name b } := by
  have hsound : s.IsSound → State.IsSound { s with scopes := s.scopes.defineGlobalVar name b } := fun h =>
    ⟨fun entry hentry => (List.mem_cons.1 hentry).elim (fun heq => heq ▸ hb.exists_const) (h.globals entry),
      h.tidy, h.inside⟩
  exact {
    func := rfl
    depth := rfl
    sound := hsound
    rooted := fun h => {
      toIsSound := hsound h.toIsSound
      toNamesResolve := h.toNamesResolve.defineGlobalVar hb
      outside := h.outside
      building := h.building }
    settles := .of_same rfl rfl
    building := fun _ => rfl
    startup := fun _ => .inl rfl }

/-! ### Inside and outside of functions -/

/-- A step whose outcome is known is followed by the rest. -/
theorem bind_run {m : Lower α} {next : α → Lower β} {env : Env} {s t : State} {a : α}
    (h : m env s = (.done a, t)) : (m >>= next) env s = next a env t := by
  show Lower.bind m next env s = _
  rw [Lower.bind, h]

/-- What two steps yield, the second of them yields from where the first one ends. -/
theorem bind_eq_done {m : Lower α} {next : α → Lower β} {env : Env} {s u : State} {b : β}
    (h : (m >>= next) env s = (.done b, u)) :
    ∃ a t, m env s = (.done a, t) ∧ next a env t = (.done b, u) := by
  change Lower.bind m next env s = (.done b, u) at h
  unfold Lower.bind at h
  split at h
  · next a t hm => exact ⟨a, t, hm, h⟩
  · cases h
  · cases h

/-- A step inside of a function leads from every state to another one. -/
def SteadyInside (m : Lower α) : Prop := ∀ env s, s.func.isSome → Ends m env s s.Leads

namespace SteadyInside

variable {m : Lower α} {next : α → Lower β}

theorem of_steady (h : Steady m) : SteadyInside m := fun env s _ => h env s

theorem bind (hm : SteadyInside m) (hnext : ∀ a, SteadyInside (next a)) :
    SteadyInside (m >>= next) := fun env s hs =>
  (hm env s hs).bind (fun _ h => h) fun a t ht _ =>
    (hnext a env t (ht.func ▸ hs)).after ht

/-- A stack slot is reserved, and it is there. -/
theorem bind_alloca {ty : Ty} {line : Nat} {next : Operand → Lower β}
    (hnext : ∀ slot env t, t.func.isSome →
      (t.IsRooted → (Binding.ofVariable ty slot).Anchored t.builder.mod (t.func.map OpenFunction.id) none) →
      Ends (next slot) env t t.Leads) : SteadyInside (emit line (Build.alloca ty) >>= next) := by
  intro env s hs
  refine (Leaves.emit line (Build.steady_alloca ty) env s).bind (fun _ h => h) fun slot t ht hrun => ?_
  have hsome : t.func.isSome := ht.func ▸ hs
  refine (hnext slot env t hsome fun hrooted => ?_).after ht
  obtain ⟨o, ho⟩ := Option.isSome_iff_exists.1 hsome
  have hbuilding := hrooted.building o ho
  obtain ⟨x, id, f, rfl, hid, hf, hx⟩ := Build.alloca_ok (Leaves.of_emit hrun)
  exact .slot rfl (by rw [ho, ← hid, hbuilding]; rfl) hf hx

end SteadyInside

/-- Outside of functions it does not matter to names which one is being built. -/
theorem State.IsRooted.setFunction {s : State} (h : s.IsRooted) (hfunc : s.func = none) (id : Option FuncId) :
    State.IsRooted { s with builder := s.builder.setFunction id } where
  toIsSound := ⟨h.globals, h.tidy, h.inside⟩
  toNamesResolve := ⟨h.tags, h.globalVars, h.localVars⟩
  outside := h.outside
  building _ ho := nomatch hfunc.symm.trans ho

/-- Outside of functions another one may be built from now on, if it is none that is complete. -/
theorem State.Keeps.setFunction {s t : State} (hst : s.Keeps t) (hfunc : t.func = none) {id : Option FuncId}
    (hid : ∀ i f, s.Settled i f → id ≠ some i) :
    s.Keeps { t with builder := t.builder.setFunction id } where
  func := hst.func
  depth := hst.depth
  sound h := ⟨(hst.sound h).globals, (hst.sound h).tidy, (hst.sound h).inside⟩
  rooted h := (hst.rooted h).setFunction hfunc id
  settles := hst.settles.setFunction rfl rfl hid

/-! ### The startup routine -/

/-- It is noted where the startup routine ends so far. -/
theorem State.Keeps.noteStartup {s t : State} (hst : s.Keeps t) {routine : Startup}
    (hbody : s.IsOrderly → t.HasBody routine.id) (hid : ∀ i f, s.Settled i f → routine.id ≠ i) :
    s.Keeps { t with startup := some routine } where
  func := hst.func
  depth := hst.depth
  sound h := ⟨(hst.sound h).globals, (hst.sound h).tidy, (hst.sound h).inside⟩
  rooted h := (hst.rooted h).of_same rfl rfl rfl rfl
  settles := {
    body := hst.settles.body
    orderly := fun h => ⟨(hst.settles.orderly h).listed, fun _ hroutine => Option.some.inj hroutine ▸ hbody h⟩
    settled := fun i f h =>
      have ht := hst.settles.settled i f h
      ⟨ht.function, ht.body, ht.building, fun _ hroutine => Option.some.inj hroutine ▸ hid i f h⟩ }

/-- Moves the cursor to the end of a routine, or into its first block, and yields the function it was in. -/
def enterRoutine (prev : Option FuncId) (routine : Startup) : Lower (Option FuncId) := do
  updateBuilder (·.setFunction (some routine.id))
  let block ← match routine.block with
    | some block => pure block
    | none => emit 0 Build.newBlock
  setBlock block
  update fun s => { s with startup := some ⟨routine.id, some block⟩ }
  return prev

theorem ends_enterRoutine {env : Env} {s t : State} (hst : s.Keeps t) (hfunc : t.func = none)
    (prev : Option FuncId) {routine : Startup} (hid : ∀ i f, s.Settled i f → routine.id ≠ i)
    (hbody : s.IsOrderly → routine.block.isSome → t.HasBody routine.id) :
    Ends (enterRoutine prev routine) env t s.Keeps := by
  have hnew : ∀ i f, s.Settled i f → some routine.id ≠ some i := fun i f h heq => hid i f h (Option.some.inj heq)
  have hentered := hst.setFunction hfunc hnew
  have hrest : ∀ block u, s.Keeps u → (s.IsOrderly → u.HasBody routine.id) → Ends (do
      setBlock block
      update fun s => { s with startup := some ⟨routine.id, some block⟩ }
      return prev) env u s.Keeps := by
    intro block u hu hbody
    have hset : s.Keeps { u with builder := u.builder.setBlock block } :=
      Chains.trans hu (Leaves.setBlock (R := State.Keeps) block env u)
    exact .bind_of_done rfl (.bind_of_done rfl (.of_done rfl (hset.noteStartup hbody hid)))
  refine .bind_of_done rfl ?_
  cases hblock : routine.block with
  | some block => exact .bind_of_done rfl (hrest block _ hentered fun h => hbody h (by simp [hblock]))
  | none =>
    refine (Leaves.emit (R := State.Keeps) 0 Build.steady_newBlock env _).bind
      (fun _ h => Chains.trans hentered h) fun block u hu hrun => ?_
    refine hrest block u (Chains.trans hentered hu) fun _ => ?_
    obtain ⟨id, f, hbuilding, hf, hne, -⟩ := Build.newBlock_ok (Leaves.of_emit hrun)
    obtain rfl := Option.some.inj hbuilding
    exact ⟨f, hf, hne⟩

/-- A routine that is there is entered. -/
theorem enterRoutine_eq (env : Env) {t : State} (prev : Option FuncId) {routine : Startup} {f : Function}
    (hf : t.builder.mod.function? routine.id = some f) : ∃ block u,
      enterRoutine prev routine env t = (.done prev, u) ∧ u.startup = some ⟨routine.id, block⟩ ∧
        u.builder.func = some routine.id := by
  obtain ⟨id, block⟩ := routine
  cases block with
  | some block => exact ⟨_, _, rfl, rfl, rfl⟩
  | none =>
    have hbuilds : (t.builder.setFunction (some id)).Builds id f := ⟨rfl, hf⟩
    have hnew : emit 0 Build.newBlock env { t with builder := t.builder.setFunction (some id) } = _ :=
      emit_of_ok (Build.newBlock_eq hbuilds)
    refine ⟨f.nextBlock, { t with
      builder := ((t.builder.setFunction (some id)).write id (f.addBlock (f.layout ++ [f.nextBlock])) none).setBlock
        f.nextBlock
      startup := some ⟨id, some f.nextBlock⟩ }, ?_, rfl, rfl⟩
    simp only [enterRoutine, updateBuilder, update, Bind.bind, Lower.bind, hnew]
    rfl

/-- Where there is no startup routine yet, a new function is declared for it. -/
theorem startupRoutine_eq (env : Env) {s : State} (h : s.startup = none) :
    ∃ name : String, startupRoutine env s = (.done ⟨⟨s.builder.mod.functions.size⟩, none⟩,
      { s with builder := (s.builder.declareFunction name ⟨.void, [], false⟩ .internal).2 }) := by
  obtain ⟨builder, scopes, diags, lvalue, loops, func, pending, startup⟩ := s
  obtain rfl : startup = none := h
  exact ⟨".global_ctor." ++ builder.mod.name, rfl⟩

theorem startupRoutine_of_some (env : Env) {s : State} {routine : Startup} (h : s.startup = some routine) :
    startupRoutine env s = (.done routine, s) := by
  simp only [startupRoutine, Bind.bind, Lower.bind, read, h]
  rfl

theorem ends_enterStartup {env : Env} {s : State} (hs : s.func = none) : Ends enterStartup env s s.Keeps := by
  refine .bind_of_done rfl ?_
  cases hstartup : s.startup with
  | some routine =>
    exact .bind_of_done (startupRoutine_of_some env hstartup) (ends_enterRoutine (Chains.refl s) hs _
      (fun i f h => h.startup routine hstartup) fun h _ => h.startup routine hstartup)
  | none =>
    obtain ⟨name, hnew⟩ := startupRoutine_eq env hstartup
    refine .bind_of_done hnew (ends_enterRoutine (.of_retains (.addFunction s name _ _)) hs _
      (fun i f h heq => ?_) fun _ hsome => nomatch hsome)
    obtain ⟨_, hf⟩ := h.function
    have hlt : i.index < s.builder.mod.functions.size := (Array.getElem?_eq_some_iff.1 hf).1
    exact Nat.lt_irrefl _ (heq ▸ hlt)

/-- If all code is in order, the startup routine is entered, and it is the one from before if there was one. -/
theorem enterStartup_eq (env : Env) {s : State} (hs : s.IsOrderly) : ∃ t routine,
    enterStartup env s = (.done s.builder.func, t) ∧ t.startup = some routine ∧
      t.builder.func = some routine.id ∧ ∀ before, s.startup = some before → before.id = routine.id := by
  cases hstartup : s.startup with
  | some routine =>
    obtain ⟨f, hf, -⟩ := hs.startup routine hstartup
    obtain ⟨block, t, ht, hnoted, hbuilding⟩ := enterRoutine_eq env s.builder.func hf
    refine ⟨t, _, ?_, hnoted, hbuilding, fun before hbefore => by rw [Option.some.inj hbefore]⟩
    rw [← ht]
    simp only [enterStartup, Bind.bind, Lower.bind, read, startupRoutine_of_some env hstartup]
    rfl
  | none =>
    obtain ⟨name, hnew⟩ := startupRoutine_eq env hstartup
    let declared : State :=
      { s with builder := (s.builder.declareFunction name ⟨.void, [], false⟩ .internal).2 }
    let routine : Startup := ⟨⟨s.builder.mod.functions.size⟩, none⟩
    have hf : declared.builder.mod.function? routine.id =
        some { name, sig := ⟨.void, [], false⟩, linkage := .internal } := Array.getElem?_push_size
    obtain ⟨block, t, ht, hnoted, hbuilding⟩ := enterRoutine_eq env s.builder.func hf
    refine ⟨t, _, ?_, hnoted, hbuilding, fun _ h => nomatch h⟩
    rw [← ht]
    simp only [enterStartup, Bind.bind, Lower.bind, read, hnew]
    rfl

/-- What was being built before is remembered while the startup routine is. -/
theorem enterStartup_prev {env : Env} {s t : State} {prev : Option FuncId}
    (h : enterStartup env s = (.done prev, t)) : prev = s.builder.func := by
  obtain ⟨_, _, ⟨⟩, h⟩ := bind_eq_done h
  obtain ⟨⟨id, block⟩, _, -, h⟩ := bind_eq_done h
  obtain ⟨_, _, -, h⟩ := bind_eq_done h
  cases block
  all_goals
    dsimp only at h
    obtain ⟨_, _, -, h⟩ := bind_eq_done h
    obtain ⟨_, _, -, h⟩ := bind_eq_done h
    obtain ⟨_, _, -, h⟩ := bind_eq_done h
    cases h
    rfl

/-- The startup routine is left for what was being built before. -/
theorem State.Keeps.leaveStartup {s t : State} (hst : s.Keeps t) (hfunc : t.func = none) {prev : Option FuncId}
    (hprev : ∀ i f, s.Settled i f → prev ≠ some i) : s.Keeps { t with
      startup := t.startup.map fun routine => { routine with block := t.builder.block }
      builder := t.builder.setFunction prev } := by
  have hnote : t.Keeps { t with
      startup := t.startup.map fun routine => { routine with block := t.builder.block } } :=
    .of_retains (.of_same rfl rfl (by simp [Function.comp_def]) rfl rfl)
  exact State.Keeps.setFunction (Chains.trans hst hnote) hfunc hprev

/-- What is done in the startup routine leads on, for what was being built before is taken up again. -/
theorem ends_inStartup {m : Lower α} (hm : Steady m) {env : Env} {s : State} (hs : s.func = none) :
    Ends (inStartup m) env s s.Leads := by
  have hkeeps : Ends (inStartup m) env s s.Keeps := by
    refine (ends_enterStartup hs).bind (fun _ h => h) fun prev t ht hrun => ?_
    obtain rfl := enterStartup_prev hrun
    refine .bind_attempt (hm env t) fun result u hu => ?_
    have hsu : s.Keeps u := Chains.trans ht hu.toKeeps
    have hleft := hsu.leaveStartup (hsu.func.trans hs) fun i f h => h.building
    refine .bind_of_done rfl ?_
    split
    · exact .of_done rfl hleft
    · exact hleft
  by_cases hordered : s.IsOrderly
  · have hcomes : Ends (inStartup m) env s fun v => v.builder.func = s.builder.func ∧
        (v.startup.map Startup.id = s.startup.map Startup.id ∨ s.func = none ∧ s.startup = none) := by
      obtain ⟨t, routine, hrun, hnoted, -, hbefore⟩ := enterStartup_eq env hordered
      have ht := (ends_enterStartup hs).of_eq_done hrun
      refine .bind_of_done hrun (.bind_attempt (hm env t) fun result u hu => ?_)
      have hroutine := hu.startup_id (ht.settles.orderly hordered) hnoted
      have hleft : (u.startup.map fun routine => { routine with block := u.builder.block }).map Startup.id =
          s.startup.map Startup.id ∨ s.func = none ∧ s.startup = none := by
        cases hstartup : s.startup with
        | none => exact .inr ⟨hs, rfl⟩
        | some before =>
          rw [Option.map_map]
          exact .inl (hroutine.trans (congrArg some (hbefore before hstartup).symm))
      refine .bind_of_done rfl ?_
      split
      · exact .of_done rfl ⟨rfl, hleft⟩
      · exact ⟨rfl, hleft⟩
    exact (hkeeps.and hcomes).imp fun v ⟨hv, hbuilding, hstartup⟩ => ⟨hv, fun _ => hbuilding, fun _ => hstartup⟩
  · exact hkeeps.imp fun v hv => ⟨hv, fun h => absurd h hordered, fun h => absurd h hordered⟩

theorem State.Retains.addCtor (s : State) (priority : Nat) (id : FuncId) : s.Retains { s with
    builder := { s.builder with mod := s.builder.mod.addCtor priority id } } :=
  .of_leads ⟨rfl, rfl, .of_functions (.of_same rfl rfl) rfl⟩ rfl rfl rfl rfl

/-! ### Functions -/

section Functions

variable {lower : StmtId → Lower Unit} (line : Nat)

@[grind ←] theorem steady_closeLast (f : OpenFunction) : Steady (closeLast f line) := by
  have hrest : ∀ reached : Bool, Steady (do
      if !reached then emit line Build.unreachable
      else if f.result.isVoid then emit line (Build.ret none)
      else
        report .missingReturnStatement line
        emit line (Build.ret (some (.const (.zero f.result))))) := fun reached => by grind
  refine .bind .currentBlock fun o => ?_
  cases o with
  | none => exact .bind (.pure _) hrest
  | some b =>
    exact .bind (.emit _ (Build.steady_predecessors _)) fun _ => .bind (.read _) fun _ =>
      .bind (.pure _) hrest

@[grind ←] theorem steady_closePending (labels : List PendingLabel) :
    Steady (closePending labels) := by
  induction labels with
  | nil => exact .pure ()
  | cons l rest ih =>
    exact .bind (.report _ _) fun _ => .bind (.setBlock _) fun _ =>
      .bind (.emit _ Build.steady_unreachable) fun _ => ih

@[grind ←] theorem steady_closeBlocks (bs : List BlockId) : Steady (closeBlocks line bs) := by
  induction bs with
  | nil => exact .pure ()
  | cons b rest ih =>
    exact .bind (.setBlock _) fun _ => .bind (.emit _ Build.steady_unreachable) fun _ => ih

/-- What is left to do behind the place where a body ends: the labels that are pending are reported, and
every open block is closed. -/
def closeRest (id : FuncId) : Lower Unit := do
  let labels ← read (·.pending)
  update fun s => { s with pending := [] }
  closePending (sortPending labels)
  match ← functionAt id with
  | none => pure ()
  | some g => closeBlocks line (g.layout.filter fun block => !g.isTerminated block)

theorem steady_closeRest (id : FuncId) : Steady (closeRest line id) :=
  .bind (.read _) fun _ => .bind (fun _ _ => .of_same rfl rfl rfl rfl rfl) fun _ =>
    .bind (steady_closePending _) fun _ => .bind (.read _) fun g => by grind

@[grind ←] theorem steady_finishFunction : Steady (finishFunction line) := by
  refine .bind (.read _) fun o => ?_
  split
  · exact .fail
  · next f =>
    refine .bind (.read _) fun closed => ?_
    split
    · exact .bind (steady_closeLast line f) fun _ => steady_closeRest line f.id
    · exact steady_closeRest line f.id

theorem steadyInside_bindParams (i : Nat) (ps : List DeclaratorInfo) :
    SteadyInside (bindParams i ps) := by
  induction ps generalizing i with
  | nil => exact .of_steady (.pure ())
  | cons p ps ih =>
    unfold bindParams
    split
    · exact .bind (.of_steady (.report _ _)) fun _ => ih _
    · next name _ =>
      refine .bind_alloca fun slot env t hsome hslot => ?_
      -- The store behind it takes nothing away, so the slot is still there when it gets its name.
      refine (Leaves.emit (R := State.Retains) p.line (Build.steady_store slot _) env t).bind
        (fun _ htu => .of_retains htu) fun _ u htu _ => ?_
      have hbound := State.Leads.defineVar (.of_retains htu) (htu.func ▸ hsome) name fun h => by
        rw [htu.func]
        exact (hslot h).mono htu.mod.toRetains
      exact .bind_of_done rfl (.after hbound (ih (i + 1) env _ (htu.func ▸ hsome)))

variable (hlower : ∀ id, Steady (lower id))
include hlower

theorem steadyInside_functionContents (ps : List DeclaratorInfo) (body : StmtId) :
    SteadyInside (functionContents lower ps body line) :=
  .bind (.of_steady (.emit line Build.steady_newBlock)) fun _ => .bind (.of_steady (.setBlock _))
    fun _ => .bind (steadyInside_bindParams 0 ps) fun _ => .of_steady (hlower body)

/-- The state in which a body begins: in a frame of its own, and without a block. -/
def State.openBody (s : State) (id : FuncId) (result : Ty) : State := { s with
  builder := s.builder.setFunction (some id)
  scopes := { s.scopes with locals := [{}], labels := [] }
  func := some ⟨id, ((s.builder.mod.function? id).map Function.name).getD "", result⟩ }

/-- The state behind a body, where another function is taken up again. -/
def State.closeBody (s : State) (prev : Option FuncId) : State := { s with
  builder := s.builder.setFunction prev
  scopes := { s.scopes with locals := [], labels := [] }
  loops := []
  func := none
  pending := [] }

omit hlower in
/-- What a body comes to is told by its contents and its end. -/
theorem ends_bodyOf {env : Env} {s : State} {id : FuncId} {result : Ty} {ps : List DeclaratorInfo}
    {body : StmtId} {P Q : State → Prop} (hlocals : s.scopes.locals = [])
    (hcontents : Ends (functionContents lower ps body line) env (s.openBody id result) P)
    (hfinish : ∀ t, P t → Ends (finishFunction line) env t fun u =>
      u.scopes.locals.length = 1 ∧ Q (u.closeBody s.builder.func)) :
    Ends (functionBody lower id result ps body line) env s Q := by
  have hopen : s.scopes.openFunction = .ok { s.scopes with locals := [{}], labels := [] } := by
    rw [ScopeStack.openFunction, hlocals]
  refine .bind_of_done rfl (.bind_of_done rfl (.bind_of_done rfl (.bind_of_done rfl ?_)))
  dsimp only
  rw [hopen]
  refine .bind_of_done rfl (.bind_attempt hcontents fun lowered t ht => ?_)
  refine .bind_attempt (hfinish t ht) fun finished u hu => ?_
  obtain ⟨frame, hframe⟩ := List.length_eq_one_iff.1 hu.1
  have hclose : u.scopes.closeFunction = .ok { u.scopes with locals := [], labels := [] } := by
    rw [ScopeStack.closeFunction, hframe]
  refine .bind_of_done rfl (.bind_of_done rfl ?_)
  dsimp only
  rw [hclose]
  refine .bind_of_done rfl (.bind_of_done rfl ?_)
  split
  · exact hu.2
  · exact hu.2

/-- A body begins outside of functions, in a frame of its own, which is closed again. -/
theorem ends_functionBody {env : Env} {s : State} (hs : s.func = none) {id : FuncId} (hid : ¬ s.HasBody id)
    (result : Ty) (ps : List DeclaratorInfo) (body : StmtId) :
    Ends (functionBody lower id result ps body line) env s s.Leads := by
  have hnew : ∀ i f, s.Settled i f → some id ≠ some i := fun i f h heq => hid (Option.some.inj heq ▸ h.hasBody)
  cases hlocals : s.scopes.locals with
  | cons frame rest =>
    -- A frame is open already, so the function from before is taken up again.
    have hopen : s.scopes.openFunction = .error .openSecondFunction := by
      rw [ScopeStack.openFunction, hlocals]
    refine .bind_of_done rfl (.bind_of_done rfl (.bind_of_done rfl (.bind_of_done rfl ?_)))
    dsimp only
    rw [hopen]
    have htaken := State.Keeps.setFunction (Chains.refl s) hs hnew
    have hreported := Chains.trans htaken
      (Leaves.report (R := State.Keeps) (.internal ScopeFault.openSecondFunction.message) line env _)
    have hleft := hreported.setFunction hs fun i f h => h.building
    exact .bind_of_done rfl (.bind_of_done rfl ⟨hleft, fun _ => rfl, fun _ => .inl rfl⟩)
  | nil =>
    refine ends_bodyOf line hlocals (steadyInside_functionContents line hlower ps body env _ rfl) fun t ht => ?_
    refine (steady_finishFunction line env t).imp fun u hu => ?_
    have hleads : (s.openBody id result).Leads u := Chains.trans ht hu
    have hopened : s.Settles (s.openBody id result) := (State.Settles.refl s).setFunction rfl rfl hnew
    refine ⟨hleads.depth, ?_⟩
    exact {
      func := hs.symm
      depth := by rw [hlocals]; rfl
      sound := fun h => (hleads.sound (h.of_frames rfl rfl fun _ => List.cons_ne_nil _ _)).of_frames rfl rfl
        fun hsome => absurd hsome Bool.false_ne_true
      rooted := fun h => (hleads.rooted (h.openBody rfl rfl rfl rfl rfl)).closeBody rfl rfl rfl rfl
      settles := (hopened.trans hleads.settles).setFunction rfl rfl fun i f h => h.building
      building := fun _ => rfl
      startup := fun h => .inl ((hleads.startup ⟨h.listed, h.startup⟩).resolve_right fun hnone =>
        Option.some_ne_none _ hnone.1) }

end Functions

/-! ### Blocks -/

/-- A step in a block that was opened is followed by its end. -/
theorem leads_closeBlock {s t : State} {opened : ScopeStack} (hopen : s.scopes.openLocal = .ok opened)
    (ht : State.Leads { s with scopes := opened } t) :
    ∃ scopes, t.scopes.closeLocal = .ok scopes ∧ s.Leads { t with scopes } := by
  obtain ⟨top, below, hl, hopened⟩ := ScopeStack.openLocal_eq_ok hopen
  have hdepth : t.scopes.locals.length = s.scopes.locals.length + 1 := by
    rw [ht.depth, ← hopened]
    rfl
  -- Behind the step the scope that was opened is still the innermost one.
  obtain ⟨a, b, rest, hr⟩ : ∃ a b rest, t.scopes.locals = a :: b :: rest := by
    match hrl : t.scopes.locals with
    | [] => simp [hrl] at hdepth
    | [_] => simp [hrl, hl] at hdepth
    | a :: b :: rest => exact ⟨a, b, rest, rfl⟩
  have hclose : t.scopes.closeLocal = .ok { t.scopes with locals := b :: rest } := by
    simp [ScopeStack.closeLocal, hr]
  refine ⟨_, hclose, ?_⟩
  exact {
    func := ht.func
    depth := by simpa [hr] using hdepth
    sound := fun h => by
      have hsound : State.IsSound { s with scopes := opened } :=
        h.of_frames rfl (by rw [← hopened]) fun _ => by simp [← hopened]
      exact (ht.sound hsound).of_frames rfl rfl fun _ => List.cons_ne_nil _ _
    rooted := fun h => (ht.rooted (h.openBlock hopen)).closeBlock hclose
    settles :=
      have hopened : s.Settles { s with scopes := opened } := .of_same rfl rfl
      (hopened.trans ht.settles).trans (.of_same rfl rfl)
    building := fun h => ht.building ⟨h.listed, h.startup⟩
    startup := fun h => ht.startup ⟨h.listed, h.startup⟩ }

@[grind ←] theorem steady_localScope {m : Lower α} (hm : Steady m) : Steady (localScope m) := by
  intro env s
  unfold Ends localScope
  cases hopen : s.scopes.openLocal with
  | error fault => exact hm env s
  | ok opened =>
    have hrun := hm env { s with scopes := opened }
    unfold Ends at hrun
    dsimp only
    rcases hm' : m env { s with scopes := opened } with ⟨a | _ | _, t⟩
    · rw [hm'] at hrun
      obtain ⟨scopes, hscopes, hleads⟩ := leads_closeBlock hopen hrun
      simpa only [hscopes] using hleads
    · rw [hm'] at hrun
      obtain ⟨scopes, hscopes, hleads⟩ := leads_closeBlock hopen hrun
      simpa only [hscopes] using hleads
    · dsimp only
      cases t.scopes.closeLocal <;> trivial

end TreeFlow.Lower
