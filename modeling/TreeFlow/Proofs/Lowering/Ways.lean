import TreeFlow.Proofs.Lowering.Spanning
import TreeFlow.Proofs.Lowering.Typed

/-!
# The ways that lowering takes

All that statements and declarations do comes down to a few kinds of moves (`Move`): an expression is lowered or
code is emitted; a loop is entered or left; a label is jumped to or placed; a block is opened or closed; a name is
declared; a body begins or ends; and the startup routine is entered or left. Whatever the tree is, lowering it is a
run of moves (`Way`), through all that is nested in it. So what is to hold wherever lowering is has to be looked
at once for each kind of move, and then for a run of them by induction.

Some things that one would expect of later states are lost for good once something particular has happened on the
way. Such events are listed along the way (`Event`), so that it can be said what holds as long as none of them occurs.

What never gets lost are functions, their blocks and instructions, and globals (`Way.retains`).
-/

namespace TreeFlow.Lower

/-! ### What moves are about -/

/-- The function that code belongs to: the one whose body is lowered, or else the startup routine. -/
def State.home (s : State) : Option FuncId := (s.func.map OpenFunction.id).or (s.startup.map Startup.id)

/-- A block belongs to the function that code belongs to. -/
def State.Owns (s : State) (block : BlockId) : Prop :=
  ∃ id f, s.home = some id ∧ s.builder.mod.function? id = some f ∧ f.Has block

/-- Outside of functions code belongs to the startup routine, or nowhere. -/
theorem State.home_of_func_eq_none {s : State} (h : s.func = none) : s.home = s.startup.map Startup.id := by
  rw [State.home, h]
  rfl

theorem State.Owns.home_isSome {s : State} {block : BlockId} (h : s.Owns block) : s.home.isSome := by
  obtain ⟨id, f, hhome, -, -⟩ := h
  rw [hhome]
  rfl

/-- A block stays with its function. -/
theorem State.Owns.later {s t : State} {block : BlockId} (h : s.Owns block) (hhome : s.home.isSome → t.home = s.home)
    (hmod : s.builder.mod.Retains t.builder.mod) : t.Owns block := by
  have hsame := hhome h.home_isSome
  obtain ⟨id, f, hid, hf, hblock⟩ := h
  obtain ⟨g, hg, hfg⟩ := hmod.function id f hf
  exact ⟨id, g, hsame.trans hid, hg, Nat.lt_of_lt_of_le hblock hfg.blocks⟩

/-- The block of a label that was jumped to and not placed so far. -/
def State.awaited? (s : State) (name : String) : Option BlockId :=
  (s.pending.find? (·.name == name)).map PendingLabel.block

/-- If no label of a name is awaited, none is taken out. -/
theorem State.filter_pending {s : State} {name : String} (h : s.pending.find? (·.name == name) = none) :
    s.pending.filter (·.name != name) = s.pending :=
  List.filter_eq_self.2 fun label hlabel => by simpa using List.find?_eq_none.1 h label hlabel

/-- Where a jump to a label leads: to where it was placed, or to where it is awaited. -/
def State.target? (s : State) (name : String) : Option BlockId := (s.scopes.label? name).or (s.awaited? name)

/-- Nothing changed but functions, their code, and what is noted of the startup routine. -/
structure State.Adds (s t : State) : Prop where
  func : t.func = s.func
  scopes : t.scopes = s.scopes
  loops : t.loops = s.loops
  pending : t.pending = s.pending
  types : t.builder.mod.types = s.builder.mod.types
  globals : t.builder.mod.globals = s.builder.mod.globals
  retains : s.builder.mod.Retains t.builder.mod

instance : Chains State.Adds where
  of_quiet _ _ _ := ⟨rfl, rfl, rfl, rfl, rfl, rfl, .refl _⟩
  trans hst htu := ⟨htu.func.trans hst.func, htu.scopes.trans hst.scopes, htu.loops.trans hst.loops,
    htu.pending.trans hst.pending, htu.types.trans hst.types, htu.globals.trans hst.globals,
    hst.retains.trans htu.retains⟩

/-- The startup routine was entered, the one from before if there was one. -/
structure State.Enters (s t : State) : Prop extends s.Adds t where
  routine : ∀ before, s.startup = some before → t.startup.map Startup.id = some before.id
  building : t.builder.func = t.startup.map Startup.id

/-! ### Moves -/

/-- What later states may suffer from. -/
inductive Event where
  /-- In a function a foreign variable got a global of its own, since none of its name and type was declared
  outside of functions so far. -/
  | foreign (id : GlobalId)
  /-- A body began inside of a loop, or while labels were awaited, outside of functions. -/
  | amid
  /-- Inside of a function the namespace changed. -/
  | renamed
  /-- The labels of a body were settled, or the body ended. -/
  | ended
  deriving DecidableEq, Repr

/-- What lowering does next, with the event that it is, if any. -/
inductive Move : State → List Event → State → Prop
  /-- An expression, a specifier or a declarator was lowered, code was emitted, or something was reported. -/
  | peeks {s t : State} (h : s.Peeks t) : Move s [] t
  | openLoop {s : State} {targets : LoopTargets} (hbrk : s.Owns targets.brk) (hcont : s.Owns targets.cont) :
      Move s [] { s with loops := targets :: s.loops }
  | closeLoop (s : State) : Move s [] { s with loops := s.loops.tail }
  /-- A label is jumped to that leads nowhere so far. -/
  | await {s : State} (label : PendingLabel) (hnew : s.target? label.name = none) (hblock : s.Owns label.block) :
      Move s [] { s with pending := s.pending ++ [label] }
  /-- A label is placed where it is awaited, or at a block of its own. -/
  | place {s : State} {name : String} {block : BlockId} {scopes : ScopeStack} (hnew : s.scopes.label? name = none)
      (hblock : s.awaited? name = some block ∨ s.awaited? name = none ∧ s.Owns block)
      (hplace : s.scopes.defineLabel name block = .ok scopes) :
      Move s [] { s with pending := s.pending.filter (·.name != name), scopes }
  /-- Outside of functions no label can be placed, but it is not awaited any more. -/
  | forget {s : State} (hfunc : s.func = none) (name : String) :
      Move s [] { s with pending := s.pending.filter (·.name != name) }
  /-- The labels that are still awaited are settled. -/
  | settle (s : State) : Move s [.ended] { s with pending := [] }
  | rename (s : State) (path : NamespacePath) :
      Move s (if s.func.isSome then [.renamed] else []) { s with scopes := { s.scopes with path } }
  | openBlock {s : State} {scopes : ScopeStack} (hopen : s.scopes.openLocal = .ok scopes) : Move s [] { s with scopes }
  | closeBlock {s : State} {scopes : ScopeStack} (hclose : s.scopes.closeLocal = .ok scopes) :
      Move s [] { s with scopes }
  | typeName (s : State) (name : String) (ty : Ty) : Move s [] { s with scopes := s.scopes.defineType name ty }
  /-- In a function a name gets a meaning. -/
  | localName {s : State} (hlocals : s.scopes.locals ≠ []) (name : String) (b : Binding) :
      Move s [] { s with scopes := s.scopes.defineVar name b }
  | foreign {s : State} {name : String} {ty : Ty} (hfunc : s.func.isSome)
      (hunknown : ∀ b, s.scopes.globalVar? name = some b → b.ty = ty → b.isFunction = true) :
      Move s [.foreign ⟨s.builder.mod.globals.size⟩] { s with
        builder := (s.builder.addGlobal { name, ty, linkage := .external, init := none, constant := false }).2 }
  /-- Outside of functions a variable is declared whose full name is new. -/
  | variable {s : State} {name : String} {g : Global} (hname : g.name = s.scopes.qualify name)
      (hnew : s.scopes.globalVar? g.name = none) : Move s [] { s with
        builder := (s.builder.addGlobal g).2
        scopes := s.scopes.defineGlobalVar name (.ofVariable g.ty (s.builder.addGlobal g).1) }
  /-- The initial value of a global is set. -/
  | modifyGlobal {s : State} (id : GlobalId) {change : Global → Global} (hname : ∀ g, (change g).name = g.name)
      (hty : ∀ g, (change g).ty = g.ty) (hlinkage : ∀ g, (change g).linkage = g.linkage) :
      Move s [] { s with builder := { s.builder with mod := s.builder.mod.modifyGlobal id change } }
  /-- A function is declared whose full name is new. -/
  | function {s : State} {name : String} (hnew : s.scopes.globalVar? (s.scopes.qualify name) = none) (sig : Signature)
      (linkage : Linkage) : Move s [] { s with
        builder := (s.builder.declareFunction (s.scopes.qualify name) sig linkage).2
        scopes := s.scopes.defineGlobalVar name (.ofFunction (.ofSignature sig)
          ((s.builder.declareFunction (s.scopes.qualify name) sig linkage).2.functionRef
            (s.builder.declareFunction (s.scopes.qualify name) sig linkage).1)) }
  | makeInternal (s : State) (id : FuncId) : Move s [] { s with builder := { s.builder with
      mod := s.builder.mod.modifyFunction id fun f => { f with linkage := .internal } } }
  | openBody {s : State} (hfunc : s.func = none) (id : FuncId) (result : Ty) :
      Move s (if s.loops = [] ∧ s.pending = [] then [] else [.amid]) (s.openBody id result)
  /-- A body ends, and code for the startup routine is taken up again if the body began amid such code. -/
  | closeBody {s : State} {prev : Option FuncId} (hprev : prev = none ∨ prev = s.startup.map Startup.id) :
      Move s [.ended] (s.closeBody prev)
  | enterStartup {s t : State} (hfunc : s.func = none) (h : s.Enters t) : Move s [] t
  | leaveStartup {s : State} {prev : Option FuncId} (hfunc : s.func = none)
      (hprev : prev = none ∨ prev = s.startup.map Startup.id) : Move s [] { s with
        startup := s.startup.map fun routine => { routine with block := s.builder.block }
        builder := s.builder.setFunction prev }

/-! ### Ways -/

/-- Lowering goes from one state to another, move by move, with the events on the way. -/
inductive Way : State → List Event → State → Prop
  | refl (s : State) : Way s [] s
  | step {s t u : State} {events more : List Event} (h : Way s events t) (hmove : Move t more u) :
      Way s (events ++ more) u

variable {s t u : State} {events more : List Event}

theorem Way.of_move (h : Move s events t) : Way s events t := by
  have hway := Way.step (.refl s) h
  rwa [List.nil_append] at hway

theorem Way.trans (hst : Way s events t) (htu : Way t more u) : Way s (events ++ more) u := by
  induction htu with
  | refl => rwa [List.append_nil]
  | step _ hmove ih =>
    rw [← List.append_assoc]
    exact ih.step hmove

/-- **No move takes a function, a block, an instruction or a global away.** -/
theorem Move.retains (h : Move s events t) : s.builder.mod.Retains t.builder.mod := by
  cases h with
  | peeks h => exact h.mod.retains
  | foreign => exact s.builder.mod.retains_addGlobal _
  | «variable» => exact s.builder.mod.retains_addGlobal _
  | modifyGlobal id hname hty => exact s.builder.mod.retains_modifyGlobal id hname hty
  | function => exact s.builder.mod.retains_addFunction _
  | makeInternal id => exact s.builder.mod.retains_modifyFunction id fun _ _ => .of_insts rfl rfl rfl (Nat.le_refl _)
  | enterStartup _ h => exact h.retains
  | _ => exact .refl _

/-- Nothing is taken away on the way. -/
theorem Way.retains (h : Way s events t) : s.builder.mod.Retains t.builder.mod := by
  induction h with
  | refl => exact .refl _
  | step _ hmove ih => exact ih.trans hmove.retains

/-! ### States in order -/

/-- What is known of a state between two steps. Types are in order, and so is the code. Outside of functions none is
being built but the startup routine. -/
structure State.InPlace (s : State) : Prop extends s.IsTyped, s.IsOrderly where
  cursor : s.func = none → s.builder.func = none ∨ s.builder.func = s.startup.map Startup.id

theorem State.inPlace_initial (config : Config) : (State.initial config).InPlace where
  toIsTyped := isTyped_initial config
  listed id f hf := by simp [State.initial, Builder.ofName, Module.function?] at hf
  startup _ h := nomatch h
  cursor _ := .inl rfl

/-- A state in order, in the same function or outside of functions as before, and there is a way to it. -/
structure State.Stays (s t : State) : Prop where
  func : t.func = s.func
  home : s.home.isSome → t.home = s.home
  inPlace : t.InPlace
  way : ∃ events, Way s events t

theorem State.Stays.trans {s t u : State} (hst : s.Stays t) (htu : t.Stays u) : s.Stays u where
  func := htu.func.trans hst.func
  home h := (htu.home (by rwa [hst.home h])).trans (hst.home h)
  inPlace := htu.inPlace
  way :=
    have ⟨_, hst⟩ := hst.way
    have ⟨_, htu⟩ := htu.way
    ⟨_, hst.trans htu⟩

/-- A block stays with the function that code belongs to. -/
theorem State.Stays.owns {s t : State} {block : BlockId} (hst : s.Stays t) (h : s.Owns block) : t.Owns block :=
  have ⟨_, hway⟩ := hst.way
  h.later hst.home hway.retains

/-- Outside of functions, what was being built before is still the startup routine if it was. -/
theorem State.Stays.previous {s t : State} {prev : Option FuncId} (hst : s.Stays t) (hfunc : s.func = none)
    (hprev : prev = none ∨ prev = s.startup.map Startup.id) : prev = none ∨ prev = t.startup.map Startup.id := by
  cases hstartup : s.startup with
  | none => exact .inl (hprev.elim id fun h => by rw [h, hstartup]; rfl)
  | some routine =>
    have hhome := hst.home (by simp [State.home, hstartup])
    rw [State.home_of_func_eq_none hfunc, State.home_of_func_eq_none (hst.func.trans hfunc)] at hhome
    exact hprev.imp_right fun h => h.trans hhome.symm

namespace State.InPlace

variable {s t : State} {events : List Event}

/-- What is being built is what code belongs to. -/
theorem home (h : s.InPlace) {id : FuncId} (hbuilding : s.builder.func = some id) : s.home = some id := by
  cases hfunc : s.func with
  | some o => simp [State.home, hfunc, ← h.building o hfunc, hbuilding]
  | none =>
    rcases h.cursor hfunc with hnone | hroutine
    · exact nomatch hnone.symm.trans hbuilding
    · simp [State.home, hfunc, ← hroutine, hbuilding]

/-- A move led to a state where types are in order again. -/
theorem stays_of_leads (h : s.InPlace) (hst : s.Leads t) (hnames : t.scopes.All Ty.WellFormed Binding.IsTyped)
    (htypes : t.builder.mod.types.IsTyped) (hmove : Move s events t) : s.Stays t where
  func := hst.func
  home hsome := by
    unfold State.home at hsome ⊢
    rw [hst.func]
    cases hfunc : s.func with
    | some o => rfl
    | none =>
      rw [hfunc] at hsome
      rcases hst.startup h.toIsOrderly with hsame | ⟨-, hnone⟩
      · rw [hsame]
      · simp [hnone] at hsome
  inPlace := {
    toIsTyped := ⟨hst.rooted h.toIsRooted, hnames, htypes⟩
    toIsOrderly := hst.settles.orderly h.toIsOrderly
    cursor := fun hfunc => by
      rw [hst.building h.toIsOrderly]
      have hcursor := h.cursor (hst.func.symm.trans hfunc)
      rcases hst.startup h.toIsOrderly with hsame | ⟨-, hnone⟩
      · rwa [hsame]
      · exact .inl (hcursor.elim id fun hroutine => by rw [hroutine, hnone]; rfl) }
  way := ⟨_, .of_move hmove⟩

theorem stays_of_retains (h : s.InPlace) (hst : s.Retains t) (hnames : t.scopes.All Ty.WellFormed Binding.IsTyped)
    (htypes : t.builder.mod.types.IsTyped) (hmove : Move s events t) : s.Stays t :=
  h.stays_of_leads (.of_retains hst) hnames htypes hmove

/-- Nothing changed but what types have nothing to do with. -/
theorem stays_of_same (h : s.InPlace) (hfunc : t.func = s.func) (hbuilder : t.builder = s.builder)
    (hstartup : t.startup = s.startup) (hglobal : t.scopes.global = s.scopes.global)
    (hlocals : t.scopes.locals = s.scopes.locals) (hmove : Move s events t) : s.Stays t := by
  refine h.stays_of_retains (.of_same hfunc hbuilder (by rw [hstartup]) hglobal hlocals) ?_ (hbuilder ▸ h.types) hmove
  have hnames := h.names
  unfold ScopeStack.All ScopeStack.frames at hnames ⊢
  rwa [hglobal, hlocals]

end State.InPlace

instance : KeepsTypes State.InPlace State.Stays where
  isTyped h := h.toIsTyped
  of_goesTo hs h := hs.stays_of_retains h.retains (hs.later h).names h.types (.peeks h.toPeeks)
  trans := .trans
  keeps hst _ := hst.inPlace

/-- From a state that is in order a step comes to another one, and what it yields satisfies a condition. -/
abbrev State.Upholds (s : State) (env : Env) (m : Lower α) (P : α → Prop) : Prop :=
  State.Comes State.InPlace State.Stays s env m fun _ a => P a

end TreeFlow.Lower
