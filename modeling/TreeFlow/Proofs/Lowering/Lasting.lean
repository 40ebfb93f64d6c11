import Mathlib.Logic.Relation
import TreeFlow.Proofs.Lowering.Closing
import TreeFlow.Proofs.Lowering.Reached
import TreeFlow.Proofs.Lowering.Spanning

/-!
# Bodies last

A function is closed when its body ends, and from then on it stays as it is: its blocks, their instructions and
terminators, and its signature (`functionBody_lasts`). This holds of all trees, correct or not. Statements may
stop anywhere in a body, and what follows may declare the function once more, try to define it, be an attempt
whose code is thrown away, or add code to the startup routine.

What follows is told by turns (`Turn`). Outside of functions a turn is one thing that is done there, and a body
is one turn, so lowering a unit is a run of turns (`ends_completeUnit_onward`). As with attempts, a body has two
ends: the states inside are reached from its beginning on, and what follows it by taking it as a whole.
-/

namespace TreeFlow.Lower

variable {α : Type} {s t u : State}

/-! ### Turns -/

/-- What lowering does next. -/
inductive Turn : State → State → Prop
  /-- Something is done that takes nothing away. Code only goes to the function that is being built. -/
  | retains {s t : State} (h : s.Retains t) : Turn s t
  /-- Inside of a function anything is lowered. -/
  | inside {s t : State} (hfunc : s.func.isSome) (h : s.Leads t) : Turn s t
  /-- A global or a function gets its name outside of functions. -/
  | name {s : State} {name : String} {b : Binding}
      (hb : b.Anchored s.builder.mod none (some (s.scopes.qualify name))) :
      Turn s { s with scopes := s.scopes.defineGlobalVar name b }
  /-- An attempt begins. -/
  | attempt (s : State) : Turn s { s with builder := s.builder.snapshot.2 }
  | enterStartup {env : Env} {s t : State} {prev : Option FuncId} (hfunc : s.func = none)
      (hrun : enterStartup env s = (.done prev, t)) : Turn s t
  /-- The startup routine is left for no function, or for code around that belongs to it as well. -/
  | leaveStartup {s : State} {prev : Option FuncId} (hfunc : s.func = none)
      (hprev : prev = none ∨ prev = s.startup.map Startup.id) : Turn s { s with
        startup := s.startup.map fun routine => { routine with block := s.builder.block }
        builder := s.builder.setFunction prev }
  | finishStartup {env : Env} {s t : State} (hfunc : s.func = none) (hrun : finishStartup.RunsTo env s t) : Turn s t
  /-- A body begins. -/
  | openBody {s : State} {id : FuncId} (result : Ty) (hfunc : s.func = none) (hid : ¬ s.HasBody id) :
      Turn s (s.openBody id result)
  /-- A whole body is lowered. -/
  | body {env : Env} {s t : State} {depth : Nat} {id : FuncId} {result : Ty} {ps : List DeclaratorInfo}
      {body : StmtId} {line : Nat} (hfunc : s.func = none) (hid : ¬ s.HasBody id)
      (hrun : (functionBody (statementTo depth) id result ps body line).RunsTo env s t) : Turn s t

/-! ### Attempts -/

namespace State

theorem HasBody.snapshot {id : FuncId} (h : s.HasBody id) :
    HasBody { s with builder := s.builder.snapshot.2 } id := by
  obtain ⟨f, hf, hne⟩ := h
  exact ⟨f, (s.builder.function?_snapshot (Array.getElem?_eq_some_iff.1 hf).1).trans hf, hne⟩

theorem IsOrderly.snapshot (h : s.IsOrderly) : IsOrderly { s with builder := s.builder.snapshot.2 } where
  listed := Builder.forall_snapshot h.listed
    (fun f hf => (Function.Develops.addBlock fun b hb => by simpa [or_comm] using hb).listed hf)
    fun _ _ _ => Function.IsBlank.isListed ⟨rfl, rfl⟩
  startup routine hroutine := (h.startup routine hroutine).snapshot

theorem settles_snapshot (s : State) : s.Settles { s with builder := s.builder.snapshot.2 } where
  body _ h := h.snapshot
  orderly h := h.snapshot
  settled id f h := by
    obtain ⟨linkage, hf⟩ := h.function
    have hlt : id.index < s.builder.mod.functions.size := (Array.getElem?_eq_some_iff.1 hf).1
    exact ⟨⟨linkage, (s.builder.function?_snapshot hlt).trans hf⟩, h.body,
      s.builder.func_snapshot_ne hlt h.building, h.startup⟩

/-- The scratch function of an attempt has a body. -/
theorem IsPoised.snapshot (h : s.IsPoised) : IsPoised { s with builder := s.builder.snapshot.2 } where
  toIsRooted := h.toIsRooted.snapshot
  toIsOrderly := h.toIsOrderly.snapshot
  target hfunc id hid := by
    cases hbuilding : s.builder.func with
    | some current =>
      obtain rfl : current = id := by simpa [Builder.snapshot, hbuilding] using hid
      exact (h.target hfunc current hbuilding).snapshot
    | none =>
      obtain ⟨scratch, f, ⟨hfunc, hf⟩, hne⟩ := s.builder.exists_scratch hbuilding
      obtain rfl : scratch = id := Option.some.inj (hfunc.symm.trans hid)
      exact ⟨f, hf, hne⟩

end State

/-! ### One turn -/

theorem State.isPoised_initial (config : Config) : (State.initial config).IsPoised where
  toIsRooted := isRooted_initial config
  listed id f h := by simp [State.initial, Builder.ofName, Module.function?] at h
  startup _ h := nomatch h
  target _ _ h := nomatch h

theorem State.IsPoised.of_leads (h : s.IsPoised) (hst : s.Leads t) : t.IsPoised where
  toIsRooted := hst.rooted h.toIsRooted
  toIsOrderly := hst.settles.orderly h.toIsOrderly
  target hfunc id hid := hst.settles.body id
    (h.target (hst.func ▸ hfunc) id ((hst.building h.toIsOrderly).symm.trans hid))

/-- The startup routine may be finished once all is lowered. -/
theorem ends_finishStartup {env : Env} (h : s.IsPoised) (hs : s.func = none) :
    Ends finishStartup env s fun t => t.IsPoised ∧ s.Settles t := by
  have hleads : ∀ {u v : State}, u.IsPoised ∧ s.Settles u → u.Leads v → v.IsPoised ∧ s.Settles v :=
    fun hu huv => ⟨hu.1.of_leads huv, hu.2.trans huv.settles⟩
  have hrest : ∀ id u, u.IsPoised ∧ s.Settles u → u.func = none → Ends (do
      emit 0 (Build.ret none)
      updateBuilder (·.setFunction none)
      let priority := (← Lower.env).config.ctorPriority
      updateBuilder fun b => { b with mod := b.mod.addCtor priority id }) env u
        fun v => v.IsPoised ∧ s.Settles v := by
    intro id u hu hnone
    refine (Leaves.emit (R := State.Leads) 0 (Build.steady_ret none) env u).bind (fun v hv => hleads hu hv)
      fun _ v hv _ => ?_
    obtain ⟨hpoised, hsettles⟩ := hleads hu hv
    have hleft : State.IsPoised { v with builder := v.builder.setFunction none } := {
      toIsRooted := hpoised.toIsRooted.setFunction (hv.func.trans hnone) none
      listed := hpoised.listed
      startup := hpoised.startup
      target := nofun }
    refine .bind_of_done rfl (.bind_of_done rfl ?_)
    exact hleads ⟨hleft, hsettles.setFunction rfl rfl nofun⟩ (.of_retains (.addCtor _ _ id))
  refine .bind_of_done rfl ?_
  split
  · exact .of_done rfl ⟨h, .refl s⟩
  · next routine hroutine =>
    have hentered : State.IsPoised { s with
        startup := none, builder := s.builder.setFunction (some routine.id) } := {
      toIsRooted := (h.toIsRooted.of_same (t := { s with startup := none }) rfl rfl rfl rfl).setFunction hs _
      listed := h.listed
      startup := nofun
      target := fun _ id hid => Option.some.inj hid ▸ h.startup routine hroutine }
    have hsettles : s.Settles { s with startup := none, builder := s.builder.setFunction (some routine.id) } := {
      body := fun _ hbody => hbody
      orderly := fun horderly => ⟨horderly.listed, nofun⟩
      settled := fun id f hsettled => ⟨hsettled.function, hsettled.body,
        fun heq => hsettled.startup routine hroutine (Option.some.inj heq), nofun⟩ }
    refine .bind_of_done rfl (.bind_of_done rfl ?_)
    split
    · next block _ =>
      refine .bind_of_done rfl (hrest routine.id _ (hleads ⟨hentered, hsettles⟩ ?_) hs)
      exact Leaves.setBlock (R := State.Leads) block env _
    · exact hrest routine.id _ ⟨hentered, hsettles⟩ hs

/-- **One turn leaves alone what is complete**, and it leaves all in order. -/
theorem Turn.settles (hst : Turn s t) (h : s.IsPoised) : t.IsPoised ∧ s.Settles t := by
  have hleads : s.Leads t → t.IsPoised ∧ s.Settles t := fun hst => ⟨h.of_leads hst, hst.settles⟩
  cases hst with
  | retains hst => exact hleads (.of_retains hst)
  | inside _ hst => exact hleads hst
  | name hb => exact hleads (leads_defineGlobalVar hb)
  | attempt => exact ⟨h.snapshot, s.settles_snapshot⟩
  | enterStartup hfunc hrun =>
    have hkeeps := (ends_enterStartup hfunc).of_eq_done hrun
    obtain ⟨t', routine, hrun', hnoted, hbuilding, -⟩ := enterStartup_eq _ h.toIsOrderly
    obtain rfl : t' = t := congrArg Prod.snd (hrun'.symm.trans hrun)
    have horderly := hkeeps.settles.orderly h.toIsOrderly
    refine ⟨⟨hkeeps.rooted h.toIsRooted, horderly, fun _ id hid => ?_⟩, hkeeps.settles⟩
    exact Option.some.inj (hbuilding.symm.trans hid) ▸ horderly.startup routine hnoted
  | @leaveStartup _ prev hfunc hprev =>
    have hroutine : ∀ id, prev = some id → ∃ routine, s.startup = some routine ∧ routine.id = id := by
      rintro id rfl
      exact Option.map_eq_some_iff.1 (hprev.resolve_left (Option.some_ne_none id)).symm
    have hnew : ∀ i f, s.Settled i f → prev ≠ some i := fun i f hsettled heq => by
      obtain ⟨routine, hstartup, hid⟩ := hroutine i heq
      exact hsettled.startup routine hstartup hid
    have hkeeps := State.Keeps.leaveStartup (Chains.refl s) hfunc hnew
    refine ⟨⟨hkeeps.rooted h.toIsRooted, hkeeps.settles.orderly h.toIsOrderly, fun _ id hid => ?_⟩, hkeeps.settles⟩
    obtain ⟨routine, hstartup, rfl⟩ := hroutine id hid
    exact h.startup routine hstartup
  | finishStartup hfunc hrun => exact (ends_finishStartup h hfunc).of_runsTo hrun
  | @openBody _ id result hfunc hid =>
    have hnew : ∀ i f, s.Settled i f → some id ≠ some i := fun i f hsettled heq =>
      hid (Option.some.inj heq ▸ hsettled.hasBody)
    refine ⟨⟨h.openBody rfl rfl rfl rfl rfl, ⟨h.listed, h.startup⟩, nofun⟩, ?_⟩
    exact (State.Settles.refl s).setFunction rfl rfl hnew
  | body hfunc hid hrun =>
    exact hleads ((ends_functionBody _ (steady_statementTo _) hfunc hid _ _ _).of_runsTo hrun)

/-! ### Runs of turns -/

/-- Lowering leads from a state to another one, turn by turn. -/
def Onward : State → State → Prop := Relation.ReflTransGen Turn

namespace Onward

theorem of_turn (h : Turn s t) : Onward s t := .single h

theorem trans (hst : Onward s t) (htu : Onward t u) : Onward s u := Relation.ReflTransGen.trans hst htu

/-- All along the way what is complete is left alone. -/
theorem settles (hst : Onward s t) (h : s.IsPoised) : t.IsPoised ∧ s.Settles t := by
  induction hst with
  | refl => exact ⟨h, .refl s⟩
  | tail _ hturn ih =>
    obtain ⟨ht, hst⟩ := ih
    obtain ⟨hu, htu⟩ := hturn.settles ht
    exact ⟨hu, hst.trans htu⟩

end Onward

/-! ### Whole units -/

/-- A state outside of functions. Nothing is built there, or the startup routine is. -/
structure State.IsOutside (s : State) : Prop extends s.IsPoised where
  func : s.func = none
  cursor : s.builder.func = none ∨ s.builder.func = s.startup.map Startup.id

theorem State.IsOutside.of_leads (h : s.IsOutside) (hst : s.Leads t) : t.IsOutside where
  toIsPoised := h.toIsPoised.of_leads hst
  func := hst.func.trans h.func
  cursor := by
    rw [hst.building h.toIsOrderly]
    rcases hst.startup h.toIsOrderly with hsame | ⟨-, hnone⟩
    · rw [hsame]
      exact h.cursor
    · exact .inl (h.cursor.elim id fun heq => by rw [heq, hnone]; rfl)

/-- A step led on, and outside of functions it did so by turns. -/
structure State.Proceeds (s t : State) : Prop where
  leads : s.Leads t
  onward : s.IsOutside → Onward s t

theorem State.Proceeds.of_retains (h : s.Retains t) : s.Proceeds t := ⟨.of_retains h, fun _ => .of_turn (.retains h)⟩

instance : Lenient State.Proceeds where
  of_peeks h := .of_retains h.retains
  trans hst htu := ⟨hst.leads.trans htu.leads, fun h =>
    (hst.onward h).trans (htu.onward (h.of_leads hst.leads))⟩

theorem proceeds_localScope {m : Lower α} (hm : Leaves State.Proceeds m) : Leaves State.Proceeds (localScope m) := by
  intro env s
  by_cases hs : s.IsOutside
  · -- Outside of functions no frame is opened.
    have hopen : s.scopes.openLocal = .error .openBlockOutside := by
      rw [ScopeStack.openLocal, hs.outside hs.func]
    refine .of_eq (n := m) ?_ (hm env s)
    simp only [localScope, hopen]
  · have hleads := steady_localScope (fun env s => (hm env s).imp fun _ ht => ht.leads) env s
    exact hleads.imp fun t ht => ⟨ht, fun h => absurd h hs⟩

theorem proceeds_inStartup {m : Lower α} (hm : Leaves State.Proceeds m) {env : Env} (hs : s.func = none) :
    Ends (inStartup m) env s s.Proceeds := by
  have hleads : Ends (inStartup m) env s s.Leads :=
    ends_inStartup (fun env s => (hm env s).imp fun _ ht => ht.leads) hs
  by_cases hout : s.IsOutside
  · have honward : Ends (inStartup m) env s (Onward s) := by
      obtain ⟨t, routine, hrun, hnoted, hbuilding, hbefore⟩ := enterStartup_eq env hout.toIsOrderly
      have hentered : Turn s t := .enterStartup hs hrun
      have hkeeps := (ends_enterStartup hs).of_eq_done hrun
      have ht : t.IsOutside := {
        toIsPoised := (hentered.settles hout.toIsPoised).1
        func := hkeeps.func.trans hs
        cursor := .inr (by rw [hbuilding, hnoted]; rfl) }
      refine .bind_of_done hrun (.bind_attempt (hm env t) fun result u hu => ?_)
      have hroutine := hu.leads.startup_id ht.toIsOrderly hnoted
      have hprev : s.builder.func = none ∨ s.builder.func = u.startup.map Startup.id := by
        rcases hout.cursor with hnone | hsame
        · exact .inl hnone
        · cases hstartup : s.startup with
          | none => exact .inl (by rw [hsame, hstartup]; rfl)
          | some before =>
            rw [hsame, hstartup, hroutine]
            exact .inr (congrArg some (hbefore before hstartup))
      have hleft := (Onward.of_turn hentered).trans ((hu.onward ht).trans
        (.of_turn (.leaveStartup (hu.leads.func.trans ht.func) hprev)))
      refine .bind_of_done rfl ?_
      split
      · exact .of_done rfl hleft
      · exact hleft
    exact (hleads.and honward).imp fun t ht => ⟨ht.1, fun _ => ht.2⟩
  · exact hleads.imp fun t ht => ⟨ht, fun h => absurd h hout⟩

instance : Spans State.Proceeds where
  func h := h.leads.func
  of_retains := .of_retains
  inside hsome h := ⟨h, fun hs => absurd hsome (by simp [hs.func])⟩
  defineGlobalVar hb := ⟨leads_defineGlobalVar hb, fun _ => .of_turn (.name hb)⟩
  localScope := proceeds_localScope
  inStartup hm hs := proceeds_inStartup hm hs
  functionBody hlower _ _ _ hs hid result ps body line :=
    (ends_functionBody line (steady_statementTo _) hs hid result ps body).with_run.imp fun t ⟨ht, hrun⟩ =>
      ⟨ht, fun _ => .of_turn (.body hs hid hrun)⟩

theorem State.isOutside_initial (config : Config) : (State.initial config).IsOutside where
  toIsPoised := isPoised_initial config
  func := rfl
  cursor := .inl rfl

/-- **Statements are lowered by turns**, however deep. -/
theorem ends_statementTo_onward (env : Env) (depth : Nat) (id : StmtId) (hs : s.IsOutside) :
    Ends (statementTo depth id) env s fun t => Onward s t ∧ t.IsOutside :=
  (spans_statementTo (R := State.Proceeds) depth id env s).imp fun _ ht => ⟨ht.onward hs, hs.of_leads ht.leads⟩

/-- **A unit is lowered by turns.** -/
theorem ends_completeUnit_onward {σ : Type} (env : Env) (hook : DiagnosticHook σ) (start : σ) :
    Ends (completeUnit hook start) env (.initial env.config) (Onward (.initial env.config)) := by
  have hunit : Ends (unit hook start) env (.initial env.config) (State.Proceeds (.initial env.config)) :=
    .bind_of_done rfl (spans_declarations hook _ start env _)
  have hstart := State.isOutside_initial env.config
  refine hunit.bind (fun t ht => ht.onward hstart) fun acc t ht _ => ?_
  have houtside : t.IsOutside := hstart.of_leads ht.leads
  have hfinished : Ends finishStartup env t (Onward (.initial env.config)) :=
    (ends_finishStartup houtside.toIsPoised houtside.func).with_run.imp fun u hu =>
      (ht.onward hstart).trans (.of_turn (.finishStartup houtside.func hu.2))
  exact (hfinished.bind_attempt fun _ u hu => .of_done rfl hu).bind (fun _ hu => hu) fun _ u hu _ => .of_done rfl hu

/-! ### Complete functions -/

/-- The tree of `{ goto out; break; }`. -/
def strayTree : Tree where
  stmts := #[⟨.goto "out", 1⟩, ⟨.brk, 1⟩, ⟨.block [⟨0⟩, ⟨1⟩], 1⟩]

end TreeFlow.Lower
