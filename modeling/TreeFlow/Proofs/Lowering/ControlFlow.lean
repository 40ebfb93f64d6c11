import TreeFlow.Proofs.Lowering.Apart
import TreeFlow.Proofs.Lowering.Following
import TreeFlow.Proofs.Lowering.Strictness
import TreeFlow.Proofs.Lowering.Structure
import TreeFlow.Proofs.Tree.Performing

/-!
# Functions follow their bodies

The code of a body of structured statements lies in its function behind the code that gives the parameters
their slots (`Lower.LiesIn`), and the function returns where the body says, or where the body ends. So every
call of the function follows the body (`Lower.FollowsBody`): it evaluates what an execution of the body
evaluates, in the same order, and it returns as the execution is left.
-/

namespace TreeFlow.Lower

open Machine Tree

variable {env : Env} {line : Nat} {s t : State} {id : FuncId} {f : Function} {result : Ty}
  {ps : List DeclaratorInfo} {body : StmtId} {p : Program} {below : List Activation} {m m₀ m' : Moment}
  {n : Nat} {new : List Diagnostic}

/-! ### What a call does -/

/-- A call gets to the beginning of the body of its function: past the stack slots, and through the code
that gives every parameter a slot of its own. -/
def Enters (env : Env) (f : Function) (p : Program) (below : List Activation) (ps : List DeclaratorInfo)
    (m m' : Moment) : Prop :=
  ∃ m₁, Straight p below m m₁ ∧ Crosses env f p below (bindParams 0 ps) () m₁ m'

/-- A call has not got to the beginning of the body yet. -/
def Entering (env : Env) (f : Function) (p : Program) (below : List Activation) (ps : List DeclaratorInfo)
    (m m' : Moment) : Prop :=
  Straight p below m m' ∨ ∃ m₁, Straight p below m m₁ ∧ Begins env f p below (bindParams 0 ps) m₁ m'

/-- A call has evaluated what an execution of the body evaluates until it has come so far, and nothing else.
It may be about to evaluate what comes next in the execution. -/
def Amid (env : Env) (f : Function) (p : Program) (below : List Activation) (body : StmtId)
    (m m' : Moment) : Prop :=
  ∃ tr m₁, Executes env.tree (.stmt body) tr .cut ∧ Traces env f p below tr m m₁ ∧
    (m₁ = m' ∨ ∃ ev, Executes env.tree (.stmt body) (tr ++ [ev]) .cut ∧ IsUnderway env f p below m₁ m' ev)

/-- The function returns at a spot, as it has to where its body is left so: by the same `return`, or with
the implicit result at the end of the body. -/
def ReturnsBy (env : Env) (f : Function) (result : Ty) (sp : Spot) : Ending → Prop
  | .normal => sp.rest = [] ∧ f.termAt sp.block = some (.ret (implicitResult result))
  | .ret id => ∃ value line op, env.tree.stmt? id = some ⟨.ret value, line⟩ ∧
      ClosedBy env f (ret value line.toNat) sp ∧ f.termAt sp.block = some (.ret op)
  | _ => False

/-- A call has evaluated what an execution of the body evaluates, and nothing else, and is where its
function returns, as the execution is left. -/
def Leaving (env : Env) (f : Function) (p : Program) (below : List Activation) (result : Ty) (body : StmtId)
    (m m' : Moment) : Prop :=
  ∃ tr x, Executes env.tree (.stmt body) tr x ∧ Traces env f p below tr m m' ∧ ReturnsBy env f result m'.spot x

/-- How far a call of a function has come. -/
inductive Stage (env : Env) (f : Function) (p : Program) (below : List Activation) (result : Ty)
    (ps : List DeclaratorInfo) (body : StmtId) (m m' : Moment) : Prop
  | entering (h : Entering env f p below ps m m')
  | amid (m₀ : Moment) (henters : Enters env f p below ps m m₀) (h : Amid env f p below body m₀ m')
  | leaving (m₀ : Moment) (henters : Enters env f p below ps m m₀)
      (h : Leaving env f p below result body m₀ m')

/-- Every call of the function `id`, in whatever program, follows a body, however far the program has come
since it was opened. If the call returns next, it is where an execution of the body is left. -/
def FollowsBody (env : Env) (id : FuncId) (f : Function) (result : Ty) (ps : List DeclaratorInfo)
    (body : StmtId) : Prop :=
  ∀ p : Program, p.module.function? id = some f → ∀ args depth w₀ w a,
    Exec.run (enter p id args depth) w₀ = (.ok (.inr a), w) → ∀ below k,
      Relation.ReflTransGen (StayingStep p below) (Moment.machine ⟨w, a⟩ below) k →
        ∃ m, During p below m k ∧ Stage env f p below result ps body ⟨w, a⟩ m ∧
          (ReturnsNext p below k → k = m.machine below ∧
            ∃ m₀, Enters env f p below ps ⟨w, a⟩ m₀ ∧ Leaving env f p below result body m₀ m)

/-! ### Bodies in functions -/

/-- How the code of a body lies in its function: behind the code for the parameters, which begins behind the
slots in the entry. Where control gets to the end of the body, the function returns. -/
def LiesIn (env : Env) (f : Function) (result : Ty) (ps : List DeclaratorInfo) (body : StmtId) : Prop :=
  ∃ e P Q, f.entry? = some e ∧ Region env f (bindParams 0 ps) () ⟨e, f.codeAt e⟩ P ∧
    Laid env f (.stmt body) none (some P) Q ∧ ∀ sp, Q = some sp → f.Entered sp.block →
      sp.rest = [] ∧ f.termAt sp.block = some (.ret (implicitResult result))

/-- A call that gets to where its function returns stays there. -/
theorem leaving_of_arrives {tr : List Event} {x : Ending} {Q : Option Spot} {m₁ : Moment}
    (hf : p.module.function? m₀.call.func = some f) (hentered : f.Entered m₀.spot.block)
    (hend : ∀ sp, Q = some sp → f.Entered sp.block →
      sp.rest = [] ∧ f.termAt sp.block = some (.ret (implicitResult result)))
    (hx : Executes env.tree (.stmt body) tr x) (ht : Traces env f p below tr m₀ m₁)
    (hA : Arrives env f none Q m₁.spot x) (hpasses : Passes p below n m₁ m') :
    Leaving env f p below result body m₀ m' := by
  have hby : ReturnsBy env f result m₁.spot x ∧ f.ReturnsAt m₁.spot := by
    cases x with
    | normal =>
      obtain ⟨hrest, hterm⟩ := hend _ hA (ht.reaches.entered hf hentered)
      exact ⟨⟨hrest, hterm⟩, hrest, _, hterm⟩
    | ret id =>
      obtain ⟨value, line, hstmt, hclosed, op, hterm⟩ := hA
      exact ⟨⟨value, line, op, hstmt, hclosed, hterm⟩, hclosed.1, op, hterm⟩
    | brk =>
      obtain ⟨T, hT, -⟩ := hA
      exact nomatch hT
    | cont =>
      obtain ⟨T, hT, -⟩ := hA
      exact nomatch hT
    | cut => exact hA.elim
  obtain ⟨hby, hrest, op, hterm⟩ := hby
  obtain rfl := eq_of_passes (ht.func ▸ hf) hrest hterm rfl hpasses
  exact ⟨tr, x, hx, ht, hby⟩

/-- A call of a function in which a body lies follows the body. It only gets to where the function returns
when it is leaving the body. -/
theorem LiesIn.stage {e : BlockId} (hlies : LiesIn env f result ps body)
    (hf : p.module.function? m.call.func = some f) (he : f.entry? = some e) (hspot : m.spot = f.start e)
    (hpasses : Passes p below n m m') :
    (∃ m₀, Enters env f p below ps m m₀ ∧ Leaving env f p below result body m₀ m') ∨
      Stage env f p below result ps body m m' ∧ ¬ f.ReturnsAt m'.spot := by
  obtain ⟨e', P, Q, he', hparams, hbody, hend⟩ := hlies
  obtain rfl : e' = e := Option.some.inj (he'.symm.trans he)
  have hstart : m.spot = ⟨e', f.slotsAt e' ++ f.codeAt e'⟩ := by
    rw [hspot, Function.start, Function.slotsAt_append_codeAt]
  rcases straight_cases hf hstart hpasses with
    ⟨hstraight, left, hleft, hspot'⟩ | ⟨j, m₁, hstraight, hspot₁, hpasses⟩
  · refine .inr ⟨.entering (.inl hstraight), fun hret => ?_⟩
    simp [hspot', Function.ReturnsAt, hleft] at hret
  have hf₁ : p.module.function? m₁.call.func = some f := hstraight.reaches.func ▸ hf
  rcases hparams.cases hf₁ hspot₁ hpasses with ⟨hbegins, hret⟩ | ⟨j, m₀, -, hcrosses, hspot₀, hpasses⟩
  · exact .inr ⟨.entering (.inr ⟨m₁, hstraight, hbegins⟩), hret⟩
  have henters : Enters env f p below ps m m₀ := ⟨m₁, hstraight, hcrosses⟩
  have hf₀ : p.module.function? m₀.call.func = some f := hcrosses.func ▸ hf₁
  have hentered : f.Entered m₀.spot.block :=
    hcrosses.reaches.entered hf₁ (hspot₁ ▸ .inl he)
  rcases hbody.explained rfl hf₀ hspot₀ hpasses with
    ⟨tr, m₂, hcut, htraces, hret, hlast⟩ | ⟨tr, x, m₂, i, hx, htraces, hA, -, hpasses⟩
  · exact .inr ⟨.amid m₀ henters ⟨tr, m₂, hcut, htraces, hlast⟩, hret⟩
  · exact .inl ⟨m₀, henters, leaving_of_arrives hf₀ hentered hend hx htraces hA hpasses⟩

/-- Every call of a function in which a body lies follows the body. -/
theorem LiesIn.follows (hlies : LiesIn env f result ps body) : FollowsBody env id f result ps body := by
  intro p hid args depth w₀ w a hopened below k hsteps
  obtain ⟨-, hentry⟩ := exists_entry_of_enter hopened
  obtain ⟨e, stackEnd, he, rfl⟩ := hentry f hid
  obtain ⟨n, m, hpasses, hduring⟩ := exists_passes_of_stays hsteps
  have hf : p.module.function? m.call.func = some f := hpasses.func ▸ hid
  refine ⟨m, hduring, ?_⟩
  rcases hlies.stage hid he rfl hpasses with ⟨m₀, henters, hleaving⟩ | ⟨hstage, hret⟩
  · exact ⟨.leaving m₀ henters hleaving, fun hnext =>
      ⟨eq_of_returnsNext hduring hnext, m₀, henters, hleaving⟩⟩
  · refine ⟨hstage, fun hnext => absurd ?_ hret⟩
    obtain rfl := eq_of_returnsNext hduring hnext
    exact returnsAt_of_returnsNext hf hnext

/-! ### What is written -/

/-- The way that lowering a body takes from the state `s` to the place `q`: from the entry, the parameters
are given slots, and then the statements of the body are lowered. -/
structure Place.Written (env : Env) (ps : List DeclaratorInfo) (body : StmtId) (s : State) (id : FuncId)
    (e : BlockId) (p₀ p₁ q : Place) : Prop where
  entry : p₀.IsEntry s id e
  params : bindParams 0 ps env p₀.state = (.done (), p₁.state)
  spans : p₀.toSite.Spans p₁.toSite
  enters : p₀.Proceeds [] p₁
  proceeds : p₁.Proceeds [] q
  lays : p₁.Lays (fun f => Laid env f (.stmt body) none) q

/-- A structured body is lowered on such a way. -/
theorem runs_written (depth : Nat) (hs : s.BeginsBody id result f) (hbody : env.tree.Structured false body) :
    Runs (functionContents (statementTo depth) ps body line) env s
      (fun _ t => ∃ q : Place, q.state = t ∧ q.id = id ∧ ∃ e p₀ p₁, Place.Written env ps body s id e p₀ p₁ q)
      fun t => ∃ q : Place, q.state = t ∧ q.id = id := by
  obtain ⟨e, u, p₀, hrun, hentry, hset⟩ := Place.exists_entry env line hs
  refine Runs.bind_of_done hrun (Runs.bind_of_done hset (Runs.bind ?_))
  refine Runs.imp (Place.runs_of_inserts (p₀.inserts_bindParams 0 ps) (regular_bindParams 0 ps)) ?_ ?_
  · rintro _ _ ⟨p₁, rfl, henters, hspans, hparams, -⟩
    refine Runs.imp (Place.statementTo_lays depth hbody nofun) ?_ fun _ h => h.elim
    rintro _ _ ⟨q, rfl, hproceeds, hlays⟩
    have hloops : p₁.state.loops = [] := henters.loops.trans (hentry.loops.trans hs.loops)
    rw [hloops] at hlays
    refine ⟨q, rfl, hproceeds.continues.id.trans (henters.continues.id.trans hentry.id), e, p₀, p₁, ?_⟩
    exact ⟨hentry, hparams, hspans, henters, hproceeds, hlays⟩
  · rintro _ ⟨q, rfl, hpq, -⟩
    exact ⟨q, rfl, hpq.continues.id.trans hentry.id⟩

/-- Where a body ends, its function becomes what it is in the end. -/
theorem Place.EndsBody.becomes {q r : Place} (h : q.EndsBody r) : Site.Becomes [] q.toSite r.function where
  precedes := h.ext.precedes
  idle b hb hopen hcur _ := ⟨h.code b hb, h.idle b hb hopen hcur⟩
  entry := h.ext.entry
  plain b hb := by
    have hslots : r.function.slotsAt b = [] := by
      by_contra hne
      exact hb (r.wellFormed.slots b hne)
    rw [← r.function.slotsAt_append_codeAt, hslots, List.nil_append]

/-- The block where a body ends returns, if control gets there. -/
theorem Place.EndsBody.last_spot {q r : Place} {o : OpenFunction} {sp : Spot} (h : q.EndsBody r)
    (ho : q.state.func = some o) (hsp : q.spot r.function = some sp) (hentered : r.function.Entered sp.block) :
    sp.rest = [] ∧ r.function.termAt sp.block = some (.ret (implicitResult o.result)) := by
  obtain ⟨d, hd, rfl⟩ := Option.map_eq_some_iff.1 hsp
  have hentered : q.function.Entered d :=
    hentered.imp (fun he => h.ext.entry.symm.trans he) fun ⟨c, hc⟩ => ⟨c, h.edge c d hc⟩
  rcases h.last d hd with ⟨o', ho', -, hterm⟩ | ⟨hnot, -⟩
  · obtain rfl : o' = o := Option.some.inj (ho'.symm.trans ho)
    refine ⟨?_, hterm⟩
    show (r.function.codeAt d).drop (q.function.codeAt d).length = []
    rw [h.code d (Site.has_openBlock hd), List.drop_length]
  · exact absurd hentered hnot

/-- Unless an error was queued, the body lies in the function in the end. -/
theorem Place.Written.liesIn {e : BlockId} {p₀ p₁ q r : Place} (h : Written env ps body s id e p₀ p₁ q)
    (hs : s.BeginsBody id result f) (hends : q.EndsBody r) (herrs : ¬ p₁.Errs q) :
    LiesIn env r.function result ps body := by
  have hq := hends.becomes
  have hp₁ := h.proceeds.becomes hq
  have hwaits : ∀ x : Site, Site.Waits [] x := fun _ b hb => absurd hb List.not_mem_nil
  have hstart : p₀.spot r.function = some ⟨e, r.function.codeAt e⟩ := by
    rw [Site.spot, h.entry.openBlock, Option.map_some, Function.behind, h.entry.code]
    rfl
  obtain ⟨P, hP, hregion⟩ := hp₁.region h.params h.spans (hwaits _) hstart
  refine ⟨e, P, q.spot r.function, ?_, hregion, ?_, fun sp hsp hentered => ?_⟩
  · exact ((h.proceeds.becomes hq).entry.trans h.enters.advances.ext.entry).trans h.entry.entry
  · exact hP ▸ h.lays.resolve_left herrs [] _ (hwaits _) hq
  · obtain ⟨name, hname⟩ := hs.func
    have hfunc : q.state.func = some ⟨id, name, result⟩ := by
      rw [h.proceeds.continues.func, h.enters.continues.func, h.entry.func, hname]
    exact hends.last_spot hfunc hsp hentered

/-- If no error was queued since the state `s`, the body lies in its function. -/
def Settles (env : Env) (s : State) (id : FuncId) (result : Ty) (ps : List DeclaratorInfo) (body : StmtId)
    (t : State) : Prop :=
  ∀ new, s.Queues t new → ¬HasError new →
    ∃ f, t.builder.mod.function? id = some f ∧ LiesIn env f result ps body

theorem settles_of_errs (h : s.Errs t) : Settles env s id result ps body t := by
  intro new hnew hclean
  obtain ⟨new', hnew', herror⟩ := h
  obtain rfl := List.append_cancel_left (hnew'.symm.trans hnew)
  exact absurd herror hclean

/-- A body that is lowered outside of all loops, while no labels are pending. -/
theorem settles_outside (depth : Nat) (hs : s.IsSound) (hloops : s.loops = []) (hpending : s.pending = [])
    (hf : s.builder.mod.function? id = some f) (hdeclaration : f.isDeclaration)
    (hbody : env.tree.Structured false body) :
    Ends (functionBody (statementTo depth) id result ps body line) env s
      (Settles env s id result ps body) := by
  have hruns : Runs (functionBody (statementTo depth) id result ps body line) env s _ _ := runs_bodyOf
    (G := fun u q => u.BeginsBody id result f ∧ ∃ e p₀ p₁, Place.Written env ps body u id e p₀ p₁ q)
    hs hloops hpending hf hdeclaration fun u hu _ =>
      Runs.imp (runs_written depth hu hbody) (fun _ _ ⟨q, hq, hid, hwritten⟩ => ⟨q, hq, hid, hu, hwritten⟩)
        fun _ h => h
  refine (Runs.imp hruns ?_ fun _ h => settles_of_errs h.2).ends
  rintro _ t ⟨u, q, ⟨hu, e, p₀, p₁, hwritten⟩, hdiags, hid, r, hends, hmod, last, hlast⟩
  by_cases herrs : p₁.Errs q
  · -- What is queued on the way is among what is queued in the end.
    obtain ⟨first, hfirst⟩ := hwritten.enters.queues
    have hstart : s.Queues p₀.state [] := .of_diags (hwritten.entry.diags.trans hdiags)
    exact settles_of_errs ((hstart.trans hfirst).errs (State.Errs.queues herrs hlast))
  · refine fun _ _ _ => ⟨r.function, ?_, hwritten.liesIn hu hends herrs⟩
    rw [hmod, ← hid, ← hends.id]
    exact r.builds.2

/-- It does not matter in the middle of which other code a body is lowered. -/
theorem settles_functionBody (depth : Nat) (hs : s.IsSound) (hf : s.builder.mod.function? id = some f)
    (hdeclaration : f.isDeclaration) (hbody : env.tree.Structured false body) :
    Ends (functionBody (statementTo depth) id result ps body line) env s
      (Settles env s id result ps body) := by
  by_cases hpending : s.pending = []
  · cases hopen : s.scopes.openFunction with
    | error fault => exact (ends_functionBody_error hopen).imp fun _ => settles_of_errs
    | ok scopes =>
      let s₀ : State := { s with loops := [] }
      have hs₀ : s₀.IsSound := ⟨hs.globals, hs.tidy, hs.inside⟩
      have h₀ : Ends (functionBody (statementTo depth) id result ps body line) env s₀
          (Settles env s id result ps body) := settles_outside depth hs₀ rfl hpending hf hdeclaration hbody
      exact h₀.amid_functionBody s.loops hbody (s := s₀) hopen
  · exact (ends_functionBody_pending depth hbody hpending).imp fun _ => settles_of_errs

/-- A function is only given a body if it has none yet. -/
theorem settles_defineFunction (depth : Nat) (name : String) (storage : Storage) (hs : s.IsSound)
    (hbody : env.tree.Structured false body) :
    Ends (defineFunction (statementTo depth) id name result storage ps body line) env s
      (Settles env s id result ps body) := by
  have hfail : ∀ kind : DiagnosticKind, kind.severity = .error →
      Ends (failWith kind line : Lower Unit) env s (Settles env s id result ps body) := fun kind hkind =>
    .bind_of_done rfl (settles_of_errs ⟨_, .report kind line env s, _, List.mem_singleton_self _, hkind⟩)
  refine .bind_of_done (t := s) rfl ?_
  split
  · exact hfail _ rfl
  refine .bind_of_done (t := s) rfl ?_
  split
  · exact hfail _ rfl
  · next hdeclared =>
    obtain ⟨f, hf, hdeclaration⟩ : ∃ f, s.builder.mod.function? id = some f ∧ f.isDeclaration := by
      cases hf : s.builder.mod.function? id with
      | none => simp [hf] at hdeclared
      | some f => exact ⟨f, rfl, by simpa [hf] using hdeclared⟩
    split
    · let change := fun f : Function => { f with linkage := Linkage.internal }
      let s' : State := { s with
        builder := { s.builder with mod := s.builder.mod.modifyFunction id change } }
      have hretains : s.Retains s' := Leaves.makeInternal id env s
      have hs' : s'.IsSound := hs.of_retains hretains
      have hf' : s'.builder.mod.function? id = some (change f) := by
        show (s.builder.mod.functions.modify id.index change)[id.index]? = some (change f)
        rw [Array.getElem?_modify, if_pos rfl]
        exact congrArg (Option.map change) hf
      have h : Ends (functionBody (statementTo depth) id result ps body line) env s'
          (Settles env s id result ps body) := settles_functionBody depth hs' hf' hdeclaration hbody
      exact .bind_of_done rfl h
    · exact settles_functionBody depth hs hf hdeclaration hbody

/-! ### What is left behind -/

/-- The tree of `while (true) { if (true) break; continue; } return 1;`. -/
def breakingTree : Tree where
  exprs := #[⟨.bool true, 1⟩, ⟨.integer 1, 1⟩]
  stmts := #[⟨.brk, 1⟩, ⟨.branch ⟨0⟩ ⟨0⟩ none, 1⟩, ⟨.cont, 1⟩, ⟨.block [⟨1⟩, ⟨2⟩], 1⟩,
    ⟨.whileLoop ⟨0⟩ ⟨3⟩, 1⟩, ⟨.ret (some ⟨1⟩), 1⟩, ⟨.block [⟨4⟩, ⟨5⟩], 1⟩]

theorem structured_breakingTree : breakingTree.Structured false ⟨6⟩ := by
  have hround : breakingTree.Structured true ⟨3⟩ := by
    refine .block rfl (List.forall_mem_cons.2 ⟨.branch rfl (.brk rfl) nofun, ?_⟩)
    exact List.forall_mem_singleton.2 (.cont rfl)
  refine .block rfl (List.forall_mem_cons.2 ⟨.whileLoop rfl hround, ?_⟩)
  exact List.forall_mem_singleton.2 (.ret rfl)

/-- The definition of `choose` with that body. -/
def defineBreaking : Lower Unit :=
  defineFunction (statementTo 5) ⟨0⟩ "choose" .word .normal [] ⟨6⟩ 1

end TreeFlow.Lower
