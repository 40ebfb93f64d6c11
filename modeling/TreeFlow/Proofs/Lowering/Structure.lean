import TreeFlow.Proofs.Lowering.Advance
import TreeFlow.Proofs.Lowering.RegularStatement

/-!
# How structured statements are laid out

Lowering a structured statement lays its code out in the function as the statement says, unless an error is
reported (`Place.statementTo_lays`). What the code becomes is only known in the finished function. So a step
of lowering is judged by the shape that its code has in whatever the function may become (`Place.Puts`).
-/

namespace TreeFlow.Lower.Place

open Tree

variable {α β : Type} {env : Env} {line : Nat} {p q r : Place} {m : Lower α} {next : α → Lower β}
  {f : Function} {b d : BlockId} {bs W : List BlockId} {L : Option LoopTargets} {id : StmtId}

/-! ### Shapes of code -/

/-- What code is like that lies between two spots of a function. -/
abbrev Shape := Function → Option Spot → Option Spot → Prop

/-- The code of a step of lowering. Where control never gets to it, nothing is known of it. -/
def Shape.code (env : Env) (m : Lower α) (a : α) : Shape := fun f start Q =>
  ∀ P, start = some P → ∃ R, Q = some R ∧ Region env f m a P R

/-- From one place to another one, code of some shape was written, or an error was queued. -/
def Lays (S : Shape) (p q : Place) : Prop :=
  p.Errs q ∨ ∀ W f, Site.Waits W p.toSite → Site.Becomes W q.toSite f → S f (p.spot f) (q.spot f)

theorem Lays.imp {S T : Shape} (h : p.Lays S q) (himp : ∀ f P Q, S f P Q → T f P Q) : p.Lays T q :=
  h.imp_right fun h W f hW hf => himp _ _ _ (h W f hW hf)

theorem Lays.trans {S T : Shape} (hpq : p.Lays S q) (hqr : q.Lays T r) (hp : p.Proceeds [] q)
    (hq : q.Proceeds [] r) : p.Lays (fun f P Q => ∃ R, S f P R ∧ T f R Q) r := by
  rcases hpq with herrs | hpq
  · exact .inl (herrs.before hq)
  rcases hqr with herrs | hqr
  · exact .inl (herrs.after hp)
  exact .inr fun W f hW hf => ⟨q.spot f, hpq W f hW (hq.becomes hf), hqr W f (hp.waits hW) hf⟩

/-- A step writes code of some shape, or an error is queued. It only fails in the latter case. -/
def Puts (p : Place) (env : Env) (m : Lower α) (S : α → Shape) : Prop :=
  Runs m env p.state (fun a t => ∃ q : Place, q.state = t ∧ p.Proceeds [] q ∧ p.Lays (S a) q) p.Breaks

/-- A step writes code of some shape, or an error is queued. It does not fail. -/
def Fills (p : Place) (env : Env) (m : Lower α) (S : Shape) : Prop :=
  Runs m env p.state (fun _ t => ∃ q : Place, q.state = t ∧ p.Proceeds [] q ∧ p.Lays S q) fun _ => False

theorem Fills.puts {S : Shape} (h : p.Fills env m S) : p.Puts env m fun _ => S :=
  Runs.imp h (fun _ _ h => h) fun _ h => h.elim

theorem Fills.imp {S T : Shape} (h : p.Fills env m S) (himp : ∀ f P Q, S f P Q → T f P Q) :
    p.Fills env m T :=
  Runs.imp h (fun _ _ ⟨q, hq, hpq, hlays⟩ => ⟨q, hq, hpq, hlays.imp himp⟩) fun _ h => h

namespace Puts

variable {S : α → Shape} {T : α → β → Shape}

theorem imp {S' : α → Shape} (h : p.Puts env m S) (himp : ∀ a f P Q, S a f P Q → S' a f P Q) :
    p.Puts env m S' :=
  Runs.imp h (fun a _ ⟨q, hq, hpq, hlays⟩ => ⟨q, hq, hpq, hlays.imp (himp a)⟩) fun _ h => h

theorem bind (h : p.Puts env m S) (hnext : ∀ a q, p.Proceeds [] q → q.Puts env (next a) (T a)) :
    p.Puts env (m >>= next) fun b f P Q => ∃ a R, S a f P R ∧ T a b f R Q := by
  refine Runs.bind (Runs.imp h ?_ fun _ h => h)
  rintro a _ ⟨q, rfl, hpq, hlays⟩
  refine Runs.imp (hnext a q hpq) ?_ fun _ h => h.after hpq
  rintro b _ ⟨r, rfl, hqr, hlays'⟩
  refine ⟨r, rfl, hpq.trans hqr, (hlays.trans hlays' hpq hqr).imp ?_⟩
  rintro f P Q ⟨R, hS, hT⟩
  exact ⟨a, R, hS, hT⟩

theorem pure {S : Shape} {a : α} (h : ∀ f P, S f P P) : p.Puts env (Pure.pure a : Lower α) fun _ => S :=
  Runs.pure ⟨p, rfl, .refl [] p, .inr fun _ _ _ _ => h _ _⟩

theorem ignoring (h : p.Puts env m S) : p.Fills env (Lower.ignoring m) fun f P Q => ∃ a, S a f P Q :=
  Runs.ignoring (Runs.imp h
    (fun a _ ⟨q, hq, hpq, hlays⟩ => ⟨q, hq, hpq, hlays.imp fun _ _ _ hS => ⟨a, hS⟩⟩)
    fun _ ⟨q, hq, hpq, herrs⟩ => ⟨q, hq, hpq, .inl herrs⟩)

/-- A step in a scope of its own writes the same code. -/
theorem localScope {S : Shape} (h : ∀ q : Place, q.state.loops = p.state.loops → q.Puts env m fun _ => S) :
    p.Puts env (Lower.localScope m) fun _ => S := by
  obtain ⟨q, hopen, hq, hpq, hclose⟩ := p.exists_openLocal
  have hloops : q.state.loops = p.state.loops := by rw [hq]
  refine runs_localScope hopen hq (Runs.imp (h q hloops) ?_ ?_)
  · rintro _ _ ⟨r, rfl, hqr, hlays⟩
    obtain ⟨p', hscopes, hp', hrp', hpp'⟩ := hclose r hqr.continues
    refine ⟨_, hscopes, p', hp', hpq.proceeds hrp' hqr hpp', Or.imp (hpq.errs hrp') ?_ hlays⟩
    intro hlays W f hW hf
    rw [← hpq.spot, hrp'.spot]
    exact hlays W f (hpq.waits hW) (hrp'.becomes hf)
  · rintro _ ⟨r, rfl, hqr, herrs⟩
    obtain ⟨p', hscopes, hp', hrp', hpp'⟩ := hclose r hqr.continues
    exact ⟨_, hscopes, p', hp', hpq.proceeds hrp' hqr hpp', hpq.errs hrp' herrs⟩

end Puts

/-! ### Expressions -/

/-- A step that only adds code at the cursor writes its code. -/
theorem runs_code {post : α → Place → Prop} (h : p.Inserts env m post)
    (hm : Regular (.loose env) true m) :
    Runs m env p.state (fun a t => ∃ q : Place, q.state = t ∧ p.Proceeds [] q ∧
      p.Lays (.code env m a) q ∧ post a q) p.Breaks := by
  refine Runs.imp (runs_of_inserts h hm) ?_ fun _ h => h
  rintro a _ ⟨q, rfl, hpq, hspans, hrun, ha⟩
  exact ⟨q, rfl, hpq, .inr fun W f hW hf P hP => hf.region hrun hspans hW hP, ha⟩

theorem puts_code {post : α → Place → Prop} (h : p.Inserts env m post)
    (hm : Regular (.loose env) true m) : p.Puts env m (.code env m) :=
  Runs.imp (runs_code h hm) (fun _ _ ⟨q, hq, hpq, hlays, _⟩ => ⟨q, hq, hpq, hlays⟩) fun _ h => h

/-- A step that only looks at things writes nothing. -/
theorem puts_reads {post : α → Site → Prop} (h : p.toSite.Reads env m post)
    (hm : Regular (.loose env) true m) : p.Puts env m fun _ _ P Q => Q = P := by
  have hspot : p.toSite.Reads env m fun _ y => ∀ f, y.spot f = p.spot f :=
    h.imp fun _ _ hkeeps _ => hkeeps.spot
  refine Runs.imp (runs_of_inserts (inserts_of_reads hspot) hm) ?_ fun _ h => h
  rintro _ _ ⟨q, hq, hpq, -, -, hspot⟩
  exact ⟨q, hq, hpq, .inr fun _ f _ _ => hspot f⟩

theorem puts_rvalue (e : ExprId) : p.Puts env (rvalue e) (.code env (rvalue e)) :=
  puts_code (inserts_of_writes (Site.writes_expression e)) (regular_rvalue trivial)

/-- A condition is a value that is known behind its code. -/
theorem runs_condition (e : ExprId) :
    Runs (condition e line) env p.state (fun c t => ∃ q : Place, q.state = t ∧ p.Proceeds [] q ∧
      p.Lays (.code env (descend fun sub => truth sub e line) c) q ∧ q.Knows c) p.Breaks := by
  have htruth : p.toSite.Writes env (descend fun sub => truth sub e line) fun c y => y.Knows c :=
    (Site.writes_descend fun _ hsub => Site.writes_truth hsub e).imp fun _ _ _ h => h.knows
  have hregular : Regular (.loose env) true (descend fun sub => truth sub e line) :=
    regular_descend fun h => h.truth trivial line
  refine Runs.bind (Runs.attempt (Runs.imp (runs_code (inserts_of_writes htruth) hregular) ?_ ?_))
  · rintro c _ ⟨q, rfl, hpq, hlays, hc⟩
    exact Runs.pure ⟨q, rfl, hpq, hlays, hc⟩
  · rintro _ ⟨q, rfl, hpq, herrs⟩
    exact Runs.pure ⟨q, rfl, hpq, .inl herrs, q.knows_const _⟩

/-! ### Terminators -/

/-- The code of a choice: that of the condition, and behind it the terminator. -/
def Shape.choice (env : Env) (e : ExprId) (line : Nat) (yes no : BlockId) : Shape := fun f start _ =>
  ∀ P, start = some P → ∃ op R, Region env f (descend fun sub => truth sub e line) op P R ∧
    R.rest = [] ∧ f.termAt R.block = some (.branch op yes no)

/-- A choice between two blocks, once the condition is known. -/
theorem exists_branch {c : Operand} {yes no : BlockId} (env : Env) (line : Nat) (hc : p.Knows c)
    (hyes : p.Target yes) (hno : p.Target no) :
    ∃ q : Place, emit line (Build.branch c yes no) env p.state = (.done (), q.state) ∧ p.Proceeds [] q ∧
      ∀ W f P, Site.Becomes W q.toSite f → p.spot f = some P →
        P.rest = [] ∧ f.termAt P.block = some (.branch c yes no) := by
  obtain ⟨_, q, hrun, hpq, hcloses⟩ := exists_terminate env line (t := .branch c yes no)
    (by simpa [Terminator.operands] using hc) (by simpa [Terminator.successors] using ⟨hyes, hno⟩)
  exact ⟨q, hrun, hpq, fun W f P hf hP => rest_of_closes hcloses hf hP⟩

theorem puts_choice (e : ExprId) {yes no : BlockId} (hyes : p.Target yes) (hno : p.Target no) :
    p.Puts env (do
      let c ← condition e line
      emit line (Build.branch c yes no)) fun _ => .choice env e line yes no := by
  refine Runs.bind (Runs.imp (runs_condition e) ?_ fun _ h => h)
  rintro c _ ⟨q, rfl, hpq, hlays, hc⟩
  obtain ⟨r, hrun, hqr, hterm⟩ := exists_branch env line hc (hpq.continues.target hyes)
    (hpq.continues.target hno)
  refine Runs.of_done hrun ⟨r, rfl, hpq.trans hqr, Or.imp (·.before hqr) ?_ hlays⟩
  intro hlays W f hW hf P hP
  obtain ⟨R, hR, hregion⟩ := hlays W f hW (hqr.becomes hf) P hP
  exact ⟨c, R, hregion, hterm W f R hf hR⟩

/-- A plain jump. -/
theorem puts_goto (hb : p.Target b) : p.Puts env (emit line (Build.goto b)) fun _ f start Q =>
    Q = none ∧ ∀ P, start = some P → P.rest = [] ∧ f.termAt P.block = some (.goto b) := by
  obtain ⟨_, q, hrun, hpq, hcloses⟩ := exists_terminate env line (t := .goto b)
    (by simp [Terminator.operands]) (by simpa [Terminator.successors] using hb)
  exact Runs.of_done hrun ⟨q, rfl, hpq, .inr fun W f _ hf =>
    ⟨spot_of_closes hcloses f, fun P hP => rest_of_closes hcloses hf hP⟩⟩

theorem puts_loopJump {target : LoopTargets → BlockId} {otherwise : DiagnosticKind}
    (htarget : ∀ T, p.Target T.brk → p.Target T.cont → p.Target (target T)) (hloops : p.state.loops ≠ []) :
    p.Puts env (loopJump target otherwise line) fun _ f start Q => ∃ T, p.state.loops.head? = some T ∧
      Q = none ∧ ∀ P, start = some P → P.rest = [] ∧ f.termAt P.block = some (.goto (target T)) := by
  obtain ⟨T, rest, hT⟩ := List.exists_cons_of_ne_nil hloops
  obtain ⟨hbrk, hcont⟩ := p.loops T (hT ▸ List.mem_cons_self)
  have hrun : loopJump target otherwise line env p.state = emit line (Build.goto (target T)) env p.state := by
    simp only [loopJump, Bind.bind, Lower.bind, read, hT]
  refine Runs.of_eq hrun ((puts_goto (htarget T hbrk hcont)).imp fun _ f P Q h => ⟨T, ?_, h⟩)
  rw [hT]
  rfl

/-- The operand of a `return`, and the terminator behind its code. -/
theorem puts_ret (value : Option ExprId) : p.Puts env (ret value line) fun _ f start Q =>
    Q = none ∧ ∀ P, start = some P → ∃ R, Returns env f value line P R := by
  let ty := (p.state.func.map OpenFunction.result).getD .void
  have hwrites : p.toSite.Writes env (returned value ty line) _ := writes_returned value ty
  have hvalue := runs_of_inserts (inserts_of_writes hwrites) (regular_returned line ty fun _ _ => trivial)
  have hret : ∀ o t, (do
      let op ← returned value ty line
      emit line (Build.ret op)) env p.state = (o, t) → ret value line env p.state = (o, t) := fun _ _ h => h
  refine Runs.of_eq (n := do let op ← returned value ty line; emit line (Build.ret op)) rfl ?_
  refine Runs.bind (Runs.imp hvalue ?_ fun _ h => h)
  rintro op _ ⟨q, rfl, hpq, hspans, hrun, hop⟩
  obtain ⟨c, r, hrun', hqr, hcloses⟩ := exists_terminate env line (t := .ret op)
    (by simpa [Terminator.operands] using hop) (by simp [Terminator.successors])
  refine Runs.of_done hrun' ⟨r, rfl, hpq.trans hqr, .inr fun W f hW hf =>
    ⟨spot_of_closes hcloses f, fun P hP => ?_⟩⟩
  obtain ⟨R, hR, hregion⟩ := (show Site.Becomes W q.toSite f from hqr.becomes hf).region hrun hspans hW hP
  obtain ⟨hrest, hterm⟩ := rest_of_closes hcloses hf hR
  obtain ⟨d, hd, rfl⟩ := Option.map_eq_some_iff.1 hR
  obtain rfl := hcloses.eq hd
  refine ⟨_, ⟨hrest, (), p.state, r.state, p.function, r.function, ?_, p.function?_builder,
    r.function?_builder, hf.precedes, ?_⟩, ⟨op, hterm⟩, ?_⟩
  · refine hret _ _ ?_
    show Lower.bind _ _ env p.state = _
    rw [Lower.bind, hrun]
    exact hrun'
  · rw [Function.WroteAt, hrest]
    refine ⟨?_, Option.isSome_of_eq_some ((hcloses.term c).trans (if_pos rfl))⟩
    by_cases hold : p.function.Has c
    · exact (Site.openBlock_eq_some_iff.1 (hspans.place hd hold)).2
    · exact Function.termAt_of_not_has hold
  · cases value with
    | none =>
      have hsame : q.state = p.state := by
        simp only [returned] at hrun
        exact (congrArg Prod.snd hrun).symm
      rw [← q.spot?_builder, hsame, p.spot?_builder, hP] at hR
      exact (Option.some.inj hR).symm
    | some e => exact ⟨ty, op, hregion⟩

/-! ### Blocks that waited -/

/-- The cursor enters a block that waited, and code of some shape is written from the beginning of the
block on. -/
theorem Prepares.runs_enter {S : α → Shape} {done : β → State → Prop} (h : Prepares (b :: bs) p q)
    (hm : ∀ r, q.Continues r → r.Puts env m S)
    (hnext : ∀ a r, Prepares bs p r → q.Proceeds [b] r →
      (q.Errs r ∨ ∀ W f, Site.Waits W p.toSite → Site.Becomes (bs ++ W) r.toSite f →
        S a f (some (f.start b)) (r.spot f)) → Runs (next a) env r.state done p.Breaks) :
    Runs (do
      setBlock b
      let a ← m
      next a) env q.state done p.Breaks := by
  obtain ⟨r, hrun, hqr, hspot⟩ := exists_setBlock env (h.awaits b List.mem_cons_self)
  have hr := h.enter hqr
  refine Runs.bind_of_done hrun (Runs.bind (Runs.imp (hm r hqr.continues) ?_ fun _ h => h.after hr.proceeds))
  rintro a _ ⟨r', rfl, hrr', hlays⟩
  refine hnext a r' (hr.proceed hrr') (hqr.enters hrr') (Or.imp (·.after hqr) ?_ hlays)
  intro hlays W f hW hf
  rw [← hspot _ _ (hrr'.becomes hf)]
  exact hlays _ f (hr.waits hW) hf

/-- An arm is entered, and where its code ends control joins a block behind it. -/
theorem Prepares.runs_arm {m : Lower Unit} {next : Lower β} {S : Shape} {done : β → State → Prop}
    (h : Prepares (b :: bs) p q) (hd : q.Target d) (hm : ∀ r, q.Continues r → r.Puts env m fun _ => S)
    (hnext : ∀ r, Prepares bs p r → q.Proceeds [b] r →
      (q.Errs r ∨ ∀ W f, Site.Waits W p.toSite → Site.Becomes (bs ++ W) r.toSite f →
        ∃ Q, S f (some (f.start b)) Q ∧ Joins f Q d) → Runs next env r.state done p.Breaks) :
    Runs (do
      setBlock b
      m
      fallThrough d line
      next) env q.state done p.Breaks := by
  refine h.runs_enter hm fun _ r hr hqr hlays => ?_
  obtain ⟨r', hrun, hrr', hjoin⟩ := exists_fallThrough env line (hqr.continues.target hd)
  refine Runs.bind_of_done hrun (hnext r' (hr.proceed hrr') ?_ (Or.imp (·.before hrr') ?_ hlays))
  · exact hqr.trans (hrr'.mono (List.nil_subset _))
  · intro hlays W f hW hf
    exact ⟨_, hlays W f hW (hrr'.becomes hf), hjoin _ f hf⟩

/-- The cursor gets to the block that waits last. -/
theorem Prepares.exists_leave (h : Prepares [b] p q) (env : Env) :
    ∃ r : Place, setBlock b env q.state = (.done (), r.state) ∧ p.Proceeds [] r ∧ q.Proceeds [b] r ∧
      ∀ W f, Site.Becomes W r.toSite f → r.spot f = some (f.start b) := by
  obtain ⟨r, hrun, hqr, hspot⟩ := exists_setBlock env (h.awaits b List.mem_cons_self)
  exact ⟨r, hrun, (h.enter hqr).proceeds, hqr, hspot⟩

/-! ### Branches and loops -/

section Body

variable {lower : StmtId → Lower Unit}

/-- A step lays the code of a job out, unless an error is queued. -/
abbrev Lowers (p : Place) (env : Env) (m : Lower Unit) (job : Job) : Prop :=
  p.Puts env m fun _ f => Laid env f job p.state.loops.head?

/-- The loops around a job are those of the place where it stands. -/
theorem Lowers.of_loops {m : Lower Unit} {job : Job} (h : q.Lowers env m job)
    (hloops : q.state.loops = p.state.loops) :
    q.Puts env m fun _ f => Laid env f job p.state.loops.head? := by
  rw [← hloops]
  exact h

/-- Lowering follows the cursor into every branch; only the ends of the branches join again. -/
theorem lowers_branch {cond : ExprId} {yes : StmtId} {no : Option StmtId} {l : UInt32}
    (hyes : ∀ q : Place, q.state.loops = p.state.loops → q.Lowers env (lower yes) (.stmt yes))
    (hno : ∀ s ∈ no, ∀ q : Place, q.state.loops = p.state.loops → q.Lowers env (lower s) (.stmt s))
    (h : env.tree.stmt? id = some ⟨.branch cond yes no, l⟩) :
    p.Lowers env (Lower.branch lower cond yes no l.toNat) (.stmt id) := by
  refine Runs.bind (Runs.imp (runs_condition cond) ?_ fun _ h => h)
  rintro c _ ⟨p₁, rfl, hp₁, hcond, hc⟩
  refine runs_after hp₁ ?_
  obtain ⟨last, p₂, hrun, hp₂, hspot₂, hknows⟩ := (Prepares.nil (.refl [] p₁)).exists_newBlock env l.toNat
  replace hc := hknows c hc
  refine Runs.bind_of_done hrun ?_
  obtain ⟨first, p₃, hrun, hp₃, hspot₃, hknows⟩ :=
    hp₂.exists_newBlockBefore env l.toNat (List.mem_singleton_self last)
  replace hc := hknows c hc
  refine Runs.bind_of_done hrun ?_
  -- An arm is laid out as the statement in it says.
  have harm : ∀ {r r' : Place} {s : StmtId}, p₁.Proceeds [] r →
      (∀ q : Place, q.state.loops = p.state.loops → q.Lowers env (lower s) (.stmt s)) → r.Continues r' →
      r'.Puts env (lower s) fun _ f => Laid env f (.stmt s) p.state.loops.head? := by
    intro r r' s hr hs hrr'
    have hloops : r'.state.loops = p.state.loops := (hrr'.loops.trans hr.loops).trans hp₁.loops
    exact (hs r' hloops).of_loops hloops
  cases no with
  | none =>
    refine Runs.bind_of_done (t := p₃.state) rfl ?_
    have hlast := hp₃.target (List.mem_cons_of_mem first List.mem_cons_self)
    obtain ⟨p₄, hrun, hp₃₄, hterm⟩ := exists_branch env l.toNat hc (hp₃.target List.mem_cons_self) hlast
    have hp₄ := hp₃.proceed hp₃₄
    refine Runs.bind_of_done hrun (hp₄.runs_arm (hp₃₄.continues.target hlast)
      (fun r => harm hp₄.proceeds hyes) fun p₅ hp₅ hp₄₅ hlaid => ?_)
    obtain ⟨q, hrun, hq, hp₅q, hspot⟩ := hp₅.exists_leave env
    refine Runs.of_done hrun ⟨q, rfl, hp₁.trans hq, ?_⟩
    rcases hcond with herrs | hcond
    · exact .inl (herrs.before hq)
    rcases hlaid with herrs | hlaid
    · exact .inl ((herrs.before hp₅q).after (hp₁.trans hp₄.proceeds))
    refine .inr fun W f hW hf => ?_
    cases hP : p.spot f with
    | none => exact .dead _ _ _
    | some P =>
      obtain ⟨R, hR, hregion⟩ := hcond W f hW (hq.becomes hf) P hP
      obtain ⟨hrest, hterm⟩ := hterm _ f R ((hp₄₅.enters hp₅q).becomes hf)
        ((hspot₃ f).trans ((hspot₂ f).trans hR))
      obtain ⟨Q, hlaid, hjoin⟩ := hlaid W f (hp₁.waits hW) (hp₅q.becomes hf)
      rw [hspot W f hf]
      exact .branch h hregion hrest hterm hlaid hjoin .seqNil fun _ hP => .inl (Option.some.inj hP).symm
  | some no =>
    obtain ⟨second, p₃', hrun, hp₃', hspot₃', hknows⟩ :=
      hp₃.exists_newBlockBefore env l.toNat (List.mem_cons_of_mem first List.mem_cons_self)
    replace hc := hknows c hc
    refine Runs.bind_of_done hrun ?_
    replace hp₃' := hp₃'.perm (List.Perm.swap first second [last])
    obtain ⟨p₄, hrun, hp₃₄, hterm⟩ := exists_branch env l.toNat hc (hp₃'.target List.mem_cons_self)
      (hp₃'.target (List.mem_cons_of_mem first List.mem_cons_self))
    have hp₄ := hp₃'.proceed hp₃₄
    have hlast := hp₄.target (List.mem_cons_of_mem first (List.mem_cons_of_mem second List.mem_cons_self))
    refine Runs.bind_of_done hrun (hp₄.runs_arm hlast (fun r => harm hp₄.proceeds hyes)
      fun p₅ hp₅ hp₄₅ hlaid => ?_)
    refine hp₅.runs_arm (hp₄₅.continues.target hlast)
      (fun r => harm hp₅.proceeds (hno no rfl)) fun p₆ hp₆ hp₅₆ hlaid' => ?_
    obtain ⟨q, hrun, hq, hp₆q, hspot⟩ := hp₆.exists_leave env
    refine Runs.of_done hrun ⟨q, rfl, hp₁.trans hq, ?_⟩
    rcases hcond with herrs | hcond
    · exact .inl (herrs.before hq)
    rcases hlaid with herrs | hlaid
    · exact .inl ((herrs.before (hp₅₆.enters hp₆q)).after (hp₁.trans hp₄.proceeds))
    rcases hlaid' with herrs | hlaid'
    · exact .inl ((herrs.before hp₆q).after (hp₁.trans hp₅.proceeds))
    refine .inr fun W f hW hf => ?_
    cases hP : p.spot f with
    | none => exact .dead _ _ _
    | some P =>
      obtain ⟨R, hR, hregion⟩ := hcond W f hW (hq.becomes hf) P hP
      obtain ⟨hrest, hterm⟩ := hterm _ f R ((hp₄₅.enters (hp₅₆.enters hp₆q)).becomes hf)
        ((hspot₃' f).trans ((hspot₃ f).trans ((hspot₂ f).trans hR)))
      obtain ⟨Q, hlaid, hjoin⟩ := hlaid W f (hp₁.waits hW) ((hp₅₆.enters hp₆q).becomes hf)
      obtain ⟨Q', hlaid', hjoin'⟩ := hlaid' W f (hp₁.waits hW) (hp₆q.becomes hf)
      rw [hspot W f hf]
      exact .branch h hregion hrest hterm hlaid hjoin (.seqCons hlaid' .seqNil) hjoin'

/-- The body of a loop has the targets of the loop around it. -/
theorem puts_loopBody {T : LoopTargets} {body : StmtId} (hbrk : p.Target T.brk) (hcont : p.Target T.cont)
    (hlower : ∀ q : Place, q.state.loops ≠ [] →
      q.Fills env (lower body) fun f => Laid env f (.stmt body) q.state.loops.head?) :
    p.Puts env (loopBody lower body T) fun _ f => Laid env f (.stmt body) (some T) := by
  let q := p.amend { p.state with loops := T :: p.state.loops } p.builds rfl rfl p.inside p.names
    (fun U hU => (List.mem_cons.1 hU).elim (fun heq => heq ▸ ⟨hbrk, hcont⟩) (p.loops U)) p.pending p.labels
  have hpq : p.Alike q := ⟨rfl, rfl, rfl, rfl, rfl⟩
  refine Runs.bind_of_done (t := q.state) rfl (Runs.bind (Runs.imp (hlower q (List.cons_ne_nil _ _)) ?_
    fun _ h => h.elim))
  rintro _ _ ⟨r, rfl, hqr, hlays⟩
  have hloops : r.state.loops = T :: p.state.loops := hqr.loops
  let p' := r.amend { r.state with loops := r.state.loops.tail } r.builds rfl rfl r.inside r.names
    (fun U hU => r.loops U (List.mem_of_mem_tail hU)) r.pending r.labels
  have hrp' : r.Alike p' := ⟨rfl, rfl, rfl, rfl, rfl⟩
  have hpp' : p.Continues p' := ⟨hqr.continues.id, hqr.continues.ext, hqr.continues.func,
    congrArg List.tail hloops, hqr.continues.depth⟩
  refine Runs.of_done rfl ⟨p', rfl, hpq.proceeds hrp' hqr hpp', Or.imp (hpq.errs hrp') ?_ hlays⟩
  intro hlays W f hW hf
  rw [← hpq.spot, hrp'.spot]
  exact hlays W f (hpq.waits hW) (hrp'.becomes hf)

/-- The condition of a loop is entered. -/
theorem Prepares.runs_test {e : ExprId} {test start last : BlockId} {next : Lower β}
    {done : β → State → Prop} (h : Prepares (test :: bs) p q) (hstart : q.Target start)
    (hlast : q.Target last)
    (hnext : ∀ r, Prepares bs p r → q.Proceeds [test] r →
      (q.Errs r ∨ ∀ W f, Site.Waits W p.toSite → Site.Becomes (bs ++ W) r.toSite f →
        Tests env f (some e) test start last) → Runs next env r.state done p.Breaks) :
    Runs (do
      setBlock test
      let c ← condition e line
      emit line (Build.branch c start last)
      next) env q.state done p.Breaks := by
  have hchoice : Runs (do
      setBlock test
      (do
        let c ← condition e line
        emit line (Build.branch c start last))
      next) env q.state done p.Breaks := by
    refine h.runs_enter (fun r hqr => puts_choice e (hqr.target hstart) (hqr.target hlast))
      fun _ r hr hqr hlays => hnext r hr hqr (Or.imp_right ?_ hlays)
    intro hlays W f hW hf
    exact ⟨line, hlays W f hW hf _ rfl⟩
  refine Runs.of_eq ?_ hchoice
  simp only [bind_bind]

/-- A round of a loop that never ends by itself. -/
theorem Prepares.runs_always {test start : BlockId} {next : Lower β} {done : β → State → Prop}
    (h : Prepares (test :: bs) p q) (last : BlockId) (hstart : q.Target start)
    (hnext : ∀ r, Prepares bs p r → q.Proceeds [test] r →
      (q.Errs r ∨ ∀ W f, Site.Waits W p.toSite → Site.Becomes (bs ++ W) r.toSite f →
        Tests env f none test start last) → Runs next env r.state done p.Breaks) :
    Runs (do
      setBlock test
      emit line (Build.goto start)
      next) env q.state done p.Breaks := by
  refine h.runs_enter (fun r hqr => puts_goto (hqr.target hstart))
    fun _ r hr hqr hlays => hnext r hr hqr (Or.imp_right ?_ hlays)
  intro hlays W f hW hf
  exact (hlays W f hW hf).2 _ rfl

/-- A loop without a step goes on in front of its condition. -/
theorem lowers_whileLoop {cond : ExprId} {body : StmtId} {l : UInt32}
    (hlower : ∀ q : Place, q.state.loops ≠ [] →
      q.Fills env (lower body) fun f => Laid env f (.stmt body) q.state.loops.head?)
    (h : env.tree.stmt? id = some ⟨.whileLoop cond body, l⟩) :
    p.Lowers env (whileLoop lower cond body l.toNat) (.stmt id) := by
  obtain ⟨test, p₁, hrun, hp₁, hspot₁, -⟩ := (Prepares.nil (.refl [] p)).exists_newBlock env l.toNat
  refine Runs.bind_of_done hrun ?_
  obtain ⟨start, p₂, hrun, hp₂, hspot₂, -⟩ := hp₁.exists_newBlock env l.toNat
  refine Runs.bind_of_done hrun ?_
  obtain ⟨last, p₃, hrun, hp₃, hspot₃, -⟩ := hp₂.exists_newBlock env l.toNat
  refine Runs.bind_of_done hrun ?_
  replace hp₃ := hp₃.perm (List.reverse_perm [last, start, test]).symm
  have htest := hp₃.target List.mem_cons_self
  have hstart := hp₃.target (List.mem_cons_of_mem test List.mem_cons_self)
  have hlast := hp₃.target (List.mem_cons_of_mem test (List.mem_cons_of_mem start List.mem_cons_self))
  obtain ⟨p₄, hrun, hp₃₄, hjoin⟩ := exists_fallThrough env l.toNat htest
  refine Runs.bind_of_done hrun ?_
  have hp₄ := hp₃.proceed hp₃₄
  refine hp₄.runs_test (hp₃₄.continues.target hstart) (hp₃₄.continues.target hlast)
    fun p₅ hp₅ hp₄₅ htests => ?_
  have h₃₅ : p₃.Continues p₅ := IsTrans.trans _ _ _ hp₃₄.continues hp₄₅.continues
  refine hp₅.runs_arm (h₃₅.target htest) (fun r hr => puts_loopBody (T := ⟨last, test⟩)
    (hr.target (h₃₅.target hlast)) (hr.target (h₃₅.target htest)) hlower) fun p₆ hp₆ hp₅₆ hbody => ?_
  obtain ⟨q, hrun, hq, hp₆q, hspot⟩ := hp₆.exists_leave env
  refine Runs.of_done hrun ⟨q, rfl, hq, ?_⟩
  have hp₅q := hp₅₆.enters hp₆q
  rcases htests with herrs | htests
  · exact .inl ((herrs.before hp₅q).after hp₄.proceeds)
  rcases hbody with herrs | hbody
  · exact .inl ((herrs.before hp₆q).after hp₅.proceeds)
  refine .inr fun W f hW hf => ?_
  obtain ⟨Q, hlaid, hjoin'⟩ := hbody W f hW (hp₆q.becomes hf)
  replace hjoin := hjoin _ f ((hp₄₅.enters hp₅q).becomes hf)
  rw [hspot₃, hspot₂, hspot₁] at hjoin
  rw [hspot W f hf]
  exact .whileLoop h hjoin (.loop (htests W f hW (hp₅q.becomes hf)) hlaid hjoin'
    fun _ hP => .inl (Option.some.inj hP).symm)

/-- What is known behind the rounds of a loop with a step, which begin at the place `q`. -/
def EndsRound (p q : Place) (env : Env) (step : Option ExprId) (body : StmtId)
    (test start next last : BlockId) (t : State) : Prop :=
  ∃ r : Place, r.state = t ∧ p.Proceeds [] r ∧ q.Proceeds [start, next, last] r ∧
    (∀ W f, Site.Becomes W r.toSite f → r.spot f = some (f.start last)) ∧
    (q.Errs r ∨ ∀ W f, Site.Waits W p.toSite → Site.Becomes W r.toSite f →
      (∃ Q, Laid env f (.stmt body) (some ⟨last, next⟩) (some (f.start start)) Q ∧ Joins f Q next) ∧
        StepsTo env f step next test)

/-- A round of a loop with a step. -/
theorem Prepares.runs_round {test start next last : BlockId} (h : Prepares [start, next, last] p q)
    (htest : q.Target test) (step : Option ExprId) (body : StmtId)
    (hlower : ∀ q : Place, q.state.loops ≠ [] →
      q.Fills env (lower body) fun f => Laid env f (.stmt body) q.state.loops.head?) :
    Runs (do
      setBlock start
      loopBody lower body ⟨last, next⟩
      fallThrough next line
      setBlock next
      match step with
      | some step => ignoring (rvalue step)
      | none => pure ()
      fallThrough test line
      setBlock last) env q.state (fun _ => p.EndsRound q env step body test start next last) p.Breaks := by
  have hnext := h.target (List.mem_cons_of_mem start List.mem_cons_self)
  have hlast := h.target (List.mem_cons_of_mem start (List.mem_cons_of_mem next List.mem_cons_self))
  refine h.runs_arm hnext (fun r hr => puts_loopBody (T := ⟨last, next⟩) (hr.target hlast)
    (hr.target hnext) hlower) fun p₁ hp₁ hqp₁ hbody => ?_
  -- What is left when the step has been written, whatever it is.
  have hend : ∀ p₂, Prepares [last] p p₂ → p₁.Proceeds [next] p₂ →
      (p₁.Errs p₂ ∨ ∀ W f, Site.Waits W p.toSite → Site.Becomes ([last] ++ W) p₂.toSite f →
        StepsTo env f step next test) →
      Runs (setBlock last) env p₂.state (fun _ => p.EndsRound q env step body test start next last)
        p.Breaks := by
    intro p₂ hp₂ hp₁₂ hstep
    obtain ⟨r, hrun, hr, hp₂r, hspot⟩ := hp₂.exists_leave env
    have hp₁r := hp₁₂.enters hp₂r
    refine Runs.of_done hrun ⟨r, rfl, hr, hqp₁.enters hp₁r, hspot, ?_⟩
    rcases hbody with herrs | hbody
    · exact .inl (herrs.before hp₁r)
    rcases hstep with herrs | hstep
    · exact .inl ((herrs.before hp₂r).after hqp₁)
    exact .inr fun W f hW hf => ⟨hbody W f hW (hp₁r.becomes hf), hstep W f hW (hp₂r.becomes hf)⟩
  have htest₁ := hqp₁.continues.target htest
  cases step with
  | none =>
    refine Runs.of_eq (n := do setBlock next; (pure () : Lower Unit); fallThrough test line; setBlock last) rfl ?_
    refine hp₁.runs_arm (m := pure ()) (S := fun _ P Q => Q = P) htest₁ (fun _ _ => Puts.pure fun _ _ => rfl)
      fun p₂ hp₂ hp₁₂ hstep => hend p₂ hp₂ hp₁₂ (Or.imp_right ?_ hstep)
    intro hstep W f hW hf
    obtain ⟨_, rfl, hjoin⟩ := hstep W f hW hf
    exact hjoin
  | some e =>
    refine hp₁.runs_arm (S := fun f P Q => ∃ v, Shape.code env (rvalue e) v f P Q) htest₁
      (fun r _ => (puts_rvalue e).ignoring.puts)
      fun p₂ hp₂ hp₁₂ hstep => hend p₂ hp₂ hp₁₂ (Or.imp_right ?_ hstep)
    intro hstep W f hW hf
    obtain ⟨_, ⟨v, hcode⟩, hjoin⟩ := hstep W f hW hf
    obtain ⟨R, rfl, hregion⟩ := hcode _ rfl
    exact ⟨v, R, hregion, hjoin⟩

/-- A loop with a step, behind its initialization. -/
theorem puts_rounds (cond step : Option ExprId) (body : StmtId)
    (hlower : ∀ q : Place, q.state.loops ≠ [] →
      q.Fills env (lower body) fun f => Laid env f (.stmt body) q.state.loops.head?) :
    p.Puts env (do
      let condBlock ← emit line Build.newBlock
      let bodyBlock ← emit line Build.newBlock
      let stepBlock ← emit line Build.newBlock
      let endBlock ← emit line Build.newBlock
      fallThrough condBlock line
      setBlock condBlock
      match cond with
      | some cond =>
        let c ← condition cond line
        emit line (Build.branch c bodyBlock endBlock)
      | none => emit line (Build.goto bodyBlock)
      setBlock bodyBlock
      loopBody lower body ⟨endBlock, stepBlock⟩
      fallThrough stepBlock line
      setBlock stepBlock
      match step with
      | some step => ignoring (rvalue step)
      | none => pure ()
      fallThrough condBlock line
      setBlock endBlock) fun _ f P Q => ∃ test, Joins f P test ∧
        Laid env f (.loop cond step body) L (some (f.start test)) Q := by
  obtain ⟨test, p₁, hrun, hp₁, hspot₁, -⟩ := (Prepares.nil (.refl [] p)).exists_newBlock env line
  refine Runs.bind_of_done hrun ?_
  obtain ⟨start, p₂, hrun, hp₂, hspot₂, -⟩ := hp₁.exists_newBlock env line
  refine Runs.bind_of_done hrun ?_
  obtain ⟨next, p₃, hrun, hp₃, hspot₃, -⟩ := hp₂.exists_newBlock env line
  refine Runs.bind_of_done hrun ?_
  obtain ⟨last, p₄, hrun, hp₄, hspot₄, -⟩ := hp₃.exists_newBlock env line
  refine Runs.bind_of_done hrun ?_
  replace hp₄ := hp₄.perm (List.reverse_perm [last, next, start, test]).symm
  have htest := hp₄.target List.mem_cons_self
  obtain ⟨p₅, hrun, hp₄₅, hjoin⟩ := exists_fallThrough env line htest
  refine Runs.bind_of_done hrun ?_
  have hp₅ := hp₄.proceed hp₄₅
  have hstart := hp₅.target (List.mem_cons_of_mem test List.mem_cons_self)
  have hlast : p₅.Target last := hp₅.target (by simp)
  -- What is left behind the condition, whatever it is.
  have hround : ∀ p₆ q, Prepares [start, next, last] p p₆ → p₅.Proceeds [test] p₆ →
      (p₅.Errs p₆ ∨ ∀ W f, Site.Waits W p.toSite → Site.Becomes ([start, next, last] ++ W) p₆.toSite f →
        Tests env f cond test start last) →
      p.EndsRound p₆ env step body test start next last q →
      ∃ r : Place, r.state = q ∧ p.Proceeds [] r ∧ p.Lays (fun f P Q => ∃ test, Joins f P test ∧
        Laid env f (.loop cond step body) L (some (f.start test)) Q) r := by
    rintro p₆ _ hp₆ hp₅₆ htests ⟨r, rfl, hr, hp₆r, hspot, hround⟩
    refine ⟨r, rfl, hr, ?_⟩
    rcases htests with herrs | htests
    · exact .inl ((herrs.before hp₆r).after hp₅.proceeds)
    rcases hround with herrs | hround
    · exact .inl (herrs.after hp₆.proceeds)
    refine .inr fun W f hW hf => ?_
    obtain ⟨⟨Q, hlaid, hjoin'⟩, hstep⟩ := hround W f hW hf
    replace hjoin := hjoin _ f ((hp₅₆.enters hp₆r).becomes hf)
    rw [hspot₄, hspot₃, hspot₂, hspot₁] at hjoin
    rw [hspot W f hf]
    exact ⟨test, hjoin, .loop (htests W f hW (hp₆r.becomes hf)) hlaid hjoin' hstep⟩
  replace htest := hp₄₅.continues.target htest
  cases cond with
  | none =>
    refine hp₅.runs_always last hstart fun p₆ hp₆ hp₅₆ htests => ?_
    exact Runs.imp (hp₆.runs_round (hp₅₆.continues.target htest) step body hlower)
      (fun _ t h => hround p₆ t hp₆ hp₅₆ htests h) fun _ h => h
  | some cond =>
    refine hp₅.runs_test hstart hlast fun p₆ hp₆ hp₅₆ htests => ?_
    exact Runs.imp (hp₆.runs_round (hp₅₆.continues.target htest) step body hlower)
      (fun _ t h => hround p₆ t hp₆ hp₅₆ htests h) fun _ h => h

theorem lowers_forLoop {init : Option StmtId} {cond step : Option ExprId} {body : StmtId} {l : UInt32}
    (hinit : ∀ s ∈ init, p.Lowers env (lower s) (.stmt s))
    (hlower : ∀ q : Place, q.state.loops ≠ [] →
      q.Fills env (lower body) fun f => Laid env f (.stmt body) q.state.loops.head?)
    (h : env.tree.stmt? id = some ⟨.forLoop init cond step body, l⟩) :
    p.Lowers env (forLoop lower init cond step body l.toNat) (.stmt id) := by
  cases init with
  | none =>
    refine (puts_rounds (L := p.state.loops.head?) cond step body hlower).imp ?_
    rintro _ f P Q ⟨test, hjoin, hloop⟩
    exact .forLoop h .seqNil hjoin hloop
  | some init =>
    refine ((hinit init rfl).bind fun _ q _ => puts_rounds (L := p.state.loops.head?) cond step body hlower).imp ?_
    rintro _ f P Q ⟨-, R, hinit, test, hjoin, hloop⟩
    exact .forLoop h (.seqCons hinit .seqNil) hjoin hloop

/-! ### Declarations and lists -/

omit lower

theorem inserts_declareLocal (d : DeclaratorId) (base : Ty) :
    p.Inserts env (declareLocal d base) fun _ _ => True :=
  (inserts_of_reads (Site.reads_resolveDeclarator _ _ _)).bind fun _ _ _ _ => inserts_declareOne _ _

theorem regular_declareLocal (d : DeclaratorId) (base : Ty) :
    Regular (.loose env) true (declareLocal d base) :=
  .bindProduced (regular_resolveDeclarator trivial _ _) fun _ hinfo =>
    regular_declareOne _ (bearsInit_resolveDeclarator trivial hinfo)

theorem puts_declarators (ds : List DeclaratorId) (base : Ty) :
    p.Puts env (ds.forM fun d => ignoring (declareLocal d base)) fun _ f =>
      Laid env f (.declarators ds) L := by
  induction ds generalizing p with
  | nil => exact .pure fun _ _ => .declaratorsNil
  | cons d rest ih =>
    refine Puts.imp (Puts.bind (puts_code (inserts_declareLocal d base)
      (regular_declareLocal d base)).ignoring.puts fun _ q _ => ih) ?_
    rintro _ f P Q ⟨-, R, ⟨_, hcode⟩, hrest⟩
    cases P with
    | none => exact .dead _ _ _
    | some P =>
      obtain ⟨R, rfl, hregion⟩ := hcode P rfl
      exact .declaratorsCons hregion hrest

theorem lowers_variableList {decl : VariableDecl} {l : UInt32} (hstorage : decl.storage = .normal)
    (h : env.tree.stmt? id = some ⟨.variable decl, l⟩) :
    p.Lowers env (variableList decl) (.stmt id) := by
  have hresolve : p.Puts env (resolve decl.spec) fun _ _ P Q => Q = P :=
    puts_reads (Site.reads_resolve _) (regular_resolve trivial)
  refine (hresolve.bind (T := fun _ _ f => Laid env f (.declarators decl.declarators) p.state.loops.head?)
    fun base q _ => ?_).imp ?_
  · rw [hstorage]
    exact puts_declarators decl.declarators base
  · rintro _ f P Q ⟨_, _, rfl, hdecl⟩
    exact .declaration h hdecl

/-- Some statements, one after the other. -/
theorem lowers_seq {lower : StmtId → Lower Unit} (ids : List StmtId)
    (hlower : ∀ s ∈ ids, ∀ q : Place, q.state.loops = p.state.loops → q.Lowers env (lower s) (.stmt s)) :
    p.Lowers env (ids.forM lower) (.seq ids) := by
  induction ids generalizing p with
  | nil => exact .pure fun _ _ => .seqNil
  | cons s rest ih =>
    refine Puts.imp ((hlower s List.mem_cons_self p rfl).bind fun _ q hpq => Lowers.of_loops
      (ih fun s' hs r hr => ?_) hpq.loops) ?_
    · exact hlower s' (List.mem_cons_of_mem s hs) r (hr.trans hpq.loops)
    · rintro _ f P Q ⟨-, R, hfirst, hrest⟩
      exact .seqCons hfirst hrest

/-! ### All structured statements -/

theorem lowers_statementWith {lower : StmtId → Lower Unit} {inLoop : Bool}
    (hlower : ∀ {inLoop : Bool} {id : StmtId} {q : Place}, env.tree.Structured inLoop id →
      (inLoop → q.state.loops ≠ []) →
      q.Fills env (lower id) fun f => Laid env f (.stmt id) q.state.loops.head?)
    (hid : env.tree.Structured inLoop id) (hloops : inLoop → p.state.loops ≠ []) :
    p.Lowers env (statementWith lower id) (.stmt id) := by
  -- The parts of the statement that stand in the same loops, and the bodies of loops.
  have hpart : ∀ {s : StmtId}, env.tree.Structured inLoop s → ∀ q : Place,
      q.state.loops = p.state.loops → q.Lowers env (lower s) (.stmt s) := fun hs q hq =>
    (hlower hs fun hin => hq ▸ hloops hin).puts
  have hround : ∀ {s : StmtId}, env.tree.Structured true s → ∀ q : Place, q.state.loops ≠ [] →
      q.Fills env (lower s) fun f => Laid env f (.stmt s) q.state.loops.head? := fun hs q hq =>
    hlower hs fun _ => hq
  have hstmt : ∀ {s : Stmt}, env.tree.stmt? id = some s → stmt id env p.state = (.done s, p.state) := by
    intro s h
    simp only [stmt, Lower.env, Bind.bind, Lower.bind, h, present]
    rfl
  cases hid with
  | @expression _ _ e line h =>
    refine Runs.bind_of_done (hstmt h) (((puts_rvalue e).bind (T := fun _ _ _ P Q => Q = P) fun _ q _ =>
      .pure fun _ _ => rfl).imp ?_)
    rintro _ f P _ ⟨v, R, hcode, rfl⟩
    cases P with
    | none => exact .dead _ _ _
    | some P =>
      obtain ⟨R, rfl, hregion⟩ := hcode P rfl
      exact .expression h hregion
  | @block _ _ body line h hbody =>
    refine Runs.bind_of_done (hstmt h) (Puts.localScope fun q hq => ?_)
    refine (Lowers.of_loops (lowers_seq body fun s hs r hr => hpart (hbody s hs) r (hr.trans hq)) hq).imp ?_
    exact fun _ f P Q hseq => .block h hseq
  | branch h hyes hno =>
    exact Runs.bind_of_done (hstmt h) (lowers_branch (hpart hyes) (fun s hs => hpart (hno s hs)) h)
  | whileLoop h hbody => exact Runs.bind_of_done (hstmt h) (lowers_whileLoop (hround hbody) h)
  | forLoop h hinit hbody =>
    refine Runs.bind_of_done (hstmt h) (Puts.localScope fun q hq => Lowers.of_loops ?_ hq)
    exact lowers_forLoop (fun s hs => hpart (hinit s hs) q hq) (hround hbody) h
  | @ret _ _ value line h =>
    refine Runs.bind_of_done (hstmt h) ((puts_ret value).imp ?_)
    rintro _ f P Q ⟨rfl, hreturns⟩
    cases P with
    | none => exact .dead _ _ _
    | some P =>
      obtain ⟨R, hreturns⟩ := hreturns P rfl
      exact .ret h hreturns
  | brk h =>
    refine Runs.bind_of_done (hstmt h) ((puts_loopJump (fun _ hbrk _ => hbrk) (hloops rfl)).imp ?_)
    rintro _ f P Q ⟨T, hT, rfl, hjump⟩
    cases P with
    | none => exact .dead _ _ _
    | some P =>
      obtain ⟨hrest, hterm⟩ := hjump P rfl
      exact hT ▸ .brk h hrest hterm
  | cont h =>
    refine Runs.bind_of_done (hstmt h) ((puts_loopJump (fun _ _ hcont => hcont) (hloops rfl)).imp ?_)
    rintro _ f P Q ⟨T, hT, rfl, hjump⟩
    cases P with
    | none => exact .dead _ _ _
    | some P =>
      obtain ⟨hrest, hterm⟩ := hjump P rfl
      exact hT ▸ .cont h hrest hterm
  | declaration h hstorage => exact Runs.bind_of_done (hstmt h) (lowers_variableList hstorage h)

end Body

/-- **The code of a structured statement lies in the function as the statement says,** unless lowering it
has reported an error. -/
theorem statementTo_lays (depth : Nat) {inLoop : Bool} (hid : env.tree.Structured inLoop id)
    (hloops : inLoop → p.state.loops ≠ []) :
    p.Fills env (statementTo depth id) fun f => Laid env f (.stmt id) p.state.loops.head? := by
  induction depth generalizing p id inLoop with
  | zero => exact Runs.of_stuck rfl fun _ h => nomatch h
  | succ depth ih =>
    refine (lowers_statementWith (fun hid hloops => ih hid hloops) hid hloops).ignoring.imp ?_
    rintro f P Q ⟨-, hlaid⟩
    exact hlaid

end TreeFlow.Lower.Place
