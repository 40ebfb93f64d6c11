import TreeFlow.Proofs.Graph.Finished
import TreeFlow.Proofs.Lowering.RegularStatement
import TreeFlow.Proofs.Lowering.Reporting
import TreeFlow.Proofs.Lowering.Sound
import TreeFlow.Proofs.Lowering.Statement
import TreeFlow.Proofs.Machine.Leaving

/-!
# Bodies of functions

A body that is lowered from a state with no open loops and no pending labels begins at a place, its
statements lead from place to place, and its end closes all blocks. So the function is finished
(`Function.IsFinished`), whatever was reported on the way (`runs_functionBody`).
-/

namespace TreeFlow

namespace Lower

variable {env : Env} {line : Nat} {s : State} {id : FuncId} {f : Function}

/-- What a function returns where its body ends without a `return`. -/
def implicitResult (result : Ty) : Option Operand :=
  if result.isVoid then none else some (.const (.zero result))

/-! ### The beginning -/

/-- A state in which the body of a function that was only declared begins. -/
structure State.BeginsBody (s : State) (id : FuncId) (result : Ty) (f : Function) : Prop where
  builds : s.builder.Builds id f
  blank : f.IsBlank
  func : ∃ name, s.func = some ⟨id, name, result⟩
  inside : s.scopes.locals ≠ []
  names : ∀ b, s.context.Visible b → ∃ c, b.addr = .const c
  loops : s.loops = []
  pending : s.pending = []
  labels : s.scopes.labels = []

namespace Place

variable {p q : Place} {result : Ty}

/-- The place where a body begins: at the beginning of the entry block, the only one that is there. -/
structure IsEntry (p : Place) (s : State) (id : FuncId) (e : BlockId) : Prop where
  id : p.id = id
  entry : p.function.entry? = some e
  openBlock : p.openBlock = some e
  code : p.function.codeAt e = []
  diags : p.state.diags = s.diags
  func : p.state.func = s.func
  loops : p.state.loops = s.loops

/-- The entry block is made where a body begins; the body continues from there. -/
theorem exists_entry (env : Env) (line : Nat) (h : s.BeginsBody id result f) :
    ∃ e t, ∃ p : Place, emit line Build.newBlock env s = (.done e, t) ∧ p.IsEntry s id e ∧
      setBlock e env t = (.done (), p.state) := by
  have hnew := f.not_has_nextBlock
  let p : Place := {
    state := { s with builder := (s.builder.write id (f.addBlock (f.layout ++ [f.nextBlock]))
      s.builder.block).setBlock f.nextBlock }
    id := id
    function := f.addBlock (f.layout ++ [f.nextBlock])
    parents := fun _ => none
    builds := h.builds.write
    wellFormed := h.blank.wellFormed_addBlock
    has_cursor := fun c hc => Option.some.inj hc ▸ Function.has_addBlock.2 (.inr rfl)
    names := fun b hb y hy => by
      obtain ⟨c, hc⟩ := h.names b hb
      exact nomatch hc.symm.trans hy
    func := by
      obtain ⟨name, hname⟩ := h.func
      exact ⟨_, hname, rfl⟩
    inside := h.inside
    loops := fun t ht => by simp [h.loops] at ht
    pending := fun l hl => by simp [h.pending] at hl
    labels := fun l hl => by simp [h.labels] at hl }
  refine ⟨f.nextBlock, _, p, emit_of_ok (Build.newBlock_eq h.builds), ?_, rfl⟩
  exact {
    id := rfl
    entry := by
      show (f.layout ++ [f.nextBlock]).head? = _
      rw [h.blank.layout]
      rfl
    openBlock := Site.openBlock_eq_some_iff.2
      ⟨rfl, Function.termAt_addBlock.trans (Function.termAt_of_not_has hnew)⟩
    code := Function.codeAt_addBlock.trans
      (List.eq_nil_iff_forall_not_mem.2 fun i hi => hnew (Function.has_of_mem_codeAt hi))
    diags := rfl
    func := rfl
    loops := rfl }

theorem inserts_bindParams (i : Nat) (ps : List DeclaratorInfo) :
    p.Inserts env (bindParams i ps) fun _ _ => True := by
  induction ps generalizing p i with
  | nil => exact .pure trivial
  | cons d rest ih =>
    unfold bindParams
    cases d.name with
    | none => exact (inserts_report _ _).bind fun _ _ _ _ => ih _
    | some name =>
      refine (inserts_of_writes (Site.writes_alloca d.ty)).bind fun slot q _ hslot => ?_
      refine (inserts_of_writes (Site.writes_store (Site.knows_of_anywhere hslot)
        (q.knows_arg i))).bind fun _ r hqr _ => ?_
      exact (inserts_defineVar (knownAnywhere_mono hqr.toContinues hslot)).bind fun _ _ _ _ => ih _

/-! ### The end -/

/-- Blocks were only closed, as ones that control never gets to. -/
structure Shuts (p q : Place) : Prop extends Continues p q where
  code : ∀ b, p.function.Has b → q.function.codeAt b = p.function.codeAt b
  term : ∀ b, p.function.Has b → q.function.termAt b = p.function.termAt b ∨
    p.function.termAt b = none ∧ q.function.termAt b = some .unreachable
  edge : ∀ c, ∀ b ∈ q.function.successors c, b ∈ p.function.successors c

theorem shuts_of_function (hpq : p.Continues q) (h : q.function = p.function) : p.Shuts q where
  toContinues := hpq
  code b _ := by rw [h]
  term b _ := .inl (by rw [h])
  edge c b hb := h ▸ hb

theorem Shuts.trans {r : Place} (hpq : p.Shuts q) (hqr : q.Shuts r) : p.Shuts r where
  toContinues := IsTrans.trans _ _ _ hpq.toContinues hqr.toContinues
  code b hb := (hqr.code b (hpq.ext.has b hb)).trans (hpq.code b hb)
  term b hb := by
    rcases hqr.term b (hpq.ext.has b hb) with heq | ⟨hnone, hclosed⟩
    · exact (hpq.term b hb).imp heq.trans fun h => ⟨h.1, heq.trans h.2⟩
    · rcases hpq.term b hb with heq | ⟨-, hold⟩
      · exact .inr ⟨heq.symm.trans hnone, hclosed⟩
      · exact nomatch hnone.symm.trans hold
  edge c b hb := hpq.edge c b (hqr.edge c b hb)

theorem shuts_of_closes {c : BlockId} (hpq : p.Continues q) (h : p.toSite.Closes c .unreachable q.toSite) :
    p.Shuts q where
  toContinues := hpq
  code b _ := h.code b
  term b hb := by
    rw [h.term]
    split
    · next heq =>
      subst heq
      exact .inr ⟨(Site.openBlock_eq_some_iff.1 (h.place.resolve_right fun hnew => hnew.2 hb)).2, rfl⟩
    · exact .inl rfl
  edge d b hb := by
    rw [h.successors] at hb
    split at hb
    · exact absurd hb List.not_mem_nil
    · exact hb

theorem completes_report (kind : DiagnosticKind) (line : Nat) :
    p.Completes env (report kind line) fun _ q => p.toSite.Keeps q.toSite :=
  completes_of_done (walks_of_reads ((Site.reads_report kind line).imp fun _ _ hkeeps _ => hkeeps))
    ⟨_, _, rfl⟩

theorem completes_setBlock {b : BlockId} (hb : p.function.Has b) :
    p.Completes env (setBlock b) fun _ q => q.function = p.function ∧ q.state.builder.block = some b :=
  Runs.of_done rfl ⟨p.lift (p.moveTo b hb) rfl (.refl _ _) rfl, rfl, continues_lift _ _ _, rfl, rfl⟩

/-- A terminator that leads nowhere. -/
theorem completes_leave {t : Terminator} (hoperands : ∀ v ∈ t.operands, p.Knows v)
    (htargets : t.successors = []) :
    p.Completes env (emit line (Build.terminate t)) fun _ q =>
      ∃ c, p.toSite.Closes c t q.toSite := by
  obtain ⟨c, y, hrun, hcloses, hext, -⟩ := Site.exists_terminate env line p.toSite hoperands
    (by simp [htargets])
  exact Runs.of_done hrun ⟨p.lift y hcloses.id hext hcloses.context, rfl, continues_lift _ _ _, c,
    hcloses⟩

theorem completes_unreachable : p.Completes env (emit line Build.unreachable) fun _ q =>
    ∃ c, p.toSite.Closes c .unreachable q.toSite :=
  completes_leave (by simp [Terminator.operands]) rfl

theorem completes_ret {value : Option Operand} (h : ∀ v ∈ value, p.Knows v) :
    p.Completes env (emit line (Build.ret value)) fun _ q => ∃ c, p.toSite.Closes c (.ret value) q.toSite :=
  completes_leave (by simpa [Terminator.operands] using h) rfl

/-- The block where control gets to the end of a body returns. If control never gets there, the block is
closed like any other one. -/
theorem completes_closeLast {o : OpenFunction} {d : BlockId} (hid : o.id = p.id)
    (hd : p.openBlock = some d) : p.Completes env (closeLast o line) fun _ q =>
      ∃ t, p.toSite.Closes d t q.toSite ∧
        (p.function.Entered d → t = .ret (implicitResult o.result)) ∧
        (¬p.function.Entered d → t = .unreachable) := by
  have hclose : ∀ {r q : Place} {t : Terminator}, p.toSite.Keeps r.toSite →
      (∃ c, r.toSite.Closes c t q.toSite) → p.toSite.Closes d t q.toSite := by
    rintro r q t hkeeps ⟨c, hcloses⟩
    obtain rfl := hcloses.eq (hkeeps.openBlock.trans hd)
    exact hcloses.of_keeps hkeeps
  have hrest : ∀ (reached : Bool), (reached ↔ p.function.Entered d) → p.Completes env (do
      if !reached then emit line Build.unreachable
      else if o.result.isVoid then emit line (Build.ret none)
      else
        report .missingReturnStatement line
        emit line (Build.ret (some (.const (.zero o.result))))) fun _ q =>
      ∃ t, p.toSite.Closes d t q.toSite ∧
        (p.function.Entered d → t = .ret (implicitResult o.result)) ∧
        (¬p.function.Entered d → t = .unreachable) := by
    intro reached hreached
    split
    · next hnot =>
      refine completes_unreachable.imp fun _ q h => ⟨_, hclose (Std.Refl.refl _) h, fun h => ?_, fun _ => rfl⟩
      simp [hreached.2 h] at hnot
    · next hyes =>
      have hentered : p.function.Entered d := hreached.1 (by simpa using hyes)
      split
      · next hvoid =>
        refine (completes_ret (by simp)).imp fun _ q h =>
          ⟨_, hclose (Std.Refl.refl _) h, fun _ => ?_, fun h => absurd hentered h⟩
        rw [implicitResult, if_pos hvoid]
      · next hvoid =>
        refine (completes_report _ _).bind fun _ r _ hkeeps => ?_
        refine (completes_ret (by simp [Site.knows_const])).imp fun _ q h =>
          ⟨_, hclose hkeeps h, fun _ => ?_, fun h => absurd hentered h⟩
        rw [implicitResult, if_neg hvoid]
  refine Runs.bind_of_done rfl ?_
  dsimp only
  obtain ⟨hblock, -⟩ := Site.openBlock_eq_some_iff.1 hd
  split
  · next hnone => exact nomatch hnone.symm.trans hblock
  · next c hc =>
    obtain rfl : c = d := Option.some.inj (hc.symm.trans hblock)
    refine Runs.bind_of_done (emit_of_ok (Build.predecessors_eq p.builds c)) ?_
    refine Runs.bind_of_done rfl (Runs.bind_of_done rfl (hrest _ ?_))
    have hfunction : p.state.builder.mod.function? o.id = some p.function := hid ▸ p.builds.2
    show (!_ || (p.state.builder.mod.function? o.id).bind Function.entry? == some c) = true ↔ _
    rw [hfunction, Option.bind_some, Bool.or_eq_true, Function.Entered, or_comm]
    refine or_congr (by simp) ?_
    rw [Bool.not_eq_true', List.isEmpty_eq_false_iff_exists_mem]
    simp only [p.wellFormed.mem_predecessors]

theorem completes_closePending (labels : List PendingLabel)
    (hlabels : ∀ l ∈ labels, p.function.Has l.block) :
    p.Completes env (closePending labels) fun _ q => p.Shuts q := by
  induction labels generalizing p with
  | nil => exact .pure (shuts_of_function (Std.Refl.refl p) rfl)
  | cons l rest ih =>
    refine (completes_report _ _).bind fun _ q hq hkeeps => ?_
    refine (completes_setBlock (hq.ext.has _ (hlabels l List.mem_cons_self))).bind
      fun _ r hr ⟨hfunction, _⟩ => ?_
    refine completes_unreachable.bind fun _ p' hp' ⟨c, hc⟩ => (ih fun k hk => ?_).imp fun _ q' hq' => ?_
    · exact hp'.ext.has _ (hr.ext.has _ (hq.ext.has _ (hlabels k (List.mem_cons_of_mem _ hk))))
    · exact (shuts_of_function hq hkeeps.function).trans
        ((shuts_of_function hr hfunction).trans ((shuts_of_closes hp' hc).trans hq'))

/-- The blocks of a list that holds all open ones are closed one by one. What is invariant is that the
blocks that are left hold all open ones. -/
theorem completes_closeBlocks (bs : List BlockId) (hbs : ∀ b ∈ bs, p.function.Has b)
    (hopen : ∀ b, p.function.Has b → p.function.termAt b = none → b ∈ bs) :
    p.Completes env (closeBlocks line bs) fun _ q =>
      p.Shuts q ∧ ∀ b, q.function.Has b → (q.function.termAt b).isSome := by
  induction bs generalizing p with
  | nil =>
    refine .pure ⟨shuts_of_function (Std.Refl.refl p) rfl, fun b hb => ?_⟩
    exact Option.isSome_iff_ne_none.2 fun hnone => absurd (hopen b hb hnone) List.not_mem_nil
  | cons b rest ih =>
    refine (completes_setBlock (hbs b List.mem_cons_self)).bind fun _ q hq ⟨hfunction, hblock⟩ => ?_
    refine completes_unreachable.bind fun _ r hr ⟨c, hc⟩ => ?_
    have hshuts := (shuts_of_function hq hfunction).trans (shuts_of_closes hr hc)
    rw [← hfunction] at hbs hopen
    refine (ih (fun d hd => hr.ext.has _ (hbs d (List.mem_cons_of_mem _ hd))) fun d hd hnone => ?_).imp
      fun _ q' hq' => ⟨hshuts.trans hq'.1, hq'.2⟩
    rw [hc.term] at hnone
    split at hnone
    · exact nomatch hnone
    · next hne =>
      refine (List.mem_cons.1 (hopen d (((hc.has d).1 hd).resolve_right (Ne.symm hne)) hnone)).resolve_left
        fun heq => hne ?_
      subst heq
      exact hc.eq (Site.openBlock_eq_some_iff.2 ⟨hblock, hnone⟩)

/-- Behind the place where a body ends, the pending labels and all open blocks are closed. -/
theorem completes_closeRest (hid : p.id = id) : p.Completes env (closeRest line id)
    fun _ q => p.Shuts q ∧ ∀ b, q.function.Has b → (q.function.termAt b).isSome := by
  refine Runs.bind_of_done rfl ?_
  have hclear : p.Completes env (update fun s => { s with pending := [] }) fun _ q => q.function = p.function :=
    Runs.of_done rfl ⟨p.amend { p.state with pending := [] } p.builds rfl rfl p.inside p.names p.loops
      (fun _ h => nomatch h) p.labels, rfl, ⟨rfl, .refl _ _, rfl, rfl, rfl⟩, rfl⟩
  refine hclear.bind fun _ q hq hsame => ?_
  refine (completes_closePending _ fun l hl => ?_).bind fun _ r hr hshuts => ?_
  · exact hq.ext.has _ (p.pending l (List.mem_mergeSort.1 hl)).has
  · have hfunction : r.state.builder.mod.function? id = some r.function := by
      rw [← hid, ← hq.id, ← hr.id]
      exact r.builds.2
    refine Runs.bind_of_done (a := some r.function) (t := r.state) ?_ ?_
    · rw [← hfunction]
      rfl
    · refine (completes_closeBlocks _ (fun b hb => ?_) fun b hb hnone => ?_).imp fun _ q' hq' =>
        ⟨(shuts_of_function hq hsame).trans (hshuts.trans hq'.1), hq'.2⟩
      · exact (r.wellFormed.mem_layout b).1 (List.mem_of_mem_filter hb)
      · refine List.mem_filter.2 ⟨(r.wellFormed.mem_layout b).2 hb, ?_⟩
        simp [Function.isTerminated_eq, hnone]

/-- The end of a body, from the place where its last statement led to: every block is closed. The one at
the cursor returns if control may get there, and all others are never reached. -/
structure EndsBody (p q : Place) : Prop extends Continues p q where
  closed : ∀ b, q.function.Has b → (q.function.termAt b).isSome
  code : ∀ b, p.function.Has b → q.function.codeAt b = p.function.codeAt b
  edge : ∀ c, ∀ b ∈ q.function.successors c, b ∈ p.function.successors c
  idle : ∀ b, p.function.Has b → p.function.termAt b = none → p.openBlock ≠ some b →
    q.function.termAt b = some .unreachable
  last : ∀ b, p.openBlock = some b →
    (∃ o, p.state.func = some o ∧ p.function.Entered b ∧
      q.function.termAt b = some (.ret (implicitResult o.result))) ∨
    ¬p.function.Entered b ∧ q.function.termAt b = some .unreachable

/-- Where no block is open at the cursor, the end of a body only shuts blocks. -/
theorem endsBody_of_shuts (h : p.Shuts q) (hclosed : ∀ b, q.function.Has b → (q.function.termAt b).isSome)
    (hlast : p.openBlock = none) : p.EndsBody q where
  toContinues := h.toContinues
  closed := hclosed
  code := h.code
  edge := h.edge
  idle b hb hnone _ := by
    rcases h.term b hb with heq | ⟨-, hterm⟩
    · have hsome := hclosed b (h.ext.has b hb)
      simp [heq, hnone] at hsome
    · exact hterm
  last b hb := nomatch hlast.symm.trans hb

/-- The end of a body closes every block of the function. -/
theorem completes_finishFunction : p.Completes env (finishFunction line) fun _ q => p.EndsBody q := by
  obtain ⟨o, ho, hid⟩ := p.func
  refine Runs.bind_of_done (a := some o) (t := p.state) ?_ ?_
  · rw [← ho]
    rfl
  · refine Runs.bind_of_done rfl ?_
    dsimp only
    rw [Builder.isTerminated_eq p.builds]
    cases hopen : p.openBlock with
    | none =>
      have hnone : p.function.openAt p.state.builder.block = none := hopen
      rw [hnone]
      exact (completes_closeRest hid.symm).imp fun _ q ⟨hshuts, hclosed⟩ =>
        endsBody_of_shuts hshuts hclosed hopen
    | some d =>
      have hsome : p.function.openAt p.state.builder.block = some d := hopen
      rw [hsome]
      refine (completes_closeLast hid hopen).bind fun _ r hr ⟨t, hcloses, hyes, hno⟩ => ?_
      refine (completes_closeRest (hr.id.trans hid.symm)).imp fun _ q ⟨hshuts, hclosed⟩ => ?_
      have hleads : t.successors = [] := by
        by_cases hentered : p.function.Entered d
        · rw [hyes hentered]
          rfl
        · rw [hno hentered]
          rfl
      have hterm : q.function.termAt d = some t := by
        have hr : r.function.termAt d = some t := (hcloses.term d).trans (if_pos rfl)
        rcases hshuts.term d hcloses.has_self with heq | ⟨hnone, -⟩
        · exact heq.trans hr
        · exact nomatch hnone.symm.trans hr
      exact {
        toContinues := IsTrans.trans _ _ _ hr hshuts.toContinues
        closed := hclosed
        code := fun b hb => (hshuts.code b (hr.ext.has b hb)).trans (hcloses.code b)
        edge := fun c b hb => by
          have hb := hshuts.edge c b hb
          rw [hcloses.successors] at hb
          split at hb
          · exact absurd (hleads ▸ hb) List.not_mem_nil
          · exact hb
        idle := fun b hb hnone hne => by
          have hdb : d ≠ b := fun heq => hne (heq ▸ hopen)
          rcases hshuts.term b (hr.ext.has b hb) with heq | ⟨-, hterm⟩
          · have hsome := hclosed b (hshuts.ext.has b (hr.ext.has b hb))
            rw [heq, hcloses.term, if_neg hdb, hnone] at hsome
            exact nomatch hsome
          · exact hterm
        last := fun b hb => by
          obtain rfl := Option.some.inj (hopen.symm.trans hb)
          by_cases hentered : p.function.Entered d
          · exact .inl ⟨o, ho, hentered, hyes hentered ▸ hterm⟩
          · exact .inr ⟨hentered, hno hentered ▸ hterm⟩ }

end Place

/-! ### A whole body -/

/-- A step leaves the finished function `id` behind. -/
def Finishes (id : FuncId) (t : State) : Prop :=
  ∃ f, t.builder.mod.function? id = some f ∧ f.IsFinished

theorem runs_functionContents {depth : Nat} {result : Ty} {ps : List DeclaratorInfo} {body : StmtId}
    (h : s.BeginsBody id result f) :
    Runs (functionContents (statementTo depth) ps body line) env s
      (fun _ t => ∃ p : Place, p.state = t ∧ p.id = id) fun t => ∃ p : Place, p.state = t ∧ p.id = id := by
  obtain ⟨e, t, p, hrun, hp, hset⟩ := Place.exists_entry env line h
  refine Runs.bind_of_done hrun (Runs.bind_of_done hset ?_)
  have hrest : p.Walks env (do bindParams 0 ps; statementTo depth body) fun _ _ => True :=
    (p.inserts_bindParams 0 ps).walks.bind fun _ q _ _ => (q.statementTo_completes depth body).walks
  refine Runs.imp hrest ?_ ?_
  · rintro _ _ ⟨q, hq, hpq, -⟩
    exact ⟨q, hq, hpq.id.trans hp.id⟩
  · rintro _ ⟨q, hq, hpq⟩
    exact ⟨q, hq, hpq.id.trans hp.id⟩

/-- Behind a body that led to the place `p`, its end was written, and nothing else. -/
def Place.Leaves (p : Place) (t : State) : Prop :=
  ∃ q : Place, p.EndsBody q ∧ t.builder.mod = q.state.builder.mod ∧ ∃ new, p.state.Queues t new

theorem Place.Leaves.finishes {p : Place} {t : State} (h : p.Leaves t) : Finishes p.id t := by
  obtain ⟨q, hpq, ht, -⟩ := h
  refine ⟨q.function, ?_, q.wellFormed.isFinished hpq.closed⟩
  rw [ht, ← hpq.id]
  exact q.builds.2

/-- The end of a body is written, whether the body was lowered or not. -/
theorem Place.runs_endOfBody (p : Place) (lowered : Option Unit) (prev : Option FuncId) :
    Runs (do
      let finished ← attempt (finishFunction line)
      update fun s => { s with func := none, loops := [], pending := [] }
      match (← read (·.scopes)).closeFunction with
      | .ok scopes => update fun s => { s with scopes }
      | .error fault => report (.internal fault.message) line
      updateBuilder (·.setFunction prev)
      if lowered.isSome && finished.isSome then pure () else fail) env p.state
      (fun _ t => lowered.isSome ∧ p.Leaves t) fun t => lowered = none ∧ p.Leaves t := by
  refine Runs.bind (Runs.attempt (Runs.imp (Runs.with_eq p.completes_finishFunction) ?_ fun _ h => h.2.elim))
  rintro _ _ ⟨hrun, q, rfl, -, hends⟩
  obtain ⟨new, hnew⟩ := (regular_finishFunction (F := .loose env) line trivial).exists_queues hrun
  have hleaves : ∀ {t : State} {more : List Diagnostic}, t.builder.mod = q.state.builder.mod →
      q.state.Queues t more → p.Leaves t := fun hmod hmore => ⟨q, hends, hmod, _, hnew.trans hmore⟩
  have hlast : ∀ t : State, t.builder.mod = q.state.builder.mod → (∃ more, q.state.Queues t more) →
      Runs (do
        updateBuilder (·.setFunction prev)
        if lowered.isSome && (some ()).isSome then pure () else fail) env t
        (fun _ u => lowered.isSome ∧ p.Leaves u) fun u => lowered = none ∧ p.Leaves u := by
    rintro t hmod ⟨more, hmore⟩
    refine Runs.bind_of_done rfl ?_
    cases lowered with
    | none => exact Runs.fail ⟨rfl, hleaves hmod hmore⟩
    | some _ => exact Runs.pure ⟨rfl, hleaves hmod hmore⟩
  refine Runs.bind_of_done rfl (Runs.bind_of_done rfl ?_)
  dsimp only
  split
  · exact Runs.bind_of_done rfl (hlast _ rfl ⟨[], .of_diags rfl⟩)
  · next fault _ => exact Runs.bind_of_done rfl (hlast _ rfl ⟨_, State.Queues.report _ _ env _⟩)

/-- What a body is made of reports an error whenever it fails. -/
theorem regular_contents (depth : Nat) (ps : List DeclaratorInfo) (body : StmtId) :
    Regular (.loose env) true (functionContents (statementTo depth) ps body line) :=
  .bind (.emit _ _) fun _ => .bind (.setBlock _) fun _ => .bind (regular_bindParams 0 ps) fun _ =>
    regular_statementTo trivial trivial

/-- A body is lowered from a state with no open loops and no pending labels, if the scope of the function
can be opened. Whatever is known of its statements is known where the end is written. -/
theorem runs_bodyOf {depth : Nat} {result : Ty} {ps : List DeclaratorInfo} {body : StmtId}
    {G : State → Place → Prop} (hs : s.IsSound) (hloops : s.loops = []) (hpending : s.pending = [])
    (hf : s.builder.mod.function? id = some f) (hdeclaration : f.isDeclaration)
    (hcontents : ∀ t, t.BeginsBody id result f → t.diags = s.diags →
      Runs (functionContents (statementTo depth) ps body line) env t
        (fun _ u => ∃ p : Place, p.state = u ∧ p.id = id ∧ G t p)
        fun u => ∃ p : Place, p.state = u ∧ p.id = id) :
    Runs (functionBody (statementTo depth) id result ps body line) env s
      (fun _ u => ∃ t p, G t p ∧ t.diags = s.diags ∧ p.id = id ∧ p.Leaves u)
      fun u => Finishes id u ∧ ∃ new, s.Queues u new ∧ HasError new := by
  have hblank := hs.tidy id f hf hdeclaration
  refine Runs.bind_of_done rfl (Runs.bind_of_done rfl (Runs.bind_of_done rfl
    (Runs.bind_of_done rfl ?_)))
  split
  · -- The scope of the function cannot be opened, so no code is written.
    next fault _ =>
    have hreport := State.Queues.report (.internal fault.message) line env s
    refine Runs.bind_of_done rfl (Runs.bind_of_done rfl (Runs.fail ⟨⟨f, hf, hblank.isFinished⟩, _, hreport, ?_⟩))
    exact ⟨_, List.mem_singleton_self _, rfl⟩
  · next scopes hopen =>
    obtain ⟨hlocals, rfl⟩ := ScopeStack.openFunction_eq_ok hopen
    refine Runs.bind_of_done rfl (Runs.bind (Runs.attempt (Runs.imp (Runs.with_eq (hcontents _ ?_ rfl)) ?_ ?_)))
    · refine ⟨⟨rfl, hf⟩, hblank, ⟨_, rfl⟩, List.cons_ne_nil _ _, ?_, hloops, hpending, rfl⟩
      rintro b ⟨names, hnames, n, hn⟩
      rcases List.mem_cons.1 hnames with rfl | hnames
      · exact hs.globals _ hn
      · obtain rfl : names = [] := by simpa [State.context] using hnames
        exact absurd hn List.not_mem_nil
    · rintro _ _ ⟨-, p, rfl, rfl, hp⟩
      exact Runs.imp (p.runs_endOfBody (some ()) _) (fun _ u h => ⟨_, p, hp, rfl, rfl, h.2⟩)
        fun _ h => absurd h.1 (Option.some_ne_none ())
    · rintro _ ⟨hrun, p, rfl, rfl⟩
      obtain ⟨new, hnew, herror⟩ := (regular_contents depth ps body).exists_error hrun
      refine Runs.imp (p.runs_endOfBody none _) (fun _ u h => absurd h.1 Bool.false_ne_true) fun u h => ?_
      obtain ⟨-, -, -, more, hmore⟩ := id h.2
      exact ⟨h.2.finishes, _, State.Queues.trans hnew hmore, herror.imp fun _ h =>
        ⟨List.mem_append_left _ h.1, h.2⟩⟩

/-- A body that is lowered from a state with no open loops and no pending labels leaves a finished
function behind, whatever was reported on the way. -/
theorem runs_functionBody (depth : Nat) (result : Ty) (ps : List DeclaratorInfo) (body : StmtId)
    (hs : s.IsSound) (hloops : s.loops = []) (hpending : s.pending = [])
    (hf : s.builder.mod.function? id = some f) (hdeclaration : f.isDeclaration) :
    Runs (functionBody (statementTo depth) id result ps body line) env s
      (fun _ t => Finishes id t) (Finishes id) := by
  refine Runs.imp (runs_bodyOf (G := fun _ _ => True) hs hloops hpending hf hdeclaration
    fun t ht _ => ?_) ?_ fun _ h => h.1
  · exact Runs.imp (runs_functionContents ht) (fun _ _ ⟨p, hp, hid⟩ => ⟨p, hp, hid, trivial⟩) fun _ h => h
  · rintro _ u ⟨t, p, -, -, rfl, hleaves⟩
    exact hleaves.finishes

end Lower

end TreeFlow
