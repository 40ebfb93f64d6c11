import TreeFlow.Proofs.Lowering.Draining
import TreeFlow.Proofs.Lowering.Reporting
import TreeFlow.Proofs.Lowering.Spanning
import TreeFlow.Proofs.Tree.Execution

/-!
# Bodies stand apart from the code around them

A function may be defined in the middle of other code: while a loop at the top level is lowered, or while
labels are pending there. A structured body has nothing to do with either (`Lower.Apart`). It leaves the
loops and the pending labels as they are, and with more loops around the function it is lowered in the same
way, since every `break` and `continue` in it belongs to a loop of its own. So its function is the same as if
it had been defined outside of all loops (`Lower.Ends.amid_functionBody`); and labels that are pending are
reported when it ends (`Lower.ends_functionBody_pending`).
-/

namespace TreeFlow.Lower

open Tree

variable {α β : Type} {env : Env} {loud inLoop : Bool} {m : Lower α} {next : α → Lower β} {s t : State}
  {line : Nat} {outer : List LoopTargets}

/-! ### Steps that have nothing to do with jumps -/

/-- A step that has nothing to do with jumps does the same with other loops around and other labels
pending. -/
theorem Regular.commutes {F : Footing env} (h : Regular F loud m) (hF : ¬F.Jumps)
    (loops : List LoopTargets) (pending : List PendingLabel) (s : State) :
    Commutes env (·.withJumps loops pending) m s := by
  induction h generalizing s with
  | quiet value change hm hvalue hchange =>
    have hvalue : value (s.withJumps loops pending) = value s := hvalue s ⟨s.diags, loops, pending⟩
    rw [Commutes, hm, hm, hvalue, hchange.withJumps]
  | jumps h => exact absurd h hF
  | fail => rfl
  | halt => rfl
  | report => rfl
  | failWith => rfl
  | emit line m =>
    have hbuilder : (s.withJumps loops pending).builder = s.builder := rfl
    simp only [Commutes, Lower.emit, hbuilder]
    rcases m s.builder with fault | ⟨a, b⟩
    · cases fault <;> rfl
    · rfl
  | bindProduced _ _ ihm ihnext => exact (ihm s).bind fun a t hrun => ihnext a ⟨s, t, hrun⟩ t
  | attempt _ ih => exact (ih s).attempt
  | bindTried _ _ _ ihm ihsome ihnone =>
    refine (ihm s).attempt.bind fun o t _ => ?_
    cases o with
    | none => exact ihnone t
    | some a => exact ihsome a t
  | between before after hn hbefore hafter hsame _ ih =>
    have hsame : after (s.withJumps loops pending) = after s := hsame s ⟨s.diags, loops, pending⟩
    have hm := ih (before s)
    unfold Commutes at hm ⊢
    rw [hn, hn, hbefore.withJumps, hm, hsame, (hafter s).withJumps]
  | localScope _ ih =>
    exact .localScope (fun _ _ => rfl) (fun _ => rfl) (fun _ _ => rfl) fun _ => ih _
  | @constantInitializer _ ty init line _ ih =>
    have hvalue : initializerValue ty init line env
        { s.withJumps loops pending with builder := s.builder.snapshot.2 } = _ :=
      ih { s with builder := s.builder.snapshot.2 }
    have hbuilder : (s.withJumps loops pending).builder = s.builder := rfl
    simp only [Commutes, Lower.constantInitializer, hbuilder, hvalue]
    rcases initializerValue ty init line env { s with builder := s.builder.snapshot.2 } with
      ⟨op | _ | _, t⟩
    · dsimp only
      cases op.const? <;> rfl
    · rfl
    · rfl
  | ofEq heq _ ih =>
    have hn := ih s
    unfold Commutes at hn ⊢
    rw [heq, heq, hn]
  | silent _ ih => exact ih s

/-! ### Steps that stand apart -/

/-- The state with more loops around, outside of those that are open. -/
def State.amid (s : State) (outer : List LoopTargets) : State := { s with loops := s.loops ++ outer }

/-- A step leaves the loops around and the pending labels as they are, and does the same with more loops
around it. If it stands in a loop, it may ask for the innermost one. -/
structure Apart (env : Env) (inLoop : Bool) (m : Lower α) : Prop where
  keeps : ∀ s, Ends m env s fun t => t.loops = s.loops ∧ t.pending = s.pending
  commutes : ∀ s outer, (inLoop → s.loops ≠ []) → Commutes env (·.amid outer) m s

namespace Apart

theorem of_regular (h : Regular (.apart env) false m) : Apart env inLoop m := by
  have hsame : ∀ s : State, (m env s).2 = (m env s).2.withJumps s.loops s.pending := fun s =>
    congrArg Prod.snd (h.commutes id s.loops s.pending s)
  have hkeeps : ∀ s, (m env s).2.loops = s.loops ∧ (m env s).2.pending = s.pending := fun s => by
    rw [hsame]
    exact ⟨rfl, rfl⟩
  refine ⟨fun s => ?_, fun s outer _ => ?_⟩
  · have hs := hkeeps s
    unfold Ends
    rcases hrun : m env s with ⟨_ | _ | _, t⟩ <;> rw [hrun] at hs <;> first | exact hs | trivial
  · have hrun : m env (s.amid outer) = _ := h.commutes id (s.loops ++ outer) s.pending s
    obtain ⟨hloops, hpending⟩ := hkeeps s
    rw [Commutes, hrun, State.amid, hloops, ← hpending]
    rfl

theorem of_eq {n : Lower α} (heq : ∀ s, m env s = n env s) (h : Apart env inLoop n) : Apart env inLoop m where
  keeps s := .of_eq (heq s) (h.keeps s)
  commutes s outer hloops := by
    have hn := h.commutes s outer hloops
    unfold Commutes at hn ⊢
    rw [heq, heq, hn]

theorem bind (hm : Apart env inLoop m) (hnext : ∀ a, Apart env inLoop (next a)) :
    Apart env inLoop (m >>= next) where
  keeps s := (hm.keeps s).bind (fun _ h => h) fun a t ht _ => ((hnext a).keeps t).imp fun _ hu =>
    ⟨hu.1.trans ht.1, hu.2.trans ht.2⟩
  commutes s outer hloops := (hm.commutes s outer hloops).bind fun a t hrun =>
    (hnext a).commutes t outer fun hin => by
      have ht := hm.keeps s
      rw [Ends, hrun] at ht
      rw [ht.1]
      exact hloops hin

theorem ignoring (hm : Apart env inLoop m) : Apart env inLoop (Lower.ignoring m) where
  keeps s := .bind_attempt (hm.keeps s) fun _ _ ht => ht
  commutes s outer hloops := (hm.commutes s outer hloops).attempt.bind fun _ _ _ => rfl

theorem discard (hm : Apart env inLoop m) : Apart env inLoop (Functor.discard m) :=
  .bind hm fun _ => .of_regular (.pure _)

theorem localScope (hm : Apart env inLoop m) : Apart env inLoop (Lower.localScope m) where
  keeps s := by
    unfold Ends Lower.localScope
    cases s.scopes.openLocal with
    | error => exact hm.keeps s
    | ok opened =>
      have ht := hm.keeps { s with scopes := opened }
      unfold Ends at ht
      revert ht
      dsimp only
      generalize m env { s with scopes := opened } = r
      rcases r with ⟨_ | _ | _, t⟩ <;> intro ht <;> dsimp only <;> cases t.scopes.closeLocal <;>
        exact ht
  commutes s outer hloops := .localScope (fun _ _ => rfl) (fun _ => rfl) (fun _ _ => rfl) fun scopes =>
    hm.commutes { s with scopes } outer hloops

theorem forM {ι : Type} {step : ι → Lower Unit} {items : List ι}
    (hstep : ∀ i ∈ items, Apart env inLoop (step i)) : Apart env inLoop (items.forM step) := by
  induction items with
  | nil => exact .of_regular (.pure ())
  | cons i rest ih =>
    exact .bind (hstep i List.mem_cons_self) fun _ => ih fun i hi => hstep i (List.mem_cons_of_mem _ hi)

end Apart

/-! ### Statements -/

/-- A jump out of a loop, or to its next round, belongs to the innermost loop. -/
theorem apart_loopJump (target : LoopTargets → BlockId) (otherwise : DiagnosticKind) :
    Apart env true (loopJump target otherwise line) := by
  have hread : ∀ {s : State} {T rest}, s.loops = T :: rest →
      loopJump target otherwise line env s = emit line (Build.goto (target T)) env s := by
    intro s T rest hT
    simp only [loopJump, Bind.bind, Lower.bind, read, hT]
  have hemit : ∀ b, Apart env true (emit line (Build.goto b)) := fun b => .of_regular (.emit line _)
  refine ⟨fun s => ?_, fun s outer hloops => ?_⟩
  · by_cases hnone : s.loops = []
    · have hfail : loopJump target otherwise line env s = failWith otherwise line env s := by
        simp only [loopJump, Bind.bind, Lower.bind, read, hnone]
      exact .of_eq hfail ⟨rfl, rfl⟩
    · obtain ⟨T, rest, hT⟩ := List.exists_cons_of_ne_nil hnone
      exact .of_eq (hread hT) ((hemit (target T)).keeps s)
  · obtain ⟨T, rest, hT⟩ := List.exists_cons_of_ne_nil (hloops rfl)
    have hT' : (s.amid outer).loops = T :: (rest ++ outer) := by
      show s.loops ++ outer = _
      rw [hT, List.cons_append]
    have hgoto := (hemit (target T)).commutes s outer hloops
    unfold Commutes at hgoto ⊢
    rw [hread hT, hread hT', hgoto]

section Statements

variable {lower : StmtId → Lower Unit}

/-- A loop may be left by its own jumps only. -/
theorem apart_loopBody {body : StmtId} (targets : LoopTargets) (hbody : Apart env true (lower body))
    (hfails : NeverFails (lower body)) : Apart env inLoop (loopBody lower body targets) := by
  have hrounds : ∀ {s t : State}, lower body env { s with loops := targets :: s.loops } = (.done (), t) →
      t.loops = targets :: s.loops ∧ t.pending = s.pending := by
    intro s t hrun
    have ht := hbody.keeps { s with loops := targets :: s.loops }
    rwa [Ends, hrun] at ht
  refine ⟨fun s => .bind_of_done rfl ?_, fun s outer _ => .bind rfl fun _ t ht => ?_⟩
  · refine .bind_of_run (fun _ t hrun => ?_) fun t hrun => absurd (congrArg Prod.fst hrun) (hfails env _)
    obtain ⟨hloops, hpending⟩ := hrounds hrun
    refine ⟨?_, hpending⟩
    show t.loops.tail = s.loops
    rw [hloops]
    rfl
  · obtain rfl := (Prod.mk.inj ht).2
    refine (hbody.commutes _ outer fun _ => List.cons_ne_nil _ _).bind fun _ t hrun => ?_
    obtain ⟨hloops, -⟩ := hrounds hrun
    have htail : (t.loops ++ outer).tail = t.loops.tail ++ outer := by rw [hloops]; rfl
    show (Outcome.done (), { t.amid outer with loops := (t.loops ++ outer).tail }) = _
    rw [htail]
    rfl

theorem apart_branch {cond : ExprId} {yes : StmtId} {no : Option StmtId} (hyes : Apart env inLoop (lower yes))
    (hno : ∀ id ∈ no, Apart env inLoop (lower id)) : Apart env inLoop (branch lower cond yes no line) := by
  refine .bind (.of_regular (regular_condition line trivial)) fun c => ?_
  refine .bind (.of_regular (.emit _ _)) fun last => .bind (.of_regular (.emit _ _)) fun first => ?_
  cases no with
  | none =>
    exact .bind (.of_regular (.pure _)) fun _ => .bind (.of_regular (.emit _ _)) fun _ =>
      .bind (.of_regular (.setBlock _)) fun _ => .bind hyes fun _ =>
        .bind (.of_regular (regular_fallThrough line _)) fun _ => .of_regular (.setBlock _)
  | some no =>
    exact .bind (.of_regular (.emit _ _)) fun second => .bind (.of_regular (.emit _ _)) fun _ =>
      .bind (.of_regular (.setBlock _)) fun _ => .bind hyes fun _ =>
        .bind (.of_regular (regular_fallThrough line _)) fun _ => .bind (.of_regular (.setBlock _)) fun _ =>
          .bind (hno no rfl) fun _ => .bind (.of_regular (regular_fallThrough line _)) fun _ =>
            .of_regular (.setBlock _)

variable {body : StmtId} (hround : ∀ {outside} targets, Apart env outside (loopBody lower body targets))
include hround

theorem apart_whileLoop {cond : ExprId} : Apart env inLoop (whileLoop lower cond body line) := by
  refine .bind (.of_regular (.emit _ _)) fun test => .bind (.of_regular (.emit _ _)) fun start => ?_
  refine .bind (.of_regular (.emit _ _)) fun last => ?_
  refine .bind (.of_regular (regular_fallThrough line _)) fun _ => .bind (.of_regular (.setBlock _)) fun _ => ?_
  refine .bind (.of_regular (regular_condition line trivial)) fun c => ?_
  exact .bind (.of_regular (.emit _ _)) fun _ => .bind (.of_regular (.setBlock _)) fun _ =>
    .bind (hround _) fun _ => .bind (.of_regular (regular_fallThrough line _)) fun _ =>
      .of_regular (.setBlock _)

theorem apart_forLoop {init : Option StmtId} {cond step : Option ExprId}
    (hinit : ∀ id ∈ init, Apart env inLoop (lower id)) :
    Apart env inLoop (forLoop lower init cond step body line) := by
  have hrounds : ∀ (test start next last : BlockId) {advance : Lower Unit},
      Regular (.apart env) false advance → Apart env inLoop (do
        setBlock start
        loopBody lower body ⟨last, next⟩
        fallThrough next line
        setBlock next
        advance
        fallThrough test line
        setBlock last) := fun test start next last advance hadvance =>
    .bind (.of_regular (.setBlock _)) fun _ => .bind (hround _) fun _ => .of_regular
      (.bind (regular_fallThrough line _) fun _ => .bind (.setBlock _) fun _ => .bind hadvance fun _ =>
        .bind (regular_fallThrough line _) fun _ => .setBlock _)
  have htest : Apart env inLoop (forLoop lower none cond step body line) := by
    refine .bind (.of_regular (.emit _ _)) fun test => .bind (.of_regular (.emit _ _)) fun start => ?_
    refine .bind (.of_regular (.emit _ _)) fun next => .bind (.of_regular (.emit _ _)) fun last => ?_
    refine .bind (.of_regular (regular_fallThrough line _)) fun _ => ?_
    refine .bind (.of_regular (.setBlock _)) fun _ => ?_
    cases cond
    case' none => refine .bind (.of_regular (.emit _ _)) fun _ => ?_
    case' some cond =>
      refine .bind (.of_regular (regular_condition line trivial)) fun c => ?_
      refine .bind (.of_regular (.emit _ _)) fun _ => ?_
    all_goals
      cases step with
      | none => exact hrounds _ _ _ _ (.pure ())
      | some step => exact hrounds _ _ _ _ (.ignoring (regular_rvalue trivial))
  cases init with
  | none => exact htest
  | some init => exact .bind (hinit init rfl) fun _ => htest

end Statements

/-- **A structured statement stands apart** from the loops outside of the one it stands in. -/
theorem apart_statementTo (depth : Nat) {id : StmtId} (hid : env.tree.Structured inLoop id) :
    Apart env inLoop (statementTo depth id) := by
  induction depth generalizing id inLoop with
  | zero => exact .of_regular (.halt trivial)
  | succ depth ih =>
    have hround : ∀ {body : StmtId}, env.tree.Structured true body → ∀ {outside : Bool} targets,
        Apart env outside (loopBody (statementTo depth) body targets) := fun hbody outside targets =>
      apart_loopBody targets (ih hbody) (neverFails_statementTo depth _)
    have hstmt : ∀ {s : Stmt}, env.tree.stmt? id = some s → ∀ {next : Stmt → Lower Unit},
        Apart env inLoop (next s) → Apart env inLoop (stmt id >>= next) := fun hs next hnext =>
      .of_eq (n := next _) (fun t => by
        simp only [Bind.bind, Lower.bind, stmt, Lower.env, present, hs]
        rfl) hnext
    refine .ignoring ?_
    cases hid with
    | expression h => exact hstmt h (.discard (.of_regular (regular_rvalue trivial)))
    | block h hbody => exact hstmt h (.localScope (.forM fun id hid => ih (hbody id hid)))
    | branch h hyes hno => exact hstmt h (apart_branch (ih hyes) fun id hid => ih (hno id hid))
    | whileLoop h hbody => exact hstmt h (apart_whileLoop (hround hbody))
    | forLoop h hinit hbody =>
      exact hstmt h (.localScope (apart_forLoop (hround hbody) fun id hid => ih (hinit id hid)))
    | ret h => exact hstmt h (.of_regular (regular_ret _ fun _ _ => trivial))
    | brk h => exact hstmt h (apart_loopJump _ _)
    | cont h => exact hstmt h (apart_loopJump _ _)
    | declaration h => exact hstmt h (.of_regular (regular_variableList fun _ _ => trivial))

/-! ### Bodies in loops -/

namespace Ends

variable {P Q : State → Prop}

/-- What comes of two steps comes of the second one, after what the first one yields. -/
theorem of_bind {a : α} (hrun : m env s = (.done a, t)) (h : Ends (m >>= next) env s P) :
    Ends (next a) env t P := by
  change Ends (Lower.bind m next) env s P at h
  unfold Ends Lower.bind at h
  rw [hrun] at h
  exact h

/-- Behind a step that is tried, it makes no difference whether the step was in a loop. -/
theorem amid_attempt {next : Option α → Lower β} (hm : Commutes env (·.amid outer) m s)
    (hnext : ∀ o t, Ends (next o) env t P → Ends (next o) env (t.amid outer) P)
    (h : Ends (Lower.attempt m >>= next) env s P) :
    Ends (Lower.attempt m >>= next) env (s.amid outer) P := by
  have htried := hm.attempt
  unfold Commutes at htried
  rcases hrun : Lower.attempt m env s with ⟨o | _ | why, t⟩ <;> rw [hrun] at htried
  · exact .bind_of_done htried (hnext o t (h.of_bind hrun))
  · exact absurd (congrArg Prod.fst hrun) (NeverFails.attempt m env s)
  · show Ends (Lower.bind (Lower.attempt m) next) env _ P
    unfold Ends Lower.bind
    rw [htried]
    trivial

end Ends

theorem commutes_finishFunction (outer : List LoopTargets) (s : State) :
    Commutes env (·.amid outer) (finishFunction line) s := by
  have happart : ∀ {m : Lower Unit}, Regular (.apart env) false m → ∀ t, Commutes env (·.amid outer) m t :=
    fun h t => (show Apart env false _ from .of_regular h).commutes t outer nofun
  have hrest : ∀ id t, Commutes env (·.amid outer) (closeRest line id) t := fun id t =>
    .bind rfl fun labels t _ => .bind rfl fun _ t _ => .bind (happart (regular_closePending _) t)
      fun _ t _ => .bind rfl fun g t _ => by
        split
        · rfl
        · exact happart (regular_closeBlocks _ _) t
  refine .bind rfl fun o t _ => ?_
  split
  · rfl
  · refine .bind rfl fun closed t _ => ?_
    split
    · exact .bind (happart (regular_closeLast line _) t) fun _ t _ => hrest _ t
    · exact hrest _ t

variable {id : FuncId} {result : Ty} {ps : List DeclaratorInfo} {body : StmtId} {P : State → Prop}

theorem apart_functionContents (depth : Nat) (hbody : env.tree.Structured false body) :
    Apart env false (functionContents (statementTo depth) ps body line) :=
  .bind (.of_regular (.emit _ _)) fun _ => .bind (.of_regular (.setBlock _)) fun _ =>
    .bind (.of_regular (regular_bindParams 0 ps)) fun _ => apart_statementTo depth hbody

/-- A structured body that is lowered in a loop comes to the same as one that is not. -/
theorem Ends.amid_functionBody {depth : Nat} {scopes : ScopeStack} (outer : List LoopTargets)
    (hbody : env.tree.Structured false body) (hopen : s.scopes.openFunction = .ok scopes)
    (h : Ends (functionBody (statementTo depth) id result ps body line) env s P) :
    Ends (functionBody (statementTo depth) id result ps body line) env (s.amid outer) P := by
  have hopen' : (s.amid outer).scopes.openFunction = .ok scopes := hopen
  replace h := (((h.of_bind rfl).of_bind rfl).of_bind rfl).of_bind rfl
  refine .bind_of_done rfl (.bind_of_done rfl (.bind_of_done rfl (.bind_of_done rfl ?_)))
  dsimp only at h ⊢
  rw [hopen] at h
  rw [hopen']
  replace h := h.of_bind rfl
  refine .bind_of_done rfl ?_
  refine Ends.amid_attempt ((apart_functionContents depth hbody).commutes _ outer nofun) (fun lowered t h => ?_) h
  refine Ends.amid_attempt (commutes_finishFunction outer t) (fun finished t h => ?_) h
  replace h := h.of_bind rfl
  exact .bind_of_done rfl h

/-! ### Pending labels -/

theorem ends_closePending {labels : List PendingLabel} (hlabels : labels ≠ []) :
    Ends (closePending labels) env s s.Errs := by
  obtain ⟨l, rest, rfl⟩ := List.exists_cons_of_ne_nil hlabels
  have hregular : Regular (.loose env) false (do
      setBlock l.block
      emit l.line Build.unreachable
      closePending rest) :=
    .bind (.setBlock _) fun _ => .bind (.emit _ _) fun _ => regular_closePending _
  have herrs : s.Errs (report (.undeclaredIdentifier l.name) l.line env s).2 :=
    ⟨_, .report _ _ _ _, _, List.mem_singleton_self _, rfl⟩
  refine .bind_of_done rfl (hregular.ends_queues.imp fun t ⟨more, hmore⟩ => herrs.queues hmore)

/-- Where a body ends, the labels that are pending are reported. -/
theorem ends_finishFunction_pending (hfunc : s.func.isSome) (hpending : s.pending ≠ []) :
    Ends (finishFunction line) env s s.Errs := by
  have hrest : ∀ id (t : State), t.pending ≠ [] → Ends (closeRest line id) env t t.Errs := by
    intro id t ht
    have hsorted : sortPending t.pending ≠ [] := fun hnil =>
      ht (List.length_eq_zero_iff.1 (by simpa [sortPending] using congrArg List.length hnil))
    refine .bind_of_done rfl (.bind_of_done rfl ?_)
    refine (ends_closePending hsorted).bind (fun _ h => h) fun _ u hu _ => ?_
    -- Closing the blocks reports nothing that would take back the reports of the labels.
    refine (show Regular (.loose env) false _ from .bind (regular_functionAt id) fun g => ?_)
      |>.ends_queues.imp fun v ⟨more, hmore⟩ => hu.queues hmore
    split
    · exact .pure _
    · exact regular_closeBlocks _ _
  refine .bind_of_done rfl ?_
  split
  · next hnone =>
    have hnone : s.func = none := hnone
    simp [hnone] at hfunc
  · next f _ =>
    refine .bind_of_done rfl ?_
    split
    · refine .bind_of_run (fun u t hrun => ?_) fun t hrun =>
        (regular_closeLast (F := .loose env) line f).exists_error hrun
      obtain ⟨new, hnew⟩ := (regular_closeLast (F := .loose env) line f).silent.exists_queues hrun
      have hlast : Apart env false (closeLast f line) := .of_regular (regular_closeLast line f)
      have hkeeps := hlast.keeps s
      rw [Ends, hrun] at hkeeps
      exact (hrest f.id t (hkeeps.2 ▸ hpending)).imp fun _ hu => hnew.errs hu
    · exact hrest f.id s hpending

/-- A body whose scope cannot be opened is lowered with an error. -/
theorem ends_functionBody_error {lower : StmtId → Lower Unit} {fault : ScopeFault}
    (hopen : s.scopes.openFunction = .error fault) :
    Ends (functionBody lower id result ps body line) env s s.Errs := by
  have hreport : s.Errs (report (.internal fault.message) line env s).2 :=
    ⟨_, .report _ _ _ _, _, List.mem_singleton_self _, rfl⟩
  refine .bind_of_done rfl (.bind_of_done rfl (.bind_of_done rfl (.bind_of_done rfl ?_)))
  dsimp only
  rw [hopen]
  exact .bind_of_done rfl (.bind_of_done rfl hreport)

/-- A structured body that is lowered while labels are pending is lowered with an error. -/
theorem ends_functionBody_pending (depth : Nat) (hbody : env.tree.Structured false body)
    (hpending : s.pending ≠ []) :
    Ends (functionBody (statementTo depth) id result ps body line) env s s.Errs := by
  cases hopen : s.scopes.openFunction with
  | error fault => exact ends_functionBody_error hopen
  | ok scopes =>
    refine .bind_of_done rfl (.bind_of_done rfl (.bind_of_done rfl (.bind_of_done rfl ?_)))
    dsimp only
    rw [hopen]
    refine .bind_of_done rfl ?_
    have hcontents : Regular (.loose env) false (functionContents (statementTo depth) ps body line) :=
      regular_functionContents line (regular_statementTo trivial) ps trivial
    refine .bind_attempt (((apart_functionContents depth hbody).keeps _).and
      ((steadyInside_functionContents line (steady_statementTo depth) ps body env _ rfl).and
        hcontents.ends_queues)) fun lowered t ht => ?_
    obtain ⟨⟨-, hkept⟩, hleads, new, hnew⟩ := ht
    have hfunc : t.func.isSome := by rw [hleads.func]; rfl
    refine .bind_attempt (ends_finishFunction_pending hfunc (hkept ▸ hpending)) fun finished u hu => ?_
    exact (regular_leaveBody (F := .loose env) line trivial lowered finished _).ends_queues.imp
      fun v ⟨more, hmore⟩ => (State.Queues.errs hnew hu).queues hmore

end TreeFlow.Lower
