import TreeFlow.Proofs.Lowering.RegularStatement

/-!
# Taking out diagnostics does not influence the result

No step of lowering looks at the diagnostics that were queued before it: with more of them in front of
the queue it does the same, and leaves them in front (`Regular.blind`). So it makes no difference to a unit
if the hook takes out what is queued (`compileWith_drained`). The only decision that is made by the
queue, to stop at an internal fault, is made before anything is taken out.
-/

namespace TreeFlow

/-! ### Queues -/

namespace DiagnosticQueue

/-- The queue with some diagnostics in front of it, which count as no errors of its own. -/
def behind (q : DiagnosticQueue) (front : Array Diagnostic) : DiagnosticQueue := ⟨front ++ q.items, q.errors⟩

variable (q : DiagnosticQueue) (front : Array Diagnostic)

theorem push_behind (d : Diagnostic) : (q.behind front).push d = (q.push d).behind front := by
  simp [push, behind]

theorem size_behind : (q.behind front).size = front.size + q.size := by simp [size, behind]

theorem truncate_behind (n : Nat) :
    (q.behind front).truncate (front.size + n) = (q.truncate n).behind front := by
  simp only [truncate, behind, mk.injEq]
  constructor
  · apply Array.ext'
    simp [List.take_of_length_le]
  · simp [List.drop_append, List.drop_of_length_le]

end DiagnosticQueue

namespace Lower

variable {α : Type}

/-- The state with some diagnostics in front of those that are queued. -/
def State.behind (s : State) (front : Array Diagnostic) : State := s.withDiags (s.diags.behind front)

/-- A step does not look at the diagnostics that were queued before it. -/
def Blind (env : Env) (m : Lower α) : Prop :=
  ∀ s front, m env (s.behind front) = ((m env s).1, (m env s).2.behind front)

theorem State.SparesDiags.behind {change : State → State} (h : State.SparesDiags change) (s : State)
    (front : Array Diagnostic) : change (s.behind front) = (change s).behind front := by
  rw [State.behind, h, State.behind, h.diags_eq]

namespace Blind

variable {env : Env} {m : Lower α} {β : Type}

theorem of_commutes (hm : ∀ s front, Commutes env (State.behind · front) m s) : Blind env m := hm

theorem commutes (hm : Blind env m) (s : State) (front : Array Diagnostic) :
    Commutes env (·.behind front) m s := hm s front

theorem bind {next : α → Lower β} (hm : Blind env m)
    (hnext : ∀ a, Produces env m a → Blind env (next a)) : Blind env (m >>= next) :=
  .of_commutes fun s front => (hm.commutes s front).bind fun a t hrun =>
    (hnext a ⟨s, t, hrun⟩).commutes t front

theorem attempt (hm : Blind env m) : Blind env (Lower.attempt m) :=
  .of_commutes fun s front => (hm.commutes s front).attempt

theorem report (kind : DiagnosticKind) (line : Nat) : Blind env (Lower.report kind line) := fun s front =>
  congrArg (fun q => (Outcome.done (), s.withDiags q)) (s.diags.push_behind front _)

theorem failWith (kind : DiagnosticKind) (line : Nat) : Blind env (Lower.failWith kind line : Lower α) :=
  .bind (.report kind line) fun _ _ _ _ => rfl

theorem emit (line : Nat) (m : Build α) : Blind env (Lower.emit line m) := by
  intro s front
  have hbuilder : (s.behind front).builder = s.builder := rfl
  simp only [Lower.emit, hbuilder]
  rcases m s.builder with fault | ⟨a, b⟩
  · cases fault with
    | missingBlock id => rfl
    | _ => exact failWith (α := α) _ line s front
  · rfl

theorem between {n : Lower α} {before : State → State} {after : State → State → State}
    (hn : ∀ s, n env s = ((m env (before s)).1, after s (m env (before s)).2))
    (hbefore : State.Spares before) (hafter : ∀ s, State.Spares (after s))
    (hsame : ∀ s x, after (s.within x) = after s) (hm : Blind env m) : Blind env n := by
  intro s front
  have hsame : after (s.behind front) = after s := hsame s ⟨_, s.loops, s.pending⟩
  rw [hn, hn, hbefore.sparesDiags.behind, hm (before s) front, hsame, (hafter s).sparesDiags.behind]

theorem localScope (hm : Blind env m) : Blind env (Lower.localScope m) :=
  .of_commutes fun _ front => .localScope (fun _ _ => rfl) (fun _ => rfl)
    (fun kind t => (report kind 0).commutes t front) fun _ => hm.commutes _ front

theorem constantInitializer {ty : Ty} {init : ExprId} {line : Nat}
    (h : Blind env (initializerValue ty init line)) :
    Blind env (Lower.constantInitializer ty init line) := by
  intro s front
  have hvalue : initializerValue ty init line env
        { s.behind front with builder := (s.behind front).builder.snapshot.2 } = _ :=
    h { s with builder := s.builder.snapshot.2 } front
  have hsize : (s.behind front).diags.size = front.size + s.diags.size := s.diags.size_behind front
  have hdiags : ∀ t : State, (t.behind front).diags = t.diags.behind front := fun _ => rfl
  simp only [Lower.constantInitializer, hvalue, hsize]
  rcases initializerValue ty init line env { s with builder := s.builder.snapshot.2 } with
    ⟨op | _ | _, t⟩
  · simp only [hdiags, DiagnosticQueue.truncate_behind]
    cases op.const? <;> rfl
  · simp only [hdiags, DiagnosticQueue.truncate_behind]
    rfl
  · rfl

end Blind

theorem Regular.blind {env : Env} {F : Footing env} {loud : Bool} {m : Lower α}
    (h : Regular F loud m) : Blind env m := by
  induction h with
  | quiet value change hm hvalue hchange =>
    intro s front
    have hvalue : value (s.behind front) = value s := hvalue s ⟨_, s.loops, s.pending⟩
    rw [hm, hm, hvalue, hchange.sparesDiags.behind]
  | jumps _ value change hm hvalue hchange =>
    intro s front
    have hvalue : value (s.behind front) = value s := hvalue s _
    rw [hm, hm, hvalue, hchange.behind]
  | fail => exact fun _ _ => rfl
  | halt => exact fun _ _ => rfl
  | report kind line => exact .report kind line
  | failWith line h => exact .failWith _ line
  | emit line m => exact .emit line m
  | bindProduced hm hnext ihm ihnext => exact ihm.bind ihnext
  | attempt hm ih => exact ih.attempt
  | bindTried hm hsome hnone ihm ihsome ihnone =>
    refine ihm.attempt.bind fun o _ => ?_
    cases o with
    | none => exact ihnone
    | some a => exact ihsome a
  | between before after hn hbefore hafter hsame hm ih => exact .between hn hbefore hafter hsame ih
  | localScope hm ih => exact ih.localScope
  | constantInitializer h ih => exact .constantInitializer ih
  | ofEq heq hn ih =>
    intro s front
    rw [heq, heq]
    exact ih s front
  | silent hm ih => exact ih

theorem blind_global (env : Env) (id : StmtId) : Blind env (global id) :=
  (regular_global (F := .loose env) trivial trivial).blind

/-! ### Steps that never fail -/

/-- A step yields something or is stuck. -/
def NeverFails (m : Lower α) : Prop := ∀ env s, (m env s).1 ≠ .failed

namespace NeverFails

variable {β : Type} {m : Lower α}

theorem bind {next : α → Lower β} (hm : NeverFails m) (hnext : ∀ a, NeverFails (next a)) :
    NeverFails (m >>= next) := by
  intro env s
  show (Lower.bind m next env s).1 ≠ .failed
  have hm := hm env s
  unfold Lower.bind
  rcases hrun : m env s with ⟨a | _ | _, t⟩
  · exact hnext a env t
  · exact absurd (congrArg Prod.fst hrun) hm
  · exact nofun

theorem read (f : State → α) : NeverFails (Lower.read f) := fun _ _ => nofun

theorem halt (why : Stuck) : NeverFails (Lower.halt why : Lower α) := fun _ _ => nofun

theorem attempt (m : Lower α) : NeverFails (Lower.attempt m) := by
  intro env s
  unfold Lower.attempt
  split <;> exact nofun

theorem ignoring (m : Lower α) : NeverFails (Lower.ignoring m) :=
  .bind (.attempt m) fun _ _ _ => nofun

theorem stmt (id : StmtId) : NeverFails (Lower.stmt id) := by
  refine .bind (fun _ _ => nofun) fun env => ?_
  cases env.tree.stmt? id with
  | none => exact .halt _
  | some s => exact fun _ _ => nofun

end NeverFails

theorem neverFails_statementTo (d : Nat) (id : StmtId) : NeverFails (statementTo d id) := by
  cases d with
  | zero => exact .halt _
  | succ d => exact .ignoring _

theorem neverFails_global (id : StmtId) : NeverFails (global id) := by
  have htop : ∀ d, NeverFails (topLevel (statementTo d) id) := fun d => by
    refine .bind (.stmt id) fun s => .bind (.read _) fun inside => ?_
    split
    · exact neverFails_statementTo d id
    · exact .ignoring _
  exact fun env s => htop env.tree.stmtDepth env s

/-! ### Declarations -/

end Lower

/-- Each time the hook is called it leaves the queue alone, or takes out everything and gathers it. -/
def DiagnosticHook.Drains {σ : Type} (hook : DiagnosticHook σ) (taken : σ → List Diagnostic) : Prop :=
  ∀ queue acc,
    (hook queue acc).1 = queue ∧ taken (hook queue acc).2 = taken acc ∨
    (hook queue acc).1 = queue.drain.2 ∧ taken (hook queue acc).2 = taken acc ++ queue.drain.1

theorem DiagnosticHook.drains_drain : DiagnosticHook.drain.Drains List.flatten := fun queue groups =>
  .inr ⟨rfl, by simp [DiagnosticHook.drain]⟩

namespace Lower

section Units

variable {σ : Type} {hook : DiagnosticHook σ} {taken : σ → List Diagnostic}

/-- Two runs came to the same, but for diagnostics that are in front of the queue of the second one:
those that the first one took out since there were `before`. -/
inductive Parallel (taken : σ → List Diagnostic) (before : List Diagnostic) :
    Outcome σ × State → Outcome Unit × State → Prop
  | done {acc : σ} {t : State} {front : Array Diagnostic} (h : taken acc = before ++ front.toList) :
      Parallel taken before (.done acc, t) (.done (), t.behind front)
  | stuck {why : Stuck} {t t' : State} : Parallel taken before (.stuck why, t) (.stuck why, t')

/-- The hook may take diagnostics out of one run and leave them in the other. -/
theorem exists_behind_hook (hhook : hook.Drains taken) (queue : DiagnosticQueue) (acc : σ)
    (front : Array Diagnostic) : ∃ more : Array Diagnostic,
      queue.behind front = (hook queue acc).1.behind (front ++ more) ∧
      taken (hook queue acc).2 = taken acc ++ more.toList ∧ (more = #[] ∨ more = queue.items) := by
  rcases hhook queue acc with ⟨hqueue, htaken⟩ | ⟨hqueue, htaken⟩
  · exact ⟨#[], by simp [hqueue], by simp [htaken], .inl rfl⟩
  · refine ⟨queue.items, ?_, htaken, .inr rfl⟩
    simp [hqueue, DiagnosticQueue.behind, DiagnosticQueue.drain]

/-- What the hook left decides nothing but what is in the queue. -/
theorem declarations_cons (hook : DiagnosticHook σ) {env : Env} {id : StmtId} (rest : List StmtId)
    (acc : σ) {s t : State} (hrun : global id env s = (.done (), t)) :
    declarations hook (id :: rest) acc env s =
      if t.diags.hasAbort && env.config.stopOnAbort then
        (.done (hook t.diags acc).2, t.withDiags (hook t.diags acc).1)
      else declarations hook rest (hook t.diags acc).2 env (t.withDiags (hook t.diags acc).1) := by
  rw [declarations]
  show Lower.bind (global id) _ env s = _
  unfold Lower.bind
  rw [hrun]
  show (if t.diags.hasAbort && env.config.stopOnAbort then pure (hook t.diags acc).2
    else declarations hook rest (hook t.diags acc).2 : Lower σ) env (t.withDiags _) = _
  split <;> rfl

theorem declarations_cons_stuck (hook : DiagnosticHook σ) {env : Env} {id : StmtId} (rest : List StmtId)
    (acc : σ) {s t : State} {why : Stuck} (hrun : global id env s = (.stuck why, t)) :
    declarations hook (id :: rest) acc env s = (.stuck why, t) := by
  rw [declarations]
  show Lower.bind (global id) _ env s = _
  unfold Lower.bind
  rw [hrun]

theorem hasAbort_behind (q : DiagnosticQueue) (front : Array Diagnostic) :
    (q.behind front).hasAbort = (front.any (·.action == .abort) || q.hasAbort) := by
  simp [DiagnosticQueue.behind, DiagnosticQueue.hasAbort]

theorem parallel_declarations {env : Env} (hhook : hook.Drains taken) (before : List Diagnostic)
    (ids : List StmtId) (acc : σ) (s : State) (front : Array Diagnostic)
    (hfront : taken acc = before ++ front.toList)
    (habort : env.config.stopOnAbort → front.any (·.action == .abort) = false) :
    Parallel taken before (declarations hook ids acc env s)
      (declarations .keep ids () env (s.behind front)) := by
  induction ids generalizing acc s front with
  | nil => exact .done hfront
  | cons id rest ih =>
    have hblind := blind_global env id s front
    have hfails := neverFails_global id env s
    rcases hrun : global id env s with ⟨_ | _ | why, t⟩ <;> rw [hrun] at hblind hfails
    · obtain ⟨more, hqueue, htaken, hmore⟩ := exists_behind_hook hhook t.diags acc front
      have hleft : (t.behind front).withDiags (t.behind front).diags =
          (t.withDiags (hook t.diags acc).1).behind (front ++ more) := congrArg t.withDiags hqueue
      have hstops : ((t.behind front).diags.hasAbort && env.config.stopOnAbort) =
          (t.diags.hasAbort && env.config.stopOnAbort) := by
        rw [show (t.behind front).diags = t.diags.behind front from rfl, hasAbort_behind]
        cases hstop : env.config.stopOnAbort <;> simp_all
      have hgathered : taken (hook t.diags acc).2 = before ++ (front ++ more).toList := by
        simp [htaken, hfront]
      rw [declarations_cons hook rest acc hrun, declarations_cons .keep rest () hblind, hstops]
      simp only [DiagnosticHook.keep]
      rw [hleft]
      split
      · exact .done hgathered
      · next hgo =>
        refine ih _ _ _ hgathered fun hstop => ?_
        have hcalm : t.diags.hasAbort = false := by simpa [hstop] using hgo
        rcases hmore with rfl | rfl
        · simpa using habort hstop
        · rw [Array.any_append, habort hstop]
          exact hcalm
    · exact absurd rfl hfails
    · rw [declarations_cons_stuck hook rest acc hrun, declarations_cons_stuck .keep rest () hblind]
      exact .stuck

theorem parallel_completeUnit {env : Env} (hhook : hook.Drains taken) (start : σ) (s : State) :
    Parallel taken (taken start) (completeUnit hook start env s) (completeUnit .keep () env s) := by
  have hrun := @parallel_declarations _ _ _ env hhook (taken start)
    (env.tree.externs ++ env.tree.root) start s #[] (by simp) (by simp)
  have hs : s.behind #[] = s := by simp [State.behind, DiagnosticQueue.behind, State.withDiags]
  rw [hs] at hrun
  show Parallel taken _ (Lower.bind _ _ env s) (Lower.bind _ _ env s)
  have hunit : ∀ {τ : Type} (hook : DiagnosticHook τ) start,
      unit hook start env s = declarations hook (env.tree.externs ++ env.tree.root) start env s :=
    fun _ _ => rfl
  unfold Lower.bind
  rw [hunit, hunit]
  revert hrun
  generalize declarations hook _ start env s = l
  generalize declarations .keep _ () env s = r
  rintro (⟨hfront⟩ | _)
  · next acc t front =>
    have hregular : Regular (.loose env) false (ignoring finishStartup) :=
      .ignoring regular_finishStartup
    have hfinish := hregular.blind
    show Parallel taken _ (Lower.bind (ignoring finishStartup) (fun _ => pure acc) env t)
      (Lower.bind (ignoring finishStartup) (fun _ => pure ()) env (t.behind front))
    have hfails := NeverFails.ignoring finishStartup env t
    unfold Lower.bind
    rw [hfinish t front]
    rcases hrun : ignoring finishStartup env t with ⟨_ | _ | _, u⟩
    · exact .done hfront
    · exact absurd (congrArg Prod.fst hrun) hfails
    · exact .stuck
  · exact .stuck

end Units

end Lower

/-- **Taking out diagnostics does not influence the result.** With a hook that takes out what is queued,
or does not, whenever it is called, a tree is lowered to the same module as without; what was taken out
and what is left over is together what would be queued, in the same order; and whether there were
errors is the same. If one is stuck, both are, for the same reason. -/
theorem Tree.compileWith_drained {σ : Type} (tree : Tree) (config : Config) {hook : DiagnosticHook σ}
    {taken : σ → List Diagnostic} (hhook : hook.Drains taken) (start : σ) :
    (tree.compileWith config hook start).map (fun (result, acc) =>
        (result.module, taken acc ++ result.diags.items.toList, result.diags.hasErrors)) =
      (tree.compile config).map fun result =>
        (result.module, taken start ++ result.diags.items.toList, result.diags.hasErrors) := by
  have hrun := @Lower.parallel_completeUnit _ _ _ ⟨tree, config⟩ hhook start (.initial config)
  unfold compile compileWith
  revert hrun
  generalize Lower.completeUnit hook start ⟨tree, config⟩ _ = l
  generalize Lower.completeUnit .keep () ⟨tree, config⟩ _ = r
  rintro (⟨hfront⟩ | _)
  · simp [Except.map, hfront, Lower.State.behind, Lower.State.withDiags, DiagnosticQueue.behind,
      DiagnosticQueue.hasErrors]
  · rfl

/-- The tree of `x; y;`, with neither of the names declared. -/
def undeclaredTree : Tree where
  exprs := #[⟨.identifier "x", 1⟩, ⟨.identifier "y", 2⟩]
  stmts := #[⟨.expression ⟨0⟩, 1⟩, ⟨.expression ⟨1⟩, 2⟩]
  root := [⟨0⟩, ⟨1⟩]

theorem Tree.compileWith_drained_undeclared :
    DiagnosticHook.drain.Drains List.flatten ∧
      (((undeclaredTree.compileWith {} .drain []).map fun (result, groups) =>
          (result.module, groups.flatten ++ result.diags.items.toList, result.diags.hasErrors)).toOption.map
            Prod.snd) =
        some ([⟨.undeclaredIdentifier "x", "", 1⟩, ⟨.undeclaredIdentifier "y", "", 2⟩], true) := by
  refine ⟨DiagnosticHook.drains_drain, ?_⟩
  rw [Tree.compileWith_drained undeclaredTree {} DiagnosticHook.drains_drain []]
  decide +kernel

end TreeFlow
