import TreeFlow.Proofs.Lowering.RegularExpression

/-!
# No step fails in silence

A step only ever appends to the queue of diagnostics, as seen from behind it: what it takes back, it has
queued itself. A loud step that fails has appended an error (`Regular.appends`). All steps that lower an
expression, resolve a type or follow a declarator are loud, so none of them fails without an error in
the queue (`descent_reports`).
-/

namespace TreeFlow.Lower

variable {α β : Type} {env : Env} {loud : Bool} {s t u : State} {new more : List Diagnostic}

/-- From one state to another, some diagnostics were queued behind those that were there. -/
def State.Queues (s t : State) (new : List Diagnostic) : Prop :=
  t.diags.items.toList = s.diags.items.toList ++ new

/-- There is an error among some diagnostics. -/
def HasError (ds : List Diagnostic) : Prop := ∃ d ∈ ds, d.severity = .error

/-- From one state to another, an error was queued. -/
def State.Errs (s t : State) : Prop := ∃ new, s.Queues t new ∧ HasError new

/-- Something was appended to the queue by a step, an error if the step is loud and failed. -/
def Logs (loud : Bool) (s : State) : Outcome α × State → Prop
  | (.done _, t) => ∃ new, s.Queues t new
  | (.failed, t) => ∃ new, s.Queues t new ∧ (loud → HasError new)
  | (.stuck _, _) => True

namespace State.Queues

theorem refl (s : State) : s.Queues s [] := (List.append_nil _).symm

theorem of_diags (h : t.diags = s.diags) : s.Queues t [] := by
  rw [Queues, h, List.append_nil]

theorem trans (hst : s.Queues t new) (htu : t.Queues u more) : s.Queues u (new ++ more) := by
  rw [Queues, htu, hst, List.append_assoc]

theorem report (kind : DiagnosticKind) (line : Nat) (env : Env) (s : State) :
    s.Queues (Lower.report kind line env s).2 [⟨kind, env.tree.file, line⟩] := by
  simp [State.Queues, Lower.report, DiagnosticQueue.push]

theorem errs (hst : s.Queues t new) (htu : t.Errs u) : s.Errs u := by
  obtain ⟨more, hmore, d, hd, herror⟩ := htu
  exact ⟨_, hst.trans hmore, d, List.mem_append_right _ hd, herror⟩

end State.Queues

theorem State.Errs.queues (hst : s.Errs t) (htu : t.Queues u more) : s.Errs u := by
  obtain ⟨new, hnew, d, hd, herror⟩ := hst
  exact ⟨_, hnew.trans htu, d, List.mem_append_left _ hd, herror⟩

namespace Logs

variable {r : Outcome α × State}

/-- What was queued before counts as well. -/
theorem after (hst : s.Queues t new) (h : Logs loud t r) : Logs loud s r := by
  rcases r with ⟨_ | _ | _, u⟩
  · obtain ⟨more, hmore⟩ := h
    exact ⟨_, hst.trans hmore⟩
  · obtain ⟨more, hmore, herror⟩ := h
    refine ⟨_, hst.trans hmore, fun hloud => ?_⟩
    obtain ⟨d, hd, hsevere⟩ := herror hloud
    exact ⟨d, List.mem_append_right _ hd, hsevere⟩
  · trivial

/-- After an error has been queued, a step may fail in silence. -/
theorem after_error (hst : s.Queues t new) (herror : HasError new) (h : Logs false t r) :
    Logs loud s r := by
  rcases r with ⟨_ | _ | _, u⟩
  · obtain ⟨more, hmore⟩ := h
    exact ⟨_, hst.trans hmore⟩
  · obtain ⟨more, hmore, -⟩ := h
    obtain ⟨d, hd, hsevere⟩ := herror
    exact ⟨_, hst.trans hmore, fun _ => ⟨d, List.mem_append_left _ hd, hsevere⟩⟩
  · trivial

/-- What was queued is the same from states with the same queue, to states with the same queue. -/
theorem of_diags {o : Outcome α} {s' t' : State} (hs : s.diags = s'.diags) (ht : t.diags = t'.diags)
    (h : Logs loud s (o, t)) : Logs loud s' (o, t') := by
  unfold Logs State.Queues at h ⊢
  rcases o with _ | _ | _ <;> simp_all

/-- What is queued after a step comes behind. -/
theorem followed {o : Outcome α} (h : Logs loud s (o, t)) (htu : t.Queues u more) :
    Logs loud s (o, u) := by
  rcases o with _ | _ | _
  · obtain ⟨new, hnew⟩ := h
    exact ⟨_, hnew.trans htu⟩
  · obtain ⟨new, hnew, herror⟩ := h
    refine ⟨_, hnew.trans htu, fun hloud => ?_⟩
    obtain ⟨d, hd, hsevere⟩ := herror hloud
    exact ⟨d, List.mem_append_left _ hd, hsevere⟩
  · trivial

theorem silent (h : Logs true s r) : Logs false s r := by
  rcases r with ⟨_ | _ | _, t⟩
  · exact h
  · obtain ⟨new, hnew, -⟩ := h
    exact ⟨new, hnew, nofun⟩
  · trivial

end Logs

/-- A step appends to the queue, an error if it is loud and fails. -/
def Appends (env : Env) (loud : Bool) (m : Lower α) : Prop := ∀ s, Logs loud s (m env s)

namespace Appends

variable {m : Lower α}

theorem failWith {kind : DiagnosticKind} (line : Nat) (h : loud → kind.severity = .error) :
    Appends env loud (Lower.failWith kind line : Lower α) := fun s =>
  ⟨_, .report kind line env s, fun hloud => ⟨_, List.mem_singleton_self _, h hloud⟩⟩

theorem emit (line : Nat) (m : Build α) : Appends env loud (Lower.emit line m) := by
  intro s
  unfold Lower.emit
  rcases m s.builder with fault | ⟨a, b⟩
  · cases fault with
    | missingBlock id => trivial
    | _ => exact failWith (α := α) line (fun _ => rfl) s
  · exact ⟨[], .of_diags rfl⟩

theorem bind {next : α → Lower β} (hm : Appends env loud m)
    (hnext : ∀ a, Produces env m a → Appends env loud (next a)) :
    Appends env loud (m >>= next) := by
  intro s
  show Logs loud s (Lower.bind m next env s)
  have hm := hm s
  unfold Lower.bind
  rcases hrun : m env s with ⟨a | _ | _, t⟩ <;> rw [hrun] at hm
  · obtain ⟨new, hnew⟩ := hm
    exact (hnext a ⟨s, t, hrun⟩ t).after hnew
  · exact hm
  · trivial

theorem attempt (hm : Appends env false m) : Appends env loud (Lower.attempt m) := by
  intro s
  have hm := hm s
  unfold Lower.attempt
  rcases hrun : m env s with ⟨a | _ | _, t⟩ <;> rw [hrun] at hm
  · exact hm
  · obtain ⟨new, hnew, -⟩ := hm
    exact ⟨new, hnew⟩
  · trivial

/-- When a loud step is tried and fails, an error has been queued. -/
theorem bindTried {next : Option α → Lower β} (hm : Appends env true m)
    (hsome : ∀ a, Appends env loud (next (some a))) (hnone : Appends env false (next none)) :
    Appends env loud (Lower.attempt m >>= next) := by
  intro s
  show Logs loud s (Lower.bind (Lower.attempt m) next env s)
  have hm := hm s
  unfold Lower.bind Lower.attempt
  rcases hrun : m env s with ⟨a | _ | _, t⟩ <;> rw [hrun] at hm
  · obtain ⟨new, hnew⟩ := hm
    exact (hsome a t).after hnew
  · obtain ⟨new, hnew, herror⟩ := hm
    exact (hnone t).after_error hnew (herror rfl)
  · trivial

theorem localScope (hm : Appends env loud m) : Appends env loud (Lower.localScope m) := by
  intro s
  unfold Lower.localScope
  split
  · exact hm s
  · next opened _ =>
    have hlogs := hm { s with scopes := opened }
    rcases hrun : m env { s with scopes := opened } with ⟨o, t⟩
    rw [hrun] at hlogs
    have hlogs : Logs loud s (o, t) := by
      refine Logs.of_diags ?_ ?_ hlogs <;> rfl
    dsimp only
    split
    · refine Logs.of_diags ?_ ?_ hlogs <;> rfl
    · exact hlogs.followed (.report _ _ _ _)

/-- What was reported while the initializer was tried is taken back, or stays. -/
theorem constantInitializer {ty : Ty} {init : ExprId} {line : Nat}
    (h : Appends env false (initializerValue ty init line)) :
    Appends env loud (Lower.constantInitializer ty init line) := by
  intro s
  have hvalue := h { s with builder := s.builder.snapshot.2 }
  have hundone : ∀ {t : State} {new}, s.Queues t new →
      (t.diags.truncate s.diags.size).items.toList = s.diags.items.toList ++ [] := fun {t new} ht => by
    rw [State.Queues] at ht
    simp [DiagnosticQueue.truncate, DiagnosticQueue.size, ht]
  rcases hrun : initializerValue ty init line env { s with builder := s.builder.snapshot.2 } with
    ⟨op | _ | _, t⟩ <;> rw [hrun] at hvalue <;> simp only [Lower.constantInitializer, hrun]
  · obtain ⟨new, hnew⟩ := hvalue
    cases op.const? with
    | none => exact ⟨[], hundone hnew⟩
    | some c => exact ⟨new, hnew⟩
  · obtain ⟨new, hnew, -⟩ := hvalue
    exact ⟨[], hundone hnew⟩
  · trivial

end Appends

theorem Regular.appends {F : Footing env} {m : Lower α} (h : Regular F loud m) :
    Appends env loud m := by
  induction h with
  | quiet value change hm hvalue hchange =>
    intro s
    rw [hm]
    exact ⟨[], .of_diags (hchange.diags_eq s)⟩
  | jumps _ value change hm hvalue hchange =>
    intro s
    rw [hm]
    exact ⟨[], .of_diags (hchange.diags_eq s)⟩
  | fail => exact fun s => ⟨[], .refl s, nofun⟩
  | halt => exact fun _ => trivial
  | report kind line => exact fun s => ⟨_, .report kind line env s⟩
  | failWith line h => exact .failWith line h
  | emit line m => exact .emit line m
  | bindProduced hm hnext ihm ihnext => exact ihm.bind ihnext
  | attempt hm ih => exact ih.attempt
  | bindTried hm hsome hnone ihm ihsome ihnone => exact .bindTried ihm ihsome ihnone
  | between before after hn hbefore hafter hsame hm ih =>
    intro s
    rw [hn]
    exact (ih (before s)).of_diags (hbefore.diags_eq s) ((hafter s).diags_eq _).symm
  | localScope hm ih => exact ih.localScope
  | constantInitializer h ih => exact .constantInitializer ih
  | ofEq heq hn ih =>
    intro s
    rw [heq]
    exact ih s
  | silent hm ih => exact fun s => (ih s).silent

/-- A regular step only appends to the queue. -/
theorem Regular.exists_queues {F : Footing env} {m : Lower α} {a : α} (h : Regular F loud m)
    (hrun : m env s = (.done a, t)) : ∃ new, s.Queues t new := by
  have hlogs := h.appends s
  rw [hrun] at hlogs
  exact hlogs

theorem Regular.ends_queues {F : Footing env} {m : Lower α} (h : Regular F loud m) :
    Ends m env s fun t => ∃ new, s.Queues t new := by
  have hlogs := h.appends s
  unfold Ends
  rcases hrun : m env s with ⟨_ | _ | _, t⟩ <;> rw [hrun] at hlogs
  · exact hlogs
  · obtain ⟨new, hnew, -⟩ := hlogs
    exact ⟨new, hnew⟩
  · trivial

/-- A loud step that fails has appended an error. -/
theorem Regular.exists_error {F : Footing env} {m : Lower α} (h : Regular F true m)
    (hrun : m env s = (.failed, t)) : ∃ new, s.Queues t new ∧ HasError new := by
  have hlogs := h.appends s
  rw [hrun] at hlogs
  obtain ⟨new, hnew, herror⟩ := hlogs
  exact ⟨new, hnew, herror rfl⟩

/-! ### What is lowered never fails in silence -/

/-- Whenever a step fails, an error was appended to the queue, and is still there. -/
def Reports (m : Lower α) : Prop :=
  ∀ env s t, m env s = (.failed, t) → ∃ new, s.Queues t new ∧ HasError new

theorem reports_of_regular {m : Lower α} (h : ∀ env, Regular (.loose env) true m) : Reports m :=
  fun env _ _ hrun => (h env).exists_error hrun

/-- **No expression, type, declarator or list of parameters fails to be lowered without an error.** -/
theorem descent_reports :
    (∀ depth e, Reports ((descentTo depth).raw e) ∧ Reports ((descentTo depth).expr e)) ∧
    (∀ depth id, Reports ((descentTo depth).spec id)) ∧
    (∀ depth mode id base, Reports (declare (descentTo depth) mode id base)) ∧
    (∀ depth ps line, Reports (params (descentTo depth) ps line)) := by
  have hsub : ∀ env depth, RegularDescent (.loose env) depth (descentTo depth) := fun env depth =>
    regularDescent_descentTo _ depth
  refine ⟨fun depth e => ⟨?_, ?_⟩, fun depth id => ?_, fun depth mode id base => ?_,
    fun depth ps line => ?_⟩ <;> refine reports_of_regular fun env => ?_
  · exact (hsub env depth).raw trivial
  · exact (hsub env depth).expr trivial
  · exact (hsub env depth).spec trivial
  · exact (hsub env depth).declare mode base trivial
  · exact (hsub env depth).params line fun _ _ _ _ => trivial

end TreeFlow.Lower
