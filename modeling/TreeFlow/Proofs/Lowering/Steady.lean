import TreeFlow.Lower.Unit
import TreeFlow.Proofs.Lowering.Peeking
import TreeFlow.Proofs.Lowering.Settling

/-!
# What lowering never changes

Whatever is lowered from a sound state on, the state behind it is sound again (`State.IsSound`): names
outside of functions stand for constants, no code was written to a function without a body, and inside
of a function a frame is open. If all names resolve besides, they still do (`State.IsRooted`). What is
complete is left alone, and the depth of scopes is the one from before (`State.Keeps`). Every step also comes
back to the function that it began with (`State.Leads`).

This holds of all that can be lowered, correct or not, so nothing is assumed of places or graphs here.
A step is steady because the steps it is made of are, and there is one lemma for each. Expressions,
specifiers and declarators do even less: they write to the function at hand alone, and they declare
nothing but tags (`Calm`). So what was built to look at them can be thrown away again.
-/

namespace TreeFlow.Lower

variable {α β : Type}

/-! ### Sound states -/

/-- What is known of every state. -/
structure State.IsSound (s : State) : Prop where
  globals : ∀ entry ∈ s.scopes.global.vars, ∃ c, entry.2.addr = .const c
  tidy : s.builder.mod.IsTidy
  inside : s.func.isSome → s.scopes.locals ≠ []

/-- A sound state where all names resolve. A frame is open only inside of a function, which is the one that
is being built. -/
structure State.IsRooted (s : State) : Prop extends State.IsSound s, State.NamesResolve s where
  outside : s.func = none → s.scopes.locals = []
  building : ∀ o, s.func = some o → s.builder.func = some o.id

/-- A later state in the same function, at the same depth of scopes. Another function may be built there if
this is outside of functions. -/
structure State.Keeps (s t : State) : Prop where
  func : t.func = s.func
  depth : t.scopes.locals.length = s.scopes.locals.length
  sound : s.IsSound → t.IsSound
  rooted : s.IsRooted → t.IsRooted
  settles : s.Settles t

/-- A step led from one state to another. If all code was in order, what was being built still is, and the
startup routine is the same one, except that it may have been started outside of functions. -/
structure State.Leads (s t : State) : Prop extends s.Keeps t where
  building : s.IsOrderly → t.builder.func = s.builder.func
  startup : s.IsOrderly →
    t.startup.map Startup.id = s.startup.map Startup.id ∨ s.func = none ∧ s.startup = none

theorem State.Retains.depth {s t : State} (h : s.Retains t) :
    t.scopes.locals.length = s.scopes.locals.length := by
  simpa using congrArg List.length h.locals

theorem State.IsSound.of_retains {s t : State} (h : s.IsSound) (hst : s.Retains t) : t.IsSound where
  globals := by rw [hst.globals]; exact h.globals
  tidy := hst.mod.tidy h.tidy
  inside hsome hnil := h.inside (hst.func ▸ hsome)
    (List.eq_nil_of_length_eq_zero (by rw [← hst.depth, hnil]; rfl))

theorem State.IsRooted.of_retains {s t : State} (h : s.IsRooted) (hst : s.Retains t) : t.IsRooted where
  toIsSound := h.toIsSound.of_retains hst
  toNamesResolve := h.toNamesResolve.of_retains hst
  outside hnone := List.eq_nil_of_length_eq_zero (by
    rw [hst.depth, h.outside (hst.func ▸ hnone)]
    rfl)
  building o ho := hst.building.trans (h.building o (hst.func ▸ ho))

/-- An attempt begins in a state where all names resolve. -/
theorem State.IsRooted.snapshot {s : State} (h : s.IsRooted) :
    State.IsRooted { s with builder := s.builder.snapshot.2 } where
  globals := h.globals
  tidy := Builder.isTidy_snapshot h.tidy
  inside := h.inside
  toNamesResolve := h.toNamesResolve.snapshot
  outside := h.outside
  building o ho := by
    have hbuilding := h.building o ho
    simp [Builder.snapshot, hbuilding]

/-- Frames were opened, empty or as copies, or they were closed. -/
theorem State.IsSound.of_frames {s t : State} (h : s.IsSound) (hmod : t.builder.mod = s.builder.mod)
    (hglobal : t.scopes.global = s.scopes.global) (hinside : t.func.isSome → t.scopes.locals ≠ []) :
    t.IsSound := ⟨hglobal ▸ h.globals, hmod ▸ h.tidy, hinside⟩

theorem State.IsRooted.of_frames {s t : State} (h : s.IsRooted) (hmod : t.builder.mod = s.builder.mod)
    (hglobal : t.scopes.global = s.scopes.global)
    (hlocals : ∀ frame ∈ t.scopes.locals, frame = {} ∨ frame ∈ s.scopes.locals ∧ t.func = s.func)
    (houtside : t.scopes.locals = [] ↔ t.func = none)
    (hbuilding : ∀ o, t.func = some o → t.builder.func = some o.id) : t.IsRooted where
  toIsSound := h.toIsSound.of_frames hmod hglobal fun hsome hnil => by simp [houtside.1 hnil] at hsome
  toNamesResolve := h.toNamesResolve.of_frames hmod hglobal hlocals
  outside := houtside.2
  building := hbuilding

/-- Nothing changed but what names have nothing to do with. -/
theorem State.IsRooted.of_same {s t : State} (h : s.IsRooted) (hfunc : t.func = s.func)
    (hbuilder : t.builder = s.builder) (hglobal : t.scopes.global = s.scopes.global)
    (hlocals : t.scopes.locals = s.scopes.locals) : t.IsRooted := by
  refine h.of_frames (by rw [hbuilder]) hglobal (fun frame hframe => .inr ⟨hlocals ▸ hframe, hfunc⟩) ?_ ?_
  · rw [hlocals, hfunc]
    exact ⟨fun hnil => Option.not_isSome_iff_eq_none.1 fun hsome => h.inside hsome hnil, h.outside⟩
  · rw [hfunc, hbuilder]
    exact h.building

/-- The frame of a function was opened. -/
theorem State.IsRooted.openBody {s t : State} {o : OpenFunction} (h : s.IsRooted)
    (hmod : t.builder.mod = s.builder.mod) (hglobal : t.scopes.global = s.scopes.global)
    (hlocals : t.scopes.locals = [{}]) (hfunc : t.func = some o) (hbuilding : t.builder.func = some o.id) :
    t.IsRooted :=
  h.of_frames hmod hglobal (fun frame hframe => .inl (List.mem_singleton.1 (hlocals ▸ hframe)))
    (by simp [hlocals, hfunc]) fun o' ho' => by rw [hbuilding, Option.some.inj (hfunc.symm.trans ho')]

/-- All frames of a function were closed. -/
theorem State.IsRooted.closeBody {s t : State} (h : s.IsRooted) (hmod : t.builder.mod = s.builder.mod)
    (hglobal : t.scopes.global = s.scopes.global) (hlocals : t.scopes.locals = []) (hfunc : t.func = none) :
    t.IsRooted :=
  h.of_frames hmod hglobal (by simp [hlocals]) (by simp [hlocals, hfunc]) (by simp [hfunc])

/-- A block was opened. -/
theorem State.IsRooted.openBlock {s : State} {scopes : ScopeStack} (h : s.IsRooted)
    (hopen : s.scopes.openLocal = .ok scopes) : State.IsRooted { s with scopes } := by
  obtain ⟨top, below, hl, rfl⟩ := ScopeStack.openLocal_eq_ok hopen
  have hfunc : s.func ≠ none := fun hnone => by simp [h.outside hnone] at hl
  exact h.of_frames rfl rfl (fun frame hframe => .inr ⟨by simpa [hl] using hframe, rfl⟩) (by simp [hfunc])
    h.building

/-- A block was closed. -/
theorem State.IsRooted.closeBlock {s : State} {scopes : ScopeStack} (h : s.IsRooted)
    (hclose : s.scopes.closeLocal = .ok scopes) : State.IsRooted { s with scopes } := by
  obtain ⟨top, next, below, hl, rfl⟩ := ScopeStack.closeLocal_eq_ok hclose
  have hfunc : s.func ≠ none := fun hnone => by simp [h.outside hnone] at hl
  refine h.of_frames rfl rfl (fun frame hframe => .inr ⟨?_, rfl⟩) (by simp [hfunc]) h.building
  rw [hl]
  exact List.mem_cons_of_mem top hframe

/-- A relation between the states before and behind a step. It holds of two steps if it holds of both, and at
least where nothing changed but what is queued and the mode. -/
class Chains (R : State → State → Prop) : Prop where
  of_quiet : ∀ (s : State) (diags : DiagnosticQueue) (on : Bool), R s { s with diags, lvalue := on }
  trans : ∀ {s t u : State}, R s t → R t u → R s u

theorem Chains.refl {R : State → State → Prop} [Chains R] (s : State) : R s s := of_quiet s s.diags s.lvalue

/-- Such a relation that holds at least where an expression was lowered. -/
class Lenient (R : State → State → Prop) : Prop extends Chains R where
  of_peeks : ∀ {s t : State}, s.Peeks t → R s t
  of_quiet _ _ _ := of_peeks (.of_quiet rfl rfl rfl rfl rfl rfl)

instance : Lenient State.Peeks where
  of_peeks := id
  trans := .trans

instance : Lenient State.Retains where
  of_peeks := State.Peeks.retains
  trans := .trans

theorem State.Keeps.of_retains {s t : State} (h : s.Retains t) : s.Keeps t where
  func := h.func
  depth := h.depth
  sound hs := hs.of_retains h
  rooted hs := hs.of_retains h
  settles := .of_retains h

instance : Lenient State.Keeps where
  of_peeks h := .of_retains h.retains
  trans hst htu := ⟨htu.func.trans hst.func, htu.depth.trans hst.depth, fun h => htu.sound (hst.sound h),
    fun h => htu.rooted (hst.rooted h), hst.settles.trans htu.settles⟩

theorem State.Leads.of_retains {s t : State} (h : s.Retains t) : s.Leads t where
  toKeeps := .of_retains h
  building _ := h.building
  startup _ := .inl h.startup

theorem State.Leads.trans {s t u : State} (hst : s.Leads t) (htu : t.Leads u) : s.Leads u where
  toKeeps := Chains.trans hst.toKeeps htu.toKeeps
  building h := (htu.building (hst.settles.orderly h)).trans (hst.building h)
  startup h := by
    rcases hst.startup h with hsame | hfirst
    · refine (htu.startup (hst.settles.orderly h)).imp (fun h => h.trans hsame) fun ⟨hfunc, hnone⟩ => ⟨hst.func ▸ hfunc, ?_⟩
      rw [hnone] at hsame
      exact Option.map_eq_none_iff.1 hsame.symm
    · exact .inr hfirst

/-- A startup routine that is there is the same one behind a step. -/
theorem State.Leads.startup_id {s t : State} (h : s.Leads t) (hs : s.IsOrderly) {routine : Startup}
    (hstartup : s.startup = some routine) : t.startup.map Startup.id = some routine.id := by
  rcases h.startup hs with hsame | ⟨-, hnone⟩
  · rw [hsame, hstartup]
    rfl
  · exact nomatch hnone.symm.trans hstartup

instance : Lenient State.Leads where
  of_peeks h := .of_retains h.retains
  trans := .trans

/-- Nothing changed but what names and functions have nothing to do with. -/
theorem State.Leads.of_same {s t : State} (hfunc : t.func = s.func) (hbuilder : t.builder = s.builder)
    (hstartup : t.startup.map Startup.id = s.startup.map Startup.id)
    (hglobal : t.scopes.global = s.scopes.global) (hlocals : t.scopes.locals = s.scopes.locals) : s.Leads t :=
  .of_retains (.of_same hfunc hbuilder hstartup hglobal hlocals)

/-! ### Steps -/

/-- A step yielded something. -/
def Outcome.isDone : Outcome α → Bool
  | .done _ => true
  | _ => false

/-- A step comes to a state with some property, unless it is stuck. -/
def Ends (m : Lower α) (env : Env) (s : State) (P : State → Prop) : Prop :=
  match m env s with
  | (.stuck _, _) => True
  | (_, t) => P t

/-- From every state a step comes to a related one. -/
def Leaves (R : State → State → Prop) (m : Lower α) : Prop := ∀ env s, Ends m env s (R s)

/-- A step leads from every state to another one. -/
abbrev Steady (m : Lower α) : Prop := Leaves State.Leads m

/-- A step does no more than an expression does. -/
abbrev Calm (m : Lower α) : Prop := Leaves State.Peeks m

namespace Ends

variable {m : Lower α} {next : α → Lower β} {env : Env} {s : State} {P Q : State → Prop}

theorem imp (h : Ends m env s P) (hPQ : ∀ t, P t → Q t) : Ends m env s Q := by
  unfold Ends at h ⊢
  split <;> simp_all

theorem of_eq {n : Lower α} (heq : m env s = n env s) (h : Ends n env s P) : Ends m env s P := by
  unfold Ends at h ⊢
  rwa [heq]

theorem of_done {a : α} {t : State} (h : m env s = (.done a, t)) (ht : P t) : Ends m env s P := by
  rw [Ends, h]
  exact ht

theorem of_eq_done (h : Ends m env s P) {a : α} {t : State} (hm : m env s = (.done a, t)) : P t := by
  rw [Ends, hm] at h
  exact h

/-- Two steps come to a state with the property if the second one does so whenever it is taken. -/
theorem bind_of_run (hdone : ∀ a t, m env s = (.done a, t) → Ends (next a) env t Q)
    (hfailed : ∀ t, m env s = (.failed, t) → Q t) : Ends (m >>= next) env s Q := by
  show Ends (Lower.bind m next) env s Q
  unfold Ends Lower.bind
  rcases hm : m env s with ⟨a | _ | _, t⟩
  · exact hdone a t hm
  · exact hfailed t hm
  · trivial

theorem bind (h : Ends m env s P) (hfailed : ∀ t, P t → Q t)
    (hnext : ∀ a t, P t → m env s = (.done a, t) → Ends (next a) env t Q) :
    Ends (m >>= next) env s Q := by
  unfold Ends at h
  refine bind_of_run (fun a t hm => ?_) fun t hm => ?_ <;> rw [hm] at h
  · exact hnext a t h hm
  · exact hfailed t h

/-- A step whose outcome is known is followed by the rest. -/
theorem bind_of_done {a : α} {t : State} (hm : m env s = (.done a, t))
    (h : Ends (next a) env t Q) : Ends (m >>= next) env s Q := by
  show Ends (Lower.bind m next) env s Q
  unfold Ends Lower.bind
  rw [hm]
  exact h

theorem and (hP : Ends m env s P) (hQ : Ends m env s Q) : Ends m env s fun t => P t ∧ Q t := by
  unfold Ends at hP hQ ⊢
  rcases hrun : m env s with ⟨_ | _ | _, t⟩ <;> simp_all

/-- A step that is tried is followed by the rest, whether it fails or not. -/
theorem bind_attempt {next : Option α → Lower β} (h : Ends m env s P)
    (hnext : ∀ o t, P t → Ends (next o) env t Q) : Ends (Lower.attempt m >>= next) env s Q := by
  show Ends (Lower.bind (Lower.attempt m) next) env s Q
  unfold Ends Lower.bind Lower.attempt
  unfold Ends at h
  rcases hm : m env s with ⟨a | _ | _, t⟩
  · rw [hm] at h
    exact hnext (some a) t h
  · rw [hm] at h
    exact hnext none t h
  · trivial

/-- A step from a state that was led to leads on from where that way began. -/
theorem after {R : State → State → Prop} [Chains R] {t : State} (hts : R t s) (h : Ends m env s (R s)) :
    Ends m env s (R t) := h.imp fun _ hs => Chains.trans hts hs

end Ends

namespace Leaves

variable {R : State → State → Prop} [Chains R] {m : Lower α} {next : α → Lower β}

@[grind ←] theorem pure (a : α) : Leaves R (Pure.pure a : Lower α) := fun _ s => Chains.refl s

@[grind ←] theorem fail : Leaves R (Lower.fail : Lower α) := fun _ s => Chains.refl s

omit [Chains R] in
@[grind ←] theorem halt (why : Stuck) : Leaves R (Lower.halt why : Lower α) := fun _ _ => trivial

@[grind ←] theorem env : Leaves R Lower.env := fun _ s => Chains.refl s

@[grind ←] theorem read (f : State → α) : Leaves R (Lower.read f) := fun _ s => Chains.refl s

@[grind ←] theorem bind (hm : Leaves R m) (hnext : ∀ a, Leaves R (next a)) : Leaves R (m >>= next) :=
  fun env s => (hm env s).bind (fun _ h => h) fun a t ht _ => (hnext a env t).after ht

omit [Chains R] in
@[grind ←] theorem attempt (hm : Leaves R m) : Leaves R (Lower.attempt m) := fun env s => by
  have h := hm env s
  unfold Ends at h ⊢
  unfold Lower.attempt
  rcases hrun : m env s with ⟨a | _ | _, t⟩ <;> simp_all

@[grind ←] theorem ignoring (hm : Leaves R m) : Leaves R (Lower.ignoring m) :=
  .bind hm.attempt fun _ => .pure _

@[grind ←] theorem discard (hm : Leaves R m) : Leaves R (Functor.discard m) :=
  .bind hm fun _ => .pure _

@[grind ←] theorem report (kind : DiagnosticKind) (line : Nat) : Leaves R (Lower.report kind line) :=
  fun _ s => Chains.of_quiet s _ s.lvalue

@[grind ←] theorem failWith (kind : DiagnosticKind) (line : Nat) :
    Leaves R (Lower.failWith kind line : Lower α) := .bind (.report kind line) fun _ => .fail

omit [Chains R] in
/-- Code that was emitted was built. -/
theorem of_emit {line : Nat} {m : Build α} {env : Env} {s t : State} {a : α}
    (h : Lower.emit line m env s = (.done a, t)) : m s.builder = .ok (a, t.builder) := by
  unfold Lower.emit at h
  split at h
  · next v b hok =>
    obtain ⟨hv, rfl⟩ := Prod.mk.inj h
    obtain rfl := Outcome.done.inj hv
    exact hok
  · cases h
  · cases h

omit [Chains R] in
/-- A step between two changes of the state. -/
theorem between (hm : Leaves R m) (before : State → State) (after : State → State → State)
    {n : Lower α}
    (hn : ∀ env s, n env s =
      ((m env (before s)).1, after s (m env (before s)).2))
    (h : ∀ s t : State, R (before s) t → R s (after s t)) : Leaves R n := by
  intro env s
  have hleads := hm env (before s)
  unfold Ends at hleads ⊢
  rw [hn]
  rcases hrun : m env (before s) with ⟨_ | _ | _, t⟩
  · rw [hrun] at hleads
    exact h s t hleads
  · rw [hrun] at hleads
    exact h s t hleads
  · trivial

@[grind ←] theorem withLvalue (on : Bool) (hm : Leaves R m) : Leaves R (Lower.withLvalue on m) :=
  hm.between (fun s => { s with lvalue := on })
    (fun s t => { t with lvalue := s.lvalue }) (fun _ _ => rfl) fun s _ h =>
      have hs : R s { s with lvalue := on } := Chains.of_quiet s s.diags on
      Chains.trans hs (Chains.trans h (Chains.of_quiet _ _ s.lvalue))

/-! Where expressions get their parts from. -/

@[grind ←] theorem present (h : Handle) (o : Option α) : Leaves R (Lower.present h o) := by
  cases o <;> grind [Lower.present]

@[grind ←] theorem expr (id : ExprId) : Leaves R (Lower.expr id) := by grind [Lower.expr]

@[grind ←] theorem stmt (id : StmtId) : Leaves R (Lower.stmt id) := by grind [Lower.stmt]

@[grind ←] theorem spec (id : SpecId) : Leaves R (Lower.spec id) := by grind [Lower.spec]

@[grind ←] theorem declarator (id : DeclaratorId) : Leaves R (Lower.declarator id) := by
  grind [Lower.declarator]

@[grind ←] theorem types : Leaves R Lower.types := by grind [Lower.types]

@[grind ←] theorem describe (ty : Ty) : Leaves R (Lower.describe ty) := by grind [Lower.describe]

@[grind ←] theorem currentBlock : Leaves R Lower.currentBlock := by grind [Lower.currentBlock]

/-! What the builder is asked for. -/

omit [Chains R]

variable [Lenient R]

/-- What is calm comes to related states. -/
@[grind ←] theorem of_calm (h : Calm m) : Leaves R m := fun env s => (h env s).imp fun _ => Lenient.of_peeks

@[grind ←] theorem emit (line : Nat) {m : Build α} (hm : m.Steady) : Leaves R (Lower.emit line m) :=
  fun env s => by
    unfold Ends Lower.emit
    rcases hrun : m s.builder with fault | ⟨a, b⟩
    · cases fault with
      | missingBlock id => trivial
      | _ => exact failWith (α := α) _ line env s
    · exact Lenient.of_peeks (.of_writes (hm _ _ _ hrun))

@[grind ←] theorem setBlock (b : BlockId) : Leaves R (Lower.setBlock b) :=
  fun _ _ => Lenient.of_peeks (.of_writes ⟨rfl, rfl, .refl _ _⟩)

end Leaves

namespace Calm

variable {m : Lower α}

/-- A step that is calm may be thrown away. -/
@[grind ←] theorem probe (hm : Calm m) : Calm (Lower.probe m) :=
  hm.between (fun s => { s with builder := s.builder.snapshot.2 })
    (fun s t => { t with
      builder := t.builder.restore s.builder.snapshot.1 .types, lvalue := s.lvalue })
    (fun _ _ => rfl) fun s _ h => h.of_attempt .types (by decide) s.lvalue

theorem withTypes {f : TypeTable → α × TypeTable} (h : ∀ t : TypeTable, t.Extends (f t).2) :
    Calm (Lower.withTypes f) := fun _ s => .of_types (h s.builder.mod.types)

theorem globalString (text : String) : Calm (withBuilder (·.globalString text)) := fun _ s =>
  .of_writes (.addGlobal s.builder rfl)

end Calm

/-! ### Values -/

section Values

variable (v l r : Value) (ty : Ty) (line : Nat)

@[grind ←] theorem calm_toRvalue : Calm (toRvalue v line) := by grind [toRvalue]

@[grind ←] theorem calm_loadAggregate : Calm (loadAggregate v line) := by
  grind [loadAggregate]

@[grind ←] theorem calm_toBool : Calm (toBool v line) := by grind [toBool]

@[grind ←] theorem calm_applyConversion (c : Conversion) (op : Operand) :
    Calm (applyConversion c op ty line) := by cases c <;> grind [applyConversion]

@[grind ←] theorem calm_convert : Calm (convert v ty line) := by grind [convert]

@[grind ←] theorem calm_convertOrReport : Calm (convertOrReport v ty line) := by
  grind [convertOrReport]

@[grind ←] theorem calm_promote : Calm (promote l r line) := by grind [promote]

@[grind ←] theorem calm_pointerOffset (back : Bool) : Calm (pointerOffset l r back line) := by
  grind [pointerOffset]

@[grind ←] theorem calm_elementSize : Calm (elementSize ty line) := by grind [elementSize]

@[grind ←] theorem calm_pointerDifference : Calm (pointerDifference l r line) := by
  grind [pointerDifference]

@[grind ←] theorem calm_pointerCompare (op : BinaryOp) : Calm (pointerCompare op l r line) := by
  grind [pointerCompare]

@[grind ←] theorem calm_addressAsInteger : Calm (addressAsInteger v line) := by
  grind [addressAsInteger]

@[grind ←] theorem calm_arithmetic (op : BinaryOp) : Calm (arithmetic op l r line) := by
  refine .bind (calm_addressAsInteger l line) fun l' => ?_
  refine .bind (calm_addressAsInteger r line) fun r' => ?_
  split
  · grind
  · exact .bind (calm_promote l' r' line).attempt fun found => by grind

@[grind ←] theorem calm_combine (op : BinaryOp) : Calm (combine op l r line) := by
  grind [combine]

end Values

/-! ### The children of a node -/

/-- However the children are lowered, it is calm. -/
structure CalmDescent (sub : Descent) : Prop where
  raw : ∀ e, Calm (sub.raw e)
  spec : ∀ id, Calm (sub.spec id)
  link : ∀ mode id info, Calm (sub.link mode id info)

section Children

variable {sub : Descent} (h : CalmDescent sub) (e left right : ExprId) (line : Nat)
include h

@[grind ←] theorem calm_raw : Calm (sub.raw e) := h.raw e

@[grind ←] theorem calm_spec (id : SpecId) : Calm (sub.spec id) := h.spec id

@[grind ←] theorem calm_link (mode : DeclaratorMode) (id : DeclaratorId) (info : DeclaratorInfo) :
    Calm (sub.link mode id info) := h.link mode id info

@[grind ←] theorem calm_subExpr : Calm (sub.expr e) := by grind [Descent.expr]

@[grind ←] theorem calm_subRvalue : Calm (sub.rvalue e) := by grind [Descent.rvalue]

@[grind ←] theorem calm_subLvalue : Calm (sub.lvalue e) := by grind [Descent.lvalue]

@[grind ←] theorem calm_subStorage : Calm (sub.storage e) := by grind [Descent.storage]

@[grind ←] theorem calm_subTypeOf : Calm (sub.typeOf e) := by grind [Descent.typeOf]

@[grind ←] theorem calm_subConstInt : Calm (sub.constInt e) := by grind [Descent.constInt]

/-! ### Operators -/

@[grind ←] theorem calm_truth : Calm (truth sub e line) := by grind [truth]

@[grind ←] theorem calm_logical (and : Bool) : Calm (logical sub and left right line) := by
  refine .bind (calm_truth h left line) fun lb => ?_
  split
  · grind
  · refine .bind .currentBlock fun o => ?_
    cases o with
    | none => grind
    | some source =>
      refine .bind (.emit _ Build.steady_newBlock) fun rightBlock => ?_
      refine .bind (.emit _ Build.steady_newBlock) fun endBlock => ?_
      cases and <;> refine .bind (.emit _ (Build.steady_branch _ _ _)) fun _ => ?_ <;> grind

@[grind ←] theorem calm_binary (op : BinaryOp) : Calm (binary sub op left right line) := by
  cases op <;> grind [binary]

@[grind ←] theorem calm_step (up before : Bool) : Calm (step sub e up before line) := by
  refine .bind (.expr e) fun node => .bind (calm_subStorage h e) fun target => ?_
  dsimp only
  split
  · grind
  · refine .bind (.emit _ (Build.steady_load _ _)) fun old => ?_
    grind

@[grind ←] theorem calm_addressOf : Calm (addressOf sub e line) := by grind [addressOf]

@[grind ←] theorem calm_deref : Calm (deref sub e line) := by grind [deref]

@[grind ←] theorem calm_negate : Calm (negate sub e line) := by grind [negate]

@[grind ←] theorem calm_unary (op : UnaryOp) : Calm (unary sub op e line) := by
  cases op <;> grind [unary]

/-! ### Declarators -/

@[grind ←] theorem calm_arrayLength : Calm (arrayLength sub e line) := by grind [arrayLength]

@[grind ←] theorem calm_addDimensions (mode : DeclaratorMode) (dims : List (Option ExprId))
    (ty : Ty) : Calm (addDimensions sub mode line dims ty) := by
  induction dims generalizing ty with
  | nil => exact .pure ty
  | cons dim dims ih =>
    unfold addDimensions
    split
    · exact ih _
    · exact ih _
    · exact .bind (calm_arrayLength h _ line) fun _ => ih _

@[grind ←] theorem calm_declare (mode : DeclaratorMode) (id : DeclaratorId) (base : Ty) :
    Calm (declare sub mode id base) := by grind [declare]

@[grind ←] theorem calm_param (p : ParamDecl) : Calm (param sub line p) := by grind [param]

omit h in
@[grind ←] theorem calm_each {step : α → Lower β} (hstep : ∀ a, Calm (step a))
    (items : List α) : Calm (each step items) := by
  induction items with
  | nil => exact .pure []
  | cons a rest ih => exact .bind (hstep a).attempt fun _ => .bind ih fun _ => .pure _

@[grind ←] theorem calm_params (ps : List ParamDecl) : Calm (params sub ps line) := by
  grind [params]

@[grind ←] theorem calm_linkWith (mode : DeclaratorMode) (id : DeclaratorId)
    (info : DeclaratorInfo) : Calm (linkWith sub mode id info) := by
  grind [linkWith]

/-! ### Type specifiers -/

omit h in
@[grind ←] theorem calm_namedType (name : String) : Calm (namedType name line) := by
  grind [namedType]

omit h in
/-- A tag is bound to the aggregate that is declared for it. -/
@[grind ←] theorem calm_declareTag (kind : AggregateKind) (name : String) :
    Calm (declareTag kind name) := by
  intro env s
  have hdeclare := TypeTable.extends_declare s.builder.mod.types kind (s.scopes.qualify name)
  refine .bind_of_done rfl (.bind_of_done rfl (.after (.of_types hdeclare) ?_))
  simp only [AggregateKind.key?_ty]
  exact .of_done rfl (.of_tag name (TypeTable.kindOf?_declare_self _ kind _))

omit h in
@[grind ←] theorem calm_declareAggregate (kind : AggregateKind) (name : String) :
    Calm (declareAggregate kind name) := by grind [declareAggregate]

omit h in
@[grind ←] theorem calm_aggregateToDefine (kind : AggregateKind) (name : Option String) :
    Calm (aggregateToDefine kind name line) := by
  cases name with
  | none => exact Calm.withTypes fun t => t.extends_declare kind "anon"
  | some name => grind [aggregateToDefine]

@[grind ←] theorem calm_field (kind : AggregateKind) (base : Ty) (id : DeclaratorId) :
    Calm (field sub kind base id) := by grind [field]

@[grind ←] theorem calm_fieldsOf (kind : AggregateKind) (decl : VariableDecl) :
    Calm (fieldsOf sub kind decl) := by grind [fieldsOf]

@[grind ←] theorem calm_defineAggregate (kind : AggregateKind) (decl : AggregateDecl) :
    Calm (defineAggregate sub kind decl line) := by
  refine .bind (calm_aggregateToDefine line kind decl.name) fun ty => ?_
  refine .bind (calm_each (fun d => calm_fieldsOf h kind d) _) fun found => fun env s => ?_
  refine .bind_of_done (t := s) rfl ?_
  split
  · next table htable => exact .of_done rfl (.of_types (TypeTable.extends_define htable))
  · exact Leaves.failWith _ _ env s

@[grind ←] theorem calm_aggregateType (kind : AggregateKind) (decl : AggregateDecl) :
    Calm (aggregateType sub kind decl line) := by grind [aggregateType]

omit h in
@[grind ←] theorem calm_bitFieldType (width : Nat) : Calm (bitFieldType width line) := by
  grind [bitFieldType]

@[grind ←] theorem calm_specWith (id : SpecId) : Calm (specWith sub id) := by
  grind [specWith]

/-! ### Expressions -/

omit h in
@[grind ←] theorem calm_stringLiteral (text : String) : Calm (stringLiteral text) :=
  .bind (Calm.globalString text) fun _ => .pure _

omit h in
@[grind ←] theorem calm_identifier (name : String) (globally : Bool) :
    Calm (identifier name globally line) := by grind [identifier]

@[grind ←] theorem calm_globalScope : Calm (globalScope sub e line) := by grind [globalScope]

omit h in
@[grind ←] theorem calm_argument (v : Value) (param : Option Ty) :
    Calm (argument v param line) := by cases param <;> grind [argument]

@[grind ←] theorem calm_arguments (params : List Ty) (args : List ExprId) :
    Calm (arguments sub line params args) := by
  induction args generalizing params with
  | nil => unfold arguments; exact .pure []
  | cons e es ih =>
    unfold arguments
    exact .bind (calm_subRvalue h e) fun v => .bind (calm_argument line v _) fun _ =>
      .bind (ih _) fun _ => .pure _

@[grind ←] theorem calm_call (args : List ExprId) : Calm (call sub e args line) := by
  refine .bind (.read _) fun on => ?_
  split
  · grind
  · refine .bind (calm_subRvalue h e) fun f => ?_
    split
    · grind
    · split
      · grind
      · exact .bind (calm_arguments h line _ args) fun ops => by grind

omit h in
@[grind ←] theorem calm_fieldBase (v : Value) : Calm (fieldBase v line) := by
  grind [fieldBase]

@[grind ←] theorem calm_fieldAccess (name : String) : Calm (fieldAccess sub e name line) := by
  refine .bind (calm_subStorage h e) fun base => .bind (calm_fieldBase line base) fun found => ?_
  refine .bind .types fun table => ?_
  dsimp only
  split
  · grind
  · split
    · grind
    · split
      · grind
      · refine .bind (.emit _ ?_) fun _ => .pure _
        split <;> grind

@[grind ←] theorem calm_element : Calm (element sub left right line) := by grind [element]

@[grind ←] theorem calm_layoutQuery (id : SpecId) (size : Bool) :
    Calm (layoutQuery sub id size line) := by grind [layoutQuery]

@[grind ←] theorem calm_cast (id : SpecId) : Calm (cast sub id e line) := by grind [cast]

omit h in
@[grind ←] theorem calm_putAggregate (addr : Operand) (v : Value) (ty : Ty) :
    Calm (putAggregate addr v ty line) := by grind [putAggregate]

@[grind ←] theorem calm_assignTo (target : Value) : Calm (assignTo sub target e line) := by
  grind [assignTo]

@[grind ←] theorem calm_assign : Calm (assign sub left right line) := by grind [assign]

omit h in
@[grind ←] theorem calm_alternative (v : Value) (ty : Ty) : Calm (alternative v ty line) := by
  grind [alternative]

omit h in
@[grind ←] theorem calm_joinFrom (source join : BlockId) (v : Value) (ty : Ty) :
    Calm (joinFrom source join v ty line) := by grind [joinFrom]

@[grind ←] theorem calm_alternativeIn (b : BlockId) : Calm (alternativeIn sub b e) := by
  grind [alternativeIn]

@[grind ←] theorem calm_conditional (cond : ExprId) :
    Calm (conditional sub cond left right line) := by
  refine .bind (calm_truth h cond line) fun c => ?_
  refine .bind (.emit _ Build.steady_newBlock) fun yesBlock => ?_
  refine .bind (.emit _ Build.steady_newBlock) fun noBlock => ?_
  refine .bind (.emit _ Build.steady_newBlock) fun join => ?_
  refine .bind (.emit _ (Build.steady_branch _ _ _)) fun _ => ?_
  refine .bind (calm_alternativeIn h left _) fun y => ?_
  refine .bind (calm_alternativeIn h right _) fun n => ?_
  dsimp only
  split
  · split
    · grind
    · refine .bind (calm_joinFrom _ _ _ _ _) fun fromYes => ?_
      refine .bind (calm_joinFrom _ _ _ _ _) fun fromNo => ?_
      grind
  · grind

@[grind ←] theorem calm_comma : Calm (comma sub left right) := by grind [comma]

@[grind ←] theorem calm_rawWith (id : ExprId) : Calm (rawWith sub id) := by
  grind [rawWith]

end Children

/-! ### The whole descent -/

theorem calm_descentTo (depth : Nat) : CalmDescent (descentTo depth) := by
  induction depth with
  | zero =>
    rw [descentTo]
    exact ⟨fun _ => .halt _, fun _ => .halt _, fun _ _ _ => .halt _⟩
  | succ depth ih =>
    rw [descentTo]
    exact ⟨fun e => calm_rawWith ih e, fun id => calm_specWith ih id,
      fun mode id info => calm_linkWith ih mode id info⟩

@[grind ←] theorem calm_descend {step : Descent → Lower α}
    (h : ∀ sub, CalmDescent sub → Calm (step sub)) : Calm (descend step) :=
  fun env s => Ends.of_eq (n := step (descentTo env.tree.exprDepth)) rfl
    (h _ (calm_descentTo _) env s)

@[grind ←] theorem calm_rvalue (e : ExprId) : Calm (rvalue e) :=
  calm_descend fun _ h => calm_subRvalue h e

@[grind ←] theorem calm_resolve (id : SpecId) : Calm (resolve id) :=
  calm_descend fun _ h => h.spec id

@[grind ←] theorem calm_resolveDeclarator (mode : DeclaratorMode) (id : DeclaratorId)
    (base : Ty) : Calm (resolveDeclarator mode id base) :=
  calm_descend fun _ h => calm_declare h mode id base

@[grind ←] theorem calm_resolveParams (ps : List ParamDecl) (line : Nat) :
    Calm (resolveParams ps line) := calm_descend fun _ h => calm_params h line ps

end TreeFlow.Lower
