import TreeFlow.Lower.Statement
import TreeFlow.Proofs.Lowering.Expression

/-!
# Places in a body

A place is a site in the body of a function, where the loops around it, the labels and the pending labels
are known too. Every block that they hold belongs to the function whose code is being written and has no
parent, so control may get there from anywhere (`Function.Target`). Statements lead from place to place
(`Place.Continues`): the graph grows, and the scopes and loops are those from before.
-/

namespace TreeFlow

/-! ### Layouts -/

theorem insertBefore_perm {α : Type} [DecidableEq α] (x anchor : α) (l : List α) :
    (insertBefore x anchor l).Perm (l ++ [x]) := by
  induction l with
  | nil => exact .refl _
  | cons y ys ih =>
    unfold insertBefore
    split
    · exact (List.perm_append_singleton x (y :: ys)).symm
    · exact ih.cons y

/-! ### Targets -/

/-- Control may be sent to the block from anywhere in the function. -/
structure Function.Target (f : Function) (P : Parents) (b : BlockId) : Prop where
  has : f.Has b
  parent : P b = none
  not_entry : f.entry? ≠ some b

theorem Function.Target.mono {f g : Function} {P Q : Parents} {b : BlockId} (h : f.Target P b)
    (hext : f.Extends P g Q) : g.Target Q b where
  has := hext.has b h.has
  parent := (hext.parent b h.has).trans h.parent
  not_entry := hext.entry ▸ h.not_entry

namespace Lower

/-! ### Places -/

/-- A site in the body of a function. -/
structure Place extends Site where
  func : ∃ o, state.func = some o ∧ o.id = id
  inside : state.scopes.locals ≠ []
  loops : ∀ t ∈ state.loops, function.Target parents t.brk ∧ function.Target parents t.cont
  pending : ∀ l ∈ state.pending, function.Target parents l.block
  labels : ∀ l ∈ state.scopes.labels, function.Target parents l.2

namespace Place

variable {α β : Type} {env : Env} {line : Nat} {p q : Place} {m : Lower α}
  {post : α → Place → Prop} {b : BlockId} {v : Operand}

/-- Control may be sent to the block from anywhere in the body. -/
abbrev Target (p : Place) (b : BlockId) : Prop := p.function.Target p.parents b

/-- The state of a place. -/
abbrev view (p : Place) : State := p.state

/-- A statement leads from one place to another one. -/
structure Continues (p q : Place) : Prop where
  id : q.id = p.id
  ext : p.function.Extends p.parents q.function q.parents
  func : q.state.func = p.state.func
  loops : q.state.loops = p.state.loops
  depth : q.state.scopes.locals.length = p.state.scopes.locals.length

instance : Std.Refl Continues := ⟨fun _ => ⟨rfl, .refl _ _, rfl, rfl, rfl⟩⟩

instance : IsTrans Place Continues :=
  ⟨fun _ _ _ hpq hqr => ⟨hqr.id.trans hpq.id, hpq.ext.trans hqr.ext, hqr.func.trans hpq.func,
    hqr.loops.trans hpq.loops, hqr.depth.trans hpq.depth⟩⟩

/-- A step that takes no jumps leads from one place to another one: code was only added at the cursor. -/
structure Adds (p q : Place) : Prop extends Continues p q where
  spans : p.toSite.Spans q.toSite

instance : Std.Refl Adds := ⟨fun p => ⟨Std.Refl.refl p, .refl p.toSite⟩⟩

instance : IsTrans Place Adds :=
  ⟨fun _ _ _ hpq hqr => ⟨IsTrans.trans _ _ _ hpq.toContinues hqr.toContinues, hpq.spans.trans hqr.spans⟩⟩

/-- A step leads on from a place. -/
abbrev Walks (p : Place) (env : Env) (m : Lower α) (post : α → Place → Prop) : Prop :=
  Yields view Continues env p m post

/-- A step only adds code at the cursor. -/
abbrev Inserts (p : Place) (env : Env) (m : Lower α) (post : α → Place → Prop) : Prop :=
  Yields view Adds env p m post

theorem Inserts.walks (h : p.Inserts env m post) : p.Walks env m post :=
  Runs.imp h (fun _ _ ⟨q, hq, hpq, ha⟩ => ⟨q, hq, hpq.toContinues, ha⟩)
    fun _ ⟨q, hq, hpq⟩ => ⟨q, hq, hpq.toContinues⟩

/-- A step leads on from a place, and does not fail. -/
def Completes (p : Place) (env : Env) (m : Lower α) (post : α → Place → Prop) : Prop :=
  Runs m env p.state (fun a s => ∃ q : Place, q.state = s ∧ p.Continues q ∧ post a q) fun _ => False

namespace Completes

theorem walks (h : p.Completes env m post) : p.Walks env m post :=
  Runs.imp h (fun _ _ h => h) fun _ h => h.elim

theorem imp {post' : α → Place → Prop} (h : p.Completes env m post)
    (himp : ∀ a q, post a q → post' a q) : p.Completes env m post' :=
  Runs.imp h (fun a _ ⟨q, hq, hpq, ha⟩ => ⟨q, hq, hpq, himp a q ha⟩) fun _ h => h

theorem bind {next : α → Lower β} {post' : β → Place → Prop} (h : p.Completes env m post)
    (hnext : ∀ a q, p.Continues q → post a q → q.Completes env (next a) post') :
    p.Completes env (m >>= next) post' := by
  refine Runs.bind (Runs.imp h ?_ fun _ h => h)
  rintro a _ ⟨q, rfl, hpq, ha⟩
  refine Runs.imp (hnext a q hpq ha) ?_ fun _ h => h
  rintro b _ ⟨r, rfl, hqr, hb⟩
  exact ⟨r, rfl, IsTrans.trans _ _ _ hpq hqr, hb⟩

theorem pure {a : α} (h : post a p) : p.Completes env (Pure.pure a) post :=
  Runs.pure ⟨p, rfl, Std.Refl.refl p, h⟩

end Completes

/-- A step that is done where it stands does not fail. -/
theorem completes_of_done (h : p.Walks env m post) (hdone : ∃ a t, m env p.state = (.done a, t)) :
    p.Completes env m post := by
  obtain ⟨a, t, hrun⟩ := hdone
  unfold Walks Yields Runs at h
  rw [hrun] at h
  exact Runs.of_done hrun h

theorem completes_ignoring {m : Lower Unit} (h : p.Walks env m fun _ _ => True) :
    p.Completes env (ignoring m) fun _ _ => True :=
  Runs.ignoring (Runs.imp h (fun _ _ ⟨q, hq, hpq, _⟩ => ⟨q, hq, hpq, trivial⟩)
    fun _ ⟨q, hq, hpq⟩ => ⟨q, hq, hpq, trivial⟩)

theorem Continues.target (hpq : p.Continues q) (h : p.Target b) : q.Target b := h.mono hpq.ext

/-! ### From sites to places -/

/-- A later site of the same function, with the same context, is a place. -/
def lift (p : Place) (x : Site) (hid : x.id = p.id)
    (hext : p.function.Extends p.parents x.function x.parents)
    (hcontext : x.state.context = p.state.context) : Place where
  toSite := x
  func := by
    have hfunc : x.state.func = p.state.func := congrArg Context.func hcontext
    rw [hfunc, hid]
    exact p.func
  inside := by
    have hlocals : x.state.scopes.locals.map Frame.vars = p.state.scopes.locals.map Frame.vars :=
      congrArg Context.locals hcontext
    intro hnil
    rw [hnil] at hlocals
    exact p.inside (List.map_eq_nil_iff.1 hlocals.symm)
  loops t ht := by
    have hloops : x.state.loops = p.state.loops := congrArg Context.loops hcontext
    rw [hloops] at ht
    exact (p.loops t ht).imp (·.mono hext) (·.mono hext)
  pending l hl := by
    have hpending : x.state.pending = p.state.pending := congrArg Context.pending hcontext
    rw [hpending] at hl
    exact (p.pending l hl).mono hext
  labels l hl := by
    have hlabels : x.state.scopes.labels = p.state.scopes.labels :=
      congrArg Context.labels hcontext
    rw [hlabels] at hl
    exact (p.labels l hl).mono hext

theorem continues_lift {x : Site} (hid : x.id = p.id)
    (hext : p.function.Extends p.parents x.function x.parents)
    (hcontext : x.state.context = p.state.context) :
    p.Continues (p.lift x hid hext hcontext) where
  id := hid
  ext := hext
  func := congrArg Context.func hcontext
  loops := congrArg Context.loops hcontext
  depth := by
    have hlocals := congrArg (fun c : Context => c.locals.length) hcontext
    simp only [State.context, List.length_map] at hlocals
    exact hlocals

/-- What writes the code of an expression at a site does so at a place. -/
theorem inserts_of_writes {post : α → Site → Prop} (h : p.toSite.Writes env m post) :
    p.Inserts env m fun a q => post a q.toSite := by
  refine Runs.imp h ?_ ?_
  · rintro a _ ⟨y, rfl, hy, ha⟩
    exact ⟨p.lift y hy.id hy.grows.toExtends hy.context, rfl, ⟨continues_lift _ _ _, hy.spans⟩, ha⟩
  · rintro _ ⟨y, rfl, hy⟩
    exact ⟨p.lift y hy.id hy.grows.toExtends hy.context, rfl, continues_lift _ _ _, hy.spans⟩

theorem inserts_of_reads {post : α → Site → Prop} (h : p.toSite.Reads env m post) :
    p.Inserts env m fun a q => post a q.toSite := inserts_of_writes h.writes

theorem inserts_report (kind : DiagnosticKind) (line : Nat) :
    p.Inserts env (report kind line) fun _ _ => True := inserts_of_reads (Site.reads_report kind line)

theorem inserts_failWith {kind : DiagnosticKind} {line : Nat} :
    p.Inserts env (failWith kind line : Lower α) post :=
  (inserts_report kind line).bind fun _ _ _ _ => .fail

theorem walks_of_writes {post : α → Site → Prop} (h : p.toSite.Writes env m post) :
    p.Walks env m fun a q => post a q.toSite := (inserts_of_writes h).walks

theorem walks_of_reads {post : α → Site → Prop} (h : p.toSite.Reads env m post) :
    p.Walks env m fun a q => post a q.toSite := (inserts_of_reads h).walks

theorem walks_report (kind : DiagnosticKind) (line : Nat) :
    p.Walks env (report kind line) fun _ _ => True := (inserts_report kind line).walks

theorem walks_failWith {kind : DiagnosticKind} {line : Nat} :
    p.Walks env (failWith kind line : Lower α) post := inserts_failWith.walks

/-! ### Blocks and terminators -/

/-- A new block; what is known at the cursor stays known there. -/
theorem walks_newBlock : p.Walks env (emit line Build.newBlock) fun b q =>
    q.Target b ∧ ∀ v, p.Knows v → q.Knows v := by
  obtain ⟨b, y, hrun, hy, -, hblank, -⟩ := Site.exists_newBlock env line p.toSite
  exact Runs.of_done hrun ⟨p.lift y hy.id hy.grows.toExtends hy.context, rfl,
    continues_lift _ _ _, ⟨hblank.has, hblank.parent, hblank.not_entry⟩, fun _ hv => hv.mono hy⟩

/-- A new block in front of another one, which is not the entry. -/
theorem walks_newBlockBefore {anchor : BlockId} (hanchor : p.Target anchor) :
    p.Walks env (emit line (Build.newBlockBefore anchor)) fun b q =>
      q.Target b ∧ ∀ v, p.Knows v → q.Knows v := by
  obtain ⟨e, he, -⟩ := p.wellFormed.entry
  have hne : p.function.layout ≠ [] := fun hnil => by simp [ Function.entry?, hnil] at he
  have hhead : (insertBefore p.function.nextBlock anchor p.function.layout).head? =
      p.function.layout.head? := head?_insertBefore hne hanchor.not_entry
  let f := p.function.addBlock (insertBefore p.function.nextBlock anchor p.function.layout)
  have hext : p.function.Extends p.parents f p.parents := Function.extends_addBlock hhead
  let y := p.write f p.parents p.state.builder.block hext
    (p.wellFormed.addBlock hhead (insertBefore_perm _ _ _))
    fun c hc => Function.has_addBlock.2 (.inl (p.has_cursor c hc))
  have hnew := p.function.not_has_nextBlock
  refine Runs.of_done (emit_of_ok (Build.newBlockBefore_eq p.builds anchor))
    ⟨p.lift y rfl hext rfl, rfl, continues_lift _ _ _, ⟨Function.has_addBlock.2 (.inr rfl),
      p.wellFormed.parent_of_not_has hnew, fun heq => hnew ?_⟩, fun v hv i hi => ?_⟩
  · exact p.wellFormed.has_entry (hext.entry.symm.trans heq)
  · rcases hv i hi with hslot | ⟨c, hc, hknown⟩
    · exact .inl (hext.isSlot hslot)
    · obtain ⟨hcur, hopen⟩ := Site.openBlock_eq_some_iff.1 hc
      exact .inr ⟨c, Site.openBlock_eq_some_iff.2 ⟨hcur, Function.termAt_addBlock.trans hopen⟩,
        hext.known p.wellFormed (Site.has_openBlock hc) hknown⟩

/-- Control is sent to targets. -/
theorem walks_terminate {t : Terminator} (hoperands : ∀ v ∈ t.operands, p.Knows v)
    (htargets : ∀ b ∈ t.successors, p.Target b) :
    p.Walks env (emit line (Build.terminate t)) fun _ _ => True := by
  obtain ⟨c, y, hrun, hcloses, hext, -⟩ := Site.exists_terminate env line p.toSite hoperands
    fun b hb => ⟨(htargets b hb).has, p.wellFormed.noPhi (htargets b hb).parent, fun d hd => by
      simp [(htargets b hb).parent] at hd⟩
  exact Runs.of_done hrun ⟨p.lift y hcloses.id hext hcloses.context, rfl, continues_lift _ _ _,
    trivial⟩

theorem walks_goto (hb : p.Target b) : p.Walks env (emit line (Build.goto b)) fun _ _ => True :=
  walks_terminate (by simp [Terminator.operands]) (by simpa [Terminator.successors] using hb)

theorem walks_branch {yes no : BlockId} (hv : p.Knows v) (hyes : p.Target yes)
    (hno : p.Target no) : p.Walks env (emit line (Build.branch v yes no)) fun _ _ => True :=
  walks_terminate (by simpa [Terminator.operands] using hv)
    (by simpa [Terminator.successors] using ⟨hyes, hno⟩)

theorem walks_setBlock (hb : p.function.Has b) :
    p.Walks env (setBlock b) fun _ _ => True :=
  Runs.of_done rfl ⟨p.lift (p.moveTo b hb) rfl (.refl _ _) rfl, rfl, continues_lift _ _ _, trivial⟩

theorem walks_fallThrough (hb : p.Target b) : p.Walks env (fallThrough b line) fun _ _ => True := by
  refine .bind_read ?_
  split
  · exact walks_goto hb
  · exact .pure trivial

/-! ### Changes of the state

Where the function and the cursor stay as they are, a state is a place if all that it holds is known
there. -/

/-- A place with the same code. -/
def amend (p : Place) (s : State) (hbuilds : s.builder.Builds p.id p.function)
    (hblock : s.builder.block = p.state.builder.block) (hfunc : s.func = p.state.func)
    (hinside : s.scopes.locals ≠ [])
    (hnames : ∀ b, s.context.Visible b → p.function.KnownAnywhere b.addr)
    (hloops : ∀ t ∈ s.loops, p.Target t.brk ∧ p.Target t.cont)
    (hpending : ∀ l ∈ s.pending, p.Target l.block)
    (hlabels : ∀ l ∈ s.scopes.labels, p.Target l.2) : Place where
  state := s
  id := p.id
  function := p.function
  parents := p.parents
  builds := hbuilds
  wellFormed := p.wellFormed
  has_cursor c hc := p.has_cursor c (hblock ▸ hc)
  names := hnames
  func := by
    rw [hfunc]
    exact p.func
  inside := hinside
  loops := hloops
  pending := hpending
  labels := hlabels

theorem inside_of_depth {s : State} (hdepth : s.scopes.locals.length = p.state.scopes.locals.length) :
    s.scopes.locals ≠ [] := by
  intro hnil
  rw [hnil] at hdepth
  exact p.inside (List.eq_nil_of_length_eq_zero hdepth.symm)

/-- Where the code and the cursor are the same, nothing was added. -/
theorem spans_amend {s : State} {hbuilds hblock hfunc hinside hnames hloops hpending hlabels} :
    p.toSite.Spans (p.amend s hbuilds hblock hfunc hinside hnames hloops hpending hlabels).toSite := by
  refine ⟨rfl, .refl _ _ _, Site.moves_of_eq hblock ?_⟩
  show p.function.openAt s.builder.block = p.function.openAt p.state.builder.block
  rw [hblock]

/-- Other names and labels, at the same depth. -/
theorem inserts_updateScopes {f : ScopeStack → ScopeStack}
    (hdepth : (f p.state.scopes).locals.length = p.state.scopes.locals.length)
    (hnames : ∀ b, { p.state with scopes := f p.state.scopes }.context.Visible b →
      p.function.KnownAnywhere b.addr)
    (hlabels : ∀ l ∈ (f p.state.scopes).labels, p.Target l.2) :
    p.Inserts env (updateScopes f) fun _ _ => True :=
  Runs.of_done rfl ⟨p.amend { p.state with scopes := f p.state.scopes } p.builds rfl rfl
    (inside_of_depth hdepth) hnames p.loops p.pending hlabels, rfl,
    ⟨⟨rfl, .refl _ _, rfl, rfl, hdepth⟩, spans_amend⟩, trivial⟩

/-- Other pending labels. -/
theorem walks_updatePending {f : List PendingLabel → List PendingLabel}
    (h : ∀ l ∈ f p.state.pending, p.Target l.block) :
    p.Walks env (update fun s => { s with pending := f s.pending }) fun _ _ => True :=
  Runs.of_done rfl ⟨p.amend { p.state with pending := f p.state.pending } p.builds rfl rfl
    p.inside p.names p.loops h p.labels, rfl, ⟨rfl, .refl _ _, rfl, rfl, rfl⟩, trivial⟩

/-- A function more; those that are there keep their positions. -/
theorem inserts_addFunction (name : String) (sig : Signature) (linkage : Linkage) :
    p.Inserts env (withBuilder (·.declareFunction name sig linkage)) fun _ _ => True := by
  have hfunction : (p.state.builder.mod.functions.push { name, sig, linkage })[p.id.index]? =
      some p.function := by
    have hold : p.state.builder.mod.functions[p.id.index]? = some p.function := p.builds.2
    rw [Array.getElem?_push, if_neg, hold]
    rintro heq
    rw [heq, Array.getElem?_eq_none (Nat.le_refl _)] at hold
    exact absurd hold (by simp)
  exact Runs.of_done rfl ⟨p.amend { p.state with
      builder := (p.state.builder.declareFunction name sig linkage).2 } ⟨p.builds.1, hfunction⟩
    rfl rfl p.inside p.names p.loops p.pending p.labels, rfl,
    ⟨⟨rfl, .refl _ _, rfl, rfl, rfl⟩, spans_amend⟩, trivial⟩

/-! ### Names -/

theorem knownAnywhere_mono (hpq : p.Continues q) (h : p.function.KnownAnywhere v) :
    q.function.KnownAnywhere v := fun y hy => hpq.ext.isSlot (h y hy)

theorem knownAnywhere_const (f : Function) (c : Constant) : f.KnownAnywhere (.const c) :=
  fun _ hy => nomatch hy

/-- A name is declared in the innermost frame. -/
theorem visible_defineVar {s : State} {name : String} {b b' : Binding}
    (h : { s with scopes := s.scopes.defineVar name b }.context.Visible b') :
    b' = b ∨ s.context.Visible b' := by
  obtain ⟨names, hnames, n, hn⟩ := h
  cases hl : s.scopes.locals with
  | nil =>
    simp only [State.context, ScopeStack.defineVar, ScopeStack.modifyTop, hl, List.map_nil,
      List.mem_singleton] at hnames
    subst hnames
    rcases List.mem_cons.1 hn with heq | hn
    · exact .inl (Prod.mk.inj heq).2
    · exact .inr ⟨_, List.mem_cons_self, n, hn⟩
  | cons top below =>
    simp only [State.context, ScopeStack.defineVar, ScopeStack.modifyTop, hl, List.map_cons,
      List.mem_cons] at hnames
    rcases hnames with rfl | rfl | hnames
    · exact .inr ⟨_, List.mem_cons_self, n, hn⟩
    · rcases List.mem_cons.1 hn with heq | hn
      · exact .inl (Prod.mk.inj heq).2
      · exact .inr ⟨top.vars, by simp [State.context, hl], n, hn⟩
    · exact .inr ⟨names, by simp [State.context, hl, hnames], n, hn⟩

theorem visible_defineGlobalVar {s : State} {name : String} {b b' : Binding}
    (h : { s with scopes := s.scopes.defineGlobalVar name b }.context.Visible b') :
    b' = b ∨ s.context.Visible b' := by
  obtain ⟨names, hnames, n, hn⟩ := h
  rcases List.mem_cons.1 hnames with rfl | hnames
  · rcases List.mem_cons.1 hn with heq | hn
    · exact .inl (Prod.mk.inj heq).2
    · exact .inr ⟨_, List.mem_cons_self, n, hn⟩
  · exact .inr ⟨names, List.mem_cons_of_mem _ hnames, n, hn⟩

theorem length_locals_modifyTop (s : ScopeStack) (change : Frame → Frame) :
    (s.modifyTop change).locals.length = s.locals.length := by
  cases hl : s.locals <;> simp [ScopeStack.modifyTop, hl]

theorem inserts_defineVar {name : String} {b : Binding} (hb : p.function.KnownAnywhere b.addr) :
    p.Inserts env (updateScopes (·.defineVar name b)) fun _ _ => True := by
  refine inserts_updateScopes (length_locals_modifyTop _ _) (fun b' hb' => ?_) ?_
  · rcases visible_defineVar hb' with rfl | hold
    · exact hb
    · exact p.names b' hold
  · rw [ScopeStack.defineVar, ScopeStack.labels_modifyTop]
    exact p.labels

theorem inserts_defineGlobalVar {name : String} {b : Binding}
    (hb : p.function.KnownAnywhere b.addr) :
    p.Inserts env (updateScopes (·.defineGlobalVar name b)) fun _ _ => True := by
  refine inserts_updateScopes rfl (fun b' hb' => ?_) p.labels
  rcases visible_defineGlobalVar hb' with rfl | hold
  · exact hb
  · exact p.names b' hold

theorem walks_defineType (name : String) (ty : Ty) :
    p.Walks env (updateScopes (·.defineType name ty)) fun _ _ => True := by
  have hcontext : { p.state with scopes := p.state.scopes.defineType name ty }.context =
      p.state.context := by
    cases hl : p.state.scopes.locals <;>
      simp [State.context, ScopeStack.defineType, ScopeStack.modifyTop, hl]
  exact walks_of_reads (Site.reads_of_same (Q := fun _ => True)
    (Runs.of_done (t := { p.state with scopes := p.state.scopes.defineType name ty }) rfl
      ⟨⟨rfl, rfl, rfl, hcontext⟩, trivial⟩))

/-! ### Scopes -/

/-- Two places in the same code, at the same block. -/
structure Alike (p q : Place) : Prop where
  id : q.id = p.id
  function : q.function = p.function
  parents : q.parents = p.parents
  block : q.state.builder.block = p.state.builder.block
  diags : q.state.diags = p.state.diags

/-- A scope can be opened at a place; wherever a way from there leads, it can be closed again. -/
theorem exists_openLocal (p : Place) : ∃ q : Place, p.state.scopes.openLocal = .ok q.state.scopes ∧
    q.state = { p.state with scopes := q.state.scopes } ∧ p.Alike q ∧
    ∀ r, q.Continues r → ∃ p' : Place, r.state.scopes.closeLocal = .ok p'.state.scopes ∧
      p'.state = { r.state with scopes := p'.state.scopes } ∧ r.Alike p' ∧ p.Continues p' := by
  obtain ⟨top, below, hl⟩ := List.exists_cons_of_ne_nil p.inside
  have hopen : p.state.scopes.openLocal =
      .ok { p.state.scopes with locals := top :: top :: below } := by
    simp [ScopeStack.openLocal, hl]
  let q := p.amend
    { p.state with scopes := { p.state.scopes with locals := top :: top :: below } } p.builds rfl
    rfl (by simp) (by
      rintro b ⟨names, hnames, hb⟩
      exact p.names b ⟨names, by simpa [State.context, hl] using hnames, hb⟩) p.loops p.pending
    p.labels
  refine ⟨q, hopen, rfl, ⟨rfl, rfl, rfl, rfl, rfl⟩, fun r hr => ?_⟩
  -- The scope that was opened is still the innermost one.
  have hdepth : r.state.scopes.locals.length = below.length + 2 := hr.depth
  obtain ⟨a, b, rest, hlocals⟩ : ∃ a b rest, r.state.scopes.locals = a :: b :: rest := by
    rcases hrl : r.state.scopes.locals with _ | ⟨a, _ | ⟨b, rest⟩⟩
    · simp [hrl] at hdepth
    · simp [hrl] at hdepth
    · exact ⟨a, b, rest, rfl⟩
  have hclose : r.state.scopes.closeLocal = .ok { r.state.scopes with locals := b :: rest } := by
    simp [ScopeStack.closeLocal, hlocals]
  refine ⟨r.amend { r.state with scopes := { r.state.scopes with locals := b :: rest } } r.builds rfl
    rfl (by simp) ?_ r.loops r.pending r.labels, hclose, rfl, ⟨rfl, rfl, rfl, rfl, rfl⟩,
    ⟨hr.id, hr.ext, hr.func, hr.loops, ?_⟩⟩
  · rintro v ⟨names, hnames, hv⟩
    refine r.names v ⟨names, ?_, hv⟩
    simp only [State.context, List.map_cons, List.mem_cons] at hnames
    simp only [State.context, hlocals, List.map_cons, List.mem_cons]
    exact hnames.imp_right .inr
  · simp only [hlocals, List.length_cons] at hdepth
    show (b :: rest).length = p.state.scopes.locals.length
    simp only [hl, List.length_cons]
    omega

/-- A step runs in a scope of its own, which is closed again whatever becomes of the step. -/
theorem runs_localScope {q : Place} {done : α → State → Prop} {failed : State → Prop}
    (hopen : p.state.scopes.openLocal = .ok q.state.scopes)
    (hq : q.state = { p.state with scopes := q.state.scopes })
    (h : Runs m env q.state
      (fun a t => ∃ scopes, t.scopes.closeLocal = .ok scopes ∧ done a { t with scopes })
      fun t => ∃ scopes, t.scopes.closeLocal = .ok scopes ∧ failed { t with scopes }) :
    Runs (localScope m) env p.state done failed :=
  Runs.localScope hopen (hq ▸ h)

theorem walks_localScope (h : ∀ q : Place, q.Walks env m fun _ _ => True) :
    p.Walks env (localScope m) fun _ _ => True := by
  obtain ⟨q, hopen, hq, -, hclose⟩ := p.exists_openLocal
  refine runs_localScope hopen hq (Runs.imp (h q) ?_ ?_)
  · rintro _ _ ⟨r, rfl, hr, -⟩
    obtain ⟨p', hscopes, hp', -, hpp'⟩ := hclose r hr
    exact ⟨_, hscopes, p', hp', hpp', trivial⟩
  · rintro _ ⟨r, rfl, hr⟩
    obtain ⟨p', hscopes, hp', -, hpp'⟩ := hclose r hr
    exact ⟨_, hscopes, p', hp', hpp'⟩

theorem walks_inNamespace (name : String) (h : ∀ q : Place, q.Walks env m fun _ _ => True) :
    p.Walks env (inNamespace name m) fun _ _ => True := by
  let q := p.amend { p.state with scopes := p.state.scopes.pushNamespace name } p.builds rfl rfl
    p.inside p.names p.loops p.pending p.labels
  have hpop : ∀ r : Place, q.Continues r → ∃ p', p'.state =
      { r.state with scopes := r.state.scopes.popNamespace name } ∧ p.Continues p' :=
    fun r hr => ⟨r.amend { r.state with scopes := r.state.scopes.popNamespace name } r.builds rfl
      rfl r.inside r.names r.loops r.pending r.labels, rfl,
      hr.id, hr.ext, hr.func, hr.loops, hr.depth⟩
  refine Runs.inNamespace (Runs.imp (h q) ?_ ?_)
  · rintro _ _ ⟨r, rfl, hr, -⟩
    obtain ⟨p', hp', hpp'⟩ := hpop r hr
    exact ⟨p', hp', hpp', trivial⟩
  · rintro _ ⟨r, rfl, hr⟩
    exact hpop r hr

end Place

end Lower

end TreeFlow
