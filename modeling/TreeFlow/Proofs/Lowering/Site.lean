import TreeFlow.Lower.Value
import TreeFlow.Proofs.Graph.Cursor
import TreeFlow.Proofs.Graph.WellFormed
import TreeFlow.Proofs.Lowering.Basic
import TreeFlow.Proofs.Scope.Frames

/-!
# Sites in a function

A site is a state of lowering inside of a function, with the graph of that function and the parents
of its blocks. The graph is well-formed, and every name that can be seen stands for an address that is
known everywhere in it.

The code of an expression leads from a site to another one (`Site.Reaches`). If the block at the cursor
was open, code is written to that block and to new ones below it, and an open block is at the cursor
again. If there was no open block, either nothing was emitted or a new block is at the cursor. What is
known at a site is known at each site that it reaches (`Site.Knows.mono`).
-/

namespace TreeFlow

/-- An operand is known everywhere in a function. -/
def Function.KnownAnywhere (f : Function) (v : Operand) : Prop := ∀ y, v = .inst y → f.IsSlot y

namespace Lower

/-! ### What a place in the tree determines -/

/-- The part of a state that the code of an expression never changes. -/
structure Context where
  lvalue : Bool
  loops : List LoopTargets
  func : Option OpenFunction
  pending : List PendingLabel
  startup : Option Startup
  labels : Names BlockId
  path : NamespacePath
  globals : Names Binding
  locals : List (Names Binding)

/-- The context of a state. -/
def State.context (s : State) : Context where
  lvalue := s.lvalue
  loops := s.loops
  func := s.func
  pending := s.pending
  startup := s.startup
  labels := s.scopes.labels
  path := s.scopes.path
  globals := s.scopes.global.vars
  locals := s.scopes.locals.map Frame.vars

/-- A name stands for something. -/
def Context.Visible (c : Context) (b : Binding) : Prop :=
  ∃ names ∈ c.globals :: c.locals, ∃ name, (name, b) ∈ names

theorem visible_of_globalVar? {s : State} {name : String} {b : Binding}
    (h : s.scopes.globalVar? name = some b) : s.context.Visible b :=
  ⟨_, List.mem_cons_self, name, mem_of_lookup h⟩

theorem visible_of_var? {s : State} {name : String} {b : Binding}
    (h : s.scopes.var? name = some b) : s.context.Visible b := by
  obtain ⟨frame, hframe, full, hmem⟩ := ScopeStack.exists_of_find? h
  refine ⟨frame.vars, ?_, full, hmem⟩
  rcases List.mem_cons.1 hframe with rfl | hlocal
  · exact List.mem_cons_self
  · exact List.mem_cons_of_mem _ (List.mem_map_of_mem hlocal)

/-- A state from which no code was written and no name declared. -/
structure State.Same (s t : State) : Prop where
  functions : t.builder.mod.functions = s.builder.mod.functions
  func : t.builder.func = s.builder.func
  block : t.builder.block = s.builder.block
  context : t.context = s.context

namespace State.Same

variable {s t : State}

theorem refl (s : State) : s.Same s := ⟨rfl, rfl, rfl, rfl⟩

theorem trans {u : State} (hst : s.Same t) (htu : t.Same u) : s.Same u :=
  ⟨htu.functions.trans hst.functions, htu.func.trans hst.func, htu.block.trans hst.block,
    htu.context.trans hst.context⟩

theorem builds {id : FuncId} {f : Function} (h : s.Same t) (hb : s.builder.Builds id f) :
    t.builder.Builds id f :=
  ⟨h.func.trans hb.1, by rw [Module.function?, h.functions]; exact hb.2⟩

end State.Same

/-! ### Sites -/

/-- A state inside of a function. -/
structure Site where
  state : State
  id : FuncId
  function : Function
  parents : Parents
  builds : state.builder.Builds id function
  wellFormed : function.WellFormed parents
  has_cursor : ∀ c, state.builder.block = some c → function.Has c
  names : ∀ b, state.context.Visible b → function.KnownAnywhere b.addr

namespace Site

variable {x y z : Site} {w : Option BlockId} {v : Operand}

/-- The block at the cursor, if it is open. -/
def openBlock (x : Site) : Option BlockId := x.function.openAt x.state.builder.block

theorem openBlock_eq_some_iff {c : BlockId} :
    x.openBlock = some c ↔ x.state.builder.block = some c ∧ x.function.termAt c = none :=
  Function.openAt_eq_some_iff

theorem has_openBlock {c : BlockId} (h : x.openBlock = some c) : x.function.Has c :=
  x.has_cursor c (openBlock_eq_some_iff.1 h).1

/-- The same site, except for what no code depends on. -/
def restate (x : Site) (s : State) (h : x.state.Same s) : Site where
  state := s
  id := x.id
  function := x.function
  parents := x.parents
  builds := h.builds x.builds
  wellFormed := x.wellFormed
  has_cursor c hc := x.has_cursor c (h.block ▸ hc)
  names b hb := x.names b (h.context ▸ hb)

/-- The site at another block. -/
def moveTo (x : Site) (c : BlockId) (h : x.function.Has c) : Site where
  state := { x.state with builder := x.state.builder.setBlock c }
  id := x.id
  function := x.function
  parents := x.parents
  builds := x.builds
  wellFormed := x.wellFormed
  has_cursor _ hd := Option.some.inj hd ▸ h
  names := x.names

/-- The site after the function has been written to. -/
def write (x : Site) (f : Function) (P : Parents) (cur : Option BlockId)
    (hext : x.function.Extends x.parents f P) (hf : f.WellFormed P)
    (hcur : ∀ c, cur = some c → f.Has c) : Site where
  state := { x.state with builder := x.state.builder.write x.id f cur }
  id := x.id
  function := f
  parents := P
  builds := x.builds.write
  wellFormed := hf
  has_cursor := hcur
  names b hb y hy := hext.isSlot (x.names b hb y hy)

/-! ### From site to site -/

/-- No code was written. -/
structure Keeps (x y : Site) : Prop where
  same : x.state.Same y.state
  id : y.id = x.id
  function : y.function = x.function
  parents : y.parents = x.parents

instance : Std.Refl Keeps := ⟨fun x => ⟨.refl x.state, rfl, rfl, rfl⟩⟩

instance : IsTrans Site Keeps :=
  ⟨fun _ _ _ hxy hyz => ⟨hxy.same.trans hyz.same, hyz.id.trans hxy.id,
    hyz.function.trans hxy.function, hyz.parents.trans hxy.parents⟩⟩

theorem keeps_restate {s : State} (h : x.state.Same s) : x.Keeps (x.restate s h) :=
  ⟨h, rfl, rfl, rfl⟩

/-- Code was written to new blocks only, and to the block `w` if there is one. -/
structure Grown (w : Option BlockId) (x y : Site) : Prop where
  id : y.id = x.id
  context : y.state.context = x.state.context
  functions : y.state.builder.mod.functions =
    x.state.builder.mod.functions.modify x.id.index fun _ => y.function
  grows : Function.Grows w x.function x.parents y.function y.parents

theorem Grown.refl (w : Option BlockId) (x : Site) : Grown w x x :=
  ⟨rfl, rfl, (replace_self x.builds.2).symm, .refl w _ _⟩

theorem Grown.trans {w' : Option BlockId} (hxy : Grown w x y) (hyz : Grown w' y z)
    (hw : ∀ b, w' = some b → x.function.Has b → w = some b) : Grown w x z where
  id := hyz.id.trans hxy.id
  context := hyz.context.trans hxy.context
  functions := by rw [hyz.functions, hxy.functions, hxy.id, replace_replace]
  grows := hxy.grows.trans hyz.grows hw

theorem Keeps.grown (h : x.Keeps y) (w : Option BlockId) : Grown w x y where
  id := h.id
  context := h.same.context
  functions := by rw [h.same.functions, h.function, replace_self x.builds.2]
  grows := by rw [h.function, h.parents]; exact .refl w _ _

/-- Where the cursor gets to while the code of an expression is written. -/
def Moves (x y : Site) : Prop :=
  match x.openBlock with
  | some c => ∃ d, y.openBlock = some d ∧ (d = c ∨ ¬ x.function.Has d) ∧ y.parents.Below c d
  | none => y.state.builder.block = x.state.builder.block ∨
      ∃ d, y.openBlock = some d ∧ ¬ x.function.Has d

/-- The code of an expression leads from one site to another one. -/
structure Reaches (x y : Site) : Prop extends Grown x.openBlock x y where
  moves : x.Moves y

theorem moves_of_open {c d : BlockId} (hc : x.openBlock = some c) (hd : y.openBlock = some d)
    (hplace : d = c ∨ ¬ x.function.Has d) (hbelow : y.parents.Below c d) : x.Moves y := by
  rw [Moves, hc]
  exact ⟨d, hd, hplace, hbelow⟩

/-- From nowhere control only gets to new blocks. -/
theorem moves_of_new {d : BlockId} (hx : x.openBlock = none) (hd : y.openBlock = some d)
    (hnew : ¬ x.function.Has d) : x.Moves y := by
  rw [Moves, hx]
  exact .inr ⟨d, hd, hnew⟩

theorem moves_of_eq (hblock : y.state.builder.block = x.state.builder.block)
    (hopen : y.openBlock = x.openBlock) : x.Moves y := by
  cases hx : x.openBlock with
  | none =>
    rw [Moves, hx]
    exact .inl hblock
  | some c => exact moves_of_open hx (hopen.trans hx) (.inl rfl) .refl

theorem Keeps.openBlock (h : x.Keeps y) : y.openBlock = x.openBlock := by
  rw [Site.openBlock, h.function, h.same.block]
  rfl

theorem Keeps.reaches (h : x.Keeps y) : x.Reaches y where
  toGrown := h.grown _
  moves := moves_of_eq h.same.block h.openBlock

/-- Code was written from one site to another one, whatever has become of the names. -/
structure Spans (x y : Site) : Prop where
  id : y.id = x.id
  grows : Function.Grows x.openBlock x.function x.parents y.function y.parents
  moves : x.Moves y

theorem Reaches.spans (h : x.Reaches y) : x.Spans y := ⟨h.id, h.grows, h.moves⟩

namespace Spans

theorem refl (x : Site) : x.Spans x := ⟨rfl, .refl _ _ _, moves_of_eq rfl rfl⟩

/-- Once a block is open at the cursor, one always is. -/
theorem exists_open (h : x.Spans y) {c : BlockId} (hc : x.openBlock = some c) :
    ∃ d, y.openBlock = some d ∧ (d = c ∨ ¬ x.function.Has d) ∧ y.parents.Below c d := by
  have := h.moves
  rwa [Moves, hc] at this

/-- An open block at the cursor is the one from before, or new. -/
theorem place (h : x.Spans y) {d : BlockId} (hd : y.openBlock = some d)
    (hold : x.function.Has d) : x.openBlock = some d := by
  cases hx : x.openBlock with
  | some c =>
    obtain ⟨d', hd', hplace, -⟩ := h.exists_open hx
    obtain rfl : d' = d := Option.some.inj (hd'.symm.trans hd)
    rw [hplace.resolve_right (not_not_intro hold)]
  | none =>
    have hmoves := h.moves
    rw [Moves, hx] at hmoves
    rcases hmoves with hblock | ⟨d', hd', hnew⟩
    · -- The block was at the cursor before, and it was closed.
      obtain ⟨hcur, hopen⟩ := openBlock_eq_some_iff.1 hd
      rw [hblock] at hcur
      cases hterm : x.function.termAt d with
      | none => exact absurd (openBlock_eq_some_iff.2 ⟨hcur, hterm⟩) (by simp [hx])
      | some t => exact absurd (h.grows.closed d t hterm).2 (by simp [hopen])
    · obtain rfl : d' = d := Option.some.inj (hd'.symm.trans hd)
      exact absurd hold hnew

theorem trans (hxy : x.Spans y) (hyz : y.Spans z) : x.Spans z := by
  refine ⟨hyz.id.trans hxy.id, hxy.grows.trans hyz.grows fun b hb hold => hxy.place hb hold, ?_⟩
  cases hx : x.openBlock with
  | some c =>
    obtain ⟨d, hd, hplace, hbelow⟩ := hxy.exists_open hx
    obtain ⟨e, he, hplace', hbelow'⟩ := hyz.exists_open hd
    refine moves_of_open hx he ?_
      ((y.wellFormed.below_mono hyz.grows.parent (y.has_openBlock hd) hbelow).trans hbelow')
    rcases hplace' with rfl | hnew
    · exact hplace
    · exact .inr fun hold => hnew (hxy.grows.has _ hold)
  | none =>
    have hmoves := hxy.moves
    rw [Moves, hx] at hmoves
    rcases hmoves with hblock | ⟨d, hd, hnew⟩
    · have hmoves' := hyz.moves
      cases hy : y.openBlock with
      | some c =>
        obtain ⟨e, he, hplace, -⟩ := hyz.exists_open hy
        refine moves_of_new hx he fun hold => ?_
        rcases hplace with rfl | hnew
        · simp [hxy.place hy hold] at hx
        · exact hnew (hxy.grows.has _ hold)
      | none =>
        rw [Moves, hy] at hmoves'
        rw [Moves, hx]
        rcases hmoves' with hblock' | ⟨e, he, hnew⟩
        · exact .inl (hblock'.trans hblock)
        · exact .inr ⟨e, he, fun hold => hnew (hxy.grows.has _ hold)⟩
    · obtain ⟨e, he, hplace, -⟩ := hyz.exists_open hd
      refine moves_of_new hx he ?_
      rcases hplace with rfl | hnew'
      · exact hnew
      · exact fun hold => hnew' (hxy.grows.has _ hold)

end Spans

theorem Reaches.exists_open (h : x.Reaches y) {c : BlockId} (hc : x.openBlock = some c) :
    ∃ d, y.openBlock = some d ∧ (d = c ∨ ¬ x.function.Has d) ∧ y.parents.Below c d :=
  h.spans.exists_open hc

instance : Std.Refl Reaches := ⟨fun _ => ⟨.refl _ _, moves_of_eq rfl rfl⟩⟩

instance : IsTrans Site Reaches :=
  ⟨fun _ _ _ hxy hyz => ⟨hxy.toGrown.trans hyz.toGrown fun _ hb hold => hxy.spans.place hb hold,
    (hxy.spans.trans hyz.spans).moves⟩⟩

/-! ### What is known at a site -/

/-- An operand is known at the cursor. Where no block is open, only slots, constants and arguments
are. -/
def Knows (x : Site) (v : Operand) : Prop := ∀ y, v = .inst y →
  x.function.IsSlot y ∨ ∃ c, x.openBlock = some c ∧ x.function.Known x.parents c y

/-- A truth value is settled: the code that computes it stands in the block at the cursor, unless it
is known before the program runs. -/
def Settled (x : Site) (v : Operand) : Prop :=
  x.openBlock.isSome ∨ ∃ c, v = .const c ∧ c.truth?.isSome

/-- What is known of a value of some type. -/
structure Delivers (x : Site) (v : Operand) (ty : Ty) : Prop where
  knows : x.Knows v
  settled : ty = .bool → x.Settled v

/-- What is known of an expression in its natural form. -/
structure Denotes (x : Site) (v : Value) : Prop where
  knows : x.Knows v.op
  settled : v.form = .value → v.ty = .bool → x.Settled v.op

theorem knows_const (x : Site) (c : Constant) : x.Knows (.const c) := fun _ h => nomatch h

theorem knows_arg (x : Site) (i : Nat) : x.Knows (.arg i) := fun _ h => nomatch h

theorem knows_of_anywhere (h : x.function.KnownAnywhere v) : x.Knows v :=
  fun y hy => .inl (h y hy)

theorem Delivers.denotes {v : Operand} {ty : Ty} (h : x.Delivers v ty) :
    x.Denotes (.ofOperand v ty) := ⟨h.knows, fun _ => h.settled⟩

theorem denotes_inStorage {ty : Ty} (h : x.Knows v) : x.Denotes (.inStorage v ty) :=
  ⟨h, fun hform => nomatch hform⟩

theorem delivers_of_ne {ty : Ty} (h : x.Knows v) (hty : ty ≠ .bool) : x.Delivers v ty :=
  ⟨h, fun heq => absurd heq hty⟩

/-- What is known at a site is known at each site that it reaches. -/
theorem Knows.mono (hv : x.Knows v) (h : x.Reaches y) : y.Knows v := by
  intro i hi
  rcases hv i hi with hslot | ⟨c, hc, hknown⟩
  · exact .inl (h.grows.isSlot hslot)
  · obtain ⟨d, hd, -, hbelow⟩ := h.exists_open hc
    exact .inr ⟨d, hd, (h.grows.known x.wellFormed (x.has_openBlock hc) hknown).below hbelow⟩

theorem Settled.mono (hv : x.Settled v) (h : x.Reaches y) : y.Settled v := by
  rcases hv with hopen | hconst
  · obtain ⟨c, hc⟩ := Option.isSome_iff_exists.1 hopen
    obtain ⟨d, hd, -⟩ := h.exists_open hc
    exact .inl (by rw [hd]; rfl)
  · exact .inr hconst

theorem Delivers.mono {ty : Ty} (hv : x.Delivers v ty) (h : x.Reaches y) : y.Delivers v ty :=
  ⟨hv.knows.mono h, fun hty => (hv.settled hty).mono h⟩

theorem Denotes.mono {v : Value} (hv : x.Denotes v) (h : x.Reaches y) : y.Denotes v :=
  ⟨hv.knows.mono h, fun hform hty => (hv.settled hform hty).mono h⟩

/-- What is known at the cursor is known at the end of the open block there. -/
theorem Knows.knownOperand {c : BlockId} (hv : x.Knows v) (hc : x.openBlock = some c) :
    x.function.KnownOperand x.parents c v := by
  intro i hi
  rcases hv i hi with hslot | ⟨d, hd, hknown⟩
  · exact .inl hslot
  · obtain rfl : d = c := Option.some.inj (hd.symm.trans hc)
    exact hknown

theorem knows_of_knownOperand {c : BlockId} (hc : x.openBlock = some c)
    (hv : x.function.KnownOperand x.parents c v) : x.Knows v :=
  fun i hi => .inr ⟨c, hc, hv i hi⟩

/-! ### Steps at a site -/

variable {α : Type} {env : Env} {m : Lower α} {post : α → Site → Prop}

/-- A step writes the code of an expression. -/
abbrev Writes (x : Site) (env : Env) (m : Lower α) (post : α → Site → Prop) : Prop :=
  Yields state Reaches env x m post

/-- A step writes no code. -/
abbrev Reads (x : Site) (env : Env) (m : Lower α) (post : α → Site → Prop) : Prop :=
  Yields state Keeps env x m post

theorem Reads.writes (h : x.Reads env m post) : x.Writes env m post :=
  Runs.imp h (fun _ _ ⟨y, hy, hxy, ha⟩ => ⟨y, hy, hxy.reaches, ha⟩)
    fun _ ⟨y, hy, hxy⟩ => ⟨y, hy, hxy.reaches⟩

theorem reads_of_same {Q : α → Prop}
    (h : Runs m env x.state (fun a s => x.state.Same s ∧ Q a) x.state.Same) :
    x.Reads env m fun a _ => Q a :=
  .of_runs h (fun _ s ⟨hs, ha⟩ => ⟨x.restate s hs, rfl, keeps_restate hs, ha⟩)
    fun s hs => ⟨x.restate s hs, rfl, keeps_restate hs⟩

/-- The site in another mode. -/
def setLvalue (x : Site) (on : Bool) : Site where
  state := { x.state with lvalue := on }
  id := x.id
  function := x.function
  parents := x.parents
  builds := x.builds
  wellFormed := x.wellFormed
  has_cursor := x.has_cursor
  names := x.names

theorem Knows.setLvalue (h : x.Knows v) (on : Bool) : (x.setLvalue on).Knows v := h

theorem Delivers.setLvalue {ty : Ty} (h : x.Delivers v ty) (on : Bool) :
    (x.setLvalue on).Delivers v ty := ⟨h.knows.setLvalue on, h.settled⟩

theorem Denotes.setLvalue {v : Value} (h : x.Denotes v) (on : Bool) :
    (x.setLvalue on).Denotes v := ⟨h.knows.setLvalue on, h.settled⟩

theorem Reaches.setLvalue {on : Bool} (h : (x.setLvalue on).Reaches y) :
    x.Reaches (y.setLvalue x.state.lvalue) where
  id := h.id
  context := by
    show { y.state.context with lvalue := x.state.lvalue } = x.state.context
    rw [h.context]
    rfl
  functions := h.functions
  grows := h.grows
  moves := h.moves

/-- The mode is brought back behind a step, so it makes no difference to what is known there. -/
theorem Writes.withLvalue {on : Bool} {post' : α → Site → Prop}
    (h : (x.setLvalue on).Writes env m post)
    (hpost : ∀ a y, post a y → post' a (y.setLvalue x.state.lvalue)) :
    x.Writes env (Lower.withLvalue on m) post' := by
  refine Runs.withLvalue (Runs.imp h ?_ ?_)
  · rintro a _ ⟨y, rfl, hxy, ha⟩
    exact ⟨_, rfl, hxy.setLvalue, hpost a y ha⟩
  · rintro _ ⟨y, rfl, hxy⟩
    exact ⟨_, rfl, hxy.setLvalue⟩

/-- A snapshot brings back the code from before. -/
theorem Reaches.same_restore {t : State} (h : x.Reaches y) (keep : Keep)
    (hbuilder : t.builder = y.state.builder.restore x.state.builder.snapshot.1 keep)
    (hcontext : t.context = x.state.context) : x.state.Same t := by
  obtain ⟨hfunc, hfunction⟩ := x.builds
  have hsaved : x.state.builder.snapshot.1 = ⟨some x.id, x.state.builder.block, some x.function,
      x.state.builder.mod.functions.size, x.state.builder.mod.globals.size,
      x.state.builder.mod.types⟩ := by
    simp [Builder.snapshot, hfunc, Builder.function?, hfunction]
  have hsize : y.state.builder.mod.functions.size = x.state.builder.mod.functions.size := by
    rw [h.functions, Array.size_modify]
  refine ⟨?_, ?_, ?_, hcontext⟩
  · have hrestored : (y.state.builder.restore x.state.builder.snapshot.1 keep).mod.functions =
        (y.state.builder.mod.functions.take x.state.builder.mod.functions.size).modify x.id.index
          fun _ => x.function := by
      rw [hsaved]
      simp only [Builder.restore]
      split <;> split <;> rfl
    rw [hbuilder, hrestored, ← hsize, Array.take_eq_extract, Array.extract_size, h.functions,
      replace_replace, replace_self hfunction]
  · rw [hbuilder]
    show x.state.builder.snapshot.1.func = _
    rw [hsaved, hfunc]
  · rw [hbuilder]
    show x.state.builder.snapshot.1.block = _
    rw [hsaved]

theorem snapshot_snd (x : Site) : x.state.builder.snapshot.2 = x.state.builder := by
  simp [Builder.snapshot, x.builds.1]

/-- A probe leaves no code. -/
theorem Writes.probe {Q : α → Prop} (h : x.Writes env m fun a _ => Q a) :
    x.Reads env (Lower.probe m) fun a _ => Q a := by
  have hcontext : ∀ {y : Site} {b : Builder}, x.Reaches y →
      { y.state with builder := b, lvalue := x.state.lvalue }.context = x.state.context := by
    intro y b hxy
    show { y.state.context with lvalue := x.state.lvalue } = x.state.context
    rw [hxy.context]
    rfl
  refine reads_of_same (Runs.probe ?_)
  rw [x.snapshot_snd]
  refine Runs.imp h ?_ ?_
  · rintro a _ ⟨y, rfl, hxy, ha⟩
    exact ⟨hxy.same_restore .types rfl (hcontext hxy), ha⟩
  · rintro _ ⟨y, rfl, hxy⟩
    exact hxy.same_restore .types rfl (hcontext hxy)

theorem reads_report (kind : DiagnosticKind) (line : Nat) :
    x.Reads env (report kind line) fun _ _ => True :=
  reads_of_same (Q := fun _ => True) (Runs.of_done rfl ⟨⟨rfl, rfl, rfl, rfl⟩, trivial⟩)

theorem reads_failWith {kind : DiagnosticKind} {line : Nat} :
    x.Reads env (failWith kind line : Lower α) post :=
  (reads_report kind line).bind fun _ _ _ _ => .fail

theorem writes_failWith {kind : DiagnosticKind} {line : Nat} :
    x.Writes env (failWith kind line : Lower α) post := reads_failWith.writes

end Site

end Lower

end TreeFlow
