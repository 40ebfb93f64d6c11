import TreeFlow.Proofs.Graph.Typing
import TreeFlow.Proofs.Lowering.Sound
import TreeFlow.Proofs.Ty.Layers

/-!
# Values and the types of their operands

What an expression is lowered to says of its operand whether it is a value or an address (`Value.IsTyped`). An
address has the type of a pointer to the type of the value. An operand that is the value itself has that type, or
it is an integer of another type with the same width; only an aggregate that was cast to its own type may be there
by its address after all.

That rests on what is known of the state (`State.IsTyped`): names stand for addresses of the type that they are
declared with, no type has a pointer to `void` in it, and aggregates come in layers. This module says what it is
for a step to keep that up and to yield something typed (`State.Yields`), and has the steps that all others are
made of.
-/

namespace TreeFlow

/-! ### Operands of values -/

/-- One type stands for another one if it is the same, or if both are integers of one width. -/
def Ty.StandsFor (own ty : Ty) : Prop := own = ty ∨ own.isInteger = true ∧ ty.isInteger = true ∧ own.bits? = ty.bits?

namespace Ty.StandsFor

variable {a b c : Ty}

theorem refl (a : Ty) : a.StandsFor a := .inl rfl

theorem trans (hab : a.StandsFor b) (hbc : b.StandsFor c) : a.StandsFor c := by
  rcases hab with rfl | ⟨ha, hb, hbits⟩
  · exact hbc
  · rcases hbc with rfl | ⟨-, hc, hbits'⟩
    · exact .inr ⟨ha, hb, hbits⟩
    · exact .inr ⟨ha, hc, hbits.trans hbits'⟩

theorem eq (h : a.StandsFor b) (hb : b.isInteger = false) : a = b := by
  rcases h with rfl | ⟨-, hint, -⟩
  · rfl
  · rw [hb] at hint
    cases hint

end Ty.StandsFor

/-- An operand has a type that stands for the given one. -/
def Builder.Holds (b : Builder) (op : Operand) (ty : Ty) : Prop := ∃ own, b.HasTy op own ∧ own.StandsFor ty

namespace Builder.Holds

variable {b c : Builder} {op : Operand} {ty target : Ty}

theorem of_hasTy (h : b.HasTy op ty) : b.Holds op ty := ⟨ty, h, .refl ty⟩

theorem standsFor (h : b.Holds op ty) (hty : ty.StandsFor target) : b.Holds op target :=
  have ⟨own, hop, hown⟩ := h
  ⟨own, hop, hown.trans hty⟩

theorem hasTy (h : b.Holds op ty) (hty : ty.isInteger = false) : b.HasTy op ty := by
  obtain ⟨own, hop, hown⟩ := h
  exact hown.eq hty ▸ hop

end Builder.Holds

/-- An operand is passed on as one of a type: it is a value of that type, or the address of an aggregate. -/
inductive Builder.Passes (b : Builder) (op : Operand) (ty : Ty) : Prop
  | value (hop : b.Holds op ty)
  | address (haggregate : ty.isAggregate = true) (hop : b.HasTy op ty.pointerTo)

theorem Builder.Passes.holds {b : Builder} {op : Operand} {ty : Ty} (h : b.Passes op ty)
    (hty : ty.isAggregate = false) : b.Holds op ty := by
  cases h with
  | value hop => exact hop
  | address haggregate _ => rw [hty] at haggregate; cases haggregate

/-- Somewhere in the tree a conversion is written. -/
def Tree.HasCast (tree : Tree) : Prop :=
  ∃ (id : ExprId) (e : Expr) (spec : SpecId) (operand : ExprId), tree.expr? id = some e ∧ e.kind = .cast spec operand

/-- The operand of a value is what the form of the value says. -/
inductive Value.Fits (tree : Tree) (b : Builder) (v : Value) : Prop
  /-- It is the address of storage, or of a function. -/
  | address (hform : v.form ≠ .value) (hop : b.HasTy v.op v.ty.pointerTo)
  /-- It is the value itself. -/
  | value (hform : v.form = .value) (hop : b.Holds v.op v.ty)
  /-- It is called the value of an aggregate, but it is the address of one. That is what a cast of an aggregate
  to its own type comes to. -/
  | cast (htree : tree.HasCast) (hform : v.form = .value) (haggregate : v.ty.isAggregate = true)
      (hop : b.HasTy v.op v.ty.pointerTo)

/-- The type that the operand has in the function being built. -/
theorem Value.Fits.operandTy {tree : Tree} {b : Builder} {v : Value} {f : Function} (h : v.Fits tree b)
    (hf : b.function? = some f) :
    (v.form ≠ .value → f.operandTy v.op = v.ty.pointerTo) ∧
      (v.form = .value → (f.operandTy v.op).StandsFor v.ty ∨
        tree.HasCast ∧ v.ty.isAggregate = true ∧ f.operandTy v.op = v.ty.pointerTo) := by
  cases h with
  | address hform hop => exact ⟨fun _ => hop.operandTy hf, fun hvalue => absurd hvalue hform⟩
  | value hform hop =>
    obtain ⟨own, hop, hown⟩ := hop
    exact ⟨fun hother => absurd hform hother, fun _ => .inl (hop.operandTy hf ▸ hown)⟩
  | cast htree hform haggregate hop =>
    exact ⟨fun hother => absurd hform hother, fun _ => .inr ⟨htree, haggregate, hop.operandTy hf⟩⟩

/-- What an expression of a tree was lowered to, in the code of a builder. -/
structure Value.IsTyped (tree : Tree) (b : Builder) (v : Value) : Prop where
  ty : v.ty.WellFormed
  fits : v.Fits tree b

/-- A name stands for something of a type that is well formed. If its address is a constant, that is a pointer to
the type. -/
structure Binding.IsTyped (b : Binding) : Prop where
  ty : b.ty.WellFormed
  const : ∀ c, b.addr = .const c → c.ty = b.ty.pointerTo

/-- Aggregates have fields of types that are well formed, and they come in layers. -/
structure TypeTable.IsTyped (t : TypeTable) : Prop where
  fields : t.AllFields Ty.WellFormed
  layered : t.IsLayered

namespace Value.IsTyped

variable {tree : Tree} {b : Builder} {v : Value} {op : Operand} {ty : Ty}

theorem ofOperand (hty : ty.WellFormed) (hop : b.Holds op ty) : (Value.ofOperand op ty).IsTyped tree b :=
  ⟨hty, .value rfl hop⟩

theorem ofConstant {k : Constant} (hty : k.ty.WellFormed) : (Value.ofConstant k).IsTyped tree b :=
  ofOperand hty (.of_hasTy (.const rfl))

theorem nothing : Value.nothing.IsTyped tree b := ofConstant .void

theorem inStorage (hty : ty.WellFormed) (hop : b.HasTy op ty.pointerTo) : (Value.inStorage op ty).IsTyped tree b :=
  ⟨hty, .address nofun hop⟩

theorem ofFunction (hty : ty.WellFormed) (hop : b.HasTy op ty.pointerTo) : (Value.ofFunction op ty).IsTyped tree b :=
  ⟨hty, .address nofun hop⟩

/-- Storage and functions are there by their address. -/
theorem address (h : v.IsTyped tree b) (hform : v.form ≠ .value) : b.HasTy v.op v.ty.pointerTo := by
  cases h.fits with
  | address _ hop => exact hop
  | value hvalue _ => exact absurd hvalue hform
  | cast _ hvalue _ _ => exact absurd hvalue hform

theorem storage (h : v.IsTyped tree b) (hstorage : v.isStorage = true) : b.HasTy v.op v.ty.pointerTo :=
  h.address (by rw [eq_of_beq hstorage]; nofun)

/-- A value that is no aggregate is there itself. -/
theorem holds (h : v.IsTyped tree b) (hform : v.form = .value) (hty : v.ty.isAggregate = false) : b.Holds v.op v.ty := by
  cases h.fits with
  | address haddress _ => exact absurd hform haddress
  | value _ hop => exact hop
  | cast _ _ haggregate _ => rw [hty] at haggregate; cases haggregate

/-- What was computed before a value does not matter. -/
theorem behind (h : v.IsTyped tree b) (effects : List Operand) : Value.IsTyped tree b { v with effects } where
  ty := h.ty
  fits := match h.fits with
    | .address hform hop => .address hform hop
    | .value hform hop => .value hform hop
    | .cast htree hform haggregate hop => .cast htree hform haggregate hop

/-- What a conversion passes on is a value of its target where conversions are written. -/
theorem ofPasses (htree : tree.HasCast) (hty : ty.WellFormed) (h : b.Passes op ty) :
    (Value.ofOperand op ty).IsTyped tree b where
  ty := hty
  fits := match h with
    | .value hop => .value rfl hop
    | .address haggregate hop => .cast htree rfl haggregate hop

end Value.IsTyped

namespace Lower

variable {α β : Type}

/-! ### States -/

/-- What is known of a state where values are typed. -/
structure State.IsTyped (s : State) : Prop extends s.IsRooted where
  names : s.scopes.All Ty.WellFormed Binding.IsTyped
  types : s.builder.mod.types.IsTyped

theorem State.isTyped_initial (config : Config) : (State.initial config).IsTyped where
  toIsRooted := isRooted_initial config
  names := .empty
  types := ⟨fun d hd => by simp [State.initial, Builder.ofName] at hd, TypeTable.isLayered_empty⟩

namespace State.IsTyped

variable {s t : State}

/-- An expression that keeps aggregates in order keeps all in order. -/
theorem of_peeks (h : s.IsTyped) (hst : s.Peeks t) (htypes : t.builder.mod.types.IsTyped) : t.IsTyped where
  toIsRooted := h.toIsRooted.of_retains hst.retains
  names := by
    obtain ⟨structs, unions, hscopes⟩ := hst.scopes
    rw [hscopes]
    exact h.names.bindTags structs unions
  types := htypes

theorem snapshot (h : s.IsTyped) : State.IsTyped { s with builder := s.builder.snapshot.2 } where
  toIsRooted := h.toIsRooted.snapshot
  names := h.names
  types := by
    rw [Builder.types_snapshot]
    exact h.types

/-- What a variable or function stands for is at an address of its type. -/
theorem hasTy_of_binding (h : s.IsTyped) {b : Binding} (hb : b.IsTyped)
    (hanchored : b.Anchored s.builder.mod (s.func.map OpenFunction.id) none) :
    s.builder.HasTy b.addr b.ty.pointerTo := by
  cases hanchored with
  | global haddr => exact haddr ▸ .const (hb.const _ haddr)
  | function haddr => exact haddr ▸ .const (hb.const _ haddr)
  | slot haddr hhere hf hx =>
    obtain ⟨o, ho, rfl⟩ := Option.map_eq_some_iff.1 hhere
    exact haddr ▸ .inst (by simp [Builder.function?, h.building o ho, hf]) hx rfl

end State.IsTyped

theorem State.Peeks.hasTy {s t : State} {op : Operand} {ty : Ty} (h : s.Peeks t) (hop : s.builder.HasTy op ty) :
    t.builder.HasTy op ty := hop.of_growsAt h.building h.mod

theorem State.Peeks.holds {s t : State} {op : Operand} {ty : Ty} (h : s.Peeks t) (hop : s.builder.Holds op ty) :
    t.builder.Holds op ty :=
  have ⟨own, hown, hty⟩ := hop
  ⟨own, h.hasTy hown, hty⟩

/-- A value stays what it is. -/
theorem State.Peeks.isTyped {tree : Tree} {s t : State} {v : Value} (h : s.Peeks t) (hv : v.IsTyped tree s.builder) :
    v.IsTyped tree t.builder where
  ty := hv.ty
  fits := match hv.fits with
    | .address hform hop => .address hform (h.hasTy hop)
    | .value hform hop => .value hform (h.holds hop)
    | .cast htree hform haggregate hop => .cast htree hform haggregate (h.hasTy hop)

/-! ### Steps -/

/-- A later state in the same mode, where aggregates are in order. -/
structure State.GoesTo (s t : State) : Prop extends s.Peeks t where
  mode : t.lvalue = s.lvalue
  types : t.builder.mod.types.IsTyped

theorem State.GoesTo.trans {s t u : State} (hst : s.GoesTo t) (htu : t.GoesTo u) : s.GoesTo u where
  toPeeks := hst.toPeeks.trans htu.toPeeks
  mode := htu.mode.trans hst.mode
  types := htu.types

theorem State.IsTyped.later {s t : State} (h : s.IsTyped) (hst : s.GoesTo t) : t.IsTyped :=
  h.of_peeks hst.toPeeks hst.types

/-- The builder writes to the function at hand, and the table of aggregates stays as it is. -/
theorem State.IsTyped.goesTo_of_writes {s : State} {b : Builder} (hs : s.IsTyped) (h : s.builder.Writes b) :
    s.GoesTo { s with builder := b } := ⟨.of_writes h, rfl, h.types ▸ hs.types⟩

/-- States where types are in order, with what else is known of them, and a relation between the states before and
behind a step. Such a state has it to every later one, and it keeps what is known. -/
class KeepsTypes (I : outParam (State → Prop)) (R : State → State → Prop) : Prop where
  isTyped : ∀ {s : State}, I s → s.IsTyped
  of_goesTo : ∀ {s t : State}, I s → s.GoesTo t → R s t
  trans : ∀ {s t u : State}, R s t → R t u → R s u
  keeps : ∀ {s t : State}, R s t → I s → I t

instance : KeepsTypes State.IsTyped State.GoesTo where
  isTyped h := h
  of_goesTo _ h := h
  trans := .trans
  keeps hst h := h.later hst

theorem KeepsTypes.refl {I : State → Prop} {R : State → State → Prop} [KeepsTypes I R] {s : State} (h : I s) : R s s :=
  of_goesTo h ⟨.refl s, rfl, (isTyped R h).types⟩

/-- What a step came to, unless it is stuck: a related state, and something that satisfies a condition on the code
there. -/
def State.Came (R : State → State → Prop) (s : State) (P : Builder → α → Prop) : Outcome α × State → Prop
  | (.done a, t) => R s t ∧ P t.builder a
  | (.failed, t) => R s t
  | (.stuck _, _) => True

/-- From a state of which something is known, a step comes to a related one, and what it yields satisfies a
condition. -/
def State.Comes (I : State → Prop) (R : State → State → Prop) (s : State) (env : Env) (m : Lower α)
    (P : Builder → α → Prop) : Prop :=
  I s → s.Came R P (m env s)

/-- From a state that is in order, a step comes to a later one that is. -/
abbrev State.Yields (s : State) (env : Env) (m : Lower α) (P : Builder → α → Prop) : Prop :=
  State.Comes State.IsTyped State.GoesTo s env m P

/-- Something is done with the state that a step came to. -/
theorem State.Came.after {R R' : State → State → Prop} {s s' : State} {P P' : Builder → α → Prop}
    {r : Outcome α × State} (h : s'.Came R P r) (f : State → State) (hstate : ∀ t : State, R s' t → R' s (f t))
    (hP : ∀ t a, P t.builder a → P' (f t).builder a) : s.Came R' P' (r.1, f r.2) := by
  obtain ⟨o, t⟩ := r
  cases o with
  | done a => exact ⟨hstate t h.1, hP t a h.2⟩
  | failed => exact hstate t h
  | stuck why => trivial

namespace State.Comes

variable {I : State → Prop} {R : State → State → Prop} {s : State} {env : Env} {m : Lower α} {next : α → Lower β}
  {P P' : Builder → α → Prop} {Q : Builder → β → Prop} {line : Nat}

theorem of_done {a : α} {t : State} (hm : m env s = (.done a, t)) (hst : I s → R s t)
    (ha : I s → P t.builder a) : s.Comes I R env m P := fun hs => by
  rw [hm]
  exact ⟨hst hs, ha hs⟩

theorem imp (h : s.Comes I R env m P) (hP : ∀ b a, P b a → P' b a) : s.Comes I R env m P' := fun hs =>
  (h hs).after id (fun _ ht => ht) fun t => hP t.builder

theorem of_eq {n : Lower α} (heq : m env s = n env s) (h : s.Comes I R env n P) : s.Comes I R env m P := fun hs =>
  heq ▸ h hs

theorem bind_of_eq {n : Lower α} (heq : m env s = n env s) (h : s.Comes I R env (n >>= next) Q) :
    s.Comes I R env (m >>= next) Q :=
  .of_eq (by
    show Lower.bind m next env s = Lower.bind n next env s
    rw [Lower.bind, heq]
    rfl) h

theorem of_eq_done {a : α} {t : State} (h : s.Comes I R env m P) (hs : I s) (hm : m env s = (.done a, t)) :
    R s t ∧ P t.builder a := by
  have hrun := h hs
  rwa [hm] at hrun

theorem ends (h : s.Comes I R env m P) (hs : I s) : Ends m env s (R s) := by
  have hrun := h hs
  unfold Ends
  rcases hms : m env s with ⟨a | _ | _, t⟩ <;> rw [hms] at hrun
  · exact hrun.1
  · exact hrun
  · trivial

/-- Something may be used that is known of the state. -/
theorem of_known (h : I s → s.Comes I R env m P) : s.Comes I R env m P := fun hs => h hs hs

theorem halt (why : Stuck) : s.Comes I R env (Lower.halt why : Lower α) P := fun _ => trivial

theorem attempt (hm : s.Comes I R env m P) : s.Comes I R env (Lower.attempt m) fun b o => ∀ a, o = some a → P b a :=
  fun hs => by
    have hrun := hm hs
    unfold Lower.attempt
    rcases hms : m env s with ⟨a | _ | _, t⟩ <;> rw [hms] at hrun
    · refine ⟨hrun.1, fun a' ha' => ?_⟩
      obtain rfl := Option.some.inj ha'
      exact hrun.2
    · exact ⟨hrun, nofun⟩
    · trivial

/-! What a step looks at. -/

theorem bind_read {f : State → α} (h : s.Comes I R env (next (f s)) Q) : s.Comes I R env (Lower.read f >>= next) Q := h

theorem bind_env {next : Env → Lower β} (h : s.Comes I R env (next env) Q) : s.Comes I R env (Lower.env >>= next) Q := h

theorem bind_types {next : TypeTable → Lower β} (h : s.Comes I R env (next s.builder.mod.types) Q) :
    s.Comes I R env (Lower.types >>= next) Q := h

theorem bind_currentBlock {next : Option BlockId → Lower β} (h : ∀ o, s.Comes I R env (next o) Q) :
    s.Comes I R env (Lower.currentBlock >>= next) Q := h _

theorem bind_present {h : Handle} {o : Option α} (hnext : ∀ a, o = some a → s.Comes I R env (next a) Q) :
    s.Comes I R env (Lower.present h o >>= next) Q := by
  cases o with
  | none => exact fun _ => trivial
  | some a => exact hnext a rfl

theorem bind_expr {id : ExprId} {next : Expr → Lower β}
    (h : ∀ e, env.tree.expr? id = some e → s.Comes I R env (next e) Q) : s.Comes I R env (Lower.expr id >>= next) Q :=
  bind_present h

theorem bind_stmt {id : StmtId} {next : Stmt → Lower β} (h : ∀ d, s.Comes I R env (next d) Q) :
    s.Comes I R env (Lower.stmt id >>= next) Q := bind_present fun d _ => h d

theorem bind_spec {id : SpecId} {next : Spec → Lower β} (h : ∀ d, s.Comes I R env (next d) Q) :
    s.Comes I R env (Lower.spec id >>= next) Q := bind_present fun d _ => h d

theorem bind_declarator {id : DeclaratorId} {next : Declarator → Lower β} (h : ∀ d, s.Comes I R env (next d) Q) :
    s.Comes I R env (Lower.declarator id >>= next) Q := bind_present fun d _ => h d

theorem bind_describe {ty : Ty} {next : String → Lower β} (h : ∀ text, s.Comes I R env (next text) Q) :
    s.Comes I R env (Lower.describe ty >>= next) Q := h _

variable [KeepsTypes I R]

/-- What comes to a later state comes to a related one. -/
theorem of_yields (h : s.Yields env m P) : s.Comes I R env m P := fun hs =>
  (h (KeepsTypes.isTyped R hs)).after id (fun _ => KeepsTypes.of_goesTo hs) fun _ _ => id

theorem pure {a : α} (ha : P s.builder a) : s.Comes I R env (Pure.pure a) P := fun hs => ⟨KeepsTypes.refl hs, ha⟩

theorem fail : s.Comes I R env (Lower.fail : Lower α) P := fun hs => KeepsTypes.refl hs

theorem bind (hm : s.Comes I R env m P) (hnext : ∀ a t, R s t → P t.builder a → t.Comes I R env (next a) Q) :
    s.Comes I R env (m >>= next) Q := fun hs => by
  have hrun := hm hs
  show s.Came R Q (Lower.bind m next env s)
  unfold Lower.bind
  rcases hms : m env s with ⟨a | _ | _, t⟩ <;> rw [hms] at hrun
  · obtain ⟨hst, ha⟩ := hrun
    exact (hnext a t hst ha (KeepsTypes.keeps hst hs)).after id (fun _ htu => KeepsTypes.trans hst htu) fun _ _ => id
  · exact hrun
  · trivial

/-- A step whose outcome is known is followed by the rest. -/
theorem bind_of_done {a : α} {t : State} (hm : m env s = (.done a, t)) (hst : I s → R s t)
    (h : t.Comes I R env (next a) Q) : s.Comes I R env (m >>= next) Q := fun hs => by
  show s.Came R Q (Lower.bind m next env s)
  unfold Lower.bind
  rw [hm]
  exact (h (KeepsTypes.keeps (hst hs) hs)).after id (fun _ => KeepsTypes.trans (hst hs)) fun _ _ => id

theorem ignoring (hm : s.Comes I R env m P) : s.Comes I R env (Lower.ignoring m) fun _ _ => True :=
  .bind hm.attempt fun _ _ _ _ => .pure trivial

theorem discard (hm : s.Comes I R env m P) : s.Comes I R env (Functor.discard m) fun _ _ => True :=
  .bind hm fun _ _ _ _ => .pure trivial

/-! What a step changes. -/

theorem report (kind : DiagnosticKind) (line : Nat) : s.Comes I R env (Lower.report kind line) fun _ _ => True :=
  .of_done rfl (fun hs => KeepsTypes.of_goesTo hs
    ⟨.of_quiet rfl rfl rfl rfl rfl rfl, rfl, (KeepsTypes.isTyped R hs).types⟩) fun _ => trivial

theorem failWith (kind : DiagnosticKind) (line : Nat) : s.Comes I R env (Lower.failWith kind line : Lower α) P :=
  .bind (.report kind line) fun _ _ _ _ => .fail

theorem emit {m : Build α} (hm : m.Steady) (h : ∀ a b, m s.builder = .ok (a, b) → P b a) :
    s.Comes I R env (Lower.emit line m) P := fun hs => by
  unfold Lower.emit
  rcases hrun : m s.builder with fault | ⟨a, b⟩
  · cases fault with
    | missingBlock id => trivial
    | _ => exact failWith (P := P) _ line hs
  · exact ⟨KeepsTypes.of_goesTo hs ((KeepsTypes.isTyped R hs).goesTo_of_writes (hm _ _ _ hrun)), h a b hrun⟩

/-- What is done behind code that was emitted may be shown for the builder that it led to. -/
theorem bind_emit {m : Build α} (hm : m.Steady) (h : ∀ a b, m s.builder = .ok (a, b) → R s { s with builder := b } →
    State.Comes I R { s with builder := b } env (next a) Q) : s.Comes I R env (Lower.emit line m >>= next) Q :=
  fun hs => by
    show s.Came R Q (Lower.bind (Lower.emit line m) next env s)
    unfold Lower.bind Lower.emit
    rcases hrun : m s.builder with fault | ⟨a, b⟩
    · cases fault with
      | missingBlock id => trivial
      | _ => exact failWith (P := Q) _ line hs
    · have hst := KeepsTypes.of_goesTo (R := R) hs ((KeepsTypes.isTyped R hs).goesTo_of_writes (hm _ _ _ hrun))
      exact (h a b hrun hst (KeepsTypes.keeps hst hs)).after id (fun _ => KeepsTypes.trans hst) fun _ _ => id

theorem emit_steady {m : Build α} (hm : m.Steady) : s.Comes I R env (Lower.emit line m) fun _ _ => True :=
  .emit hm fun _ _ _ => trivial

theorem emit_gives {m : Build Operand} {ty : Ty} (hm : Build.Gives m s.builder ty) :
    s.Comes I R env (Lower.emit line m) fun b op => b.HasTy op ty := .emit hm.steady hm.type

theorem setBlock (block : BlockId) : s.Comes I R env (Lower.setBlock block) fun _ _ => True :=
  .of_done rfl (fun hs => KeepsTypes.of_goesTo hs
    ((KeepsTypes.isTyped R hs).goesTo_of_writes ⟨rfl, rfl, .refl _ _⟩)) fun _ => trivial

omit [KeepsTypes I R]

theorem withTypes {f : TypeTable → α × TypeTable} (hextends : s.builder.mod.types.Extends (f s.builder.mod.types).2)
    (htypes : s.builder.mod.types.IsTyped → (f s.builder.mod.types).2.IsTyped)
    (ha : P { s.builder with mod := { s.builder.mod with types := (f s.builder.mod.types).2 } }
      (f s.builder.mod.types).1) : s.Yields env (Lower.withTypes f) P :=
  .of_done rfl (fun hs => ⟨.of_types hextends, rfl, htypes hs.types⟩) fun _ => ha

theorem withLvalue (on : Bool) (hm : State.Yields { s with lvalue := on } env m P) :
    s.Yields env (Lower.withLvalue on m) P := fun hs => by
  have hbefore : s.Peeks { s with lvalue := on } := .of_quiet rfl rfl rfl rfl rfl rfl
  have hafter : ∀ t : State, t.Peeks { t with lvalue := s.lvalue } := fun t => .of_quiet rfl rfl rfl rfl rfl rfl
  exact (hm (hs.of_peeks hbefore hs.types)).after (fun t => { t with lvalue := s.lvalue })
    (fun t ht => ⟨(hbefore.trans ht.toPeeks).trans (hafter t), rfl, ht.types⟩) fun _ _ => id

/-- Of what was only looked at, what does not depend on its code is left. -/
theorem probe {P : α → Prop} (hm : State.Yields { s with builder := s.builder.snapshot.2 } env m fun _ a => P a) :
    s.Yields env (Lower.probe m) fun _ a => P a := fun hs =>
  (hm hs.snapshot).after
    (fun t => { t with builder := t.builder.restore s.builder.snapshot.1 .types, lvalue := s.lvalue })
    (fun t ht => by
      have htypes := congrArg (·.mod.types) (Builder.restore_eq ht.mod .types)
      exact ⟨ht.of_attempt .types (by decide) s.lvalue, rfl, htypes ▸ ht.types⟩) fun _ _ => id

end State.Comes

end Lower

end TreeFlow
