import TreeFlow.Proofs.Lowering.Probing
import TreeFlow.Proofs.Lowering.Sprouting

/-!
# What steps of lowering write

Two judgements are carried through the tree together. Specifiers and declarators do not write anything
(`Still`), whatever becomes of them, since what is built to look at an expression is thrown away. What yields
a value adds instructions one by one, and so every relation between states that holds of a single one
(`Emits`) holds of it. That is proved once here, for the operators that keep to one block; those that choose
between blocks are another matter for every relation (`brings_descentTo`).

One such relation is that code is written at the cursor (`Sprouting`), and that the mode stays as it is, that
is, whether the storage of an expression is asked for or its value. Where the cursor is not at an open block,
only the mode is known (`Moded`). For this relation the operators that choose are in
`TreeFlow.Proofs.Lowering.Regions`.
-/

namespace TreeFlow

namespace Lower

variable {α β : Type}

/-! ### Judgements -/

/-- Two states with the same code, the same cursor and the same mode. -/
structure State.SameCode (s t : State) : Prop where
  func : t.builder.func = s.builder.func
  block : t.builder.block = s.builder.block
  functions : t.builder.mod.functions = s.builder.mod.functions
  mode : t.lvalue = s.lvalue

/-- Two states with the same mode. -/
def State.SameMode (s t : State) : Prop := t.lvalue = s.lvalue

/-- Two states with the same mode, between which code has sprouted at the cursor. -/
structure State.Sprouts (s t : State) : Prop where
  code : s.builder.Sprouts t.builder
  mode : t.lvalue = s.lvalue

/-- What a step does to the state where it yields something, and where it fails. -/
def Brings (D F : State → State → Prop) (m : Lower α) : Prop := ∀ env s,
  (∀ a t, m env s = (.done a, t) → D s t) ∧ ∀ t, m env s = (.failed, t) → F s t

/-- Two relations between states that hold of steps if they hold of the parts. -/
class Composes (D F : State → State → Prop) : Prop where
  of_same : ∀ {s t : State}, s.SameCode t → D s t
  fails_of_same : ∀ {s t : State}, s.SameCode t → F s t
  trans : ∀ {s t u : State}, D s t → D t u → D s u
  fails : ∀ {s t u : State}, D s t → F t u → F s u
  bracket : ∀ {s t : State} {on : Bool}, D { s with lvalue := on } t → D s { t with lvalue := s.lvalue }
  fails_bracket : ∀ {s t : State} {on : Bool}, F { s with lvalue := on } t → F s { t with lvalue := s.lvalue }

/-- Two relations between states that hold of a step if it adds at most one instruction, and so of all that
adds them one by one. What is known of a step that fails may be less. -/
class Emits (D F : State → State → Prop) : Prop extends Composes D F where
  emit : ∀ {α : Type} (line : Nat) {m : Build α}, m.Linear → Brings D F (Lower.emit line m)
  weaken : ∀ {s t : State}, D s t → F s t
  composes : Composes F F

/-- A step writes no code. -/
abbrev Still (m : Lower α) : Prop := Brings State.SameCode State.SameCode m

/-- A step that yields something writes code at the cursor alone, and closes what it opens. -/
abbrev Sprouting (m : Lower α) : Prop := Brings State.Sprouts State.SameMode m

/-- A step does not yield anything. -/
abbrev Barren (F : State → State → Prop) (m : Lower α) : Prop := Brings (fun _ _ => False) F m

/-- A step keeps the mode. -/
abbrev Moded (m : Lower α) : Prop := Brings State.SameMode State.SameMode m

namespace State

variable {s t u : State}

theorem SameCode.refl (s : State) : s.SameCode s := ⟨rfl, rfl, rfl, rfl⟩

theorem SameCode.trans (h : s.SameCode t) (h' : t.SameCode u) : s.SameCode u :=
  ⟨h'.func.trans h.func, h'.block.trans h.block, h'.functions.trans h.functions, h'.mode.trans h.mode⟩

theorem SameCode.sprouts (h : s.SameCode t) : s.Sprouts t := ⟨.of_same h.func h.block h.functions, h.mode⟩

end State

instance : Composes State.SameCode State.SameCode where
  of_same := id
  fails_of_same := id
  trans := .trans
  fails := .trans
  bracket h := ⟨h.func, h.block, h.functions, rfl⟩
  fails_bracket h := ⟨h.func, h.block, h.functions, rfl⟩

instance : Composes State.Sprouts State.SameMode where
  of_same h := h.sprouts
  fails_of_same h := h.mode
  trans h h' := ⟨h.code.trans h'.code, h'.mode.trans h.mode⟩
  fails h h' := Eq.trans h' h.mode
  bracket h := ⟨h.code, rfl⟩
  fails_bracket _ := rfl

instance : Composes State.SameMode State.SameMode where
  of_same h := h.mode
  fails_of_same h := h.mode
  trans h h' := Eq.trans h' h
  fails h h' := Eq.trans h' h
  bracket _ := rfl
  fails_bracket _ := rfl

/-! ### Outcomes -/

section Outcomes

variable {env : Env} {s t : State} {a : α}

/-- What fails, fails in its first part or in the rest. -/
theorem bind_eq_failed {m : Lower α} {next : α → Lower β} (h : (m >>= next) env s = (.failed, t)) :
    m env s = (.failed, t) ∨ ∃ a u, m env s = (.done a, u) ∧ next a env u = (.failed, t) := by
  change Lower.bind m next env s = _ at h
  unfold Lower.bind at h
  rcases hm : m env s with ⟨a | _ | _, u⟩ <;> rw [hm] at h
  · exact .inr ⟨a, u, rfl, h⟩
  · obtain ⟨-, rfl⟩ := Prod.mk.inj h
    exact .inl rfl
  · cases h

/-- What is tried yields something or nothing. -/
theorem attempt_cases {m : Lower α} {o : Outcome (Option α)} (h : Lower.attempt m env s = (o, t)) :
    (∃ a, m env s = (.done a, t) ∧ o = .done (some a)) ∨ (m env s = (.failed, t) ∧ o = .done none) ∨
      ∃ why, o = .stuck why := by
  unfold Lower.attempt at h
  rcases hm : m env s with ⟨a | _ | why, u⟩ <;> rw [hm] at h <;> obtain ⟨rfl, rfl⟩ := Prod.mk.inj h
  · exact .inl ⟨a, rfl, rfl⟩
  · exact .inr (.inl ⟨rfl, rfl⟩)
  · exact .inr (.inr ⟨why, rfl⟩)

/-- What is tried, and yields something, is carried out. -/
theorem of_attempt_some {m : Lower α} (h : Lower.attempt m env s = (.done (some a), t)) :
    m env s = (.done a, t) := by
  rcases attempt_cases h with ⟨b, hm, hb⟩ | ⟨-, hb⟩ | ⟨why, hb⟩ <;> cases hb
  exact hm

theorem mode_of_emit {line : Nat} {m : Build α} {o : Outcome α} (h : Lower.emit line m env s = (o, t)) :
    t.lvalue = s.lvalue := by
  unfold Lower.emit at h
  split at h <;> obtain ⟨-, rfl⟩ := Prod.mk.inj h <;> rfl

end Outcomes

namespace Brings

variable {D F : State → State → Prop} [Composes D F] {m : Lower α} {next : α → Lower β}

omit [Composes D F] in
theorem of_eq_done (h : Brings D F m) {env : Env} {s t : State} {a : α} (hm : m env s = (.done a, t)) :
    D s t := (h env s).1 a t hm

omit [Composes D F] in
theorem imp {D' F' : State → State → Prop} (h : Brings D F m) (hD : ∀ s t, D s t → D' s t)
    (hF : ∀ s t, F s t → F' s t) : Brings D' F' m := fun env s =>
  ⟨fun a t hm => hD s t ((h env s).1 a t hm), fun t hm => hF s t ((h env s).2 t hm)⟩

@[grind ←] theorem of_still (h : Still m) : Brings D F m :=
  h.imp (fun _ _ => Composes.of_same F) fun _ _ => Composes.fails_of_same D

/-- A step that yields something, from a state that differs in nothing that matters. -/
theorem of_done {a : Env → State → α} {t : Env → State → State}
    (hm : ∀ env s, m env s = (.done (a env s), t env s)) (h : ∀ env s, State.SameCode s (t env s)) :
    Brings D F m :=
  fun env s => by
    rw [hm]
    exact ⟨fun a u hu => (Prod.mk.inj hu).2 ▸ Composes.of_same F (h env s), fun u hu => (by cases hu)⟩

@[grind ←] theorem pure (a : α) : Brings D F (Pure.pure a : Lower α) :=
  .of_done (fun _ _ => rfl) fun _ s => .refl s

@[grind ←] theorem fail : Brings D F (Lower.fail : Lower α) := fun env s =>
  ⟨fun a t hm => (by cases hm), fun t hm => (Prod.mk.inj hm).2 ▸ Composes.fails_of_same D (.refl s)⟩

omit [Composes D F] in
@[grind ←] theorem halt (why : Stuck) : Brings D F (Lower.halt why : Lower α) := fun env s =>
  ⟨fun a t hm => (by cases hm), fun t hm => (by cases hm)⟩

@[grind ←] theorem env : Brings D F Lower.env := .of_done (fun _ _ => rfl) fun _ s => .refl s

@[grind ←] theorem read (f : State → α) : Brings D F (Lower.read f) :=
  .of_done (fun _ _ => rfl) fun _ s => .refl s

@[grind ←] theorem bind (hm : Brings D F m) (hnext : ∀ a, Brings D F (next a)) :
    Brings D F (m >>= next) := fun env s => by
  refine ⟨fun b u hu => ?_, fun u hu => ?_⟩
  · obtain ⟨a, t, ht, hu⟩ := bind_eq_done hu
    exact Composes.trans F (hm.of_eq_done ht) ((hnext a).of_eq_done hu)
  · rcases bind_eq_failed hu with hu | ⟨a, t, ht, hu⟩
    · exact (hm env s).2 u hu
    · exact Composes.fails (hm.of_eq_done ht) ((hnext a env t).2 u hu)

/-- What is tried yields nothing where it fails, so the same has to be known of both ends. -/
@[grind ←] theorem attempt {R : State → State → Prop} {m : Lower α} (hm : Brings R R m) :
    Brings R R (Lower.attempt m) := fun env s => by
  refine ⟨fun o t ht => ?_, fun t ht => ?_⟩ <;>
    rcases attempt_cases ht with ⟨a, hrun, ho⟩ | ⟨hrun, ho⟩ | ⟨why, ho⟩
  · exact hm.of_eq_done hrun
  · exact (hm env s).2 t hrun
  all_goals cases ho

@[grind ←] theorem report (kind : DiagnosticKind) (line : Nat) : Brings D F (Lower.report kind line) :=
  .of_done (fun _ _ => rfl) fun _ _ => ⟨rfl, rfl, rfl, rfl⟩

@[grind ←] theorem failWith (kind : DiagnosticKind) (line : Nat) :
    Brings D F (Lower.failWith kind line : Lower α) := .bind (.report kind line) fun _ => .fail

@[grind ←] theorem withLvalue (on : Bool) (hm : Brings D F m) : Brings D F (Lower.withLvalue on m) :=
  fun env s => by
    refine ⟨fun a t ht => ?_, fun t ht => ?_⟩
    all_goals
      obtain ⟨hrun, rfl⟩ := Prod.mk.inj ht
    · exact Composes.bracket F ((hm env _).1 a _ (Prod.ext hrun rfl))
    · exact Composes.fails_bracket D ((hm env _).2 _ (Prod.ext hrun rfl))

@[grind ←] theorem present (h : Handle) (o : Option α) : Brings D F (Lower.present h o) := by
  cases o <;> grind [Lower.present]

@[grind ←] theorem expr (id : ExprId) : Brings D F (Lower.expr id) := by grind [Lower.expr]

@[grind ←] theorem spec (id : SpecId) : Brings D F (Lower.spec id) := by grind [Lower.spec]

@[grind ←] theorem declarator (id : DeclaratorId) : Brings D F (Lower.declarator id) := by
  grind [Lower.declarator]

@[grind ←] theorem types : Brings D F Lower.types := by grind [Lower.types]

@[grind ←] theorem describe (ty : Ty) : Brings D F (Lower.describe ty) := by grind [Lower.describe]

@[grind ←] theorem updateScopes (f : ScopeStack → ScopeStack) : Brings D F (Lower.updateScopes f) :=
  .of_done (fun _ _ => rfl) fun _ _ => ⟨rfl, rfl, rfl, rfl⟩

@[grind ←] theorem withTypes (f : TypeTable → α × TypeTable) : Brings D F (Lower.withTypes f) :=
  .of_done (fun _ _ => rfl) fun _ _ => ⟨rfl, rfl, rfl, rfl⟩

theorem globalString (text : String) : Brings D F (withBuilder (·.globalString text)) :=
  .of_done (fun _ _ => rfl) fun _ _ => ⟨rfl, rfl, rfl, rfl⟩

end Brings

namespace Moded

variable {m : Lower α}

theorem of_sprouting (h : Sprouting m) : Moded m := h.imp (fun _ _ hs => hs.mode) fun _ _ hs => hs

@[grind ←] theorem currentBlock : Moded Lower.currentBlock := .read _

@[grind ←] theorem setBlock (b : BlockId) : Moded (Lower.setBlock b) := fun env s =>
  ⟨fun a t ht => (Prod.mk.inj ht).2 ▸ rfl, fun t ht => (by cases ht)⟩

@[grind ←] theorem emit (line : Nat) (m : Build α) : Moded (Lower.emit line m) := fun _ _ =>
  ⟨fun _ _ => mode_of_emit, fun _ => mode_of_emit⟩

end Moded

namespace Still

variable {m : Lower α}

/-- What was built to look at something is thrown away. -/
@[grind ←] theorem probe (hm : Calm m) : Still (Lower.probe m) := fun env s => by
  have hthrown : ∀ t, (Lower.probe m).RunsTo env s t → s.SameCode t := fun t ht => by
    obtain ⟨types, structs, unions, heq, -⟩ := hm.exists_eq_of_probe ht
    rw [heq]
    exact ⟨rfl, rfl, rfl, rfl⟩
  exact ⟨fun a t ht => hthrown t ⟨_, ht, nofun⟩, fun t ht => hthrown t ⟨_, ht, nofun⟩⟩

end Still

namespace Barren

variable {F : State → State → Prop} [Composes F F] {m : Lower α} {next : α → Lower β}

theorem fail : Barren F (Lower.fail : Lower α) := fun env s =>
  ⟨fun a t ht => (by cases ht), fun t ht => (Prod.mk.inj ht).2 ▸ Composes.fails_of_same F (.refl s)⟩

/-- What fails in the end does not yield anything. -/
theorem bind (hm : Brings F F m) (hnext : ∀ a, Barren F (next a)) : Barren F (m >>= next) := fun env s => by
  refine ⟨fun b u hu => ?_, fun u hu => ?_⟩
  · obtain ⟨a, t, -, hu⟩ := bind_eq_done hu
    exact (hnext a).of_eq_done hu
  · rcases bind_eq_failed hu with hu | ⟨a, t, ht, hu⟩
    · exact (hm env s).2 u hu
    · exact Composes.fails (hm.of_eq_done ht) ((hnext a env t).2 u hu)

theorem failWith (kind : DiagnosticKind) (line : Nat) : Barren F (Lower.failWith kind line : Lower α) :=
  .bind (.report kind line) fun _ => .fail

end Barren

instance : Emits State.Sprouts State.SameMode where
  emit _ _ hm := fun _ _ =>
    ⟨fun _ _ ht => ⟨(hm _ _ _ (Leaves.of_emit ht)).sprouts, mode_of_emit ht⟩, fun _ => mode_of_emit⟩
  weaken h := h.mode
  composes := inferInstance

/-- A step that keeps the mode, and writes code at the cursor alone. -/
theorem Sprouting.of_moded {m : Lower α} (hm : Moded m)
    (hcode : ∀ env s a t, m env s = (.done a, t) → s.builder.Sprouts t.builder) : Sprouting m := fun env s =>
  ⟨fun a t ht => ⟨hcode env s a t ht, hm.of_eq_done ht⟩, (hm env s).2⟩

namespace Brings

variable {D F : State → State → Prop} [Emits D F] {m : Lower α}

attribute [grind ←] Emits.emit

theorem weaken (h : Brings D F m) : Brings F F m := h.imp (fun _ _ => Emits.weaken (F := F)) fun _ _ => id

/-- Where a step is tried, and nothing is yielded if it fails, no more is known of it than that it was
carried out. -/
theorem bind_attempt {next : Option α → Lower β} (hm : Brings D F m)
    (hsome : ∀ a, Brings D F (next (some a))) (hnone : [Composes F F] → Barren F (next none)) :
    Brings D F (Lower.attempt m >>= next) := fun env s => by
  have : Composes F F := Emits.composes D
  refine ⟨fun b u hu => ?_, fun u hu => ?_⟩
  · obtain ⟨o, t, ht, hu⟩ := bind_eq_done hu
    rcases attempt_cases ht with ⟨a, hrun, ho⟩ | ⟨-, ho⟩ | ⟨why, ho⟩ <;> cases ho
    · exact Composes.trans F (hm.of_eq_done hrun) ((hsome a).of_eq_done hu)
    · exact (hnone.of_eq_done hu).elim
  · rcases bind_eq_failed hu with ht | ⟨o, t, ht, hu⟩ <;>
      rcases attempt_cases ht with ⟨a, hrun, ho⟩ | ⟨hrun, ho⟩ | ⟨why, ho⟩ <;> cases ho
    · exact Composes.fails (hm.of_eq_done hrun) ((hsome a env t).2 u hu)
    · exact Composes.fails ((hm env s).2 t hrun) ((hnone env t).2 u hu)

end Brings

/-! ### Values -/

section Values

variable {D F : State → State → Prop} [Emits D F] (v l r : Value) (ty : Ty) (line : Nat)

@[grind ←] theorem brings_toRvalue : Brings D F (toRvalue v line) := by grind [toRvalue]

@[grind ←] theorem brings_loadAggregate : Brings D F (loadAggregate v line) := by grind [loadAggregate]

@[grind ←] theorem brings_toBool : Brings D F (toBool v line) := by grind [toBool]

@[grind ←] theorem brings_applyConversion (c : Conversion) (op : Operand) :
    Brings D F (applyConversion c op ty line) := by cases c <;> grind [applyConversion]

@[grind ←] theorem brings_convert : Brings D F (convert v ty line) := by grind [convert]

@[grind ←] theorem brings_convertOrReport : Brings D F (convertOrReport v ty line) :=
  .bind_attempt (brings_convert v ty line) (fun _ => .pure _) (.failWith _ line)

@[grind ←] theorem brings_promote : Brings D F (promote l r line) := by grind [promote]

@[grind ←] theorem brings_pointerOffset (back : Bool) : Brings D F (pointerOffset l r back line) := by
  grind [pointerOffset]

@[grind ←] theorem still_elementSize : Still (elementSize ty line) := by grind [elementSize]

@[grind ←] theorem brings_pointerDifference : Brings D F (pointerDifference l r line) := by
  grind [pointerDifference]

@[grind ←] theorem brings_pointerCompare (op : BinaryOp) : Brings D F (pointerCompare op l r line) := by
  refine .bind_attempt (brings_convert l _ line) (fun lo => ?_)
    (.bind (brings_convert (D := D) (F := F) r _ line).weaken.attempt fun _ => .failWith _ line)
  refine .bind_attempt (brings_convert r _ line) (fun ro => ?_) (.failWith _ line)
  cases op.cmp? false <;> grind

@[grind ←] theorem brings_addressAsInteger : Brings D F (addressAsInteger v line) := by
  grind [addressAsInteger]

@[grind ←] theorem brings_arithmetic (op : BinaryOp) : Brings D F (arithmetic op l r line) := by
  refine .bind (brings_addressAsInteger l line) fun l' => ?_
  refine .bind (brings_addressAsInteger r line) fun r' => ?_
  split
  · grind
  · exact .bind_attempt (brings_promote l' r' line) (fun found => by grind) (.failWith _ line)

@[grind ←] theorem brings_combine (op : BinaryOp) : Brings D F (combine op l r line) := by
  grind [combine]

end Values

/-! ### The children of a node -/

/-- However the children are lowered, specifiers and declarators do not write anything. -/
structure StillDescent (sub : Descent) : Prop where
  calm : CalmDescent sub
  spec : ∀ id, Still (sub.spec id)
  link : ∀ mode id info, Still (sub.link mode id info)

/-- Besides, two relations hold of every expression. -/
structure BringsDescent (D F : State → State → Prop) (sub : Descent) : Prop extends StillDescent sub where
  raw : ∀ e, Brings D F (sub.raw e)

attribute [grind →] BringsDescent.toStillDescent

/-- Code is only written for expressions, and at the cursor alone. -/
abbrev SproutingDescent (sub : Descent) : Prop := BringsDescent State.Sprouts State.SameMode sub

section Declarators

variable {sub : Descent} (h : StillDescent sub) (e : ExprId) (line : Nat)
include h

@[grind ←] theorem still_spec (id : SpecId) : Still (sub.spec id) := h.spec id

@[grind ←] theorem still_link (mode : DeclaratorMode) (id : DeclaratorId) (info : DeclaratorInfo) :
    Still (sub.link mode id info) := h.link mode id info

@[grind ←] theorem still_subTypeOf : Still (sub.typeOf e) :=
  .probe (.bind (.withLvalue false (h.calm.raw e)) fun _ => .pure _)

@[grind ←] theorem still_subConstInt : Still (sub.constInt e) :=
  .probe (.bind (calm_subRvalue h.calm e).attempt fun _ => .pure _)

/-! ### Declarators and specifiers -/

@[grind ←] theorem still_arrayLength : Still (arrayLength sub e line) := by grind [arrayLength]

@[grind ←] theorem still_addDimensions (mode : DeclaratorMode) (dims : List (Option ExprId)) (ty : Ty) :
    Still (addDimensions sub mode line dims ty) := by
  induction dims generalizing ty with
  | nil => exact .pure ty
  | cons dim dims ih =>
    unfold addDimensions
    split
    · exact ih _
    · exact ih _
    · exact .bind (still_arrayLength h _ line) fun _ => ih _

@[grind ←] theorem still_declare (mode : DeclaratorMode) (id : DeclaratorId) (base : Ty) :
    Still (declare sub mode id base) := by grind [declare]

@[grind ←] theorem still_param (p : ParamDecl) : Still (param sub line p) := by grind [param]

omit h in
@[grind ←] theorem still_each {step : α → Lower β} (hstep : ∀ a, Still (step a)) (items : List α) :
    Still (each step items) := by
  induction items with
  | nil => exact .pure []
  | cons a rest ih => exact .bind (hstep a).attempt fun _ => .bind ih fun _ => .pure _

@[grind ←] theorem still_params (ps : List ParamDecl) : Still (params sub ps line) := by grind [params]

@[grind ←] theorem still_linkWith (mode : DeclaratorMode) (id : DeclaratorId) (info : DeclaratorInfo) :
    Still (linkWith sub mode id info) := by grind [linkWith]

omit h in
@[grind ←] theorem still_namedType (name : String) : Still (namedType name line) := by grind [namedType]

omit h in
@[grind ←] theorem still_declareTag (kind : AggregateKind) (name : String) : Still (declareTag kind name) := by
  grind [declareTag]

omit h in
@[grind ←] theorem still_aggregateToDefine (kind : AggregateKind) (name : Option String) :
    Still (aggregateToDefine kind name line) := by cases name <;> grind [aggregateToDefine]

@[grind ←] theorem still_field (kind : AggregateKind) (base : Ty) (id : DeclaratorId) :
    Still (field sub kind base id) := by grind [field]

@[grind ←] theorem still_fieldsOf (kind : AggregateKind) (decl : VariableDecl) :
    Still (fieldsOf sub kind decl) := by grind [fieldsOf]

@[grind ←] theorem still_defineAggregate (kind : AggregateKind) (decl : AggregateDecl) :
    Still (defineAggregate sub kind decl line) := by grind [defineAggregate]

@[grind ←] theorem still_aggregateType (kind : AggregateKind) (decl : AggregateDecl) :
    Still (aggregateType sub kind decl line) := by grind [aggregateType]

omit h in
@[grind ←] theorem still_bitFieldType (width : Nat) : Still (bitFieldType width line) := by
  grind [bitFieldType]

@[grind ←] theorem still_specWith (id : SpecId) : Still (specWith sub id) := by grind [specWith]

end Declarators

section Children

variable {D F : State → State → Prop} [Emits D F] {sub : Descent} (h : BringsDescent D F sub)
  (e left right : ExprId) (line : Nat)
include h

omit [Emits D F] in
@[grind ←] theorem brings_raw : Brings D F (sub.raw e) := h.raw e

@[grind ←] theorem brings_subExpr : Brings D F (sub.expr e) := by grind [Descent.expr]

@[grind ←] theorem brings_subRvalue : Brings D F (sub.rvalue e) := by grind [Descent.rvalue]

@[grind ←] theorem brings_subLvalue : Brings D F (sub.lvalue e) := by grind [Descent.lvalue]

@[grind ←] theorem brings_subStorage : Brings D F (sub.storage e) := by grind [Descent.storage]

/-! ### Operators -/

@[grind ←] theorem brings_truth : Brings D F (truth sub e line) := by grind [truth]

@[grind ←] theorem brings_step (up before : Bool) : Brings D F (step sub e up before line) := by
  refine .bind (.expr e) fun node => .bind (brings_subStorage h e) fun target => ?_
  dsimp only
  split
  · grind
  · refine .bind (Emits.emit _ (Build.linear_load _ _)) fun old => ?_
    grind

@[grind ←] theorem brings_addressOf : Brings D F (addressOf sub e line) := by grind [addressOf]

@[grind ←] theorem brings_deref : Brings D F (deref sub e line) := by grind [deref]

@[grind ←] theorem brings_negate : Brings D F (negate sub e line) := by grind [negate]

@[grind ←] theorem brings_unary (op : UnaryOp) : Brings D F (unary sub op e line) := by
  cases op <;> grind [unary]

/-! ### Expressions -/

omit h in
@[grind ←] theorem still_stringLiteral (text : String) : Still (stringLiteral text) :=
  .bind (.globalString text) fun _ => .pure _

omit h in
@[grind ←] theorem still_identifier (name : String) (globally : Bool) :
    Still (identifier name globally line) := by grind [identifier]

@[grind ←] theorem brings_globalScope : Brings D F (globalScope sub e line) := by grind [globalScope]

omit h in
@[grind ←] theorem brings_argument (v : Value) (param : Option Ty) :
    Brings D F (argument v param line) := by
  cases param with
  | none => grind [argument]
  | some ty =>
    simp only [argument]
    split
    · grind
    · exact .bind_attempt (brings_convert v ty line) (fun _ => .pure _) (.failWith _ line)

@[grind ←] theorem brings_arguments (params : List Ty) (args : List ExprId) :
    Brings D F (arguments sub line params args) := by
  induction args generalizing params with
  | nil => unfold arguments; exact .pure []
  | cons e es ih =>
    unfold arguments
    exact .bind (brings_subRvalue h e) fun v => .bind (brings_argument line v _) fun _ =>
      .bind (ih _) fun _ => .pure _

@[grind ←] theorem brings_call (args : List ExprId) : Brings D F (call sub e args line) := by
  refine .bind (.read _) fun on => ?_
  split
  · grind
  · refine .bind (brings_subRvalue h e) fun f => ?_
    split
    · grind
    · split
      · grind
      · exact .bind (brings_arguments h line _ args) fun ops => by grind

omit h in
@[grind ←] theorem brings_fieldBase (v : Value) : Brings D F (fieldBase v line) := by grind [fieldBase]

@[grind ←] theorem brings_fieldAccess (name : String) : Brings D F (fieldAccess sub e name line) := by
  refine .bind (brings_subStorage h e) fun base => .bind (brings_fieldBase line base) fun found => ?_
  refine .bind .types fun table => ?_
  dsimp only
  split
  · grind
  · split
    · grind
    · split
      · grind
      · refine .bind (Emits.emit _ ?_) fun _ => .pure _
        split <;> grind

@[grind ←] theorem brings_element : Brings D F (element sub left right line) := by grind [element]

@[grind ←] theorem brings_layoutQuery (id : SpecId) (size : Bool) :
    Brings D F (layoutQuery sub id size line) := by grind [layoutQuery]

@[grind ←] theorem brings_castExpr (id : SpecId) : Brings D F (cast sub id e line) := by grind [cast]

omit h in
@[grind ←] theorem brings_putAggregate (addr : Operand) (v : Value) (ty : Ty) :
    Brings D F (putAggregate addr v ty line) := by grind [putAggregate]

@[grind ←] theorem brings_assignTo (target : Value) : Brings D F (assignTo sub target e line) := by
  grind [assignTo]

@[grind ←] theorem brings_assign : Brings D F (assign sub left right line) := by
  refine .bind (.expr left) fun node => ?_
  refine .bind_attempt (brings_subLvalue h left) (fun t => ?_)
    (.bind (.bind (brings_subRvalue h right).weaken.attempt fun _ => .pure _) fun _ => .fail)
  grind

omit h in
@[grind ←] theorem brings_alternative (v : Value) (ty : Ty) : Brings D F (alternative v ty line) := by
  grind [alternative]

@[grind ←] theorem brings_comma : Brings D F (comma sub left right) := by grind [comma]

/-! ### All kinds -/

/-- Of a binary operator the relations hold if they hold of those that choose. -/
@[grind ←] theorem brings_binary (hlogical : ∀ and, Brings D F (logical sub and left right line)) (op : BinaryOp) :
    Brings D F (binary sub op left right line) := by
  unfold binary
  split
  · exact hlogical true
  · exact hlogical false
  · refine .bind_attempt (brings_subRvalue h left) (fun l => ?_)
      (.bind (brings_subRvalue h right).weaken.attempt fun _ => .fail)
    exact .bind_attempt (brings_subRvalue h right) (fun r => brings_combine l r line op) .fail

theorem brings_rawWith (hlogical : ∀ and left right line, Brings D F (logical sub and left right line))
    (hconditional : ∀ cond yes no line, Brings D F (conditional sub cond yes no line)) :
    Brings D F (rawWith sub e) := by
  grind [rawWith]

omit h in
/-- Relations that hold of a step if it adds at most one instruction hold of all expressions, if they hold of
the operators that choose between blocks. -/
theorem brings_descentTo
    (hlogical : ∀ {sub}, BringsDescent D F sub → ∀ and left right line,
      Brings D F (logical sub and left right line))
    (hconditional : ∀ {sub}, BringsDescent D F sub → ∀ cond yes no line,
      Brings D F (conditional sub cond yes no line)) (depth : Nat) : BringsDescent D F (descentTo depth) := by
  induction depth with
  | zero => exact ⟨⟨calm_descentTo 0, fun _ => .halt _, fun _ _ _ => .halt _⟩, fun _ => .halt _⟩
  | succ depth ih =>
    have hstill := ih.toStillDescent
    exact ⟨⟨calm_descentTo _, fun id => still_specWith hstill id,
      fun mode id info => still_linkWith hstill mode id info⟩,
      fun e => brings_rawWith ih e (hlogical ih) (hconditional ih)⟩

end Children

end Lower

end TreeFlow
