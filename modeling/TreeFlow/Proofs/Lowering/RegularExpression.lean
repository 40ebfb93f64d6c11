import TreeFlow.Proofs.Lowering.Regular

/-!
# Expressions, types and declarators are regular
-/

namespace TreeFlow.Lower

variable {α β : Type} {env : Env} {F : Footing env} {loud : Bool}

attribute [local grind] DiagnosticKind.severity DiagnosticKind.policy

/-! ### Values -/

section Values

variable (v l r : Value) (ty : Ty) (line : Nat)

@[grind ←] theorem regular_toRvalue : Regular F loud (toRvalue v line) := by grind [toRvalue]

@[grind ←] theorem regular_loadAggregate : Regular F loud (loadAggregate v line) := by
  grind [loadAggregate]

@[grind ←] theorem regular_toBool : Regular F loud (toBool v line) := by grind [toBool]

@[grind ←] theorem regular_applyConversion (c : Conversion) (op : Operand) :
    Regular F loud (applyConversion c op ty line) := by cases c <;> grind [applyConversion]

@[grind ←] theorem regular_convert : Regular F false (convert v ty line) := by grind [convert]

@[grind ←] theorem regular_convertOrReport : Regular F loud (convertOrReport v ty line) := by
  grind [convertOrReport, mismatch]

@[grind ←] theorem regular_promote : Regular F false (promote l r line) := by grind [promote]

/-- There is a conversion between any two types of integers. -/
theorem exists_conversion {source target : Ty} (hs : source.isInteger) (ht : target.isInteger) :
    ∃ c, conversion? source target = some c := by
  obtain ⟨a, ha⟩ : ∃ a, source.bits? = some a := by cases source <;> simp_all [Ty.isInteger, Ty.bits?]
  obtain ⟨b, hb⟩ : ∃ b, target.bits? = some b := by cases target <;> simp_all [Ty.isInteger, Ty.bits?]
  simp only [conversion?, hs, ht, ha, hb]
  by_cases hlt : a < b
  · exact ⟨_, if_pos hlt⟩
  · by_cases hgt : b < a
    · exact ⟨.cast .trunc, by simp [hlt, hgt]⟩
    · exact ⟨.keep, by simp [hlt, hgt]⟩

/-- So the conversion of an integer to an integer never fails in silence. -/
theorem regular_convert_integer {v : Value} {ty : Ty} (hv : v.ty.isInteger) (hty : ty.isInteger) :
    Regular F loud (convert v ty line) := by
  obtain ⟨c, hc⟩ := exists_conversion hv hty
  have hplain : ∀ t : Ty, t.isInteger → ¬t.isAggregate ∧ ¬t.isArray ∧ ¬t.isFunction := fun t ht => by
    cases t <;> simp_all [Ty.isInteger, Ty.isAggregate, Ty.isArray, Ty.isFunction]
  grind [convert]

theorem regular_pointerOffset {r : Value} (hr : r.ty.isInteger) (back : Bool) :
    Regular F loud (pointerOffset l r back line) := by
  have hlong : Regular F loud (convert r .long line) := regular_convert_integer line hr rfl
  grind [pointerOffset]

@[grind ←] theorem regular_elementSize : Regular F loud (elementSize ty line) := by
  refine .bind .askEnv fun env => .bind .types fun table => ?_
  split
  · exact .pure _
  · exact .halt (F.bottomless _)
  · next e _ _ =>
    refine .bind (.describe _) fun name => .failWith _ fun _ => ?_
    cases e <;> rfl

@[grind ←] theorem regular_pointerDifference : Regular F loud (pointerDifference l r line) := by
  grind [pointerDifference]

/-- There is an instruction for every comparison. -/
theorem exists_cmp {op : BinaryOp} (hop : op.isComparison) (float : Bool) :
    ∃ cmp, op.cmp? float = some cmp := by cases op <;> simp_all [BinaryOp.isComparison, BinaryOp.cmp?]

theorem regular_pointerCompare {op : BinaryOp} (hop : op.isComparison) :
    Regular F loud (pointerCompare op l r line) := by
  obtain ⟨cmp, hcmp⟩ := exists_cmp hop false
  refine .bind (.attempt (regular_convert _ _ _)) fun lo => ?_
  refine .bind (.attempt (regular_convert _ _ _)) fun ro => ?_
  rw [hcmp]
  cases lo <;> cases ro <;> grind [mismatch]

@[grind ←] theorem regular_addressAsInteger : Regular F loud (addressAsInteger v line) := by
  grind [addressAsInteger]

theorem severity_bin?_error {op : BinaryOp} {float : Bool} {kind : DiagnosticKind}
    (h : op.bin? float = .error kind) : kind.severity = .error := by
  cases op <;> cases float <;> simp_all [BinaryOp.bin?] <;> subst h <;> rfl

@[grind ←] theorem regular_arithmetic (op : BinaryOp) : Regular F loud (arithmetic op l r line) := by
  refine .bind (regular_addressAsInteger l line) fun l' => ?_
  refine .bind (regular_addressAsInteger r line) fun r' => ?_
  split
  · exact .failWith _ fun _ => rfl
  · refine .bind (.attempt (regular_promote l' r' line)) fun found => ?_
    split
    · exact .failWith _ fun _ => rfl
    · next ty =>
      split
      · next hop =>
        obtain ⟨cmp, hcmp⟩ := exists_cmp hop ty.isFloat
        rw [hcmp]
        exact .bind (.emit _ _) fun _ => .pure _
      · split
        · exact .bind (.emit _ _) fun _ => .pure _
        · next kind hkind => exact .failWith _ fun _ => severity_bin?_error hkind

@[grind ←] theorem regular_combine (op : BinaryOp) : Regular F loud (combine op l r line) := by
  grind [combine, regular_pointerOffset, regular_pointerCompare]

end Values

/-! ### Lists -/

/-- Where each item of a list is lowered, more has to be reported only if every one could be. -/
theorem regular_each_bind {γ : Type} {step : α → Lower β} {next : List (Option β) → Lower γ}
    {items : List α} (hstep : ∀ a ∈ items, Regular F true (step a))
    (hall : ∀ found : List β, Regular F loud (next (found.map some))) (hany : ∀ found, Regular F false (next found)) :
    Regular F loud (each step items >>= next) := by
  induction items generalizing next loud with
  | nil => exact .ofEq (n := next []) (fun _ => rfl) (hall [])
  | cons a rest ih =>
    have ih := fun loud next => @ih loud next fun a ha => hstep a (List.mem_cons_of_mem _ ha)
    have hcons : each step (a :: rest) >>= next =
        Lower.attempt (step a) >>= fun b => each step rest >>= fun bs => next (b :: bs) := by
      rw [each, bind_bind]
      congr
      funext b
      exact bind_bind _ _ _
    rw [hcons]
    refine .bindTried (hstep a List.mem_cons_self) (fun b => ?_) ?_
    · exact ih _ _ (fun found => hall (b :: found)) fun found => hany _
    · exact ih _ _ (fun found => hany _) fun found => hany _

/-- What is listed as a whole is what was found for each item. -/
theorem mapM_id_eq_some_iff {found : List (Option α)} {items : List α} :
    found.mapM id = some items ↔ found = items.map some := by
  induction found generalizing items with
  | nil => cases items <;> simp
  | cons o rest ih =>
    cases items with
    | nil => cases o <;> simp [Option.bind_eq_some_iff]
    | cons a items => cases o <;> simp [Option.bind_eq_some_iff, ih, and_comm]

theorem regular_each {step : α → Lower β} {items : List α}
    (hstep : ∀ a ∈ items, Regular F false (step a)) : Regular F loud (each step items) := by
  induction items with
  | nil => exact .pure []
  | cons a rest ih =>
    exact .bind (.attempt (hstep a List.mem_cons_self)) fun _ =>
      .bind (ih fun a ha => hstep a (List.mem_cons_of_mem _ ha)) fun _ => .pure _

/-! ### What needs no children -/

section Leaves

variable (line : Nat)

theorem regular_namedType (name : String) : Regular F loud (namedType name line) := by
  unfold namedType
  split
  · exact .pure _
  · refine .bind (.read fun _ _ => rfl) fun scopes => ?_
    grind

theorem regular_declareTag (kind : AggregateKind) (name : String) :
    Regular F loud (declareTag kind name) := by
  refine .bind (.read fun _ _ => rfl) fun scopes => .bind (.withTypes _) fun ty => ?_
  split
  · exact .bind (.updateScopes _) fun _ => .pure _
  · exact .pure ty

theorem regular_aggregateToDefine (kind : AggregateKind) (name : Option String) :
    Regular F loud (aggregateToDefine kind name line) := by
  unfold aggregateToDefine
  split
  · exact .withTypes _
  · refine .bind (.read fun _ _ => rfl) fun scopes => ?_
    split
    · exact regular_declareTag _ _
    · refine .bind .types fun table => ?_
      split
      · exact .failWith _ fun _ => by cases kind <;> rfl
      · exact .pure _

theorem regular_bitFieldType (width : Nat) : Regular F loud (bitFieldType width line) := by
  unfold bitFieldType
  split
  · next h => exact .failWith _ fun _ => by rw [h]; rfl
  · grind

theorem regular_stringLiteral (text : String) : Regular F loud (stringLiteral text) :=
  .bind (.withBuilder _) fun _ => .pure _

theorem regular_identifier (name : String) (globally : Bool) :
    Regular F loud (identifier name globally line) := by
  refine .bind (.read fun _ _ => rfl) fun scopes => ?_
  split
  · exact .pure _
  · exact .failWith _ fun _ => rfl

theorem regular_argument (v : Value) (param : Option Ty) : Regular F loud (argument v param line) := by
  cases param <;> grind [argument]

theorem regular_fieldBase (v : Value) : Regular F loud (fieldBase v line) := by grind [fieldBase]

theorem regular_putAggregate (addr : Operand) (v : Value) (ty : Ty) :
    Regular F loud (putAggregate addr v ty line) := by grind [putAggregate]

theorem regular_alternative (v : Value) (ty : Ty) : Regular F loud (alternative v ty line) := by
  grind [alternative]

theorem regular_joinFrom (source join : BlockId) (v : Value) (ty : Ty) :
    Regular F loud (joinFrom source join v ty line) := by grind [joinFrom, regular_alternative]

end Leaves

/-! ### The children of a node -/

/-- The children that a descent of some depth is possible from are regular. -/
structure RegularDescent (F : Footing env) (d : Nat) (sub : Descent) : Prop where
  raw : ∀ {loud e}, F.Bears d (.expr e) → Regular F loud (sub.raw e)
  spec : ∀ {loud id}, F.Bears d (.spec id) → Regular F loud (sub.spec id)
  link : ∀ {loud mode id info}, F.Bears d (.declarator id) → Regular F loud (sub.link mode id info)

namespace RegularDescent

variable {d : Nat} {sub : Descent} (h : RegularDescent F d sub) {e left right : ExprId}
  (he : F.Bears d (.expr e)) (hl : F.Bears d (.expr left)) (hr : F.Bears d (.expr right)) (line : Nat)
include h

section
include he

theorem expr : Regular F loud (sub.expr e) := by
  refine .bind (h.raw he) fun v => .bind (.read fun _ _ => rfl) fun on => ?_
  split
  · exact .pure _
  · exact .bindExpr he fun node _ => regular_toRvalue _ _

theorem rvalue : Regular F loud (sub.rvalue e) := .withLvalue _ (h.expr he)

theorem lvalue : Regular F loud (sub.lvalue e) := .withLvalue _ (h.expr he)

theorem storage : Regular F loud (sub.storage e) := .withLvalue _ (h.raw he)

theorem typeOf : Regular F loud (sub.typeOf e) :=
  .probe (.bind (.withLvalue _ (h.raw he)) fun _ => .pure _)

theorem constInt : Regular F loud (sub.constInt e) :=
  .probe (.bind (.attempt (h.rvalue he)) fun _ => .pure _)

/-! ### Operators -/

theorem truth : Regular F loud (truth sub e line) := .bind (h.rvalue he) fun _ => regular_toBool _ _

theorem step (up before : Bool) : Regular F loud (step sub e up before line) := by
  refine .bindExpr he fun node _ => .bind (h.storage he) fun target => ?_
  dsimp only
  split
  · exact .failWith _ fun _ => rfl
  · refine .bind (.emit _ _) fun old => ?_
    grind

theorem addressOf : Regular F loud (addressOf sub e line) := by grind [addressOf, h.storage he]

theorem deref : Regular F loud (deref sub e line) := by grind [deref, h.rvalue he]

theorem negate : Regular F loud (negate sub e line) := by
  refine .bind (h.rvalue he) fun v => ?_
  split
  · grind
  · split
    · next hv =>
      refine .bind (regular_convert_integer _ hv ?_) fun _ => .bind (.emit _ _) fun _ => .pure _
      split
      · rfl
      · exact hv
    · exact .failWith _ fun _ => rfl

theorem unary (op : UnaryOp) : Regular F loud (unary sub op e line) := by
  cases op <;> grind [unary, h.addressOf he, h.deref he, h.negate he, h.truth he, h.rvalue he, h.step he]

end

section
include hl hr

theorem logical (and : Bool) : Regular F loud (logical sub and left right line) := by
  refine .bind (h.truth hl line) fun lb => ?_
  split
  · grind [h.truth hr]
  · refine .bind .currentBlock fun o => ?_
    cases o with
    | none => exact .failWith _ fun _ => rfl
    | some source =>
      refine .bind (.emit _ _) fun rightBlock => .bind (.emit _ _) fun endBlock => ?_
      cases and <;> refine .bind (.emit _ _) fun _ => ?_ <;> grind [h.truth hr]

theorem binary (op : BinaryOp) : Regular F loud (binary sub op left right line) := by
  cases op <;> first
    | exact h.logical hl hr line _
    | exact .bindTried (h.rvalue hl)
        (fun l => .bindTried (h.rvalue hr) (fun r => regular_combine _ _ _ _) .fail)
        (.bind (.attempt (h.rvalue hr)) fun _ => .fail)

end

/-! ### Declarators -/

include he in
theorem arrayLength : Regular F loud (arrayLength sub e line) := by
  grind [arrayLength, h.constInt he]

theorem addDimensions (mode : DeclaratorMode) {dims : List (Option ExprId)} (ty : Ty)
    (hdims : ∀ e, some e ∈ dims → F.Bears d (.expr e)) :
    Regular F loud (addDimensions sub mode line dims ty) := by
  induction dims generalizing ty with
  | nil => exact .pure ty
  | cons dim dims ih =>
    have ih := fun ty => ih ty fun e he => hdims e (List.mem_cons_of_mem _ he)
    unfold Lower.addDimensions
    split
    · exact ih _
    · exact ih _
    · exact .bind (h.arrayLength (hdims _ List.mem_cons_self) line) fun _ => ih _

theorem declare (mode : DeclaratorMode) {id : DeclaratorId} (base : Ty)
    (hid : F.Bears d (.declarator id)) : Regular F loud (declare sub mode id base) := by
  refine .bindDeclarator hid fun node _ => .bind (h.link hid) fun info => ?_
  split
  · exact .failWith _ fun _ => rfl
  · exact .pure _

theorem param {p : ParamDecl} (hp : ∀ c ∈ p.handles, F.Bears d c) :
    Regular F loud (param sub line p) := by
  refine .bind (h.spec (hp _ List.mem_cons_self)) fun base => ?_
  split
  · next id hid => exact h.declare _ _ (hp _ (by simp [ParamDecl.handles, hid]))
  · exact .pure _

theorem params {ps : List ParamDecl} (hps : ∀ p ∈ ps, ∀ c ∈ p.handles, F.Bears d c) :
    Regular F loud (params sub ps line) := by
  refine regular_each_bind (fun p hp => h.param line (hps p hp)) (fun found => ?_) fun found => ?_
  · rw [mapM_id_eq_some_iff.2 rfl]
    grind
  · grind

theorem linkWith (mode : DeclaratorMode) {id : DeclaratorId} (info : DeclaratorInfo)
    (hid : F.Bears (d + 1) (.declarator id)) : Regular F loud (linkWith sub mode id info) := by
  refine .bindDeclarator hid fun node hnode => ?_
  have hchild := F.bears_of_declarator hnode hid
  split
  · exact .pure _
  · exact .pure _
  · next hkind => exact h.link (hchild _ (by simp [hkind, DeclaratorKind.handles]))
  · next inner dims hkind =>
    refine .bind (h.addDimensions _ _ _ fun e he => hchild _ ?_) fun ty =>
      h.link (hchild _ (by simp [hkind, DeclaratorKind.handles]))
    simpa [hkind, DeclaratorKind.handles] using he
  · next inner ps variadic hkind =>
    refine .bind (h.params _ fun p hp c hc => hchild c ?_) fun ps =>
      h.link (hchild _ (by simp [hkind, DeclaratorKind.handles]))
    rw [hkind, DeclaratorKind.handles]
    exact List.mem_cons_of_mem _ (List.mem_flatMap_of_mem hp hc)
  · next hkind => exact h.link (hchild _ (by simp [hkind, DeclaratorKind.handles]))

/-! ### Type specifiers -/

theorem field (kind : AggregateKind) (base : Ty) {id : DeclaratorId}
    (hid : F.Bears d (.declarator id)) : Regular F loud (field sub kind base id) := by
  have hrest : ∀ (info : DeclaratorInfo) (line : Nat), Regular F loud (do
      if (info.ty.key?.map (← types).isDefined).getD true then
        return (⟨info.name.getD "", info.ty⟩ : Field)
      else Lower.failWith (.incompleteTypeUse (← Lower.describe info.ty)) line) := fun info line => by
    refine .bind .types fun table => ?_
    split
    · exact .pure _
    · exact .bind (.describe _) fun _ => .failWith _ fun _ => rfl
  refine .bindDeclarator hid fun node _ => .bind (h.declare _ _ hid) fun info => ?_
  dsimp only
  split
  · exact .bind (.report _ _) fun _ => hrest _ _
  · exact hrest _ _

theorem fieldsOf (kind : AggregateKind) {decl : VariableDecl}
    (hdecl : ∀ c ∈ decl.handles, F.Bears d c) : Regular F loud (fieldsOf sub kind decl) := by
  refine .bind (h.spec (hdecl _ List.mem_cons_self)) fun base => ?_
  refine .bind (regular_each fun id hid => h.field kind base (hdecl _ ?_)) fun _ => .pure _
  exact List.mem_cons_of_mem _ (List.mem_map_of_mem hid)

theorem defineAggregate (kind : AggregateKind) {decl : AggregateDecl}
    (hdecl : ∀ c ∈ decl.handles, F.Bears d c) : Regular F loud (defineAggregate sub kind decl line) := by
  refine .bind (regular_aggregateToDefine _ _ _) fun ty => ?_
  refine .bind (regular_each fun f hf => h.fieldsOf kind fun c hc => hdecl c ?_) fun found => ?_
  · exact List.mem_flatMap_of_mem hf hc
  · grind

theorem aggregateType (kind : AggregateKind) {decl : AggregateDecl}
    (hdecl : ∀ c ∈ decl.handles, F.Bears d c) : Regular F loud (aggregateType sub kind decl line) := by
  unfold Lower.aggregateType
  split
  · exact h.defineAggregate line kind hdecl
  · split
    · exact .failWith _ fun _ => rfl
    · refine .bind (.read fun _ _ => rfl) fun scopes => ?_
      split
      · exact .pure _
      · exact .failWith _ fun _ => by cases kind <;> rfl

theorem specWith {id : SpecId} (hid : F.Bears (d + 1) (.spec id)) :
    Regular F loud (specWith sub id) := by
  refine .bindSpec hid fun node hnode => ?_
  have hchild := F.bears_of_spec hnode hid
  dsimp only
  cases hkind : node.kind <;> rw [hkind] at hchild
  case named name => exact regular_namedType _ name
  case struct decl => exact h.aggregateType _ _ hchild
  case union decl => exact h.aggregateType _ _ hchild
  case bitField width => exact regular_bitFieldType _ _
  case typeOf e => exact h.typeOf (hchild _ (by simp [SpecKind.handles]))
  case derived base n => exact .bind (h.spec (hchild _ (by simp [SpecKind.handles]))) fun _ => .pure _

/-! ### Expressions -/

section
include he

theorem globalScope : Regular F loud (globalScope sub e line) := by
  refine .bindExpr he fun node _ => ?_
  split
  · exact regular_identifier _ _ _
  · exact h.raw he

theorem fieldAccess (name : String) : Regular F loud (fieldAccess sub e name line) := by
  refine .bind (h.storage he) fun base => .bind (regular_fieldBase _ _) fun found => ?_
  refine .bind .types fun table => ?_
  dsimp only
  split
  · grind
  · split
    · grind
    · split
      · grind
      · exact .bind (.emit _ _) fun _ => .pure _

end

theorem arguments (params : List Ty) {args : List ExprId}
    (hargs : ∀ e ∈ args, F.Bears d (.expr e)) : Regular F loud (arguments sub line params args) := by
  induction args generalizing params with
  | nil => unfold Lower.arguments; exact .pure []
  | cons e es ih =>
    unfold Lower.arguments
    exact .bind (h.rvalue (hargs e List.mem_cons_self)) fun v => .bind (regular_argument _ _ _) fun _ =>
      .bind (ih _ fun e he => hargs e (List.mem_cons_of_mem _ he)) fun _ => .pure _

include he in
theorem call {args : List ExprId} (hargs : ∀ e ∈ args, F.Bears d (.expr e)) :
    Regular F loud (call sub e args line) := by
  refine .bind (.read fun _ _ => rfl) fun on => ?_
  split
  · exact .failWith _ fun _ => rfl
  · refine .bind (h.rvalue he) fun f => ?_
    split
    · exact .failWith _ fun _ => rfl
    · split
      · exact .failWith _ fun _ => rfl
      · exact .bind (h.arguments line _ hargs) fun ops => .bind (.emit _ _) fun _ => .pure _

include he in
/-- An alternative that cannot be lowered has been reported. -/
theorem bindAlternative {block : BlockId} {next : Option Value × BlockId → Lower β}
    (hsome : ∀ v last, Regular F loud (next (some v, last)))
    (hnone : ∀ last, Regular F false (next (none, last))) :
    Regular F loud (alternativeIn sub block e >>= next) := by
  unfold alternativeIn
  simp only [bind_bind]
  refine .bind (.setBlock _) fun _ => .bindTried (h.rvalue he) (fun v => ?_) ?_
  · exact .bind .currentBlock fun o => hsome v _
  · exact .bind .currentBlock fun o => hnone _

theorem layoutQuery {id : SpecId} (hid : F.Bears d (.spec id)) (size : Bool) :
    Regular F loud (layoutQuery sub id size line) := by
  refine .bind (h.spec hid) fun ty => .bind .askEnv fun env => .bind .types fun table => ?_
  split
  · split
    · exact .pure _
    · exact .failWith _ fun _ => rfl
  · exact .halt (F.bottomless _)
  · exact .failWith _ fun _ => by cases size <;> rfl
  · next e _ _ _ => exact .failWith _ fun _ => by cases e <;> rfl

include he in
theorem cast {id : SpecId} (hid : F.Bears d (.spec id)) : Regular F loud (cast sub id e line) := by
  grind [Lower.cast, h.spec hid, h.rvalue he]

section
include hl hr

omit hl in
theorem assignTo (target : Value) : Regular F loud (assignTo sub target right line) := by
  grind [Lower.assignTo, h.storage hr, h.rvalue hr, regular_putAggregate, mismatch]

theorem element : Regular F loud (element sub left right line) := by
  refine .bind (h.storage hl) fun base => ?_
  split
  · exact .failWith _ fun _ => rfl
  · refine .bind (regular_toRvalue _ _) fun ptr => .bind (h.rvalue hr) fun index => ?_
    split
    · exact .failWith _ fun _ => rfl
    · next hindex =>
      exact .bind (regular_convert_integer _ (by simpa using hindex) rfl) fun _ =>
        .bind (.emit _ _) fun _ => .pure _

theorem assign : Regular F loud (assign sub left right line) := by
  refine .bindExpr hl fun node _ => .bindTried (h.lvalue hl) (fun target => ?_) ?_
  · dsimp only
    split
    · exact .failWith _ fun _ => rfl
    · exact h.assignTo hr line target
  · exact .bind (.ignoring (h.rvalue hr)) fun _ => .fail

theorem comma : Regular F loud (comma sub left right) := by
  grind [Lower.comma, h.rvalue hl, h.raw hr]

theorem conditional {cond : ExprId} (hc : F.Bears d (.expr cond)) :
    Regular F loud (conditional sub cond left right line) := by
  refine .bind (h.truth hc line) fun c => .bind (.emit _ _) fun yesBlock => ?_
  refine .bind (.emit _ _) fun noBlock => .bind (.emit _ _) fun join => .bind (.emit _ _) fun _ => ?_
  refine h.bindAlternative hl (fun y yesEnd => ?_) fun yesEnd => ?_
  · refine h.bindAlternative hr (fun n noEnd => ?_) fun noEnd => .fail
    dsimp only
    split
    · exact .failWith _ fun _ => rfl
    · refine .bind (regular_joinFrom _ _ _ _ _) fun fromYes => ?_
      refine .bind (regular_joinFrom _ _ _ _ _) fun fromNo => ?_
      grind
  · exact h.bindAlternative hr (fun _ _ => .fail) fun _ => .fail

end

theorem rawWith {id : ExprId} (hid : F.Bears (d + 1) (.expr id)) : Regular F loud (rawWith sub id) := by
  refine .bindExpr hid fun node hnode => ?_
  have hchild := F.bears_of_expr hnode hid
  dsimp only
  cases hkind : node.kind <;> rw [hkind] at hchild <;>
    simp only [ExprKind.handles, List.mem_cons, List.not_mem_nil, or_false, forall_eq_or_imp, forall_eq] at hchild
  case integer n => exact .pure _
  case char c => exact .pure _
  case bool b => exact .pure _
  case double x => exact .pure _
  case str text => exact regular_stringLiteral _
  case identifier name => exact regular_identifier _ _ _
  case globalScope operand => exact h.globalScope hchild _
  case call callee args => exact h.call hchild.1 _ fun e he => hchild.2 _ (List.mem_map_of_mem he)
  case field base name => exact h.fieldAccess hchild _ _
  case index base position => exact h.element hchild.1 hchild.2 _
  case binary op left right => exact h.binary hchild.1 hchild.2 _ _
  case unary op operand => exact h.unary hchild _ _
  case step op operand => exact h.step hchild _ _ _
  case sizeOf id => exact h.layoutQuery _ hchild _
  case alignOf id => exact h.layoutQuery _ hchild _
  case cast id operand => exact h.cast hchild.2 _ hchild.1
  case assign target value => exact h.assign hchild.1 hchild.2 _
  case conditional cond yes no => exact h.conditional hchild.2.1 hchild.2.2 _ hchild.1
  case comma first second => exact h.comma hchild.1 hchild.2

end RegularDescent

/-! ### The whole descent -/

theorem regularDescent_descentTo (F : Footing env) (d : Nat) : RegularDescent F d (descentTo d) := by
  induction d with
  | zero =>
    rw [descentTo]
    exact ⟨fun h => .halt (F.endless h), fun h => .halt (F.endless h), fun h => .halt (F.endless h)⟩
  | succ d ih =>
    rw [descentTo]
    exact ⟨fun h => ih.rawWith h, fun h => ih.specWith h, fun h => ih.linkWith _ _ h⟩

theorem regular_descend {step : Descent → Lower α}
    (h : ∀ {sub}, RegularDescent F env.tree.exprDepth sub → Regular F loud (step sub)) :
    Regular F loud (descend step) :=
  .ofEq (n := step (descentTo env.tree.exprDepth)) (fun _ => rfl) (h (regularDescent_descentTo F _))

theorem regular_rvalue {e : ExprId} (he : F.Bears env.tree.exprDepth (.expr e)) :
    Regular F loud (rvalue e) := regular_descend fun h => h.rvalue he

theorem regular_resolve {id : SpecId} (hid : F.Bears env.tree.exprDepth (.spec id)) :
    Regular F loud (resolve id) := regular_descend fun h => h.spec hid

theorem regular_resolveDeclarator {id : DeclaratorId}
    (hid : F.Bears env.tree.exprDepth (.declarator id)) (mode : DeclaratorMode) (base : Ty) :
    Regular F loud (resolveDeclarator mode id base) := regular_descend fun h => h.declare mode base hid

theorem regular_resolveParams {ps : List ParamDecl}
    (hps : ∀ p ∈ ps, ∀ c ∈ p.handles, F.Bears env.tree.exprDepth c) (line : Nat) :
    Regular F loud (resolveParams ps line) := regular_descend fun h => h.params line hps

/-! ### Initializers

A declarator hands its initializer on, which is lowered only when the variable is declared. -/

/-- The initializer, if there is one, can be entered. -/
def Footing.BearsInit (F : Footing env) (info : DeclaratorInfo) : Prop :=
  ∀ e, info.init = some e → F.Bears env.tree.exprDepth (.expr e)

theorem bearsInit_descentTo (d : Nat) {mode : DeclaratorMode} {id : DeclaratorId}
    {info out : DeclaratorInfo} (hid : F.Bears d (.declarator id)) (hinfo : F.BearsInit info)
    (h : Produces env ((descentTo d).link mode id info) out) : F.BearsInit out := by
  induction d generalizing mode id info with
  | zero => exact absurd h Produces.not_halt
  | succ d ih =>
    obtain ⟨node, hnode, h⟩ := h.of_bind
    have hchild := F.bears_of_declarator hnode.of_declarator hid
    revert h
    cases hkind : node.kind <;> rw [hkind] at hchild <;> intro h
    case identifier name =>
      obtain rfl := h.of_pure
      exact hinfo
    case anonymous =>
      obtain rfl := h.of_pure
      exact hinfo
    case pointer inner n =>
      refine ih (hchild _ List.mem_cons_self) ?_ h
      exact hinfo
    case array inner dims =>
      obtain ⟨ty, -, h⟩ := h.of_bind
      refine ih (hchild _ List.mem_cons_self) ?_ h
      exact hinfo
    case function inner ps variadic =>
      obtain ⟨found, -, h⟩ := h.of_bind
      refine ih (hchild _ List.mem_cons_self) ?_ h
      exact hinfo
    case init inner value =>
      refine ih (hchild _ List.mem_cons_self) (fun e he => ?_) h
      obtain rfl := Option.some.inj he
      exact F.anew (hchild _ (by simp [DeclaratorKind.handles])) (by simp [Handle.isStmt])

theorem bearsInit_declare {sub : Descent} {mode : DeclaratorMode} {id : DeclaratorId} {base : Ty}
    {out : DeclaratorInfo}
    (hlink : ∀ {info out}, F.BearsInit info → Produces env (sub.link mode id info) out → F.BearsInit out)
    (h : Produces env (declare sub mode id base) out) : F.BearsInit out := by
  obtain ⟨node, -, h⟩ := h.of_bind
  obtain ⟨info, hinfo, h⟩ := h.of_bind
  have hbears := hlink (by simp [Footing.BearsInit]) hinfo
  revert h
  split
  · exact fun h => absurd h Produces.not_failWith
  · intro h
    obtain rfl := h.of_pure
    exact hbears

theorem Produces.of_descend {step : Descent → Lower α} {a : α} (h : Produces env (descend step) a) :
    Produces env (step (descentTo env.tree.exprDepth)) a := by
  obtain ⟨s, t, h⟩ := h
  exact ⟨s, t, h⟩

theorem bearsInit_resolveDeclarator {mode : DeclaratorMode} {id : DeclaratorId} {base : Ty}
    {out : DeclaratorInfo} (hid : F.Bears env.tree.exprDepth (.declarator id))
    (h : Produces env (resolveDeclarator mode id base) out) : F.BearsInit out := by
  rw [resolveDeclarator] at h
  exact bearsInit_declare (fun hinfo h => bearsInit_descentTo _ hid hinfo h) h.of_descend

end TreeFlow.Lower
