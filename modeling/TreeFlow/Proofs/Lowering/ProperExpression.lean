import TreeFlow.Proofs.Lowering.Proper
import TreeFlow.Proofs.Lowering.RegularExpression

/-!
# Expressions and types stay in range

A node is lowered properly if its children are (`ProperDescent`). Type specifiers are where widths come from: the
types that have a name are at least one bit wide, a width that is written is refused if it is zero, and
everything else that makes a type is given proper ones. By induction on the depth, whatever descends into a tree
stays in range (`proper_descentTo`).
-/

namespace TreeFlow

/-- The type that a declarator has come to is proper, and so are those of the parameters. -/
structure DeclaratorInfo.IsProper (info : DeclaratorInfo) : Prop where
  ty : info.ty.IsProper
  params : ∀ ps, info.params = some ps → ∀ p ∈ ps, p.ty.IsProper

namespace Lower

variable {α β : Type} {line : Nat}

/-- However the children are lowered, they are in range. -/
structure ProperDescent (sub : Descent) : Prop where
  raw : ∀ e, Properly Value.IsProper (sub.raw e)
  spec : ∀ id, Properly Ty.IsProper (sub.spec id)
  link : ∀ mode id info, info.IsProper → Properly DeclaratorInfo.IsProper (sub.link mode id info)

/-! ### Lists and tags -/

theorem properly_each {P : β → Prop} {step : α → Lower β} (h : ∀ a, Properly P (step a)) (items : List α) :
    Properly (fun found => ∀ b, some b ∈ found → P b) (each step items) := by
  induction items with
  | nil => exact .pure fun _ h => absurd h List.not_mem_nil
  | cons a rest ih =>
    refine .bind (h a).attempt fun o ho => .bind ih fun found hfound => .pure fun b hb => ?_
    rcases List.mem_cons.1 hb with hb | hb
    · exact ho b hb.symm
    · exact hfound b hb

theorem properly_declareType (kind : AggregateKind) (name : TypeTable → String) :
    Properly Ty.IsProper (withTypes fun t => t.declare kind (name t)) :=
  .withTypes fun _ ht => ⟨ht.declare kind _, .kind kind _⟩

theorem properly_declareTag (kind : AggregateKind) (name : String) :
    Properly Ty.IsProper (declareTag kind name) := by
  refine .bind .scopes fun scopes _ => .bind (properly_declareType kind fun _ => scopes.qualify name) fun ty hty => ?_
  split
  · exact .bind (.updateScopes fun _ hs => hs.defineTag kind _) fun _ _ => .pure hty
  · exact .pure hty

theorem properly_declareAggregate (kind : AggregateKind) (name : String) :
    Properly Ty.IsProper (declareAggregate kind name) := by
  refine .bind .scopes fun scopes _ => ?_
  split
  · exact .pure (.kind kind _)
  · exact properly_declareTag kind name

theorem properly_aggregateToDefine (kind : AggregateKind) (name : Option String) :
    Properly Ty.IsProper (aggregateToDefine kind name line) := by
  unfold aggregateToDefine
  split
  · exact properly_declareType kind fun _ => "anon"
  · refine .bind .scopes fun scopes _ => ?_
    split
    · exact properly_declareTag kind _
    · refine .bind .types fun types _ => ?_
      split
      · exact .failWith _ _
      · exact .pure (.kind kind _)

theorem properly_namedType (name : String) : Properly Ty.IsProper (namedType name line) := by
  unfold namedType
  split
  · next ty hty => exact .pure (.primitive hty)
  · refine .bind .scopes fun scopes hscopes => ?_
    split
    · next ty hty => exact .pure (hscopes.of_type? hty)
    · split
      · exact .failWith _ _
      · split <;> exact .failWith _ _

/-- A width of zero is refused. -/
theorem properly_bitFieldType (width : Nat) : Properly Ty.IsProper (bitFieldType width line) := by
  unfold bitFieldType
  split
  · exact .failWith _ _
  · next hwidth =>
    have hproper : (Ty.bitField width).IsProper := .bitField (Nat.pos_of_ne_zero hwidth)
    dsimp only
    split
    · exact .bind (.report _ _) fun _ _ => .pure hproper
    · exact .pure hproper

variable {sub : Descent} (hsub : ProperDescent sub)
include hsub

/-! ### Children -/

theorem properly_subExpr (e : ExprId) : Properly Value.IsProper (sub.expr e) := by
  refine .bind (hsub.raw e) fun v hv => .bind (.look _) fun on _ => ?_
  split
  · exact .pure hv
  · exact .bind (.expr e) fun _ _ => properly_toRvalue hv

theorem properly_subRvalue (e : ExprId) : Properly Value.IsProper (sub.rvalue e) :=
  .withLvalue false (properly_subExpr hsub e)

theorem properly_subLvalue (e : ExprId) : Properly Value.IsProper (sub.lvalue e) :=
  .withLvalue true (properly_subExpr hsub e)

theorem properly_subStorage (e : ExprId) : Properly Value.IsProper (sub.storage e) :=
  .withLvalue true (hsub.raw e)

theorem properly_subTypeOf (e : ExprId) : Properly Ty.IsProper (sub.typeOf e) :=
  .probe (.bind (.withLvalue false (hsub.raw e)) fun _ hv => .pure hv.ty)

theorem properly_subConstInt (e : ExprId) : StaysProper (sub.constInt e) :=
  .probe (.bind (properly_subRvalue hsub e).attempt fun _ _ => .pure trivial)

/-! ### Declarators -/

theorem properly_arrayLength (e : ExprId) : StaysProper (arrayLength sub e line) := by
  refine .bind (properly_subConstInt hsub e) fun o _ => ?_
  split
  · split
    · exact .pure trivial
    · exact .failWith _ _
  · exact .failWith _ _

theorem properly_addDimensions (mode : DeclaratorMode) (dims : List (Option ExprId)) {ty : Ty} (hty : ty.IsProper) :
    Properly Ty.IsProper (addDimensions sub mode line dims ty) := by
  induction dims generalizing ty with
  | nil => exact .pure hty
  | cons dim dims ih =>
    unfold addDimensions
    split
    · exact ih hty.pointerTo
    · exact ih hty.pointerTo
    · exact .bind (properly_arrayLength hsub _) fun length _ => ih (.array hty length)

theorem properly_declare (mode : DeclaratorMode) (id : DeclaratorId) {base : Ty} (hbase : base.IsProper) :
    Properly DeclaratorInfo.IsProper (declare sub mode id base) := by
  refine .bind (.declarator id) fun d _ => ?_
  refine .bind (hsub.link mode id _ ⟨hbase, fun _ h => by cases h⟩) fun info hinfo => ?_
  split
  · exact .failWith _ _
  · exact .pure hinfo

theorem properly_param (p : ParamDecl) : Properly DeclaratorInfo.IsProper (param sub line p) := by
  refine .bind (hsub.spec p.spec) fun base hbase => ?_
  split
  · exact properly_declare hsub _ _ hbase
  · exact .pure ⟨hbase, fun _ h => by cases h⟩

omit hsub in
theorem isProper_adjustParam {p : DeclaratorInfo} (hp : p.ty.IsProper) : (adjustParam p).ty.IsProper := by
  unfold adjustParam
  split
  · exact hp.pointerTo
  · exact hp

theorem properly_params (ps : List ParamDecl) :
    Properly (fun infos => ∀ p ∈ infos, p.ty.IsProper) (params sub ps line) := by
  refine .bind (properly_each (properly_param hsub) ps) fun found hfound => ?_
  split
  · exact .fail
  · next infos hinfos =>
    split
    · refine .pure fun p hp => ?_
      obtain ⟨q, hq, rfl⟩ := List.mem_map.1 hp
      have hsome : some q ∈ found := mapM_id_eq_some_iff.1 hinfos ▸ List.mem_map_of_mem hq
      exact isProper_adjustParam (hfound q hsome).ty
    · split
      · exact .failWith _ _
      · split
        · exact .failWith _ _
        · exact .pure (List.forall_mem_nil _)

theorem properly_linkWith (mode : DeclaratorMode) (id : DeclaratorId) {info : DeclaratorInfo}
    (hinfo : info.IsProper) : Properly DeclaratorInfo.IsProper (linkWith sub mode id info) := by
  refine .bind (.declarator id) fun d _ => ?_
  split
  · exact .pure ⟨hinfo.ty, hinfo.params⟩
  · exact .pure hinfo
  · exact hsub.link _ _ _ ⟨hinfo.ty.pointers _, hinfo.params⟩
  · exact .bind (properly_addDimensions hsub _ _ hinfo.ty) fun _ hty => hsub.link _ _ _ ⟨hty, hinfo.params⟩
  · refine .bind (properly_params hsub _) fun ps hps => ?_
    refine hsub.link _ _ _ ⟨.function hinfo.ty (fun t ht => ?_) _, fun qs hqs => Option.some.inj hqs ▸ hps⟩
    obtain ⟨p, hp, rfl⟩ := List.mem_map.1 ht
    exact hps p hp
  · exact hsub.link _ _ _ ⟨hinfo.ty, hinfo.params⟩

/-! ### Specifiers -/

theorem properly_field (kind : AggregateKind) {base : Ty} (hbase : base.IsProper) (id : DeclaratorId) :
    Properly (fun f => f.ty.IsProper) (Lower.field sub kind base id) := by
  refine .bind (.declarator id) fun d _ => .bind (properly_declare hsub _ _ hbase) fun info hinfo => ?_
  have hrest : Properly (fun f => f.ty.IsProper) (do
      if (info.ty.key?.map (← types).isDefined).getD true then
        return (⟨info.name.getD "", info.ty⟩ : Field)
      else failWith (.incompleteTypeUse (← describe info.ty)) d.line.toNat) := by
    refine .bind .types fun _ _ => ?_
    split
    · exact .pure hinfo.ty
    · exact .bind (.describe _) fun _ _ => .failWith _ _
  dsimp only
  split
  · exact .bind (.report _ _) fun _ _ => hrest
  · exact hrest

theorem properly_fieldsOf (kind : AggregateKind) (decl : VariableDecl) :
    Properly (fun fields => ∀ f ∈ fields, f.ty.IsProper) (fieldsOf sub kind decl) :=
  .bind (hsub.spec _) fun _ hbase => .bind (properly_each (properly_field hsub kind hbase) _) fun found hfound =>
    .pure fun f hf => hfound f (by simpa using hf)

theorem properly_defineAggregate (kind : AggregateKind) (decl : AggregateDecl) :
    Properly Ty.IsProper (defineAggregate sub kind decl line) := by
  refine .bind (properly_aggregateToDefine _ _) fun ty hty => ?_
  refine .bind (properly_each (properly_fieldsOf hsub kind) _) fun found hfound => ?_
  have hfields : ∀ f ∈ (found.filterMap id).flatten, f.ty.IsProper := fun f hf => by
    obtain ⟨fields, hfields, hf⟩ := List.mem_flatten.1 hf
    exact hfound fields (by simpa using hfields) f hf
  refine .bind .types fun types htypes => ?_
  split
  · next table htable => exact .withTypes fun _ _ => ⟨htypes.define hfields htable, hty⟩
  · exact .failWith _ _

theorem properly_aggregateType (kind : AggregateKind) (decl : AggregateDecl) :
    Properly Ty.IsProper (aggregateType sub kind decl line) := by
  unfold aggregateType
  split
  · exact properly_defineAggregate hsub kind decl
  · split
    · exact .failWith _ _
    · refine .bind .scopes fun scopes _ => ?_
      split
      · exact .pure (.kind kind _)
      · exact .failWith _ _

theorem properly_specWith (id : SpecId) : Properly Ty.IsProper (specWith sub id) := by
  refine .bind (.spec id) fun s _ => ?_
  dsimp only
  split
  · exact properly_namedType _
  · exact properly_aggregateType hsub _ _
  · exact properly_aggregateType hsub _ _
  · exact properly_bitFieldType _
  · exact properly_subTypeOf hsub _
  · exact .bind (hsub.spec _) fun _ hty => .pure (hty.pointers _)

/-! ### Operators -/

theorem properly_truth (e : ExprId) : Properly Operand.IsProper (truth sub e line) :=
  .bind (properly_subRvalue hsub e) fun _ hv => properly_toBool hv

omit hsub in
theorem isProper_ofBool (b : Bool) : (Operand.const (.ofBool b)).IsProper :=
  Operand.isProper_const (Constant.isProper_ofBool b)

theorem properly_logical (and : Bool) (left right : ExprId) :
    Properly Value.IsProper (logical sub and left right line) := by
  refine .bind (properly_truth hsub left) fun lb hlb => ?_
  split
  · split
    · exact .bind (properly_truth hsub right) fun _ hop => .pure (.of_op hop .bool)
    · exact .pure (.ofConstant (Constant.isProper_ofBool _) .bool)
  · refine .bind .currentBlock fun o _ => ?_
    split
    · exact .failWith _ _
    · next source =>
      refine .bind (.emit Build.properly_newBlock) fun rightBlock _ => ?_
      refine .bind (.emit Build.properly_newBlock) fun endBlock _ => ?_
      have hrest : Properly Value.IsProper (do
          setBlock rightBlock
          let rb ← truth sub right line
          let rightEnd := (← currentBlock).getD rightBlock
          emit line (Build.goto endBlock)
          setBlock endBlock
          let joined ← emit line
            (Build.phi [(.const (.ofBool !and), source), (rb, rightEnd)] .bool)
          return .ofOperand joined .bool) := by
        refine .bind (.setBlock _) fun _ _ => .bind (properly_truth hsub right) fun rb hrb => ?_
        refine .bind .currentBlock fun last _ => .bind (.emit (Build.properly_goto _)) fun _ _ => ?_
        have hsources : ∀ s ∈ [(Operand.const (.ofBool !and), source), (rb, last.getD rightBlock)], s.1.IsProper :=
          List.forall_mem_cons.2 ⟨isProper_ofBool _, List.forall_mem_singleton.2 hrb⟩
        exact .bind (.setBlock _) fun _ _ => .bind (.emit (Build.properly_phi hsources _)) fun _ hop =>
          .pure (.of_op hop .bool)
      split
      · exact .bind (.emit (Build.properly_branch hlb _ _)) fun _ _ => hrest
      · exact .bind (.emit (Build.properly_branch hlb _ _)) fun _ _ => hrest

theorem properly_binary (op : BinaryOp) (left right : ExprId) :
    Properly Value.IsProper (Lower.binary sub op left right line) := by
  unfold Lower.binary
  split
  · exact properly_logical hsub true left right
  · exact properly_logical hsub false left right
  · refine .bind (properly_subRvalue hsub left).attempt fun l hl => ?_
    refine .bind (properly_subRvalue hsub right).attempt fun r hr => ?_
    split
    · exact properly_combine (hl _ rfl) (hr _ rfl) op
    · exact .fail

omit hsub in
theorem isProper_floating (x : Float) (ty : Ty) : (Operand.const (.floating x ty)).IsProper :=
  Operand.isProper_const (by cases ty <;> trivial)

omit hsub in
theorem isProper_integral {ty : Ty} {v : Int} (hty : ty.IsProper) (hint : ty.isInteger = true)
    (hv : Signed.InRange Signed.unitBits v) : (Operand.const (.integral v ty)).IsProper :=
  Operand.isProper_const (Constant.isProper_integral hty hint hv)

/-- What a scalar is stepped by, has its type. -/
theorem properly_step (operand : ExprId) (up before : Bool) :
    Properly Value.IsProper (step sub operand up before line) := by
  refine .bind (.expr operand) fun node _ => .bind (properly_subStorage hsub operand) fun target htarget => ?_
  dsimp only
  split
  · exact .failWith _ _
  · next hassignable =>
    have hscalar : target.ty.isScalar = true := by
      rw [Bool.or_eq_true, Bool.or_eq_true, not_or] at hassignable
      simpa using hassignable.2
    refine .bind (.emit (Build.properly_load htarget.op _)) fun old hold => ?_
    have hrest : ∀ new : Operand, new.IsProper → Properly Value.IsProper (do
        emit line (Build.store target.op new)
        return .ofOperand (if before then new else old) target.ty) := fun new hnew =>
      .bind (.emit (Build.properly_store htarget.op hnew)) fun _ _ =>
        .pure (.of_op (by split <;> assumption) htarget.ty)
    split
    · exact .bind (.emit (Build.properly_offset hold (isProper_long _) _)) hrest
    · next hpointer =>
      split
      · refine .bind (.emit (Build.properly_binary hold (isProper_floating _ _) htarget.ty (.inl ?_))) hrest
        cases up <;> rfl
      · next hfloat =>
        split
        · exact .bind (.failWith _ _) hrest
        · -- A scalar that is neither a pointer nor a float is an integer.
          have hint : target.ty.isInteger = true := by
            simpa [Ty.isScalar, Ty.isArithmetic, hpointer, hfloat] using hscalar
          exact .bind (.emit (Build.properly_binary hold (isProper_integral htarget.ty hint (by decide)) htarget.ty
            (.inr hint))) hrest

theorem properly_addressOf (operand : ExprId) : Properly Value.IsProper (addressOf sub operand line) := by
  refine .bind (properly_subStorage hsub operand) fun v hv => ?_
  split
  · exact .pure (.of_op hv.op hv.ty.pointerTo)
  · exact .failWith _ _

theorem properly_deref (operand : ExprId) : Properly Value.IsProper (deref sub operand line) := by
  refine .bind (properly_subRvalue hsub operand) fun v hv => ?_
  split
  · exact .failWith _ _
  · next target htarget =>
    have hproper := hv.ty.pointee htarget
    split
    · exact .pure (.of_op hv.op hproper)
    · exact .pure (.of_op hv.op hproper)

theorem properly_negate (operand : ExprId) : Properly Value.IsProper (negate sub operand line) := by
  refine .bind (properly_subRvalue hsub operand) fun v hv => ?_
  split
  · exact .bind (.emit (Build.properly_binary hv.op (isProper_floating _ _) hv.ty (.inl rfl))) fun _ hop =>
      .pure (.of_op hop hv.ty)
  · split
    · next hint =>
      have hty : (if v.ty.isBool then Ty.word else v.ty).IsProper := by
        split
        · exact .word
        · exact hv.ty
      have hwide : (if v.ty.isBool then Ty.word else v.ty).isInteger = true := by
        split
        · rfl
        · exact hint
      exact .bind (properly_convert hv hty) fun _ hvalue =>
        .bind (.emit (Build.properly_binary (isProper_integral hty hwide (by decide)) hvalue hty (.inr hwide)))
          fun _ hop => .pure (.of_op hop hty)
    · exact .failWith _ _

theorem properly_unary (op : UnaryOp) (operand : ExprId) :
    Properly Value.IsProper (unary sub op operand line) := by
  cases op with
  | addressOf => exact properly_addressOf hsub operand
  | deref => exact properly_deref hsub operand
  | negate => exact properly_negate hsub operand
  | plus =>
    refine .bind (properly_subRvalue hsub operand) fun v hv => ?_
    split
    · exact .pure hv
    · exact .failWith _ _
  | not =>
    exact .bind (properly_truth hsub operand) fun _ hb => .bind (.emit (Build.properly_cmp _ hb (isProper_ofBool _)))
      fun _ hop => .pure (.of_op hop .bool)
  | bitNot =>
    refine .bind (properly_subRvalue hsub operand) fun v hv => ?_
    split
    · next hint =>
      exact .bind (.emit (Build.properly_binary hv.op (isProper_integral hv.ty hint (by decide)) hv.ty (.inr hint)))
        fun _ hop => .pure (.of_op hop hv.ty)
    · exact .failWith _ _
  | preIncrement => exact properly_step hsub operand true true
  | preDecrement => exact properly_step hsub operand false true

/-! ### Names and calls -/

omit hsub in
theorem isProper_integerLiteral (n : UInt64) : (integerLiteral n).IsProper := by
  unfold integerLiteral
  split
  · exact .ofConstant (Constant.isProper_ofInt (by decide) (by decide) _) .word
  · exact .ofConstant (Constant.isProper_ofInt (by decide) (by decide) _) .long

omit hsub in
theorem properly_addGlobal {g : Global} (hg : g.IsProper) :
    Properly Constant.IsProper (withBuilder (·.addGlobal g)) :=
  .withBuilder fun _ hb => ⟨hb.addGlobal hg, trivial⟩

omit hsub in
theorem properly_stringLiteral (s : String) : Properly Value.IsProper (stringLiteral s) := by
  refine .bind (P := fun p => p.1.IsProper ∧ p.2.IsProper) (.withBuilder fun b hb => ?_) fun _ hp =>
    .pure (.of_op (Operand.isProper_const hp.1) hp.2)
  exact ⟨hb.addGlobal fun c hc => Option.some.inj hc ▸ trivial, trivial, .array .char _⟩

omit hsub in
theorem properly_identifier (name : String) (globally : Bool) :
    Properly Value.IsProper (identifier name globally line) := by
  refine .bind .scopes fun scopes hscopes => ?_
  split
  · next b hb =>
    have hproper : b.IsProper := by
      split at hb
      · exact hscopes.of_globalVar? hb
      · exact hscopes.of_var? hb
    refine .pure ?_
    split
    · exact .of_op hproper.addr hproper.ty
    · exact .of_op hproper.addr hproper.ty
  · exact .failWith _ _

theorem properly_globalScope (operand : ExprId) : Properly Value.IsProper (globalScope sub operand line) := by
  refine .bind (.expr operand) fun e _ => ?_
  split
  · exact properly_identifier _ true
  · exact hsub.raw operand

omit hsub in
theorem properly_argument {v : Value} (hv : v.IsProper) {param : Option Ty}
    (hparam : ∀ t, param = some t → t.IsProper) : Properly Operand.IsProper (argument v param line) := by
  unfold argument
  split
  · next ty =>
    split
    · exact properly_loadAggregate hv
    · refine .bind (properly_convert hv (hparam ty rfl)).attempt fun o ho => ?_
      split
      · exact .pure (ho _ rfl)
      · exact .failWith _ _
  · split
    · exact .emit (Build.properly_cast hv.op .double nofun)
    · exact properly_loadAggregate hv

theorem properly_arguments (es : List ExprId) {ps : List Ty} (hps : ∀ t ∈ ps, t.IsProper) :
    Properly (fun ops => ∀ op ∈ ops, op.IsProper) (arguments sub line ps es) := by
  induction es generalizing ps with
  | nil => exact .pure (List.forall_mem_nil _)
  | cons e es ih =>
    refine .bind (properly_subRvalue hsub e) fun v hv => ?_
    refine .bind (properly_argument hv fun t ht => hps t (List.mem_of_mem_head? ht)) fun op hop => ?_
    exact .bind (ih fun t ht => hps t (List.mem_of_mem_tail ht)) fun _ hops =>
      .pure (List.forall_mem_cons.2 ⟨hop, hops⟩)

theorem properly_call (callee : ExprId) (args : List ExprId) :
    Properly Value.IsProper (call sub callee args line) := by
  refine .bind (.look _) fun on _ => ?_
  split
  · exact .failWith _ _
  · refine .bind (properly_subRvalue hsub callee) fun f hf => ?_
    split
    · exact .failWith _ _
    · next sig hsig =>
      obtain ⟨target, htarget, hsig⟩ := Option.bind_eq_some_iff.1 hsig
      obtain ⟨hresult, hparams⟩ := (hf.ty.pointee htarget).signature hsig
      split
      · exact .failWith _ _
      · exact .bind (properly_arguments hsub args hparams) fun _ hops =>
          .bind (.emit (Build.properly_call hf.op hops _)) fun _ hop => .pure (.of_op hop hresult)

/-! ### Parts of values -/

omit hsub in
theorem properly_fieldBase {v : Value} (hv : v.IsProper) :
    Properly (fun p => p.1.IsProper) (fieldBase v line) := by
  unfold fieldBase
  split
  · split
    · exact .pure hv.op
    · exact .bind (.emit (Build.properly_alloca _)) fun _ hslot =>
        .bind (.emit (Build.properly_store hslot hv.op)) fun _ _ => .pure hslot
  · refine .bind (properly_toRvalue hv) fun v hv => ?_
    split
    · split
      · exact .pure hv.op
      · exact .failWith _ _
    · exact .failWith _ _

theorem properly_fieldAccess (base : ExprId) (name : String) :
    Properly Value.IsProper (fieldAccess sub base name line) := by
  refine .bind (properly_subStorage hsub base) fun v hv => ?_
  refine .bind (properly_fieldBase hv) fun ⟨ptr, ty⟩ hptr => .bind .types fun types htypes => ?_
  dsimp only
  split
  · exact .bind (.describe _) fun _ _ => .failWith _ _
  · next d hd =>
    obtain ⟨key, -, hd⟩ := Option.bind_eq_some_iff.1 hd
    split
    · exact .bind (.describe _) fun _ _ => .failWith _ _
    · split
      · exact .failWith _ _
      · next i f hf =>
        have hfield := htypes.find? hd hf
        refine .bind (.emit ?_) fun _ hop => .pure (.of_op hop hfield)
        split
        · exact Build.properly_cast hptr hfield.pointerTo nofun
        · exact Build.properly_field hptr _ _

theorem properly_element (base position : ExprId) :
    Properly Value.IsProper (element sub base position line) := by
  refine .bind (properly_subStorage hsub base) fun b hb => ?_
  split
  · exact .failWith _ _
  · refine .bind (properly_toRvalue hb) fun ptr hptr => .bind (properly_subRvalue hsub position) fun index hindex => ?_
    split
    · exact .failWith _ _
    · exact .bind (properly_convert hindex .long) fun _ hindex =>
        .bind (.emit (Build.properly_offset hptr.op hindex _)) fun _ hop => .pure (.of_op hop hptr.ty.pointee_getD)

/-! ### Types of expressions -/

theorem properly_layoutQuery (id : SpecId) (size : Bool) :
    Properly Value.IsProper (layoutQuery sub id size line) := by
  refine .bind (hsub.spec id) fun ty _ => .bind .env fun env _ => .bind .types fun table _ => ?_
  split
  · split
    · exact .pure (.ofConstant (Constant.isProper_ofInt (by decide) (by decide) _) .long)
    · exact .failWith _ _
  · exact .halt _
  · exact .failWith _ _
  · exact .failWith _ _

theorem properly_cast (id : SpecId) (operand : ExprId) :
    Properly Value.IsProper (Lower.cast sub id operand line) := by
  refine .bind (hsub.spec id) fun ty hty => .bind (properly_subRvalue hsub operand) fun v hv => ?_
  split
  · exact .pure .nothing
  · exact .bind (properly_convertOrReport hv hty) fun _ hop => .pure (.of_op hop hty)

/-! ### Assignment -/

omit hsub in
theorem properly_putAggregate {addr : Operand} {v : Value} (haddr : addr.IsProper) (hv : v.IsProper) (ty : Ty) :
    StaysProper (putAggregate addr v ty line) := by
  unfold putAggregate
  split
  · exact .emit (Build.properly_copy haddr hv.op ty)
  · exact .emit (Build.properly_store haddr hv.op)

theorem properly_assignTo {target : Value} (htarget : target.IsProper) (value : ExprId) :
    Properly Value.IsProper (assignTo sub target value line) := by
  unfold assignTo
  split
  · refine .bind (properly_subStorage hsub value) fun v hv => ?_
    split
    · exact .failWith _ _
    · exact .bind (.emit (Build.properly_copy htarget.op hv.op _)) fun _ _ => .pure htarget
  · refine .bind (properly_subRvalue hsub value) fun v hv => ?_
    split
    · split
      · exact .failWith _ _
      · exact .bind (properly_putAggregate htarget.op hv _) fun _ _ => .pure htarget
    · exact .bind (properly_convertOrReport hv htarget.ty) fun _ hop =>
        .bind (.emit (Build.properly_store htarget.op hop)) fun _ _ => .pure (.of_op hop htarget.ty)

theorem properly_assign (target value : ExprId) : Properly Value.IsProper (assign sub target value line) := by
  refine .bind (.expr target) fun e _ => .bind (properly_subLvalue hsub target).attempt fun o ho => ?_
  split
  · exact .bind (.ignoring (properly_subRvalue hsub value)) fun _ _ => .fail
  · split
    · exact .failWith _ _
    · exact properly_assignTo hsub (ho _ rfl) value

/-! ### Choice -/

omit hsub in
theorem isProper_of_choiceTy? {yes no ty : Ty} (hyes : yes.IsProper) (hno : no.IsProper)
    (h : choiceTy? yes no = some ty) : ty.IsProper := by
  unfold choiceTy? at h
  split at h
  · exact Option.some.inj h ▸ hyes
  · split at h
    · rcases Ty.common?_eq_some h with rfl | rfl
      · exact hyes
      · exact hno
    · split at h
      · exact Option.some.inj h ▸ hyes
      · split at h
        · exact Option.some.inj h ▸ hno
        · cases h

omit hsub in
theorem properly_alternative {v : Value} {ty : Ty} (hv : v.IsProper) (hty : ty.IsProper) :
    Properly Operand.IsProper (alternative v ty line) := by
  unfold alternative
  split
  · exact .pure (Operand.isProper_const trivial)
  · split
    · split
      · exact .pure hv.op
      · exact .bind (.emit (Build.properly_alloca ty)) fun _ hslot =>
          .bind (.emit (Build.properly_store hslot hv.op)) fun _ _ => .pure hslot
    · exact properly_convertOrReport hv hty

omit hsub in
theorem properly_joinFrom {v : Value} {ty : Ty} (hv : v.IsProper) (hty : ty.IsProper) (source join : BlockId) :
    Properly (fun p => p.1.IsProper) (joinFrom source join v ty line) :=
  .bind (.setBlock _) fun _ _ => .bind (properly_alternative hv hty) fun _ hop => .bind .currentBlock fun _ _ =>
    .bind (.emit (Build.properly_goto _)) fun _ _ => .pure hop

theorem properly_alternativeIn (block : BlockId) (e : ExprId) :
    Properly (fun p => ∀ v, p.1 = some v → v.IsProper) (alternativeIn sub block e) :=
  .bind (.setBlock _) fun _ _ => .bind (properly_subRvalue hsub e).attempt fun _ hv => .bind .currentBlock fun _ _ =>
    .pure hv

theorem properly_conditional (cond yes no : ExprId) :
    Properly Value.IsProper (conditional sub cond yes no line) := by
  refine .bind (properly_truth hsub cond) fun c hc => ?_
  refine .bind (.emit Build.properly_newBlock) fun yesBlock _ => ?_
  refine .bind (.emit Build.properly_newBlock) fun noBlock _ => ?_
  refine .bind (.emit Build.properly_newBlock) fun join _ => ?_
  refine .bind (.emit (Build.properly_branch hc _ _)) fun _ _ => ?_
  refine .bind (properly_alternativeIn hsub yesBlock yes) fun ⟨y, yesEnd⟩ hy => ?_
  refine .bind (properly_alternativeIn hsub noBlock no) fun ⟨n, noEnd⟩ hn => ?_
  dsimp only at hy hn ⊢
  split
  · next y n =>
    have hyes := hy y rfl
    have hno := hn n rfl
    split
    · exact .failWith _ _
    · next ty hchoice =>
      have hty := isProper_of_choiceTy? hyes.ty hno.ty hchoice
      refine .bind (properly_joinFrom hyes hty _ _) fun fromYes hfromYes => ?_
      refine .bind (properly_joinFrom hno hty _ _) fun fromNo hfromNo => .bind (.setBlock _) fun _ _ => ?_
      have hsources : ∀ s ∈ [fromYes, fromNo], s.1.IsProper :=
        List.forall_mem_cons.2 ⟨hfromYes, List.forall_mem_singleton.2 hfromNo⟩
      split
      · exact .pure .nothing
      · split
        · exact .bind (.emit (Build.properly_phi hsources _)) fun _ hop => .pure (.of_op hop hty)
        · exact .bind (.emit (Build.properly_phi hsources _)) fun _ hop => .pure (.of_op hop hty)
  · exact .fail

theorem properly_comma (first second : ExprId) : Properly Value.IsProper (comma sub first second) :=
  .bind (properly_subRvalue hsub first) fun _ ha => .bind (hsub.raw second) fun _ hb =>
    .pure ⟨hb.op, hb.ty, List.forall_mem_append.2 ⟨ha.effects, List.forall_mem_cons.2 ⟨ha.op, hb.effects⟩⟩⟩

/-! ### All kinds -/

theorem properly_rawWith (e : ExprId) : Properly Value.IsProper (rawWith sub e) := by
  refine .bind (.expr e) fun node _ => ?_
  cases node.kind with
  | integer n => exact .pure (isProper_integerLiteral n)
  | char c => exact .pure (.ofConstant (Constant.isProper_ofInt (by decide) (by decide) _) .char)
  | bool b => exact .pure (.ofConstant (Constant.isProper_ofBool b) .bool)
  | double x => exact .pure (.ofConstant trivial .double)
  | str s => exact properly_stringLiteral s
  | identifier name => exact properly_identifier name false
  | globalScope operand => exact properly_globalScope hsub operand
  | call callee args => exact properly_call hsub callee args
  | field base name => exact properly_fieldAccess hsub base name
  | index base position => exact properly_element hsub base position
  | binary op left right => exact properly_binary hsub op left right
  | unary op operand => exact properly_unary hsub op operand
  | step op operand => exact properly_step hsub operand _ false
  | sizeOf id => exact properly_layoutQuery hsub id true
  | alignOf id => exact properly_layoutQuery hsub id false
  | cast id operand => exact properly_cast hsub id operand
  | assign target value => exact properly_assign hsub target value
  | conditional cond yes no => exact properly_conditional hsub cond yes no
  | comma first second => exact properly_comma hsub first second

omit hsub

/-! ### At every depth -/

/-- **At every depth, what is lowered is in range.** -/
theorem proper_descentTo (depth : Nat) : ProperDescent (descentTo depth) := by
  induction depth with
  | zero => exact ⟨fun _ => .halt _, fun _ => .halt _, fun _ _ _ _ => .halt _⟩
  | succ depth ih =>
    exact ⟨properly_rawWith ih, properly_specWith ih, fun mode id _ => properly_linkWith ih mode id⟩

theorem properly_descend {P : α → Prop} {step : Descent → Lower α}
    (h : ∀ sub, ProperDescent sub → Properly P (step sub)) : Properly P (descend step) :=
  fun env s hs => h _ (proper_descentTo _) env s hs

theorem properly_rvalue (e : ExprId) : Properly Value.IsProper (rvalue e) :=
  properly_descend fun _ hsub => properly_subRvalue hsub e

theorem properly_resolve (id : SpecId) : Properly Ty.IsProper (resolve id) :=
  properly_descend fun _ hsub => hsub.spec id

theorem properly_resolveDeclarator (mode : DeclaratorMode) (id : DeclaratorId) {base : Ty} (hbase : base.IsProper) :
    Properly DeclaratorInfo.IsProper (resolveDeclarator mode id base) :=
  properly_descend fun _ hsub => properly_declare hsub mode id hbase

theorem properly_resolveParams (ps : List ParamDecl) :
    Properly (fun infos => ∀ p ∈ infos, p.ty.IsProper) (resolveParams ps line) :=
  properly_descend fun _ hsub => properly_params hsub ps

end Lower

end TreeFlow
