import TreeFlow.Proofs.Lowering.RegularExpression
import TreeFlow.Proofs.Lowering.TypedValue

/-!
# Typed declarators and specifiers

A node is lowered to what its tag says if its children are (`TypedDescent`). Type specifiers and declarators come
to types that are well formed, for a pointer is only made by `Ty.pointerTo`. A field that is an aggregate is
refused unless that one has its fields (`yields_field`), so an aggregate that is defined lies behind all that lie
in it (`yields_defineAggregate`).
-/

namespace TreeFlow

/-- The type that a declarator has come to is well formed, and so are those of the parameters. -/
structure DeclaratorInfo.WellFormed (info : DeclaratorInfo) : Prop where
  ty : info.ty.WellFormed
  params : ∀ ps, info.params = some ps → ∀ p ∈ ps, p.ty.WellFormed

/-- A field may be given to an aggregate: if it is one itself, it has its own fields. -/
structure Field.FitsIn (T : TypeTable) (f : Field) : Prop where
  ty : f.ty.WellFormed
  inner : ∀ key, f.ty.key? = some key → T.isDefined key = true

theorem Field.FitsIn.extends {T U : TypeTable} {f : Field} (h : f.FitsIn T) (hTU : T.Extends U) : f.FitsIn U where
  ty := h.ty
  inner key hkey := hTU.isDefined (h.inner key hkey)

theorem TypeTable.IsTyped.declare {T : TypeTable} (h : T.IsTyped) (kind : AggregateKind) (name : String) :
    (T.declare kind name).2.IsTyped where
  fields := h.fields.declare kind name
  layered := h.layered.declare kind name

theorem TypeTable.IsTyped.define {T U : TypeTable} {key : String} {fields : List Field} (h : T.IsTyped)
    (hdefine : T.define key fields = .ok U) (hfields : ∀ f ∈ fields, f.FitsIn T) : U.IsTyped where
  fields := h.fields.define (fun f hf => (hfields f hf).ty) hdefine
  layered := h.layered.define hdefine fun f hf => (hfields f hf).inner

namespace Lower

variable {α β : Type} {s : State} {env : Env} {line : Nat}

/-- However the children of nodes of a tree are lowered, they are what their tags say. -/
structure TypedDescent (env : Env) (sub : Descent) : Prop where
  raw : ∀ (s : State) e, s.Yields env (sub.raw e) (Value.IsTyped env.tree)
  spec : ∀ (s : State) id, s.Yields env (sub.spec id) fun _ ty => ty.WellFormed
  link : ∀ (s : State) mode id info, info.WellFormed →
    s.Yields env (sub.link mode id info) fun _ info => info.WellFormed

/-! ### Lists and tags -/

/-- What was found of one item is still so behind the others. -/
theorem yields_each {P : Builder → β → Prop} {step : α → Lower β}
    (hmono : ∀ (s t : State) b, s.GoesTo t → P s.builder b → P t.builder b)
    (h : ∀ (s : State) a, s.Yields env (step a) P) (items : List α) :
    s.Yields env (each step items) fun b found => ∀ c, some c ∈ found → P b c := by
  induction items generalizing s with
  | nil => exact .pure fun _ h => absurd h List.not_mem_nil
  | cons a rest ih =>
    refine .bind (h s a).attempt fun o t _ ho => .bind ih fun found u htu hfound => .pure fun c hc => ?_
    rcases List.mem_cons.1 hc with hc | hc
    · exact hmono t u c htu (ho c hc.symm)
    · exact hfound c hc

theorem yields_declareType (kind : AggregateKind) (name : String) :
    s.Yields env (withTypes (·.declare kind name)) fun b ty =>
      ∃ key, ty = kind.ty key ∧ b.mod.types.kindOf? key = some kind :=
  .withTypes (TypeTable.extends_declare _ kind name) (fun h => h.declare kind name)
    ⟨_, rfl, TypeTable.kindOf?_declare_self _ kind name⟩

theorem yields_declareTag (kind : AggregateKind) (name : String) :
    s.Yields env (declareTag kind name) fun _ ty => ty.WellFormed := by
  refine .bind_read (.bind (yields_declareType kind _) fun ty t _ hty => ?_)
  obtain ⟨key, rfl, hkind⟩ := hty
  have hdefine : t.Yields env (updateScopes (·.defineTag kind name key)) fun _ _ => True :=
    .of_done rfl (fun ht => ⟨.of_tag name hkind, rfl, ht.types⟩) fun _ => trivial
  simp only [AggregateKind.key?_ty]
  exact .bind hdefine fun _ _ _ _ => .pure (.ofKind kind key)

theorem yields_declareAggregate (kind : AggregateKind) (name : String) :
    s.Yields env (declareAggregate kind name) fun _ ty => ty.WellFormed := by
  refine .bind_read ?_
  split
  · exact .pure (.ofKind kind _)
  · exact yields_declareTag kind name

theorem yields_aggregateToDefine (kind : AggregateKind) (name : Option String) :
    s.Yields env (aggregateToDefine kind name line) fun _ ty => ty.WellFormed := by
  unfold aggregateToDefine
  split
  · refine (yields_declareType kind "anon").imp fun _ ty hty => ?_
    obtain ⟨key, rfl, -⟩ := hty
    exact .ofKind kind key
  · refine .bind_read ?_
    split
    · exact yields_declareTag kind _
    · refine .bind_types ?_
      split
      · exact .failWith _ _
      · exact .pure (.ofKind kind _)

theorem yields_namedType (name : String) : s.Yields env (namedType name line) fun _ ty => ty.WellFormed := by
  unfold namedType
  split
  · next ty hty => exact .pure (.primitive hty)
  · refine .of_known fun hs => .bind_read ?_
    split
    · next ty hty => exact .pure (hs.names.of_type? hty)
    · split
      · exact .failWith _ _
      · split <;> exact .failWith _ _

theorem yields_bitFieldType (width : Nat) : s.Yields env (bitFieldType width line) fun _ ty => ty.WellFormed := by
  unfold bitFieldType
  split
  · exact .failWith _ _
  · dsimp only
    split
    · exact .bind (.report _ _) fun _ _ _ _ => .pure (.bitField width)
    · exact .pure (.bitField width)

variable {sub : Descent} (hsub : TypedDescent env sub)
include hsub

/-! ### Children -/

theorem yields_subRvalue (e : ExprId) : s.Yields env (sub.rvalue e) (Value.IsLoaded env.tree) := by
  refine .withLvalue false (.bind (hsub.raw _ e) fun v t hst hv => .bind_read ?_)
  rw [hst.mode]
  exact .bind_expr fun _ _ => (yields_toRvalue hv).imp fun _ _ h => h.1

theorem yields_subExpr (e : ExprId) : s.Yields env (sub.expr e) (Value.IsTyped env.tree) := by
  refine .bind (hsub.raw _ e) fun v t hst hv => .bind_read ?_
  split
  · exact .pure hv
  · exact .bind_expr fun _ _ => (yields_toRvalue hv).imp fun _ _ h => h.1.toIsTyped

theorem yields_subLvalue (e : ExprId) : s.Yields env (sub.lvalue e) (Value.IsTyped env.tree) :=
  .withLvalue true (yields_subExpr hsub e)

theorem yields_subStorage (e : ExprId) : s.Yields env (sub.storage e) (Value.IsTyped env.tree) :=
  .withLvalue true (hsub.raw _ e)

theorem yields_subTypeOf (e : ExprId) : s.Yields env (sub.typeOf e) fun _ ty => ty.WellFormed :=
  .probe (P := Ty.WellFormed) (.bind (.withLvalue false (hsub.raw _ e)) fun _ _ _ hv => .pure hv.ty)

theorem yields_subConstInt (e : ExprId) : s.Yields env (sub.constInt e) fun _ _ => True :=
  .probe (P := fun _ => True) (.bind (yields_subRvalue hsub e).attempt fun _ _ _ _ => .pure trivial)

/-! ### Declarators -/

theorem yields_arrayLength (e : ExprId) : s.Yields env (arrayLength sub e line) fun _ _ => True := by
  refine .bind (yields_subConstInt hsub e) fun o _ _ _ => ?_
  split
  · split
    · exact .pure trivial
    · exact .failWith _ _
  · exact .failWith _ _

theorem yields_addDimensions (mode : DeclaratorMode) (dims : List (Option ExprId)) {ty : Ty} (hty : ty.WellFormed) :
    s.Yields env (addDimensions sub mode line dims ty) fun _ ty => ty.WellFormed := by
  induction dims generalizing s ty with
  | nil => exact .pure hty
  | cons dim dims ih =>
    unfold addDimensions
    split
    · exact ih hty.pointerTo
    · exact ih hty.pointerTo
    · exact .bind (yields_arrayLength hsub _) fun length _ _ _ => ih (.array hty length)

theorem yields_declare (mode : DeclaratorMode) (id : DeclaratorId) {base : Ty} (hbase : base.WellFormed) :
    s.Yields env (declare sub mode id base) fun _ info => info.WellFormed := by
  refine .bind_declarator fun d => ?_
  refine .bind (hsub.link _ mode id _ ⟨hbase, fun _ h => by cases h⟩) fun info _ _ hinfo => ?_
  split
  · exact .failWith _ _
  · exact .pure hinfo

theorem yields_param (p : ParamDecl) : s.Yields env (param sub line p) fun _ info => info.WellFormed := by
  refine .bind (hsub.spec _ p.spec) fun base _ _ hbase => ?_
  split
  · exact yields_declare hsub _ _ hbase
  · exact .pure ⟨hbase, fun _ h => by cases h⟩

omit hsub in
theorem wellFormed_adjustParam {p : DeclaratorInfo} (hp : p.ty.WellFormed) : (adjustParam p).ty.WellFormed := by
  unfold adjustParam
  split
  · exact hp.pointerTo
  · exact hp

theorem yields_params (ps : List ParamDecl) :
    s.Yields env (params sub ps line) fun _ infos => ∀ p ∈ infos, p.ty.WellFormed := by
  refine .bind (yields_each (fun _ _ _ _ => id) (fun _ => yields_param hsub) ps) fun found _ _ hfound => ?_
  split
  · exact .fail
  · next infos hinfos =>
    split
    · refine .pure fun p hp => ?_
      obtain ⟨q, hq, rfl⟩ := List.mem_map.1 hp
      have hsome : some q ∈ found := mapM_id_eq_some_iff.1 hinfos ▸ List.mem_map_of_mem hq
      exact wellFormed_adjustParam (hfound q hsome).ty
    · split
      · exact .failWith _ _
      · split
        · exact .failWith _ _
        · exact .pure (List.forall_mem_nil _)

theorem yields_linkWith (mode : DeclaratorMode) (id : DeclaratorId) {info : DeclaratorInfo}
    (hinfo : info.WellFormed) : s.Yields env (linkWith sub mode id info) fun _ info => info.WellFormed := by
  refine .bind_declarator fun d => ?_
  split
  · exact .pure ⟨hinfo.ty, hinfo.params⟩
  · exact .pure hinfo
  · exact hsub.link _ _ _ _ ⟨hinfo.ty.pointers _, hinfo.params⟩
  · exact .bind (yields_addDimensions hsub _ _ hinfo.ty) fun _ _ _ hty => hsub.link _ _ _ _ ⟨hty, hinfo.params⟩
  · refine .bind (yields_params hsub _) fun ps _ _ hps => ?_
    refine hsub.link _ _ _ _ ⟨.function hinfo.ty (fun t ht => ?_) _, fun qs hqs => Option.some.inj hqs ▸ hps⟩
    obtain ⟨p, hp, rfl⟩ := List.mem_map.1 ht
    exact hps p hp
  · exact hsub.link _ _ _ _ ⟨hinfo.ty, hinfo.params⟩

/-! ### Specifiers -/

omit hsub in
theorem State.GoesTo.fitsIn {t : State} {f : Field} (hst : s.GoesTo t) (h : f.FitsIn s.builder.mod.types) :
    f.FitsIn t.builder.mod.types := h.extends hst.mod.types

/-- A field is refused if it is an aggregate that has no fields yet. -/
theorem yields_field (kind : AggregateKind) {base : Ty} (hbase : base.WellFormed) (id : DeclaratorId) :
    s.Yields env (Lower.field sub kind base id) fun b f => f.FitsIn b.mod.types := by
  refine .bind_declarator fun d => .bind (yields_declare hsub _ _ hbase) fun info t _ hinfo => ?_
  have hrest : ∀ u : State, u.Yields env (do
      if (info.ty.key?.map (← types).isDefined).getD true then
        return (⟨info.name.getD "", info.ty⟩ : Field)
      else failWith (.incompleteTypeUse (← describe info.ty)) d.line.toNat) fun b f => f.FitsIn b.mod.types := by
    refine fun u => .bind_types ?_
    split
    · next hcomplete => exact .pure ⟨hinfo.ty, fun key hkey => by simpa [hkey] using hcomplete⟩
    · exact .bind_describe fun _ => .failWith _ _
  dsimp only
  split
  · exact .bind (.report _ _) fun _ u _ _ => hrest u
  · exact hrest t

theorem yields_fieldsOf (kind : AggregateKind) (decl : VariableDecl) :
    s.Yields env (fieldsOf sub kind decl) fun b fields => ∀ f ∈ fields, f.FitsIn b.mod.types :=
  .bind (hsub.spec _ _) fun _ _ _ hbase =>
    .bind (yields_each (P := fun b f => f.FitsIn b.mod.types) (fun _ _ _ hst => hst.fitsIn)
      (fun _ => yields_field hsub kind hbase) _) fun found _ _ hfound => .pure fun f hf => hfound f (by simpa using hf)

theorem yields_defineAggregate (kind : AggregateKind) (decl : AggregateDecl) :
    s.Yields env (defineAggregate sub kind decl line) fun _ ty => ty.WellFormed := by
  refine .bind (yields_aggregateToDefine _ _) fun ty _ _ hty => ?_
  refine .bind (yields_each (P := fun b fields => ∀ f ∈ fields, f.FitsIn b.mod.types)
    (fun _ _ _ hst h f hf => hst.fitsIn (h f hf)) (fun _ => yields_fieldsOf hsub kind) _) fun found t _ hfound => ?_
  have hfields : ∀ f ∈ (found.filterMap id).flatten, f.FitsIn t.builder.mod.types := fun f hf => by
    obtain ⟨fields, hfields, hf⟩ := List.mem_flatten.1 hf
    exact hfound fields (by simpa using hfields) f hf
  refine .bind_types ?_
  split
  · next table htable => exact .withTypes (TypeTable.extends_define htable) (fun h => h.define htable hfields) hty
  · exact .failWith _ _

theorem yields_aggregateType (kind : AggregateKind) (decl : AggregateDecl) :
    s.Yields env (aggregateType sub kind decl line) fun _ ty => ty.WellFormed := by
  unfold aggregateType
  split
  · exact yields_defineAggregate hsub kind decl
  · split
    · exact .failWith _ _
    · refine .bind_read ?_
      split
      · exact .pure (.ofKind kind _)
      · exact .failWith _ _

theorem yields_specWith (id : SpecId) : s.Yields env (specWith sub id) fun _ ty => ty.WellFormed := by
  refine .bind_spec fun d => ?_
  dsimp only
  split
  · exact yields_namedType _
  · exact yields_aggregateType hsub _ _
  · exact yields_aggregateType hsub _ _
  · exact yields_bitFieldType _
  · exact yields_subTypeOf hsub _
  · exact .bind (hsub.spec _ _) fun _ _ _ hty => .pure (hty.pointers _)

end Lower

end TreeFlow
