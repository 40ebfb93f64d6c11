import TreeFlow.Lower.Spec
import TreeFlow.Proofs.Lowering.Operators

/-!
# Types and declarators

Resolving a type writes no code: what the expressions in it are lowered to is thrown away. It declares
and defines aggregates, which no code depends on.
-/

namespace TreeFlow.Lower.Site

variable {α β : Type} {env : Env} {line : Nat} {x : Site}

/-! ### Aggregates -/

theorem reads_withTypes (f : TypeTable → α × TypeTable) :
    x.Reads env (withTypes f) fun _ _ => True :=
  reads_of_same (Q := fun _ => True) (Runs.of_done rfl ⟨⟨rfl, rfl, rfl, rfl⟩, trivial⟩)

theorem context_defineTag (s : State) (kind : AggregateKind) (name key : String) :
    { s with scopes := s.scopes.defineTag kind name key }.context = s.context := by
  cases kind <;> cases hl : s.scopes.locals <;>
    simp [State.context, ScopeStack.defineTag, ScopeStack.modifyTop, hl]

theorem reads_defineTag (kind : AggregateKind) (name key : String) :
    x.Reads env (updateScopes (·.defineTag kind name key)) fun _ _ => True :=
  reads_of_same (Q := fun _ => True)
    (Runs.of_done rfl ⟨⟨rfl, rfl, rfl, context_defineTag _ _ _ _⟩, trivial⟩)

theorem reads_declareTag (kind : AggregateKind) (name : String) :
    x.Reads env (declareTag kind name) fun _ _ => True := by
  refine .bind_read ((reads_withTypes _).bind fun ty y _ _ => ?_)
  split
  · exact (reads_defineTag _ _ _).bind fun _ _ _ _ => .pure trivial
  · exact .pure trivial

theorem reads_declareAggregate (kind : AggregateKind) (name : String) :
    x.Reads env (declareAggregate kind name) fun _ _ => True := by
  refine .bind_read ?_
  split
  · exact .pure trivial
  · exact reads_declareTag kind name

theorem reads_aggregateToDefine (kind : AggregateKind) (name : Option String) :
    x.Reads env (aggregateToDefine kind name line) fun _ _ => True := by
  unfold aggregateToDefine
  split
  · exact reads_withTypes _
  · refine .bind_read ?_
    split
    · exact reads_declareTag _ _
    · refine .bind_read ?_
      split
      · exact reads_failWith
      · exact .pure trivial

/-! ### Lists -/

/-- What every item does, the list does. -/
theorem reads_each {step : α → Lower β} (items : List α)
    (hstep : ∀ (x : Site) a, x.Reads env (step a) fun _ _ => True) :
    x.Reads env (each step items) fun _ _ => True := by
  induction items generalizing x with
  | nil => exact .pure trivial
  | cons a rest ih =>
    exact (hstep x a).attempt.bind fun _ _ _ _ => ih.bind fun _ _ _ _ => .pure trivial

variable {sub : Descent} (hsub : sub.Sound)
include hsub

/-! ### Declarators -/

theorem reads_arrayLength (e : ExprId) : x.Reads env (arrayLength sub e line) fun _ _ => True := by
  refine (reads_constInt hsub e).bind fun o y _ _ => ?_
  split
  · split
    · exact .pure trivial
    · exact reads_failWith
  · exact reads_failWith

theorem reads_addDimensions (mode : DeclaratorMode) (dims : List (Option ExprId)) (ty : Ty) :
    x.Reads env (addDimensions sub mode line dims ty) fun _ _ => True := by
  induction dims generalizing x ty with
  | nil => exact .pure trivial
  | cons dim dims ih =>
    unfold addDimensions
    split
    · exact ih _
    · exact ih _
    · exact (reads_arrayLength hsub _).bind fun _ _ _ _ => ih _

theorem reads_declare (mode : DeclaratorMode) (id : DeclaratorId) (base : Ty) :
    x.Reads env (declare sub mode id base) fun _ _ => True := by
  refine .bind_declarator fun _ _ => (hsub.link env x _ _ _).bind fun info y _ _ => ?_
  split
  · exact reads_failWith
  · exact .pure trivial

theorem reads_param (p : ParamDecl) : x.Reads env (param sub line p) fun _ _ => True := by
  refine (hsub.spec env x _).bind fun base y _ _ => ?_
  split
  · exact reads_declare hsub _ _ _
  · exact .pure trivial

theorem reads_params (ps : List ParamDecl) : x.Reads env (params sub ps line) fun _ _ => True := by
  refine (reads_each ps fun _ p => reads_param hsub p).bind fun found y _ _ => ?_
  split
  · exact .fail
  · split
    · exact .pure trivial
    · split
      · exact reads_failWith
      · split
        · exact reads_failWith
        · exact .pure trivial

theorem reads_linkWith (mode : DeclaratorMode) (id : DeclaratorId) (info : DeclaratorInfo) :
    x.Reads env (linkWith sub mode id info) fun _ _ => True := by
  refine .bind_declarator fun d _ => ?_
  split
  · exact .pure trivial
  · exact .pure trivial
  · exact hsub.link env x _ _ _
  · exact (reads_addDimensions hsub _ _ _).bind fun _ y _ _ => hsub.link env y _ _ _
  · exact (reads_params hsub _).bind fun _ y _ _ => hsub.link env y _ _ _
  · exact hsub.link env x _ _ _

/-! ### Specifiers -/

omit hsub in
theorem reads_namedType (name : String) : x.Reads env (namedType name line) fun _ _ => True := by
  unfold namedType
  split
  · exact .pure trivial
  · refine .bind_read ?_
    split
    · exact .pure trivial
    · split
      · exact reads_failWith
      · split
        · exact reads_failWith
        · exact reads_failWith

theorem reads_field (kind : AggregateKind) (base : Ty) (id : DeclaratorId) :
    x.Reads env (Lower.field sub kind base id) fun _ _ => True := by
  refine .bind_declarator fun d _ => (reads_declare hsub _ _ _).bind fun info y _ _ => ?_
  have hrest : ∀ y : Site, y.Reads env (do
      if (info.ty.key?.map (← types).isDefined).getD true then
        return (⟨info.name.getD "", info.ty⟩ : Field)
      else failWith (.incompleteTypeUse (← describe info.ty)) d.line.toNat) fun _ _ => True := by
    intro y
    refine .bind_read ?_
    split
    · exact .pure trivial
    · exact .bind_read reads_failWith
  dsimp only
  split
  · exact (reads_report _ _).bind fun _ y _ _ => hrest y
  · exact hrest y

theorem reads_fieldsOf (kind : AggregateKind) (decl : VariableDecl) :
    x.Reads env (fieldsOf sub kind decl) fun _ _ => True :=
  (hsub.spec env x _).bind fun _ _ _ _ =>
    (reads_each _ fun _ _ => reads_field hsub _ _ _).bind fun _ _ _ _ => .pure trivial

theorem reads_defineAggregate (kind : AggregateKind) (decl : AggregateDecl) :
    x.Reads env (defineAggregate sub kind decl line) fun _ _ => True := by
  refine (reads_aggregateToDefine _ _).bind fun ty y _ _ => ?_
  refine (reads_each _ fun _ _ => reads_fieldsOf hsub _ _).bind fun found z _ _ => ?_
  refine .bind_read ?_
  split
  · exact reads_withTypes _
  · exact reads_failWith

theorem reads_aggregateType (kind : AggregateKind) (decl : AggregateDecl) :
    x.Reads env (aggregateType sub kind decl line) fun _ _ => True := by
  unfold aggregateType
  split
  · exact reads_defineAggregate hsub _ _
  · split
    · exact reads_failWith
    · refine .bind_read ?_
      split
      · exact .pure trivial
      · exact reads_failWith

omit hsub in
theorem reads_bitFieldType (width : Nat) :
    x.Reads env (bitFieldType width line) fun _ _ => True := by
  unfold bitFieldType
  split
  · exact reads_failWith
  · dsimp only
    split
    · exact (reads_report _ _).bind fun _ _ _ _ => .pure trivial
    · exact .pure trivial

theorem reads_specWith (id : SpecId) : x.Reads env (specWith sub id) fun _ _ => True := by
  refine .bind_spec fun s _ => ?_
  dsimp only
  split
  · exact reads_namedType _
  · exact reads_aggregateType hsub _ _
  · exact reads_aggregateType hsub _ _
  · exact reads_bitFieldType _
  · exact reads_typeOf hsub _
  · exact (hsub.spec env x _).bind fun _ _ _ _ => .pure trivial

end TreeFlow.Lower.Site
