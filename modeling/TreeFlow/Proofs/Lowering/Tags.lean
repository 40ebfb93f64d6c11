import TreeFlow.Lower.Spec
import TreeFlow.Proofs.Lowering.Sound
import TreeFlow.Proofs.Scope.Layers

/-!
# Bodies of structs and unions

A body belongs to the aggregate that the tag stands for in the innermost scope around that declares it, of those
around the place in the function (`ScopeStack.nearestTag?`). If that aggregate has a body, the definition is reported
and does nothing else (`defineAggregate_redefined`); if it has none, it is the one that gets the body, also where it
was declared by a block around (`defineAggregate_completes`). Only a tag that no scope of the function declares stands
for a new aggregate (`defineAggregate_new`).
-/

namespace TreeFlow.Lower

variable {env : Env} {s t : State} {own : ScopeStack} {sub : Descent} {kind : AggregateKind} {name key : String}
  {decl : AggregateDecl} {ty : Ty} {line : Nat}

/-- The key of the aggregate that is made for a tag. -/
def State.newKey (s : State) (kind : AggregateKind) (name : String) : String :=
  s.builder.mod.types.freshKey s!"{kind.text}.{s.scopes.qualify name}"

/-- The state with a new aggregate for a tag. -/
def State.withTag (s : State) (kind : AggregateKind) (name : String) : State :=
  let types := (s.builder.mod.types.declare kind (s.scopes.qualify name)).2
  { s with
    builder := { s.builder with mod := { s.builder.mod with types } }
    scopes := s.scopes.defineTag kind name (s.newKey kind name) }

theorem newKey_not_mem (s : State) (kind : AggregateKind) (name : String) :
    s.newKey kind name ∉ s.builder.mod.types.keys := TypeTable.freshKey_not_mem _ _

theorem declareTag_eq (env : Env) (s : State) (kind : AggregateKind) (name : String) :
    declareTag kind name env s = (.done (kind.ty (s.newKey kind name)), s.withTag kind name) := by
  cases kind <;> rfl

/-- The state with one more diagnostic. -/
def State.reporting (s : State) (d : Diagnostic) : State := { s with diags := s.diags.push d }

/-- **The aggregate that a body belongs to** is the one of the innermost scope around that declares the tag. -/
theorem aggregateToDefine_eq (h : s.scopes = own.layered) :
    aggregateToDefine kind (some name) line env s =
      (own.nearestTag? kind name).elim (.done (kind.ty (s.newKey kind name)), s.withTag kind name) fun key =>
        if s.builder.mod.types.isDefined key then
          (.failed, s.reporting ⟨redefinedTag name kind, env.tree.file, line⟩)
        else (.done (kind.ty key), s) := by
  have hscopes : read (·.scopes) env s = (.done s.scopes, s) := rfl
  have htypes : types env s = (.done s.builder.mod.types, s) := rfl
  have hfound : s.scopes.tagInScope? kind name = own.nearestTag? kind name := by rw [h, own.tagInScope?_layered]
  rw [aggregateToDefine, bind_run hscopes, hfound]
  cases own.nearestTag? kind name with
  | none => exact declareTag_eq env s kind name
  | some key =>
    dsimp only
    rw [Option.elim_some, bind_run htypes]
    split <;> rfl

/-- What is defined is the aggregate that the body belongs to, and it has a body then. -/
theorem defineAggregate_eq_done (h : defineAggregate sub kind decl line env s = (.done ty, t)) :
    ∃ u, aggregateToDefine kind decl.name line env s = (.done ty, u) ∧
      t.builder.mod.types.isDefined (ty.key?.getD "") := by
  obtain ⟨ty', u, hwhich, h⟩ := bind_eq_done h
  obtain ⟨found, v, -, h⟩ := bind_eq_done h
  obtain ⟨table, w, -, h⟩ := bind_eq_done h
  cases hdefine : table.define (ty'.key?.getD "") (found.filterMap id).flatten with
  | error fault =>
    rw [hdefine] at h
    cases h
  | ok table' =>
    rw [hdefine] at h
    obtain ⟨hty, rfl⟩ := Prod.mk.inj h
    obtain rfl := Outcome.done.inj hty
    exact ⟨u, hwhich, TypeTable.isDefined_of_define hdefine⟩

/-! ### Definitions -/

section Definitions

variable (hscopes : s.scopes = own.layered) (hname : decl.name = some name)
include hscopes hname

/-- **A second body is reported,** also if the first one stands in a block around. Nothing else is done. -/
theorem defineAggregate_redefined (hkey : own.nearestTag? kind name = some key)
    (hbody : s.builder.mod.types.isDefined key) :
    defineAggregate sub kind decl line env s =
      (.failed, s.reporting ⟨redefinedTag name kind, env.tree.file, line⟩) := by
  have hfails : aggregateToDefine kind decl.name line env s =
      (.failed, s.reporting ⟨redefinedTag name kind, env.tree.file, line⟩) := by
    rw [hname, aggregateToDefine_eq hscopes, hkey]
    exact if_pos hbody
  show Lower.bind (aggregateToDefine kind decl.name line) _ env s = _
  rw [Lower.bind, hfails]

/-- **A declaration gets the body,** also if it stands in a block around. -/
theorem defineAggregate_completes (hkey : own.nearestTag? kind name = some key)
    (h : defineAggregate sub kind decl line env s = (.done ty, t)) :
    ty = kind.ty key ∧ s.builder.mod.types.isDefined key = false ∧ t.builder.mod.types.isDefined key := by
  obtain ⟨u, hwhich, hbody⟩ := defineAggregate_eq_done h
  rw [hname, aggregateToDefine_eq hscopes, hkey, Option.elim_some] at hwhich
  split at hwhich
  · cases hwhich
  · next hopen =>
    obtain ⟨hty, -⟩ := Prod.mk.inj hwhich
    obtain rfl := Outcome.done.inj hty
    rw [AggregateKind.key?_ty] at hbody
    exact ⟨rfl, by simpa using hopen, hbody⟩

/-- **Another tag stands for a new aggregate,** one that no type was made of before. -/
theorem defineAggregate_new (hfree : own.nearestTag? kind name = none)
    (h : defineAggregate sub kind decl line env s = (.done ty, t)) :
    ty = kind.ty (s.newKey kind name) ∧ s.newKey kind name ∉ s.builder.mod.types.keys ∧
      t.builder.mod.types.isDefined (s.newKey kind name) := by
  obtain ⟨u, hwhich, hbody⟩ := defineAggregate_eq_done h
  rw [hname, aggregateToDefine_eq hscopes, hfree] at hwhich
  obtain ⟨hty, -⟩ := Prod.mk.inj hwhich
  obtain rfl := Outcome.done.inj hty
  rw [AggregateKind.key?_ty] at hbody
  exact ⟨rfl, newKey_not_mem s kind name, hbody⟩

end Definitions

end TreeFlow.Lower
