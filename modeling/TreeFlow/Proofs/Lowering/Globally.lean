import TreeFlow.Proofs.Lowering.Overlooking

/-!
# Names behind `::`

The sign `::` makes a difference to a name that stands directly behind it, and to nothing else. Such a name is looked
up as it is written among what was declared outside of functions (`raw_globally_identifier`), so neither the
namespaces nor the blocks around matter (`overlooks_globally`). In front of any other expression, signs are left out
(`raw_globally`): the names in it are looked up from where they stand.
-/

namespace TreeFlow

/-- `e` is `y` behind so many signs `::`. -/
inductive Tree.Globally (t : Tree) (y : ExprId) : Nat → ExprId → Prop
  | bare : Globally t y 0 y
  | sign {n : Nat} {e x : ExprId} {line : UInt32} (he : t.expr? e = some ⟨.globalScope x, line⟩)
      (h : Globally t y n x) : Globally t y (n + 1) e

namespace Lower

variable {env : Env} {y e : ExprId} {n : Nat}

theorem raw_globalScope {e x : ExprId} {line : UInt32} {node : Expr} {depth : Nat} (s : State)
    (he : env.tree.expr? e = some ⟨.globalScope x, line⟩) (hx : env.tree.expr? x = some node) :
    (descentTo (depth + 1)).raw e env s =
      match node.kind with
      | .identifier name => identifier name true line.toNat env s
      | _ => (descentTo depth).raw x env s := by
  show rawWith (descentTo depth) e env s = _
  rw [rawWith, bind_run (expr_of_expr? s he)]
  show globalScope (descentTo depth) x line.toNat env s = _
  rw [globalScope, bind_run (expr_of_expr? s hx)]
  cases node.kind <;> rfl

/-- **A sign in front of anything but a name changes nothing,** however many there are. -/
theorem raw_globally {node : Expr} (hy : env.tree.expr? y = some node) (hkind : ∀ name, node.kind ≠ .identifier name)
    (h : env.tree.Globally y n e) (depth : Nat) (s : State) :
    (descentTo (depth + n)).raw e env s = (descentTo depth).raw y env s := by
  induction h with
  | bare => rfl
  | @sign n e x line he h ih =>
    rw [← ih, ← Nat.add_assoc]
    -- What stands behind the sign is no name: it is `y`, or it begins with another sign.
    cases h with
    | bare =>
      rw [raw_globalScope s he hy]
      split
      · next name hname => exact absurd hname (hkind name)
      · rfl
    | sign hx _ => rw [raw_globalScope s he hx]

/-- **A name behind a sign** is looked up outside of functions, as it is written. -/
theorem raw_globally_identifier {name : String} {line : UInt32}
    (hy : env.tree.expr? y = some ⟨.identifier name, line⟩) (h : env.tree.Globally y (n + 1) e) :
    ∃ place, ∀ depth s, (descentTo (depth + (n + 1))).raw e env s = identifier name true place env s := by
  induction n generalizing e with
  | zero =>
    cases h with
    | sign he h =>
      cases h with
      | bare => exact ⟨_, fun depth s => raw_globalScope s he hy⟩
  | succ n ih =>
    cases h with
    | sign he h =>
      obtain ⟨place, hplace⟩ := ih h
      refine ⟨place, fun depth s => ?_⟩
      rw [← hplace]
      cases h with
      | sign hx _ => exact raw_globalScope s he hx

/-- It means the same in whichever namespace it stands, and whatever is declared in functions. -/
theorem overlooks_globally {name : String} {line : UInt32} (hy : env.tree.expr? y = some ⟨.identifier name, line⟩)
    (h : env.tree.Globally y (n + 1) e) (depth : Nat) : Overlooks env ((descentTo depth).raw e) := by
  refine overlooks_descentTo ?_ depth
  induction n generalizing e with
  | zero =>
    cases h with
    | sign he h =>
      cases h with
      | bare => exact .global he hy
  | succ n ih =>
    cases h with
    | @sign _ _ x _ he h =>
      refine .node he nofun (fun c hc => ⟨x, by simpa [ExprKind.handles] using hc⟩) fun x' hx' => ?_
      obtain rfl : x' = x := by simpa [ExprKind.handles] using hx'
      exact ih h

end Lower

end TreeFlow
