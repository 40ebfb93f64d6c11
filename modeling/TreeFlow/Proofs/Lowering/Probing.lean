import TreeFlow.Proofs.Lowering.Reached

/-!
# Probing is invisible

To learn the type of an expression, or the number that it stands for, the expression is lowered in the
state at hand, calls, string literals and bodies of aggregates included, and the code is thrown away
again. Outside of functions it goes to a scratch function. Whatever the expression is, and whether it can
be lowered or not, the state is the one from before: its functions, globals and startup order, the cursor,
the mode, the loops, the labels and all names but tags (`probe_invisible`).

What stays behind are diagnostics, aggregates, and tags of aggregates.
-/

namespace TreeFlow.Lower

variable {α : Type} {env : Env} {s t : State}

/-- What a probe of a step that is calm comes to: the state before it, but for aggregates, tags and
diagnostics. -/
theorem Calm.exists_eq_of_probe {m : Lower α} (hm : Calm m) (hrun : (Lower.probe m).RunsTo env s t) :
    ∃ types structs unions, t = { s with
        builder := { s.builder with mod := { s.builder.mod with types } }
        scopes := s.scopes.bindTags structs unions
        diags := t.diags } ∧
      s.builder.mod.types.Extends types := by
  obtain ⟨o, hprobe, hstuck⟩ := hrun
  obtain ⟨rfl, rfl⟩ := Prod.mk.inj hprobe
  -- The step runs from the snapshot on, and what it comes to is restored.
  have hpeeks := (hm env { s with builder := s.builder.snapshot.2 }).of_runsTo ⟨_, rfl, hstuck⟩
  obtain ⟨structs, unions, heq⟩ := hpeeks.exists_eq_of_probe
  exact ⟨_, structs, unions, heq, hpeeks.extends_of_attempt⟩

/-- **Probing is invisible.** Whatever state an expression is looked at in, for its type or for a constant
dimension, the state behind is the same, but for the table of aggregates, tags that were bound in the
innermost frame, and diagnostics. The table has the entries from before in their places, each as it was or
with the fields that it did not have. Variables, types and labels are found as before. -/
theorem probe_invisible (depth : Nat) (e : ExprId)
    (hrun : ((descentTo depth).typeOf e).RunsTo env s t ∨ ((descentTo depth).constInt e).RunsTo env s t) :
    (∃ types structs unions, t = { s with
        builder := { s.builder with mod := { s.builder.mod with types } }
        scopes := s.scopes.bindTags structs unions
        diags := t.diags } ∧
      s.builder.mod.types.Extends types) ∧
    ∀ name, t.scopes.var? name = s.scopes.var? name ∧ t.scopes.type? name = s.scopes.type? name ∧
      t.scopes.label? name = s.scopes.label? name := by
  have hcalm := calm_descentTo depth
  have hleft : ∃ types structs unions, t = { s with
        builder := { s.builder with mod := { s.builder.mod with types } }
        scopes := s.scopes.bindTags structs unions
        diags := t.diags } ∧
      s.builder.mod.types.Extends types := by
    rcases hrun with htype | hconst
    · exact Calm.exists_eq_of_probe (.bind (.withLvalue false (hcalm.raw e)) fun _ => .pure _) htype
    · exact Calm.exists_eq_of_probe (.bind (calm_subRvalue hcalm e).attempt fun _ => .pure _) hconst
  refine ⟨hleft, fun name => ?_⟩
  obtain ⟨types, structs, unions, ht, -⟩ := hleft
  rw [ht]
  exact ⟨ScopeStack.var?_bindTags name, ScopeStack.type?_bindTags name, ScopeStack.label?_bindTags name⟩

/-- The dimension of `int a[sizeof(struct S { int x; })];` is looked at in a scratch function, of which
nothing is left. -/
theorem probe_invisible_dimension : ∃ t,
    ((descentTo 4).constInt ⟨0⟩).RunsTo ⟨dimensionTree, {}⟩ (.initial {}) t ∧
      t.scopes.tag? .struct "S" = some "struct.S" ∧ t.builder.mod.functions = #[] := by
  have hdone : ((descentTo 4).constInt ⟨0⟩ ⟨dimensionTree, {}⟩ (.initial {})).1.isDone := by decide +kernel
  have htag : ((descentTo 4).constInt ⟨0⟩ ⟨dimensionTree, {}⟩ (.initial {})).2.scopes.tag? .struct "S" =
      some "struct.S" := by decide +kernel
  -- The environment is kept opaque, so that nothing evaluates the lowering but the two lines above.
  obtain ⟨env, henv⟩ : ∃ env : Env, env = ⟨dimensionTree, {}⟩ := ⟨_, rfl⟩
  rw [← henv] at hdone htag ⊢
  have hrun := RunsTo.of_isDone hdone
  obtain ⟨⟨types, structs, unions, ht, -⟩, -⟩ := probe_invisible 4 ⟨0⟩ (.inr hrun)
  exact ⟨_, hrun, htag, by rw [ht]; rfl⟩

end TreeFlow.Lower
