import TreeFlow.Proofs.Lowering.Names

/-!
# What looking at an expression changes

An expression, a specifier or a declarator writes to the function that is being built and to no other one.
It adds globals and aggregates, gives fields to aggregates without any, and binds tags in the innermost
frame. The loops around, the labels that are pending and the startup routine stay as they are
(`State.Peeks`).

When it was only looked at, the code and the globals are thrown away again. Then all that is left are
aggregates, tags and diagnostics (`State.Peeks.exists_eq_of_probe`).
-/

namespace TreeFlow.Lower

/-- An expression was lowered, or a part of one. -/
structure State.Peeks (s t : State) : Prop where
  func : t.func = s.func
  building : t.builder.func = s.builder.func
  loops : t.loops = s.loops
  pending : t.pending = s.pending
  startup : t.startup = s.startup
  scopes : ∃ structs unions, t.scopes = s.scopes.bindTags structs unions
  mod : s.builder.mod.GrowsAt s.builder.func t.builder.mod
  tags : s.TagsResolve → t.TagsResolve

namespace State.Peeks

variable {s t u : State}

theorem trans (hst : s.Peeks t) (htu : t.Peeks u) : s.Peeks u where
  func := htu.func.trans hst.func
  building := htu.building.trans hst.building
  loops := htu.loops.trans hst.loops
  pending := htu.pending.trans hst.pending
  startup := htu.startup.trans hst.startup
  scopes := by
    obtain ⟨structs, unions, ht⟩ := hst.scopes
    obtain ⟨structs', unions', hu⟩ := htu.scopes
    exact ⟨_, _, by rw [hu, ht, ScopeStack.bindTags_bindTags]⟩
  mod := hst.mod.trans (hst.building ▸ htu.mod)
  tags h := htu.tags (hst.tags h)

/-- The builder did something. -/
theorem of_writes {b : Builder} (h : s.builder.Writes b) : s.Peeks { s with builder := b } where
  func := rfl
  building := h.func
  loops := rfl
  pending := rfl
  startup := rfl
  scopes := ⟨[], [], by simp⟩
  mod := h.mod
  tags hs := by
    unfold TagsResolve at hs ⊢
    rwa [h.types]

/-- Nothing changed but what is queued and the mode. -/
theorem of_quiet (hfunc : t.func = s.func) (hbuilder : t.builder = s.builder) (hscopes : t.scopes = s.scopes)
    (hloops : t.loops = s.loops) (hpending : t.pending = s.pending) (hstartup : t.startup = s.startup) :
    s.Peeks t where
  func := hfunc
  building := by rw [hbuilder]
  loops := hloops
  pending := hpending
  startup := hstartup
  scopes := ⟨[], [], by rw [hscopes, ScopeStack.bindTags_nil]⟩
  mod := hbuilder ▸ .refl _ _
  tags h := by
    unfold TagsResolve at h ⊢
    rwa [hbuilder, hscopes]

theorem refl (s : State) : s.Peeks s := .of_quiet rfl rfl rfl rfl rfl rfl

/-- Aggregates were declared or defined. -/
theorem of_types {types : TypeTable} (h : s.builder.mod.types.Extends types) :
    s.Peeks { s with builder := { s.builder with mod := { s.builder.mod with types } } } where
  func := rfl
  building := rfl
  loops := rfl
  pending := rfl
  startup := rfl
  scopes := ⟨[], [], by simp⟩
  mod := .of_functions rfl rfl ⟨#[], by simp⟩ h rfl
  tags htags frame hframe kind tag htag := h.retains _ _ (htags frame hframe kind tag htag)

/-- A tag was bound to the key of an aggregate of its kind. -/
theorem of_tag {kind : AggregateKind} {key : String} (name : String)
    (h : s.builder.mod.types.kindOf? key = some kind) :
    s.Peeks { s with scopes := s.scopes.defineTag kind name key } where
  func := rfl
  building := rfl
  loops := rfl
  pending := rfl
  startup := rfl
  scopes := s.scopes.exists_bindTags_eq_defineTag kind name key
  mod := .refl _ _
  tags htags frame hframe kind' tag htag := by
    rcases ScopeStack.mem_frames_modifyTop hframe with hold | rfl
    · exact htags frame hold kind' tag htag
    · have htop := htags _ s.scopes.top_mem_frames kind'
      -- The one entry that is new is that of the tag.
      cases kind <;> cases kind' <;> simp only [Frame.tags, List.mem_cons] at htag htop
      · exact htag.elim (fun heq => heq ▸ h) (htop tag)
      · exact htop tag htag
      · exact htop tag htag
      · exact htag.elim (fun heq => heq ▸ h) (htop tag)

/-- Nothing is taken away. -/
theorem retains (h : s.Peeks t) : s.Retains t where
  func := h.func
  building := h.building
  startup := by rw [h.startup]
  globals := by
    obtain ⟨structs, unions, ht⟩ := h.scopes
    rw [ht, ScopeStack.globalVars_bindTags]
  locals := by
    obtain ⟨structs, unions, ht⟩ := h.scopes
    rw [ht, ScopeStack.localVars_bindTags]
  mod := h.mod.keeps
  tags := h.tags

end State.Peeks

/-! ### Attempts -/

namespace State.Peeks

variable {s t : State} (h : State.Peeks { s with builder := s.builder.snapshot.2 } t)
include h

/-- The table of aggregates grows in an attempt. -/
theorem extends_of_attempt : s.builder.mod.types.Extends t.builder.mod.types := by
  have hgrows := h.mod.types
  rwa [Builder.types_snapshot] at hgrows

/-- **What is left of a probe**: the state is as before, but for aggregates, tags of the innermost frame, and
diagnostics. -/
theorem exists_eq_of_probe : ∃ structs unions, { t with
      builder := t.builder.restore s.builder.snapshot.1 .types, lvalue := s.lvalue } = { s with
    builder := { s.builder with mod := { s.builder.mod with types := t.builder.mod.types } }
    scopes := s.scopes.bindTags structs unions
    diags := t.diags } := by
  obtain ⟨structs, unions, hscopes⟩ := h.scopes
  refine ⟨structs, unions, ?_⟩
  have hrestore := Builder.restore_eq h.mod .types
  obtain ⟨builder, scopes, diags, lvalue, loops, func, pending, startup⟩ := t
  obtain rfl : func = s.func := h.func
  obtain rfl : loops = s.loops := h.loops
  obtain rfl : pending = s.pending := h.pending
  obtain rfl : startup = s.startup := h.startup
  obtain rfl : scopes = s.scopes.bindTags structs unions := hscopes
  exact congrArg (State.mk · _ diags s.lvalue _ _ _ _) hrestore

/-- The scopes stayed as they were left, and the aggregates with them. -/
theorem of_attempt (keep : Keep) (hkeep : keep ≠ .nothing) (on : Bool) :
    s.Peeks { t with builder := t.builder.restore s.builder.snapshot.1 keep, lvalue := on } := by
  have hrestore := Builder.restore_eq h.mod keep
  rw [if_neg hkeep] at hrestore
  exact {
    func := h.func
    building := by rw [hrestore]
    loops := h.loops
    pending := h.pending
    startup := h.startup
    scopes := h.scopes
    mod := by
      rw [hrestore]
      refine .of_functions rfl rfl ?_ h.extends_of_attempt rfl
      obtain ⟨more, hmore, hinternal⟩ := h.mod.globals
      rw [Builder.globals_snapshot_mod] at hmore
      dsimp only
      split
      · exact ⟨more, hmore, hinternal⟩
      · exact ⟨#[], by simp⟩
    tags := fun htags frame hframe kind tag htag => by
      rw [hrestore]
      refine h.tags (fun frame hframe kind tag htag => ?_) frame hframe kind tag htag
      rw [Builder.types_snapshot]
      exact htags frame hframe kind tag htag }

/-- The scopes were brought back, and the aggregates with them. -/
theorem of_undone (diags : DiagnosticQueue) : s.Peeks { t with
    builder := t.builder.restore s.builder.snapshot.1 .nothing, scopes := s.scopes, diags } :=
  .of_quiet h.func (Builder.restore_eq h.mod .nothing) rfl h.loops h.pending h.startup

end State.Peeks

end TreeFlow.Lower
