import TreeFlow.Proofs.Lowering.TypedStatement

/-!
# Jumps stay in their function

Loops, labels that are awaited and labels that were placed are kept while lowering goes on, and what is kept must be
blocks of the function that code is written to (`State.OwnsTargets`). Every move keeps that up but one: a body that
begins inside of a loop, or while labels are awaited, outside of functions sees them, although they are blocks of the
startup routine (`Event.amid`). So **jumps stay in their function as long as no body begins amid such code**
(`Way.ownsTargets`), for what is left behind by a body is cleared when it ends.
-/

namespace TreeFlow.Lower

variable {s t : State} {events : List Event}

/-- Code is written to the function that it belongs to, and all that it may jump to are blocks of that function. -/
structure State.OwnsTargets (s : State) : Prop where
  building : ∀ id, s.builder.func = some id → s.home = some id
  loops : ∀ targets ∈ s.loops, s.Owns targets.brk ∧ s.Owns targets.cont
  pending : ∀ label ∈ s.pending, s.Owns label.block
  labels : ∀ entry ∈ s.scopes.labels, s.Owns entry.2

theorem State.ownsTargets_initial (config : Config) : (State.initial config).OwnsTargets where
  building _ h := nomatch h
  loops := List.forall_mem_nil _
  pending := List.forall_mem_nil _
  labels := List.forall_mem_nil _

/-- No target was added, and code belongs to the same function. -/
theorem State.OwnsTargets.later (h : s.OwnsTargets) (hmod : s.builder.mod.Retains t.builder.mod)
    (hhome : s.home.isSome → t.home = s.home) (hbuilding : ∀ id, t.builder.func = some id → t.home = some id)
    (hloops : t.loops ⊆ s.loops) (hpending : t.pending ⊆ s.pending) (hlabels : t.scopes.labels ⊆ s.scopes.labels) :
    t.OwnsTargets where
  building := hbuilding
  loops targets htargets :=
    have ⟨hbrk, hcont⟩ := h.loops targets (hloops htargets)
    ⟨hbrk.later hhome hmod, hcont.later hhome hmod⟩
  pending label hlabel := (h.pending label (hpending hlabel)).later hhome hmod
  labels entry hentry := (h.labels entry (hlabels hentry)).later hhome hmod

/-- **A move keeps all targets in the function**, unless a body begins amid other code. -/
theorem Move.ownsTargets (h : Move s events t) (hamid : .amid ∉ events) (hs : s.OwnsTargets) : t.OwnsTargets := by
  have hmod := h.retains
  cases h with
  | peeks h =>
    have hhome : t.home = s.home := by simp [State.home, h.func, h.startup]
    obtain ⟨structs, unions, hscopes⟩ := h.scopes
    refine hs.later hmod (fun _ => hhome) (fun id hid => ?_) (by simp [h.loops]) (by simp [h.pending]) (by simp [hscopes])
    exact hhome.trans (hs.building id (h.building.symm.trans hid))
  | openLoop hbrk hcont =>
    exact { hs with loops := List.forall_mem_cons.2 ⟨⟨hbrk, hcont⟩, hs.loops⟩ }
  | closeLoop => exact { hs with loops := fun targets htargets => hs.loops targets (List.mem_of_mem_tail htargets) }
  | await _ _ hblock =>
    exact { hs with pending := fun label hlabel =>
      (List.mem_append.1 hlabel).elim (hs.pending label) fun h => List.mem_singleton.1 h ▸ hblock }
  | @place name block scopes hnew hblock hplace =>
    have howned : s.Owns block := hblock.elim (fun hawaited => by
      obtain ⟨label, hlabel, rfl⟩ := Option.map_eq_some_iff.1 hawaited
      exact hs.pending label (List.mem_of_find?_eq_some hlabel)) And.right
    obtain rfl := ScopeStack.defineLabel_eq_ok hplace
    exact { hs with
      pending := fun label hlabel => hs.pending label (List.mem_of_mem_filter hlabel)
      labels := List.forall_mem_cons.2 ⟨howned, hs.labels⟩ }
  | forget => exact { hs with pending := fun label hlabel => hs.pending label (List.mem_of_mem_filter hlabel) }
  | settle => exact { hs with pending := List.forall_mem_nil _ }
  | rename => exact { hs with }
  | openBlock hopen =>
    obtain ⟨top, below, -, rfl⟩ := ScopeStack.openLocal_eq_ok hopen
    exact { hs with }
  | closeBlock hclose =>
    obtain ⟨top, next, below, -, rfl⟩ := ScopeStack.closeLocal_eq_ok hclose
    exact { hs with }
  | typeName name ty =>
    exact { hs with labels := by rw [ScopeStack.defineType, ScopeStack.labels_modifyTop]; exact hs.labels }
  | localName hlocals name b =>
    exact { hs with labels := by rw [ScopeStack.defineVar, ScopeStack.labels_modifyTop]; exact hs.labels }
  | openBody hfunc id result =>
    -- Nothing is left from outside of functions.
    have hnone : s.loops = [] ∧ s.pending = [] := by
      by_contra hne
      rw [if_neg hne] at hamid
      exact hamid (List.mem_singleton.2 rfl)
    exact {
      building := fun _ h => h
      loops := by rw [State.openBody, hnone.1]; exact List.forall_mem_nil _
      pending := by rw [State.openBody, hnone.2]; exact List.forall_mem_nil _
      labels := List.forall_mem_nil _ }
  | closeBody hprev =>
    exact {
      building := fun id hid => hprev.elim
        (fun hnone => absurd (hnone.symm.trans hid) (Option.some_ne_none id).symm) fun hroutine => hroutine.symm.trans hid
      loops := List.forall_mem_nil _
      pending := List.forall_mem_nil _
      labels := List.forall_mem_nil _ }
  | enterStartup hfunc h =>
    have hhome := State.home_of_func_eq_none (h.func.trans hfunc)
    refine hs.later hmod (fun hsome => ?_) (fun id hid => hhome.trans (h.building.symm.trans hid)) (by simp [h.loops])
      (by simp [h.pending]) (by simp [h.scopes])
    rw [State.home_of_func_eq_none hfunc] at hsome ⊢
    obtain ⟨before, hbefore⟩ := Option.isSome_iff_exists.1 (Option.isSome_map ▸ hsome)
    rw [hhome, h.routine before hbefore, hbefore]
    rfl
  | @leaveStartup prev hfunc hprev =>
    have hhome : State.home { s with
        startup := s.startup.map fun routine => { routine with block := s.builder.block }
        builder := s.builder.setFunction prev } = s.home := by simp [State.home, Function.comp_def]
    refine hs.later hmod (fun _ => hhome) (fun id hid => ?_) (List.Subset.refl _) (List.Subset.refl _) (List.Subset.refl _)
    rw [hhome, State.home_of_func_eq_none hfunc]
    exact hprev.elim (fun hnone => absurd (hnone.symm.trans hid) (Option.some_ne_none id).symm)
      fun hroutine => hroutine.symm.trans hid
  | _ => exact hs.later hmod (fun _ => rfl) hs.building (List.Subset.refl _) (List.Subset.refl _) (List.Subset.refl _)

/-- **Jumps stay in their function.** Wherever lowering is, as long as no body began inside of a loop or while labels
were awaited, outside of functions, the targets of all loops and labels are blocks of the function that code is written
to. -/
theorem Way.ownsTargets {config : Config} (h : Way (.initial config) events t) (hamid : .amid ∉ events) :
    t.OwnsTargets := by
  generalize hs : State.initial config = s at h
  induction h with
  | refl => exact hs ▸ State.ownsTargets_initial config
  | step _ hmove ih =>
    rw [List.mem_append, not_or] at hamid
    exact hmove.ownsTargets hamid.2 (ih hamid.1)

/-! ### Jumps -/

section Jumps

variable {env : Env} {line : Nat}

/-- A jump out of a loop, or to its next round, goes to a block of the function. -/
theorem State.OwnsTargets.exists_loopJump (hs : s.OwnsTargets) {target : LoopTargets → BlockId}
    (htarget : target = LoopTargets.brk ∨ target = LoopTargets.cont) {otherwise : DiagnosticKind}
    (hrun : loopJump target otherwise line env s = (.done (), t)) :
    ∃ block, s.Owns block ∧ Build.goto block s.builder = .ok ((), t.builder) := by
  obtain ⟨_, _, ⟨⟩, hrun⟩ := bind_eq_done hrun
  cases hloops : s.loops with
  | nil =>
    simp only [hloops] at hrun
    cases hrun
  | cons targets outer =>
    simp only [hloops] at hrun
    have hloop := hs.loops targets (hloops ▸ List.mem_cons_self)
    refine ⟨target targets, ?_, Leaves.of_emit hrun⟩
    rcases htarget with rfl | rfl
    · exact hloop.1
    · exact hloop.2

/-- Where a jump to a label goes: to where it leads already, or to a block that is made for it. -/
theorem labelTarget_eq_done {name : String} {block : BlockId} (hrun : labelTarget name line env s = (.done block, t)) :
    t = s ∧ s.target? name = some block ∨ s.target? name = none ∧ ∃ b, Build.newBlock s.builder = .ok (block, b) ∧
      t = { s with builder := b, pending := s.pending ++ [⟨name, block, line⟩] } := by
  obtain ⟨_, _, ⟨⟩, hrun⟩ := bind_eq_done hrun
  cases hplaced : s.scopes.label? name with
  | some placed =>
    simp only [hplaced] at hrun
    cases hrun
    exact .inl ⟨rfl, by rw [State.target?, hplaced]; rfl⟩
  | none =>
    simp only [hplaced] at hrun
    obtain ⟨_, _, ⟨⟩, hrun⟩ := bind_eq_done hrun
    cases hawaited : s.pending.find? (·.name == name) with
    | some label =>
      simp only [hawaited] at hrun
      cases hrun
      exact .inl ⟨rfl, by simp [State.target?, State.awaited?, hplaced, hawaited]⟩
    | none =>
      simp only [hawaited] at hrun
      obtain ⟨new, u, hemit, hrun⟩ := bind_eq_done hrun
      obtain ⟨b, hnew, rfl⟩ : ∃ b, Build.newBlock s.builder = .ok (new, b) ∧ u = { s with builder := b } := by
        have hnew := Leaves.of_emit hemit
        rw [emit, hnew] at hemit
        exact ⟨_, hnew, (Prod.mk.inj hemit).2.symm⟩
      obtain ⟨_, _, ⟨⟩, hrun⟩ := bind_eq_done hrun
      cases hrun
      exact .inr ⟨by simp [State.target?, State.awaited?, hplaced, hawaited], _, hnew, rfl⟩

/-- A jump to a label goes to a block of the function, and there the label leads from then on. -/
theorem State.OwnsTargets.exists_goto (hs : s.OwnsTargets) {name : String}
    (hrun : Lower.goto name line env s = (.done (), t)) :
    ∃ block u, labelTarget name line env s = (.done block, u) ∧ u.Owns block ∧ u.home = s.home ∧
      Build.goto block u.builder = .ok ((), t.builder) := by
  obtain ⟨block, u, htarget, hgoto⟩ := bind_eq_done hrun
  refine ⟨block, u, htarget, ?_⟩
  rcases labelTarget_eq_done htarget with ⟨rfl, hknown⟩ | ⟨hunknown, b, hnew, rfl⟩
  · refine ⟨?_, rfl, Leaves.of_emit hgoto⟩
    rcases Option.or_eq_some_iff.1 hknown with hplaced | ⟨-, hawaited⟩
    · obtain ⟨full, -, hfull⟩ := List.exists_of_findSome?_eq_some hplaced
      exact hs.labels _ (mem_of_lookup hfull)
    · obtain ⟨label, hlabel, rfl⟩ := Option.map_eq_some_iff.1 hawaited
      exact hs.pending label (List.mem_of_find?_eq_some hlabel)
  · obtain ⟨id, f, hbuilding, hf, -, hblock⟩ := Build.newBlock_ok hnew
    exact ⟨⟨id, f, hs.building id hbuilding, hf, hblock⟩, rfl, Leaves.of_emit hgoto⟩

end Jumps

end TreeFlow.Lower
