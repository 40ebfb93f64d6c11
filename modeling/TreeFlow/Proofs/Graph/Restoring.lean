import TreeFlow.Proofs.Graph.Actions

/-!
# What a snapshot brings back

Between a snapshot and its restoration anything may be asked of a builder, and other snapshots may be taken
and restored (`Builder.Session`). Afterwards the cursor, the aggregates and the globals are what they were,
and no function is left that was added. Two things are not undone (`Builder.restore_session`): functions that
run before `main` stay in their list, and of the functions that were there only the one that was being built
is put back, so code in another one stays if the builder was moved there. Where neither happens, the builder
is the same as before (`Builder.restore_session_eq`).
-/

namespace TreeFlow

namespace Builder

variable {s a b c : Builder} {acts inner : List Builder.Action} {K : FuncId → Prop}

/-- A builder is used, as listed, and snapshots that are taken on the way are restored in turn. -/
inductive Session : Builder → List Action → Builder → Prop
  | nil (b : Builder) : Session b [] b
  | act {a b : Builder} {acts : List Action} (h : Session a acts b) (x : Action) :
      Session a (acts ++ [x]) (x.perform b)
  | probe {a b c : Builder} {acts inner : List Action} (h : Session a acts b)
      (hinner : Session b.snapshot.2 inner c) (keep : Keep) :
      Session a (acts ++ inner) (c.restore b.snapshot.1 keep)

/-- The functions that are made to run before `main`. -/
def ctorsOf (acts : List Action) : List (Nat × FuncId) :=
  acts.filterMap fun
    | .addCtor priority id => some (priority, id)
    | _ => none

/-! ### What one operation spares -/

/-- Between two stages of a builder, nothing was taken away, and of the functions that were there only those
in `K` may have changed. The function being built is one of these. -/
structure Spares (K : FuncId → Prop) (s b : Builder) : Prop where
  name : b.mod.name = s.mod.name
  globals : ∃ more, b.mod.globals = s.mod.globals ++ more
  size : s.mod.functions.size ≤ b.mod.functions.size
  spared : ∀ id, id.index < s.mod.functions.size → ¬ K id → b.mod.function? id = s.mod.function? id
  func : ∀ id, b.func = some id → K id

namespace Spares

theorem refl (h : ∀ id, s.func = some id → K id) : s.Spares K s :=
  ⟨rfl, ⟨#[], by simp⟩, Nat.le_refl _, fun _ _ _ => rfl, h⟩

/-- The functions are the same. -/
theorem of_functions (h : s.Spares K b) (hname : c.mod.name = b.mod.name)
    (hglobals : ∃ more, c.mod.globals = b.mod.globals ++ more)
    (hfunctions : c.mod.functions = b.mod.functions) (hfunc : ∀ id, c.func = some id → K id) :
    s.Spares K c where
  name := hname.trans h.name
  globals := by
    obtain ⟨more, hmore⟩ := h.globals
    obtain ⟨most, hmost⟩ := hglobals
    exact ⟨more ++ most, by rw [hmost, hmore, Array.append_assoc]⟩
  size := hfunctions ▸ h.size
  spared id hid hK := by
    rw [Module.function?, hfunctions]
    exact h.spared id hid hK
  func := hfunc

/-- Only the function being built is written to. -/
theorem of_writes (h : s.Spares K b) (hwrites : b.Writes c) : s.Spares K c where
  name := hwrites.mod.name.trans h.name
  globals := by
    obtain ⟨more, hmore⟩ := h.globals
    obtain ⟨most, hmost, -⟩ := hwrites.mod.globals
    exact ⟨more ++ most, by rw [hmost, hmore, Array.append_assoc]⟩
  size := hwrites.mod.size ▸ h.size
  spared id hid hK := (hwrites.mod.elsewhere id fun hfunc => hK (h.func id hfunc)).trans (h.spared id hid hK)
  func id hid := h.func id (hwrites.func ▸ hid)

/-- A function that is added comes behind those that are there. -/
theorem declareFunction (h : s.Spares K b) (name : String) (sig : Signature) (linkage : Linkage) :
    s.Spares K (b.declareFunction name sig linkage).2 where
  name := h.name
  globals := h.globals
  size := Nat.le_trans h.size (by simp [Builder.declareFunction, Module.addFunction])
  spared id hid hK := by
    rw [← h.spared id hid hK]
    exact Array.getElem?_push_lt (Nat.lt_of_lt_of_le hid h.size) |>.trans
      (Array.getElem?_eq_getElem (Nat.lt_of_lt_of_le hid h.size)).symm
  func := h.func

/-- A snapshot may start a scratch function, which was not there before. -/
theorem snapshot (h : s.Spares K b) (hnew : ∀ id, s.mod.functions.size ≤ id.index → K id) :
    s.Spares K b.snapshot.2 where
  name := by
    rw [← h.name, Builder.snapshot]
    split <;> rfl
  globals := b.globals_snapshot_mod ▸ h.globals
  size := Nat.le_trans h.size b.size_le_snapshot
  spared id hid hK := (b.function?_snapshot (Nat.lt_of_lt_of_le hid h.size)).trans (h.spared id hid hK)
  func id hid := by
    by_contra hK
    have hlt : id.index < s.mod.functions.size := Nat.lt_of_not_le fun hle => hK (hnew id hle)
    exact b.func_snapshot_ne (Nat.lt_of_lt_of_le hlt h.size) (fun hfunc => hK (h.func id hfunc)) hid

theorem perform (h : s.Spares K b) (hnew : ∀ id, s.mod.functions.size ≤ id.index → K id) (x : Action)
    (hset : ∀ id, x = .setFunction (some id) → K id) : s.Spares K (x.perform b) := by
  have hnone : ∃ more, b.mod.globals = b.mod.globals ++ more := ⟨#[], by simp⟩
  have hpush : ∀ g : Global, ∃ more, b.mod.globals.push g = b.mod.globals ++ more :=
    fun g => ⟨#[g], Array.push_eq_append⟩
  cases x with
  | op o => exact h.of_writes (o.writes b)
  | declareFunction name sig linkage => exact h.declareFunction name sig linkage
  | setFunction id =>
    refine h.of_functions rfl hnone rfl fun j hj => ?_
    obtain rfl : id = some j := hj
    exact hset j rfl
  | setBlock c => exact h.of_functions rfl hnone rfl h.func
  | addGlobal g => exact h.of_functions rfl (hpush g) rfl h.func
  | globalString text => exact h.of_functions rfl (hpush _) rfl h.func
  | declareType kind name => exact h.of_functions rfl hnone rfl h.func
  | defineType key fields =>
    rw [Action.perform]
    split <;> exact h.of_functions rfl hnone rfl h.func
  | addCtor priority id => exact h.of_functions rfl hnone rfl h.func
  | snapshot => exact h.snapshot hnew

end Spares

/-! ### What a session spares -/

theorem ctors_perform (x : Action) (b : Builder) :
    (x.perform b).mod.ctors = b.mod.ctors ++ ctorsOf [x] := by
  cases x with
  | op o => simp [Action.perform, ctorsOf, (o.writes b).mod.ctors]
  | defineType key fields =>
    rw [Action.perform]
    split <;> simp [ctorsOf]
  | snapshot =>
    rw [Action.perform, Builder.snapshot]
    split <;> simp [ctorsOf, declareFunction, setFunction, Module.addFunction, Module.modifyFunction]
  | _ => simp [Action.perform, ctorsOf, declareFunction, setFunction, setBlock, globalString, addGlobal,
      Module.addFunction, Module.addGlobal, Module.addCtor]

/-- What is brought back, apart from the functions. -/
theorem restore_fields (b : Builder) (t : Snapshot) (keep : Keep) :
    (b.restore t keep).func = t.func ∧ (b.restore t keep).block = t.block ∧
      (b.restore t keep).mod.name = b.mod.name ∧ (b.restore t keep).mod.ctors = b.mod.ctors ∧
      ((b.restore t keep).mod.types = if keep = .nothing then t.types else b.mod.types) ∧
      (b.restore t keep).mod.globals =
        if keep = .typesAndGlobals then b.mod.globals else b.mod.globals.take t.globals := by
  cases t with
  | mk func block function functions globals types =>
    cases func <;> cases function <;> cases keep <;> exact ⟨rfl, rfl, rfl, rfl, rfl, rfl⟩

theorem Session.ctors (h : Session a acts b) : b.mod.ctors = a.mod.ctors ++ ctorsOf acts := by
  induction h with
  | nil b => simp [ctorsOf]
  | act _ x ih => rw [ctors_perform, ih, List.append_assoc, ctorsOf, ctorsOf, ctorsOf, ← List.filterMap_append]
  | @probe a b c acts inner _ _ keep ih ihinner =>
    have hsnapshot : b.snapshot.2.mod.ctors = b.mod.ctors :=
      (ctors_perform .snapshot b).trans (List.append_nil _)
    rw [(c.restore_fields _ keep).2.2.2.1, ihinner, hsnapshot, ih, List.append_assoc, ctorsOf, ctorsOf, ctorsOf,
      ← List.filterMap_append]

/-- As many functions are left as there were. The one that was being built is put back, and the others are
as they have become. -/
theorem Spares.functions_restore (h : a.Spares K b) (keep : Keep) :
    (b.restore a.snapshot.1 keep).mod.functions.size = a.mod.functions.size ∧
      ∀ id, id.index < a.mod.functions.size →
        (a.func = some id → (b.restore a.snapshot.1 keep).mod.function? id = a.mod.function? id) ∧
        (a.func ≠ some id → (b.restore a.snapshot.1 keep).mod.function? id = b.mod.function? id) := by
  have htake := getElem?_take_of_le b.mod.functions h.size
  have hsize : (b.mod.functions.take a.mod.functions.size).size = a.mod.functions.size := by
    simp [Nat.min_eq_left h.size]
  cases hf : a.function? with
  | none =>
    have hfunctions := functions_restore_of_none b hf keep
    refine ⟨by rw [hfunctions, hsize], fun id hid => ⟨fun hfunc => ?_, fun _ => ?_⟩⟩
    · rw [function?, hfunc] at hf
      exact absurd hid (Nat.not_lt_of_le (Array.getElem?_eq_none_iff.1 hf))
    · rw [Module.function?, hfunctions, htake, if_pos hid]
      rfl
  | some f =>
    obtain ⟨j, hfunc, hsaved⟩ := Option.bind_eq_some_iff.1 hf
    have hfunctions := functions_restore_of_some b hfunc hf keep
    refine ⟨by rw [hfunctions, Array.size_modify, hsize], fun id hid => ⟨fun hid' => ?_, fun hne => ?_⟩⟩
    · obtain rfl : j = id := Option.some.inj (hfunc.symm.trans hid')
      rw [Module.function?, hfunctions, Array.getElem?_modify, if_pos rfl, htake, if_pos hid, hsaved,
        Array.getElem?_eq_getElem (Nat.lt_of_lt_of_le hid h.size)]
      rfl
    · have hj : j.index ≠ id.index := fun heq => hne (by rw [hfunc]; cases j; cases id; exact congrArg _ (congrArg _ heq))
      rw [Module.function?, hfunctions, Array.getElem?_modify, if_neg hj, htake, if_pos hid]
      rfl

/-- A snapshot that is restored leaves what was spared in between, and what the snapshot puts back. -/
theorem Spares.restore (hs : s.Spares K a) (h : s.Spares K b) (hab : a.Spares (fun _ => True) b)
    (keep : Keep) : s.Spares K (b.restore a.snapshot.1 keep) := by
  obtain ⟨hfunc, -, hname, -, -, hglobals⟩ := b.restore_fields a.snapshot.1 keep
  have hfunctions := hab.functions_restore keep
  refine ⟨hname.trans h.name, ?_, ?_, fun id hid hK => ?_, fun id hid => ?_⟩
  · rw [hglobals]
    split
    · exact h.globals
    · obtain ⟨more, hmore⟩ := hab.globals
      have htake : b.mod.globals.take a.snapshot.1.globals = a.mod.globals := by
        simp [hmore, globals_snapshot]
      exact htake.symm ▸ hs.globals
  · exact hfunctions.1 ▸ hs.size
  · rw [(hfunctions.2 id (Nat.lt_of_lt_of_le hid hs.size)).2 fun hid => hK (hs.func id hid)]
    exact h.spared id hid hK
  · exact hs.func id (by rwa [hfunc, func_snapshot] at hid)

theorem Session.spares (h : Session a acts b) (hs : s.Spares K a)
    (hnew : ∀ id, s.mod.functions.size ≤ id.index → K id)
    (hset : ∀ id, .setFunction (some id) ∈ acts → K id) : s.Spares K b := by
  induction h generalizing s K with
  | nil b => exact hs
  | act _ x ih =>
    refine (ih hs hnew fun id hid => hset id (List.mem_append_left _ hid)).perform hnew x fun id hid => ?_
    exact hset id (List.mem_append_right _ (hid ▸ List.mem_singleton_self _))
  | @probe a b c acts inner _ _ keep ih ihinner =>
    have hb := ih hs hnew fun id hid => hset id (List.mem_append_left _ hid)
    have hbb : b.Spares (fun _ => True) b := .refl fun _ _ => trivial
    refine hb.restore (ihinner (hb.snapshot hnew) hnew fun id hid => hset id (List.mem_append_right _ hid))
      (ihinner (hbb.snapshot fun _ _ => trivial) (fun _ _ => trivial) fun _ _ => trivial) keep

/-- **What a snapshot brings back.** When everything since is to be thrown away, the cursor, the aggregates
and the globals are what they were, and there are as many functions. The function that was being built is put
back, and all others that the builder was not moved to are untouched. -/
theorem restore_session (h : Session s.snapshot.2 acts b) :
    let r := b.restore s.snapshot.1 .nothing
    r.func = s.func ∧ r.block = s.block ∧ r.mod.name = s.mod.name ∧ r.mod.types = s.mod.types ∧
      r.mod.globals = s.mod.globals ∧ r.mod.ctors = s.mod.ctors ++ ctorsOf acts ∧
      r.mod.functions.size = s.mod.functions.size ∧
      ∀ id, id.index < s.mod.functions.size → (s.func = some id ∨ .setFunction (some id) ∉ acts) →
        r.mod.function? id = s.mod.function? id := by
  let K : FuncId → Prop := fun id =>
    s.func = some id ∨ s.mod.functions.size ≤ id.index ∨ .setFunction (some id) ∈ acts
  have hs : s.Spares K s := .refl fun id hid => .inl hid
  have hspares : s.Spares K b :=
    h.spares (hs.snapshot fun id hid => .inr (.inl hid)) (fun id hid => .inr (.inl hid))
      fun id hid => .inr (.inr hid)
  obtain ⟨hfunc, hblock, hname, hctors, htypes, hglobals⟩ := b.restore_fields s.snapshot.1 .nothing
  obtain ⟨hsize, hfunctions⟩ := hspares.functions_restore .nothing
  have hsnapshot : s.snapshot.2.mod.ctors = s.mod.ctors :=
    (ctors_perform .snapshot s).trans (List.append_nil _)
  refine ⟨hfunc.trans s.func_snapshot, hblock.trans ?_, hname.trans hspares.name,
    htypes.trans s.savedTypes_snapshot, hglobals.trans ?_, ?_, hsize, fun id hid hkept => ?_⟩
  · rw [Builder.snapshot]
    split <;> rfl
  · obtain ⟨more, hmore⟩ := hspares.globals
    simp [hmore, globals_snapshot]
  · rw [hctors, h.ctors, hsnapshot]
  · by_cases hid' : s.func = some id
    · exact (hfunctions id hid).1 hid'
    · refine ((hfunctions id hid).2 hid').trans (hspares.spared id hid ?_)
      rintro (hfunc | hnew | hset)
      · exact hid' hfunc
      · exact Nat.not_lt_of_le hnew hid
      · exact (hkept.resolve_left hid') hset

/-- **A snapshot brings back the builder**, if no function is made to run before `main` and the builder is
moved to no other function that was there before. -/
theorem restore_session_eq (h : Session s.snapshot.2 acts b) (hctors : ctorsOf acts = [])
    (hset : ∀ id, .setFunction (some id) ∈ acts → s.func = some id ∨ s.mod.functions.size ≤ id.index) :
    b.restore s.snapshot.1 .nothing = s := by
  obtain ⟨hfunc, hblock, hname, htypes, hglobals, hctors', hsize, hfunctions⟩ := restore_session h
  have hmod : (b.restore s.snapshot.1 .nothing).mod.functions = s.mod.functions := by
    refine Array.ext_getElem? fun i => ?_
    by_cases hi : i < s.mod.functions.size
    · refine hfunctions ⟨i⟩ hi ?_
      by_cases hmem : .setFunction (some ⟨i⟩) ∈ acts
      · exact .inl ((hset ⟨i⟩ hmem).resolve_right (Nat.not_le_of_lt hi))
      · exact .inr hmem
    · rw [Array.getElem?_eq_none (hsize ▸ Nat.le_of_not_lt hi), Array.getElem?_eq_none (Nat.le_of_not_lt hi)]
  rw [hctors, List.append_nil] at hctors'
  generalize b.restore s.snapshot.1 .nothing = r at *
  obtain ⟨⟨name, functions, globals, types, ctors⟩, func, block⟩ := r
  obtain ⟨⟨name', functions', globals', types', ctors'⟩, func', block'⟩ := s
  simp only at *
  simp only [hmod, hglobals, hname, htypes, hctors', hfunc, hblock]

end Builder

end TreeFlow
