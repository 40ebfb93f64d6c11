import TreeFlow.Proofs.Lowering.Pending
import TreeFlow.Proofs.Lowering.Targets
import TreeFlow.Proofs.Scope.Paths

/-!
# Jumps and labels meet

A label that is jumped to before it is placed waits under its own name, and one that was placed is kept under its name
in the namespace around. As long as that namespace stays the same, both come to one: where a label leads, it leads up
to the end of the body (`Way.target?`). So all jumps to a label go to one block, and there the label is placed, before
or behind them (`Way.eq_of_labelTarget`, `Way.exists_of_label`). Where a body ends, the labels that are still awaited
are those that were jumped to and not placed (`jumped_placed_or_awaited`), and each of them is reported once
(`Way.nodup_pending`).

Where the namespace changes in between (`Event.renamed`), a label is kept under another name than it is looked up by,
and none of that holds.
-/

namespace TreeFlow.Lower

open NamespacePath

variable {s t u v : State} {events : List Event} {names : List String} {name : String} {block : BlockId}

/-! ### Labels in scopes -/

/-- A label that is placed is found under its name. -/
theorem label?_cons_self {scopes placed : ScopeStack} (hpath : scopes.path = .ofNames names)
    (hnames : ∀ n ∈ names, IsName n) (hsame : placed.path = scopes.path)
    (hlabels : placed.labels = (scopes.qualify name, block) :: scopes.labels) : placed.label? name = some block := by
  obtain ⟨rest, hrest⟩ := List.head?_eq_some_iff.1 (head?_candidates hnames name)
  simp only [ScopeStack.label?, hsame, hlabels, hpath, hrest, ScopeStack.qualify, qualify_ofNames, List.findSome?_cons,
    List.lookup_cons, beq_self_eq_true]

/-- Where any other label is, it still is. -/
theorem label?_cons_of_ne {scopes placed : ScopeStack} (hpath : scopes.path = .ofNames names)
    (hnames : ∀ n ∈ names, IsName n) {other : String} (hname : '.' ∉ name.toList) (hne : other ≠ name)
    (hsame : placed.path = scopes.path) (hlabels : placed.labels = (scopes.qualify other, block) :: scopes.labels) :
    placed.label? name = scopes.label? name := by
  rw [ScopeStack.label?, hsame, hlabels]
  suffices hfront : ∀ full ∈ scopes.path.candidates name, [(scopes.qualify other, block)].lookup full = none from
    findSome?_lookup_append hfront scopes.labels
  intro full hfull
  -- No form of a name without dots is the full form of another one.
  rw [hpath, mem_candidates_iff hnames] at hfull
  obtain ⟨around, haround, rfl⟩ := hfull
  have hdiffers : dotted around name ≠ dotted names other := fun heq => by
    obtain ⟨inner, rfl, rfl⟩ :=
      (dotted_eq_dotted_iff (fun n hn => hnames n (haround.subset hn)) hnames hname).1 heq.symm
    obtain rfl := List.append_right_eq_self.1 (haround.eq_of_length_le (by simp))
    exact hne (dotted_nil name)
  rw [ScopeStack.qualify, hpath, qualify_ofNames, List.lookup_cons, beq_false_of_ne hdiffers]
  rfl

/-! ### One body -/

/-- What becomes of the labels of a body: they are as before, one more is awaited, or one more is placed, at the block
where it was awaited if it was. -/
inductive State.Relabels (s t : State) : Prop
  | same (hlabels : t.scopes.labels = s.scopes.labels) (hpending : t.pending = s.pending)
  | await (label : PendingLabel) (hnew : s.target? label.name = none) (hlabels : t.scopes.labels = s.scopes.labels)
      (hpending : t.pending = s.pending ++ [label])
  | place (name : String) (block : BlockId) (hnew : s.scopes.label? name = none)
      (hblock : ∀ b, s.awaited? name = some b → b = block)
      (hlabels : t.scopes.labels = (s.scopes.qualify name, block) :: s.scopes.labels)
      (hpending : t.pending = s.pending.filter (·.name != name))

/-- Lowering goes on in the body of a function, in the same namespace. -/
structure State.GoesOn (s t : State) : Prop where
  func : t.func = s.func
  path : t.scopes.path = s.scopes.path

/-- **What a move does to the labels of a body** where the namespace stays the same. -/
theorem Move.relabels (h : Move s events t) (hfunc : s.func.isSome) (hrenamed : .renamed ∉ events)
    (hended : .ended ∉ events) : s.GoesOn t ∧ s.Relabels t := by
  have hinside : s.func ≠ none := Option.isSome_iff_ne_none.1 hfunc
  cases h with
  | peeks h =>
    obtain ⟨structs, unions, hscopes⟩ := h.scopes
    exact ⟨⟨h.func, by rw [hscopes, ScopeStack.path_bindTags]⟩, .same (by rw [hscopes, ScopeStack.labels_bindTags]) h.pending⟩
  | await _ hnew => exact ⟨⟨rfl, rfl⟩, .await _ hnew rfl rfl⟩
  | @place name block scopes hnew hblock hplace =>
    obtain rfl := ScopeStack.defineLabel_eq_ok hplace
    refine ⟨⟨rfl, rfl⟩, .place name block hnew (fun b hb => ?_) rfl rfl⟩
    exact hblock.elim (fun h => Option.some.inj (hb.symm.trans h)) fun h => nomatch h.1.symm.trans hb
  | openBlock hopen =>
    obtain ⟨top, below, -, rfl⟩ := ScopeStack.openLocal_eq_ok hopen
    exact ⟨⟨rfl, rfl⟩, .same rfl rfl⟩
  | closeBlock hclose =>
    obtain ⟨top, next, below, -, rfl⟩ := ScopeStack.closeLocal_eq_ok hclose
    exact ⟨⟨rfl, rfl⟩, .same rfl rfl⟩
  | typeName => exact ⟨⟨rfl, ScopeStack.path_modifyTop _⟩, .same (ScopeStack.labels_modifyTop _) rfl⟩
  | localName => exact ⟨⟨rfl, ScopeStack.path_modifyTop _⟩, .same (ScopeStack.labels_modifyTop _) rfl⟩
  | rename => exact absurd (by rw [if_pos hfunc]; exact List.mem_singleton.2 rfl) hrenamed
  | settle => exact absurd (List.mem_singleton.2 rfl) hended
  | closeBody => exact absurd (List.mem_singleton.2 rfl) hended
  | forget hnone => exact absurd hnone hinside
  | openBody hnone => exact absurd hnone hinside
  | enterStartup hnone => exact absurd hnone hinside
  | leaveStartup hnone => exact absurd hnone hinside
  | _ => exact ⟨⟨rfl, rfl⟩, .same rfl rfl⟩

/-- **What moves keep, a way keeps** within a body where the namespace stays the same. -/
theorem Way.keeps {P : State → Prop} (h : Way s events t) (hfunc : s.func.isSome) (hrenamed : .renamed ∉ events)
    (hended : .ended ∉ events)
    (hstep : ∀ {a b : State}, s.GoesOn a → a.GoesOn b → a.Relabels b → P a → P b) (hs : P s) : s.GoesOn t ∧ P t := by
  induction h with
  | refl => exact ⟨⟨rfl, rfl⟩, hs⟩
  | step _ hmove ih =>
    rw [List.mem_append, not_or] at hrenamed hended
    obtain ⟨hgoes, hp⟩ := ih hrenamed.1 hended.1
    obtain ⟨hnext, hlabels⟩ := hmove.relabels (hgoes.func ▸ hfunc) hrenamed.2 hended.2
    exact ⟨⟨hnext.func.trans hgoes.func, hnext.path.trans hgoes.path⟩, hstep hgoes hnext hlabels hp⟩

/-! ### Where labels lead -/

theorem State.awaited?_of_filter {other : String} (hpending : t.pending = s.pending.filter (·.name != other))
    (hne : name ≠ other) : t.awaited? name = s.awaited? name := by
  rw [State.awaited?, State.awaited?, hpending, List.find?_filter]
  congr 2
  funext label
  by_cases hlabel : label.name = name
  · simp [hlabel, hne]
  · simp [hlabel]

theorem State.awaited?_of_append {label : PendingLabel} (hpending : t.pending = s.pending ++ [label])
    (hne : label.name ≠ name) : t.awaited? name = s.awaited? name := by
  have hother : (label.name == name) = false := beq_false_of_ne hne
  simp [State.awaited?, hpending, List.find?_append, hother]

/-- The names of a body are proper ones: those of the namespaces around, and the name of a label. -/
structure State.ProperlyNames (s : State) (names : List String) (name : String) : Prop where
  path : s.scopes.path = .ofNames names
  names : ∀ n ∈ names, IsName n
  label : '.' ∉ name.toList

theorem State.ProperlyNames.later (h : s.ProperlyNames names name) (hst : s.GoesOn t) : t.ProperlyNames names name :=
  ⟨hst.path.trans h.path, h.names, h.label⟩

/-- **Where a label leads, it still leads** when other labels are awaited or placed, and when it is placed itself. -/
theorem State.Relabels.target? (h : s.Relabels t) (hst : s.GoesOn t) (hs : s.ProperlyNames names name)
    (hblock : s.target? name = some block) : t.target? name = some block := by
  cases h with
  | same hlabels hpending =>
    simpa only [State.target?, State.awaited?, ScopeStack.label?, hlabels, hpending, hst.path] using hblock
  | await label hnew hlabels hpending =>
    have hne : label.name ≠ name := fun heq => by
      rw [heq, hblock] at hnew
      cases hnew
    rw [State.target?, State.awaited?_of_append hpending hne, ScopeStack.label?, hlabels, hst.path]
    exact hblock
  | place other placed hnew hplaced hlabels hpending =>
    by_cases heq : other = name
    · -- The label was awaited there, and is found there from now on.
      subst heq
      have hawaited : s.awaited? other = some block := by rwa [State.target?, hnew] at hblock
      rw [State.target?, label?_cons_self hs.path hs.names hst.path hlabels, hplaced block hawaited]
      rfl
    · rw [State.target?, State.awaited?_of_filter hpending (Ne.symm heq),
        label?_cons_of_ne hs.path hs.names hs.label heq hst.path hlabels]
      exact hblock

/-- **Where a label leads, it leads up to the end of the body**, as long as the namespace around stays the same. -/
theorem Way.target? (h : Way s events t) (hfunc : s.func.isSome) (hrenamed : .renamed ∉ events)
    (hended : .ended ∉ events) (hs : s.ProperlyNames names name) (hblock : s.target? name = some block) :
    t.target? name = some block :=
  (h.keeps hfunc hrenamed hended (fun hsa hab hlabels ha => hlabels.target? hab (hs.later hsa) ha) hblock).2

/-- Where a label is placed, it stays. -/
theorem State.Relabels.label? (h : s.Relabels t) (hst : s.GoesOn t) (hs : s.ProperlyNames names name)
    (hblock : s.scopes.label? name = some block) : t.scopes.label? name = some block := by
  cases h with
  | same hlabels =>
    rw [ScopeStack.label?, hlabels, hst.path]
    exact hblock
  | await label _ hlabels =>
    rw [ScopeStack.label?, hlabels, hst.path]
    exact hblock
  | place other placed hnew _ hlabels =>
    have hne : other ≠ name := fun heq => by
      rw [heq, hblock] at hnew
      cases hnew
    rw [label?_cons_of_ne hs.path hs.names hs.label hne hst.path hlabels]
    exact hblock

theorem Way.label? (h : Way s events t) (hfunc : s.func.isSome) (hrenamed : .renamed ∉ events)
    (hended : .ended ∉ events) (hs : s.ProperlyNames names name) (hblock : s.scopes.label? name = some block) :
    t.scopes.label? name = some block :=
  (h.keeps hfunc hrenamed hended (fun hsa hab hlabels ha => hlabels.label? hab (hs.later hsa) ha) hblock).2

/-- A label is not awaited any more where it was placed. -/
def State.Parts (s : State) (name : String) : Prop := s.awaited? name ≠ none → s.scopes.label? name = none

theorem State.Relabels.parts (h : s.Relabels t) (hst : s.GoesOn t) (hs : s.ProperlyNames names name)
    (hparts : s.Parts name) : t.Parts name := fun hawaited => by
  cases h with
  | same hlabels hpending =>
    rw [State.awaited?, hpending] at hawaited
    rw [ScopeStack.label?, hlabels, hst.path]
    exact hparts hawaited
  | await label hnew hlabels hpending =>
    rw [ScopeStack.label?, hlabels, hst.path]
    by_cases heq : label.name = name
    · exact heq ▸ (Option.or_eq_none_iff.1 hnew).1
    · exact hparts (State.awaited?_of_append hpending heq ▸ hawaited)
  | place other placed _ _ hlabels hpending =>
    by_cases heq : other = name
    · subst heq
      rw [State.awaited?, hpending, List.find?_filter] at hawaited
      simp at hawaited
    · rw [label?_cons_of_ne hs.path hs.names hs.label heq hst.path hlabels]
      exact hparts (State.awaited?_of_filter hpending (Ne.symm heq) ▸ hawaited)

theorem Way.parts (h : Way s events t) (hfunc : s.func.isSome) (hrenamed : .renamed ∉ events)
    (hended : .ended ∉ events) (hs : s.ProperlyNames names name) (hparts : s.Parts name) : t.Parts name :=
  (h.keeps hfunc hrenamed hended (fun hsa hab hlabels ha => hlabels.parts hab (hs.later hsa) ha) hparts).2

/-! ### Jumps and labels -/

section Jumps

variable {env : Env} {line : Nat}

/-- Where a jump to a label goes, the label leads from then on. -/
theorem target?_of_labelTarget (hrun : labelTarget name line env s = (.done block, t)) : t.target? name = some block := by
  rcases labelTarget_eq_done hrun with ⟨rfl, hknown⟩ | ⟨hunknown, b, -, rfl⟩
  · exact hknown
  · obtain ⟨hlabel, hawaited⟩ := Option.or_eq_none_iff.1 hunknown
    have hfind : s.pending.find? (·.name == name) = none := Option.map_eq_none_iff.1 hawaited
    simp [State.target?, State.awaited?, hlabel, List.find?_append, hfind]

/-- The block of a label that is placed: the one where it is awaited, or one that is made for it. -/
theorem labelBlock_eq_done (hrun : labelBlock name line env s = (.done block, t)) :
    t.scopes = s.scopes ∧ t.func = s.func ∧ ∀ b, s.awaited? name = some b → b = block := by
  obtain ⟨_, _, ⟨⟩, hrun⟩ := bind_eq_done hrun
  cases hfind : s.pending.find? (·.name == name) with
  | some label =>
    simp only [hfind] at hrun
    cases hrun
    refine ⟨rfl, rfl, fun b hb => ?_⟩
    rw [State.awaited?, hfind] at hb
    exact (Option.some.inj hb).symm
  | none =>
    simp only [hfind] at hrun
    have hnew := Leaves.of_emit hrun
    rw [emit, hnew] at hrun
    have hstate := (Prod.mk.inj hrun).2
    refine ⟨hstate ▸ rfl, hstate ▸ rfl, fun b hb => ?_⟩
    rw [State.awaited?, hfind] at hb
    cases hb

variable {lower : StmtId → Lower Unit} {body : StmtId}

/-- **A label that was not placed is placed where it leads**, and the statement behind it is lowered there. -/
theorem label_eq_done (hs : s.ProperlyNames names name) (hrun : label lower name body line env s = (.done (), t)) :
    s.scopes.label? name = none ∧ ∃ placed u, (∀ b, s.target? name = some b → b = placed) ∧
      u.scopes.label? name = some placed ∧ s.GoesOn u ∧ (do
        fallThrough placed line
        setBlock placed
        lower body) env u = (.done (), t) := by
  obtain ⟨_, _, ⟨⟩, hrun⟩ := bind_eq_done hrun
  split at hrun
  · obtain ⟨_, _, -, hrun⟩ := bind_eq_done hrun
    obtain ⟨_, _, -, hrun⟩ := bind_eq_done hrun
    cases hrun
  · next hknown =>
    have hnew : s.scopes.label? name = none := Option.not_isSome_iff_eq_none.1 hknown
    obtain ⟨placed, u, hblock, hrun⟩ := bind_eq_done hrun
    obtain ⟨hscopes, hfunc, hawaited⟩ := labelBlock_eq_done hblock
    obtain ⟨_, _, ⟨⟩, hrun⟩ := bind_eq_done hrun
    cases hdefine : u.scopes.defineLabel name placed with
    | error fault =>
      simp only [hdefine] at hrun
      cases hrun
    | ok scopes =>
      simp only [hdefine] at hrun
      obtain ⟨_, w, hnoted, hrun⟩ := bind_eq_done hrun
      cases hnoted
      obtain rfl := ScopeStack.defineLabel_eq_ok hdefine
      have hpath : u.scopes.path = s.scopes.path := by rw [hscopes]
      refine ⟨hnew, placed, _, fun b hb => hawaited b ?_, ?_, ⟨?_, ?_⟩, hrun⟩
      · rwa [State.target?, hnew] at hb
      · exact label?_cons_self (hpath.trans hs.path) hs.names rfl rfl
      · exact hfunc
      · exact hpath

section Body

variable (hfunc : t.func.isSome) (hrenamed : .renamed ∉ events) (hended : .ended ∉ events)
  (hnames : t.ProperlyNames names name)
include hfunc hrenamed hended hnames

/-- **All jumps to a label within a body go to one block.** -/
theorem Way.eq_of_labelTarget (h : Way t events u) (hfirst : t.target? name = some block) {again : BlockId}
    (hsecond : labelTarget name line env u = (.done again, v)) : again = block ∧ v = u := by
  have hknown := h.target? hfunc hrenamed hended hnames hfirst
  rcases labelTarget_eq_done hsecond with ⟨rfl, hagain⟩ | ⟨hunknown, -⟩
  · exact ⟨Option.some.inj (hagain.symm.trans hknown), rfl⟩
  · exact nomatch hunknown.symm.trans hknown

/-- **A label is placed where the jumps to it went**, and there it leads from then on. -/
theorem Way.exists_of_label (h : Way t events u) (hjump : t.target? name = some block)
    (hlabel : label lower name body line env u = (.done (), v)) : ∃ w : State,
      w.scopes.label? name = some block ∧ u.GoesOn w ∧ (do
        fallThrough block line
        setBlock block
        lower body) env w = (.done (), v) := by
  have hgoes := (h.keeps (P := fun _ => True) hfunc hrenamed hended (fun _ _ _ _ => trivial) trivial).1
  obtain ⟨-, placed, w, hplaced, hw, hgoes', hrun⟩ := label_eq_done (hnames.later hgoes) hlabel
  obtain rfl := hplaced block (h.target? hfunc hrenamed hended hnames hjump)
  exact ⟨w, hw, hgoes', hrun⟩

/-- **A second label of one name is no target.** It is reported, and the first one stays. -/
theorem Way.label_again (h : Way t events u) (hplaced : t.scopes.label? name = some block) :
    u.scopes.label? name = some block ∧ label lower name body line env u = (do
      report (.redefinitionOfLabel name) line
      lower body
      fail) env u := by
  have hstays := h.label? hfunc hrenamed hended hnames hplaced
  refine ⟨hstays, ?_⟩
  simp only [label, Bind.bind, Lower.bind, read, hstays, Option.isSome_some, if_pos]

/-- Where a label leads, it is placed or still awaited, never both. -/
theorem Way.placed_or_awaited (h : Way t events u) (hparts : t.Parts name) (hjump : t.target? name = some block) :
    u.scopes.label? name = some block ∧ u.awaited? name = none ∨
      u.scopes.label? name = none ∧ u.awaited? name = some block := by
  have hknown := h.target? hfunc hrenamed hended hnames hjump
  have hparted := h.parts hfunc hrenamed hended hnames hparts
  rcases Option.or_eq_some_iff.1 hknown with hplaced | hawaited
  · refine .inl ⟨hplaced, by_contra fun hne => ?_⟩
    exact nomatch (hparted hne).symm.trans hplaced
  · exact .inr hawaited

end Body

/-- **Of each label that is jumped to in a body there is one fate:** from then on it is either placed, or awaited. -/
theorem jumped_placed_or_awaited {id : FuncId} {result : Ty} {before after : List Event}
    (hnames : s.ProperlyNames names name) (hbefore : Way (s.openBody id result) before t)
    (hjump : labelTarget name line env t = (.done block, u)) (hafter : Way u after v)
    (hrenamed : .renamed ∉ before ++ after) (hended : .ended ∉ before ++ after) :
    v.scopes.label? name = some block ∧ v.awaited? name = none ∨
      v.scopes.label? name = none ∧ v.awaited? name = some block := by
  rw [List.mem_append, not_or] at hrenamed hended
  have hopened : (s.openBody id result).ProperlyNames names name := ⟨hnames.path, hnames.names, hnames.label⟩
  -- A body begins without labels.
  have hstart : (s.openBody id result).Parts name := fun _ => by simp [State.openBody, ScopeStack.label?]
  obtain ⟨hgoes, -⟩ := hbefore.keeps (P := fun _ => True) rfl hrenamed.1 hended.1 (fun _ _ _ _ => trivial) trivial
  have hparts := hbefore.parts rfl hrenamed.1 hended.1 hopened hstart
  have hstep : t.GoesOn u ∧ u.Parts name := by
    rcases labelTarget_eq_done hjump with ⟨rfl, -⟩ | ⟨hunknown, b, -, rfl⟩
    · exact ⟨⟨rfl, rfl⟩, hparts⟩
    · exact ⟨⟨rfl, rfl⟩, fun _ => (Option.or_eq_none_iff.1 hunknown).1⟩
  have hfunc : u.func.isSome := by
    rw [hstep.1.func, hgoes.func]
    rfl
  exact hafter.placed_or_awaited hfunc hrenamed.2 hended.2 ((hopened.later hgoes).later hstep.1) hstep.2
    (target?_of_labelTarget hjump)

end Jumps

/-! ### Labels that are never placed -/

/-- Of each name one label is awaited at most. -/
theorem Move.nodup_pending (h : Move s events t) (hs : (s.pending.map PendingLabel.name).Nodup) :
    (t.pending.map PendingLabel.name).Nodup := by
  have hfilter : ∀ p : PendingLabel → Bool, ((s.pending.filter p).map PendingLabel.name).Nodup := fun p =>
    hs.sublist (List.filter_sublist.map _)
  cases h with
  | peeks h => exact h.pending ▸ hs
  | await _ hnew =>
    have hawaited := Option.map_eq_none_iff.1 (Option.or_eq_none_iff.1 hnew).2
    rw [List.map_append, List.nodup_append]
    refine ⟨hs, List.nodup_singleton _, fun a ha b hb => ?_⟩
    obtain ⟨known, hknown, rfl⟩ := List.mem_map.1 ha
    obtain rfl := List.mem_singleton.1 hb
    simpa using List.find?_eq_none.1 hawaited known hknown
  | place => exact hfilter _
  | forget => exact hfilter _
  | settle => exact List.nodup_nil
  | closeBody => exact List.nodup_nil
  | enterStartup _ h => exact h.pending ▸ hs
  | _ => exact hs

/-- **No label is reported twice**: wherever lowering is, the labels that are awaited have different names. -/
theorem Way.nodup_pending {config : Config} (h : Way (.initial config) events t) :
    (t.pending.map PendingLabel.name).Nodup := by
  generalize hs : State.initial config = s at h
  induction h with
  | refl => exact hs ▸ List.nodup_nil
  | step _ hmove ih => exact hmove.nodup_pending ih

end TreeFlow.Lower
