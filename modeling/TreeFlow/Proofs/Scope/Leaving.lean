import TreeFlow.Proofs.Scope.Actions

/-!
# Leaving a block

Whatever is done between the opening of a block and the closing that belongs to it, blocks inside of it and
rejected calls included: when the block is left, the frames are the ones from before, since each block only ever
changes the frame it began with. What stays is what no block owns (`ScopeStack.leaveBlock_eq`): variables that were
declared outside of functions on purpose, and labels, which stay until the function is closed
(`ScopeStack.labels_run_of_staysOpen`).
-/

namespace TreeFlow.ScopeStack

variable {s t u v opened : ScopeStack} {top : Frame} {below : List Frame} {acts more inner later : List Action}

/-! ### Blocks -/

/-- Does an action open or close a block? -/
def Action.isBracket : Action → Bool
  | openLocal => true
  | closeLocal => true
  | _ => false

/-- What may be done in a block: every block that is opened in it is closed in it. -/
inductive Nests : List Action → Prop
  | nil : Nests []
  | act {acts : List Action} (h : Nests acts) (a : Action) (ha : a.isBracket = false) : Nests (acts ++ [a])
  | block {acts inner : List Action} (h : Nests acts) (hinner : Nests inner) :
      Nests (acts ++ (.openLocal :: inner ++ [.closeLocal]))

/-! ### What outlasts a block -/

/-- More variables outside of functions and more labels, in front of those that are there. -/
def extend (s : ScopeStack) (globals : Names Binding) (labels : Names BlockId) : ScopeStack :=
  { s with global := { s.global with vars := globals ++ s.global.vars }, labels := labels ++ s.labels }

/-- What is left of some actions when all blocks in which they were done are closed. -/
def outlast (s : ScopeStack) (acts : List Action) : ScopeStack :=
  { s.extend (gather Action.globals s.path acts) (gather Action.labels s.path acts) with
    path := s.path.walk (steps acts) }

theorem outlast_append (s : ScopeStack) (acts more : List Action) :
    s.outlast (acts ++ more) = (s.outlast acts).outlast more := by
  simp only [outlast, extend, gather_append, steps_append, NamespacePath.walk_append, List.append_assoc]

theorem outlast_openLocal (s : ScopeStack) (acts : List Action) : s.outlast (.openLocal :: acts) = s.outlast acts := by
  have hgather : ∀ {α : Type} (declared : Action → NamespacePath → Names α), declared .openLocal s.path = [] →
      gather declared s.path (.openLocal :: acts) = gather declared s.path acts := fun declared h => by
    rw [gather, h, List.append_nil]
    rfl
  rw [outlast, hgather Action.globals rfl, hgather Action.labels rfl]
  rfl

/-- In a block, an action that is no bracket leaves alone all frames but the innermost one. -/
theorem perform_eq_outlast {a : Action} (ha : a.isBracket = false) (hlocals : s.locals = top :: below)
    (hbelow : below ≠ []) : ∃ inside, a.perform s = { s.outlast [a] with locals := inside :: below } := by
  obtain ⟨next, rest, rfl⟩ := List.exists_cons_of_ne_nil hbelow
  obtain ⟨global, locals, labels, path⟩ := s
  obtain rfl : locals = top :: next :: rest := hlocals
  cases a with
  | openLocal => cases ha
  | closeLocal => cases ha
  | move step => cases step <;> exact ⟨top, rfl⟩
  | define k name a => exact ⟨top.insert k (path.qualify name) a, define_of_locals rfl k name a⟩
  | _ => exact ⟨top, rfl⟩

/-- **A block changes nothing but its own frame** and what outlasts it. -/
theorem Nests.run_eq (h : Nests acts) (hlocals : s.locals = top :: below) (hbelow : below ≠ []) :
    ∃ inside, s.run acts = { s.outlast acts with locals := inside :: below } := by
  induction h generalizing s top below with
  | nil =>
    refine ⟨top, ?_⟩
    rw [← hlocals]
    rfl
  | @act acts h a ha ih =>
    obtain ⟨inside, hrun⟩ := ih hlocals hbelow
    obtain ⟨inside', hperform⟩ := perform_eq_outlast (s := s.run acts) ha (by rw [hrun]) hbelow
    refine ⟨inside', ?_⟩
    rw [run_append, outlast_append]
    show a.perform (s.run acts) = _
    rw [hperform, hrun]
    rfl
  | @block acts inner h hinner ih ihinner =>
    obtain ⟨inside, hrun⟩ := ih hlocals hbelow
    -- The block begins with a copy of the frame around it, which then is no longer the innermost one.
    have hopened : (Action.openLocal.perform (s.run acts)).locals = inside :: inside :: below := by rw [hrun]; rfl
    obtain ⟨inside', hinside⟩ := ihinner hopened (List.cons_ne_nil inside below)
    refine ⟨inside, ?_⟩
    rw [run_append, outlast_append, run_append, outlast_append, outlast_openLocal]
    show Action.closeLocal.perform ((Action.openLocal.perform (s.run acts)).run inner) = _
    rw [hinside, hrun]
    rfl

/-- **When a block is left,** the stack is the one from before it was opened, but for what no block owns. -/
theorem leaveBlock_eq (hs : s.inFunction) (hacts : Nests acts) (hpath : NamespacePath.Opens (steps acts) []) :
    ∃ opened, s.openLocal = .ok opened ∧ (opened.run acts).closeLocal =
      .ok (s.extend (gather Action.globals s.path acts) (gather Action.labels s.path acts)) := by
  obtain ⟨global, locals, labels, path⟩ := s
  cases locals with
  | nil => cases hs
  | cons top below =>
    refine ⟨⟨global, top :: top :: below, labels, path⟩, rfl, ?_⟩
    obtain ⟨inside, hrun⟩ := hacts.run_eq (s := ⟨global, top :: top :: below, labels, path⟩) rfl
      (List.cons_ne_nil top below)
    have hback : path.walk (steps acts) = path := hpath.walk_eq path
    rw [hrun, outlast, hback]
    rfl

/-! ### Looking names up behind a block -/

section Extend

variable {globals : Names Binding} {labels : Names BlockId} {name : String}

theorem var?_extend (hs : s.inFunction) (h : ∀ full ∈ s.path.candidates name, globals.lookup full = none) :
    (s.extend globals labels).var? name = s.var? name := by
  cases hlocals : s.locals with
  | nil => simp [inFunction, hlocals] at hs
  | cons top below =>
    have hglobal := findSome?_lookup_append h s.global.vars
    simp only [var?, find?, visible, extend, hlocals, List.findSome?_cons, hglobal]

/-- Variables outside of functions make no difference to anything else. -/
theorem find?_extend {α : Type} {names : Frame → Names α} (hnames : ∀ f vars, names { f with vars } = names f) :
    (s.extend globals labels).find? names name = s.find? names name := by
  cases hlocals : s.locals <;> simp only [find?, visible, extend, hlocals, List.findSome?_cons, hnames]

theorem findInScope?_extend {α : Type} {names : Frame → Names α} (hs : s.inFunction) :
    (s.extend globals labels).findInScope? names name = s.findInScope? names name := by
  cases hlocals : s.locals with
  | nil => simp [inFunction, hlocals] at hs
  | cons top below => simp only [findInScope?, ScopeStack.top, extend, hlocals, List.headD_cons, qualify]

theorem label?_extend (h : ∀ full ∈ s.path.candidates name, labels.lookup full = none) :
    (s.extend globals labels).label? name = s.label? name := findSome?_lookup_append h s.labels

end Extend

/-- Whatever is looked up in `t` is what it is in `s`, but for variables outside of functions in `globals` and for
labels in `labels`. -/
structure Restores (s t : ScopeStack) (globals : Names Binding) (labels : Names BlockId) : Prop where
  var : ∀ name, (∀ full ∈ s.path.candidates name, globals.lookup full = none) → t.var? name = s.var? name
  globalVar : ∀ full, globals.lookup full = none → t.globalVar? full = s.globalVar? full
  varInScope : ∀ name, t.varInScope? name = s.varInScope? name
  type : ∀ name, t.type? name = s.type? name
  tag : ∀ kind name, t.tag? kind name = s.tag? kind name
  tagInScope : ∀ kind name, t.tagInScope? kind name = s.tagInScope? kind name
  label : ∀ name, (∀ full ∈ s.path.candidates name, labels.lookup full = none) → t.label? name = s.label? name

theorem restores_extend (hs : s.inFunction) (globals : Names Binding) (labels : Names BlockId) :
    s.Restores (s.extend globals labels) globals labels where
  var _ h := var?_extend hs h
  globalVar full h := by
    show (globals ++ s.global.vars).lookup full = s.global.vars.lookup full
    rw [List.lookup_append, h, Option.none_or]
  varInScope _ := findInScope?_extend hs
  type _ := find?_extend fun _ _ => rfl
  tag kind _ := find?_extend fun _ _ => by cases kind <;> rfl
  tagInScope _ _ := findInScope?_extend hs
  label _ h := label?_extend h

/-! ### Labels -/

/-- While some actions are done, the function that is open is not closed; calls to close it are rejected. -/
def StaysOpen (s : ScopeStack) (acts : List Action) : Prop :=
  ∀ before after, acts = before ++ .closeFunction :: after →
    ∃ fault, (s.run before).closeFunction = .error fault

/-- Labels are only put in front of others as long as the function is open. -/
theorem labels_perform {a : Action} (hs : s.inFunction)
    (ha : a = .closeFunction → ∃ fault, s.closeFunction = .error fault) :
    (a.perform s).inFunction ∧ (a.perform s).labels = a.labels s.path ++ s.labels := by
  obtain ⟨global, locals, labels, path⟩ := s
  obtain ⟨top, below, rfl⟩ : ∃ top below, locals = top :: below := by
    cases locals with
    | nil => cases hs
    | cons top below => exact ⟨top, below, rfl⟩
  cases a with
  | closeFunction =>
    obtain ⟨fault, hfault⟩ := ha rfl
    rw [Action.perform_of_rejected (a := .closeFunction) hfault]
    exact ⟨rfl, rfl⟩
  | closeLocal => cases below <;> exact ⟨rfl, rfl⟩
  | move step => cases step <;> exact ⟨rfl, rfl⟩
  | define k name a =>
    show (define _ k name a).inFunction ∧ (define _ k name a).labels = _
    rw [define_of_locals rfl]
    exact ⟨rfl, rfl⟩
  | _ => exact ⟨rfl, rfl⟩

/-- **Labels stay until the function is closed.** -/
theorem labels_run_of_staysOpen (hs : s.inFunction) (h : s.StaysOpen acts) :
    (s.run acts).inFunction ∧ (s.run acts).labels = gather Action.labels s.path acts ++ s.labels := by
  induction acts generalizing s with
  | nil => exact ⟨hs, rfl⟩
  | cons a acts ih =>
    have ha : a = .closeFunction → ∃ fault, s.closeFunction = .error fault := fun heq => h [] acts (by rw [heq]; rfl)
    have hrest : (a.perform s).StaysOpen acts := fun before after heq => h (a :: before) after (by rw [heq]; rfl)
    obtain ⟨hopen, hlabels⟩ := labels_perform hs ha
    obtain ⟨hrun, hall⟩ := ih hopen hrest
    refine ⟨hrun, ?_⟩
    show ((a.perform s).run acts).labels = _
    rw [hall, hlabels, a.path_perform, gather, List.append_assoc]

/-- Labels can be looked up from now on until the function is closed: under every name that may stand for one of
them some label is found, and it is that one, if this is its first form and no other label was given it. Then all
labels are gone. -/
structure KeepsLabels (t : ScopeStack) (labels : Names BlockId) : Prop where
  found : ∀ later name full, t.StaysOpen later → full ∈ (t.run later).path.candidates name →
    (labels.lookup full).isSome → ((t.run later).label? name).isSome
  same : ∀ later name full block, t.StaysOpen later → ((t.run later).path.candidates name).head? = some full →
    labels.lookup full = some block → (gather Action.labels t.path later).lookup full = none →
    (t.run later).label? name = some block
  gone : ∀ later closed name, (t.run later).closeFunction = .ok closed → closed.label? name = none

theorem keepsLabels_extend (hs : s.inFunction) (globals : Names Binding) (labels : Names BlockId) :
    (s.extend globals labels).KeepsLabels labels := by
  have hlabels : ∀ {later}, (s.extend globals labels).StaysOpen later → ((s.extend globals labels).run later).labels =
      gather Action.labels s.path later ++ (labels ++ s.labels) :=
    fun hlater => (labels_run_of_staysOpen (s := s.extend globals labels) hs hlater).2
  refine ⟨fun later name full hlater hfull hlabel => ?_, fun later name full block hlater hhead hlabel hnone => ?_,
    fun later closed name hclosed => ?_⟩
  · obtain ⟨block, hblock⟩ := Option.isSome_iff_exists.1 hlabel
    rw [label?, hlabels hlater, List.findSome?_isSome_iff]
    refine ⟨full, hfull, ?_⟩
    rw [List.lookup_append, List.lookup_append, hblock]
    simp
  · obtain ⟨forms, hforms⟩ := List.head?_eq_some_iff.1 hhead
    have hnone : (gather Action.labels s.path later).lookup full = none := hnone
    rw [label?, hlabels hlater, hforms, List.findSome?_cons, List.lookup_append, List.lookup_append, hnone, hlabel]
    rfl
  · obtain rfl := closeFunction_eq_ok hclosed
    exact List.findSome?_eq_none_iff.2 fun _ _ => rfl

/-! ### The law -/

/-- **Leaving a block restores the scopes.** Wherever a block is opened in a function, and whatever is done in it
until it is closed: nested blocks, declarations of any kind in any namespaces that are left again, and calls that
are rejected. Afterwards everything is looked up as before, but for variables that were declared outside of functions
on purpose, and for labels; those stay until the function is closed. The stack is even the same but for these two.
A call that is rejected, which it is exactly where it is out of place, changes nothing. -/
theorem leaving_restores (hs : s.inFunction) (hacts : Nests acts) (hpath : NamespacePath.Opens (steps acts) []) :
    let globals := gather Action.globals s.path acts
    let labels := gather Action.labels s.path acts
    (∃ opened t, s.openLocal = .ok opened ∧ (opened.run acts).closeLocal = .ok t ∧
      t = s.extend globals labels ∧ s.Restores t globals labels ∧ t.KeepsLabels labels) ∧
    ∀ (u : ScopeStack) (a : Action), ((∃ fault, a.attempt u = .error fault) ↔ a.isMisplaced u.locals.length) ∧
      ∀ fault, a.attempt u = .error fault → a.perform u = u := by
  intro globals labels
  refine ⟨?_, fun u a => ⟨a.exists_attempt_eq_error_iff u, fun fault => Action.perform_of_rejected⟩⟩
  obtain ⟨opened, hopen, hclose⟩ := leaveBlock_eq hs hacts hpath
  exact ⟨opened, _, hopen, hclose, rfl, restores_extend hs globals labels, keepsLabels_extend hs globals labels⟩

/-- A block shadows `n`, and in a namespace it opens a block of its own and places a label there. -/
def shadowing : List Action :=
  [.define .var "n" (.ofVariable (.int 8) (.arg 1)), .move (.push "m"), .openLocal, .closeFunction,
    .define (.tag .struct) "n" "struct.n", .defineLabel "again" ⟨4⟩, .closeLocal,
    .defineGlobalVar "g" (.ofVariable (.int 8) (.arg 1)), .move (.pop "m")]

theorem nests_shadowing : Nests shadowing :=
  .act (.act (.block (.act (.act .nil _ rfl) _ rfl)
    (.act (.act (.act .nil .closeFunction rfl) (.define (.tag .struct) "n" "struct.n") rfl)
      (.defineLabel "again" ⟨4⟩) rfl)) _ rfl) _ rfl

theorem leaving_restores_shadowing :
    let s := ({} : ScopeStack).run [.openFunction, .define .var "n" (.ofVariable (.int 32) (.arg 0))]
    ∃ opened t, s.openLocal = .ok opened ∧ (opened.run shadowing).closeLocal = .ok t ∧
      t.var? "n" = s.var? "n" ∧ t.tag? .struct "m.n" = s.tag? .struct "m.n" ∧ t.label? "m.again" = some ⟨4⟩ := by
  intro s
  obtain ⟨⟨opened, t, hopen, hclose, heq, hrestores, -⟩, -⟩ :=
    leaving_restores (s := s) rfl nests_shadowing (.pop (.push .nil "m"))
  refine ⟨opened, t, hopen, hclose, hrestores.var "n" (by decide), hrestores.tag .struct "m.n", ?_⟩
  rw [heq]
  decide

end TreeFlow.ScopeStack
