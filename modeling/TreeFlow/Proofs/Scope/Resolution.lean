import TreeFlow.Proofs.Scope.Actions

/-!
# Names in namespaces

Declarations are kept under full names, which are texts, and looked up under several of them. Where the namespaces
have proper names, this is the same as keeping them under the list of namespaces they stand in and the name itself
(`ScopeStack.declared_define`): of the declarations in the innermost frame, the one in the nearest namespace around
is found, and only if there is none, the nearest one outside of functions (`ScopeStack.find?_eq_some_iff`). A
declaration is seen from elsewhere under the rest of its full name, and under no other name
(`ScopeStack.exists_inner_of_find?_ne`).
-/

namespace TreeFlow

open NamespacePath

/-- Of what is found in the namespaces along a path, `a` is found in the innermost one. -/
def Nearest {α : Type} (found : List String → Option α) (path : List String) (a : α) : Prop :=
  ∃ around, around <+: path ∧ found around = some a ∧
    ∀ nearer, nearer <+: path → around.length < nearer.length → found nearer = none

section Nearest

variable {α : Type} {found : List String → Option α} {path names : List String} {name : String} {a : α}

theorem nearest_nil : Nearest found [] a ↔ found [] = some a := by
  constructor
  · rintro ⟨around, haround, hfound, -⟩
    rwa [List.prefix_nil.1 haround] at hfound
  · intro hfound
    refine ⟨[], List.prefix_refl [], hfound, fun nearer hnearer hlt => ?_⟩
    rw [List.prefix_nil.1 hnearer] at hlt
    exact absurd hlt (Nat.lt_irrefl 0)

theorem nearest_concat : Nearest found (path ++ [name]) a ↔
    found (path ++ [name]) = some a ∨ found (path ++ [name]) = none ∧ Nearest found path a := by
  have hlength : ∀ {other : List String}, other <+: path → other.length < (path ++ [name]).length := fun h => by
    rw [List.length_append]
    exact Nat.lt_succ_of_le h.length_le
  constructor
  · rintro ⟨around, haround, hfound, hnearer⟩
    rcases List.prefix_concat_iff.1 haround with rfl | haround
    · exact .inl hfound
    · refine .inr ⟨hnearer _ (List.prefix_refl _) (hlength haround), around, haround, hfound, ?_⟩
      exact fun nearer h => hnearer nearer (h.trans (List.prefix_append path [name]))
  · rintro (hfound | ⟨hnone, around, haround, hfound, hnearer⟩)
    · refine ⟨_, List.prefix_refl _, hfound, fun nearer h hlt => ?_⟩
      exact absurd h.length_le (Nat.not_le_of_lt hlt)
    · refine ⟨around, haround.trans (List.prefix_append path [name]), hfound, fun nearer h hlt => ?_⟩
      rcases List.prefix_concat_iff.1 h with rfl | h
      · exact hnone
      · exact hnearer nearer h hlt

/-- What is found first among the forms of a name is what is found in the nearest namespace around. -/
theorem findSome?_candidates_eq_some_iff (h : ∀ name ∈ names, IsName name) (x : String) (look : String → Option α) :
    ((ofNames names).candidates x).findSome? look = some a ↔
      Nearest (fun around => look (dotted around x)) names a := by
  -- The innermost namespace is the last one of the path and gives the first form.
  induction names using List.reverseRecOn with
  | nil =>
    have hform : (ofNames []).candidates x = [dotted [] x] := by rw [candidates_ofNames h]; rfl
    rw [nearest_nil, hform, List.findSome?_singleton]
  | append_singleton names name ih =>
    have hnames : ∀ other ∈ names, IsName other := fun other hother => h other (List.mem_append_left _ hother)
    have hname : IsName name := h name (List.mem_append_right _ (List.mem_singleton_self name))
    rw [nearest_concat, candidates_concat hnames hname, List.findSome?_cons, ← ih hnames]
    cases look (dotted (names ++ [name]) x) <;> simp

theorem findSome?_candidates_eq_none_iff (h : ∀ name ∈ names, IsName name) (x : String) (look : String → Option α) :
    ((ofNames names).candidates x).findSome? look = none ↔
      ∀ around, around <+: names → look (dotted around x) = none := by
  simp [candidates_ofNames h, List.findSome?_eq_none_iff]

end Nearest

/-- What a name stands for that was declared in nested namespaces, in a frame. -/
def Frame.declared (f : Frame) (k : NameKind) (around : List String) (x : String) : Option k.Meaning :=
  (k.names f).lookup (dotted around x)

namespace ScopeStack

variable {s : ScopeStack} {k other : NameKind} {names around inner elsewhere : List String} {x y z : String}

/-! ### Looking up -/

/-- **The nearest namespace wins,** in the innermost frame first. -/
theorem find?_eq_some_iff (hpath : s.path = ofNames names) (h : ∀ name ∈ names, IsName name) {a : k.Meaning} :
    s.find? k.names x = some a ↔
      Nearest (s.top.declared k · x) names a ∨
        (∀ around, around <+: names → s.top.declared k around x = none) ∧ Nearest (s.global.declared k · x) names a := by
  rw [find?_eq_or, hpath, Option.or_eq_some_iff, findSome?_candidates_eq_some_iff h x,
    findSome?_candidates_eq_some_iff h x, findSome?_candidates_eq_none_iff h x]
  rfl

/-! ### Declaring -/

theorem top_define (s : ScopeStack) (k : NameKind) (x : String) (a : k.Meaning) :
    (s.define k x a).top = s.top.insert k (s.qualify x) a := by
  cases hlocals : s.locals with
  | nil => simp [define_of_nil hlocals, top, hlocals]
  | cons top below => simp [define_of_locals hlocals, ScopeStack.top, hlocals]

/-- **A declaration is one of a name in a namespace,** and of no other name in any other namespace, even if the
names are parts of each other. -/
theorem declared_define (hpath : s.path = ofNames names) (h : ∀ name ∈ names, IsName name)
    (haround : ∀ name ∈ around, IsName name) (hx : '.' ∉ x.toList) (hy : '.' ∉ y.toList) (a : k.Meaning) :
    (s.define k x a).top.declared k around y =
      if around = names ∧ y = x then some a else s.top.declared k around y := by
  have hkey : dotted around y = s.qualify x ↔ around = names ∧ y = x := by
    rw [ScopeStack.qualify, hpath, qualify_ofNames, dotted_inj h haround hx hy]
  rw [top_define, Frame.declared, Frame.names_insert_self, List.lookup_cons]
  split
  · next heq => rw [if_pos (hkey.1 (beq_iff_eq.1 heq))]
  · next hne => rw [if_neg fun hsame => by simp [hkey.2 hsame] at hne]; rfl

/-- What is looked up under other forms is found as if there were no such declaration. -/
theorem find?_define_of_not_mem {p : NamespacePath} {a : k.Meaning} (h : s.qualify x ∉ p.candidates z) :
    ({ s.define k x a with path := p } : ScopeStack).find? k.names z =
      ({ s with path := p } : ScopeStack).find? k.names z := by
  have hnone : ∀ full ∈ p.candidates z, List.lookup full [(s.qualify x, a)] = none := by
    intro full hfull
    have hne : (full == s.qualify x) = false := beq_false_of_ne fun heq => h (heq ▸ hfull)
    rw [List.lookup_cons, hne]
    rfl
  have hlook : ∀ names : Names k.Meaning, (p.candidates z).findSome? (((s.qualify x, a) :: names).lookup ·) =
      (p.candidates z).findSome? (names.lookup ·) := fun names => findSome?_lookup_append hnone names
  rw [find?_eq_or, find?_eq_or]
  cases hlocals : s.locals with
  | nil =>
    simp only [define_of_nil hlocals, ScopeStack.top, hlocals, List.headD_nil, Frame.names_insert_self, hlook]
  | cons top below =>
    simp only [define_of_locals hlocals, ScopeStack.top, List.headD_cons, Frame.names_insert_self, hlook]

/-- What is looked up under a first form that is the full name of a declaration is what was declared. -/
theorem find?_define_of_head? {p : NamespacePath} (a : k.Meaning) (h : (p.candidates z).head? = some (s.qualify x)) :
    ({ s.define k x a with path := p } : ScopeStack).find? k.names z = some a := by
  obtain ⟨forms, hforms⟩ := List.head?_eq_some_iff.1 h
  have htop : ({ s.define k x a with path := p } : ScopeStack).top = s.top.insert k (s.qualify x) a := s.top_define k x a
  rw [find?_eq_or, htop, Frame.names_insert_self]
  show ((p.candidates z).findSome? (((s.qualify x, a) :: k.names s.top).lookup ·)).or _ = some a
  rw [hforms, List.findSome?_cons, List.lookup_cons_self]
  rfl

theorem label?_of_defineLabel {t : ScopeStack} {block : BlockId}
    (h : (s.path.candidates x).head? = some (s.qualify x)) (ht : s.defineLabel x block = .ok t) :
    t.label? x = some block := by
  obtain ⟨forms, hforms⟩ := List.head?_eq_some_iff.1 h
  unfold defineLabel at ht
  split at ht
  · obtain rfl := Except.ok.inj ht
    rw [label?, hforms, List.findSome?_cons]
    dsimp only
    rw [List.lookup_cons_self]
  · cases ht

/-- Walking changes the path alone. -/
theorem run_moves (s : ScopeStack) (away : List Step) :
    s.run (away.map .move) = { s with path := s.path.walk away } := by
  induction away generalizing s with
  | nil => rfl
  | cons step away ih =>
    rw [List.map_cons, run, List.foldl_cons, ← run, ih]
    cases step <;> rfl

/-! ### The law -/

/-- A stack of scopes whose path stands for nested namespaces resolves names as these are nested. -/
structure Follows (s : ScopeStack) (names : List String) : Prop where
  path : s.path = ofNames names
  /-- Namespaces that are entered and left again make no difference. -/
  back : ∀ acts, Opens (steps acts) [] → (s.run acts).path = s.path
  candidates : ∀ x, s.path.candidates x = names.inits.reverse.map fun around => dotted around x
  first : ∀ x, (s.path.candidates x).head? = some (s.path.qualify x)
  /-- A declaration is found where it stands. -/
  direct : ∀ (k : NameKind) x a, (s.define k x a).find? k.names x = some a
  directLabel : ∀ x block t, s.defineLabel x block = .ok t → t.label? x = some block
  /-- Full names stand for names in namespaces. -/
  declared : ∀ (k : NameKind) x y a around, '.' ∉ x.toList → '.' ∉ y.toList → (∀ name ∈ around, IsName name) →
    (s.define k x a).top.declared k around y =
      if around = names ∧ y = x then some a else s.top.declared k around y
  /-- The nearest namespace wins, in the innermost frame first. -/
  nearest : ∀ (k : NameKind) x a, s.find? k.names x = some a ↔
    Nearest (s.top.declared k · x) names a ∨
      (∀ around, around <+: names → s.top.declared k around x = none) ∧ Nearest (s.global.declared k · x) names a
  nearestLabel : ∀ x block, s.label? x = some block ↔
    Nearest (fun around => s.labels.lookup (dotted around x)) names block
  /-- From a namespace around, a declaration is found under the rest of its full name. -/
  inside : ∀ (k : NameKind) x a away around inner, names = around ++ inner → s.path.walk away = ofNames around →
    ((s.define k x a).run (away.map .move)).find? k.names (dotted inner x) = some a
  /-- From anywhere, it makes no difference to other names than these. -/
  only : ∀ (k : NameKind) x a z away elsewhere, '.' ∉ x.toList → (∀ name ∈ elsewhere, IsName name) →
    s.path.walk away = ofNames elsewhere →
    ((s.define k x a).run (away.map .move)).find? k.names z ≠ (s.run (away.map .move)).find? k.names z →
    ∃ around inner, names = around ++ inner ∧ around <+: elsewhere ∧ z = dotted inner x
  /-- Outside of its namespace, it makes no difference to the name itself. -/
  outside : ∀ (k : NameKind) x a away elsewhere, (∀ name ∈ elsewhere, IsName name) →
    s.path.walk away = ofNames elsewhere → ¬names <+: elsewhere →
    ((s.define k x a).run (away.map .move)).find? k.names x = (s.run (away.map .move)).find? k.names x

section Elsewhere

variable {a : k.Meaning} (hpath : s.path = ofNames names) (helsewhere : ∀ name ∈ elsewhere, IsName name)
  (hne : ({ s.define k x a with path := ofNames elsewhere } : ScopeStack).find? k.names z ≠
    ({ s with path := ofNames elsewhere } : ScopeStack).find? k.names z)
include hpath helsewhere hne

/-- A declaration is seen from elsewhere if some form of what is looked up there is its full name. -/
theorem exists_around_of_find?_ne :
    ∃ around, around <+: elsewhere ∧ dotted around z = dotted names x := by
  have hmem : s.qualify x ∈ (ofNames elsewhere).candidates z := by
    by_contra hnot
    exact hne (find?_define_of_not_mem hnot)
  rw [ScopeStack.qualify, hpath, qualify_ofNames] at hmem
  exact (mem_candidates_iff helsewhere).1 hmem

/-- **A declaration is seen from elsewhere under the rest of its full name,** and under no other name. -/
theorem exists_inner_of_find?_ne (h : ∀ name ∈ names, IsName name) (hx : '.' ∉ x.toList) :
    ∃ around inner, names = around ++ inner ∧ around <+: elsewhere ∧ z = dotted inner x := by
  obtain ⟨around, haround, hform⟩ := exists_around_of_find?_ne hpath helsewhere hne
  have hproper : ∀ name ∈ around, IsName name := fun name hname => helsewhere name (haround.subset hname)
  obtain ⟨inner, hinner, hz⟩ := (dotted_eq_dotted_iff h hproper hx).1 hform
  exact ⟨around, inner, hinner, haround, hz⟩

/-- The bare name is only seen from inside of the namespace. -/
theorem prefix_of_find?_ne (h : ∀ name ∈ names, IsName name) (hz : z = x) : names <+: elsewhere := by
  subst hz
  obtain ⟨around, haround, hform⟩ := exists_around_of_find?_ne hpath helsewhere hne
  have hproper : ∀ name ∈ around, IsName name := fun name hname => helsewhere name (haround.subset hname)
  -- Without the name behind them, the namespaces are the same text, too.
  have hchars := congrArg String.toList hform
  rw [toList_dotted, toList_dotted] at hchars
  have hbare : dotted around "" = dotted names "" := String.toList_injective (by
    rw [toList_dotted, toList_dotted, List.append_cancel_right hchars])
  obtain ⟨rfl, -⟩ := (dotted_inj h hproper List.not_mem_nil List.not_mem_nil).1 hbare
  exact haround

end Elsewhere

/-- **Names are resolved along the path.** Whatever is done with a stack of scopes, if namespaces with proper names are
entered, and each that is left is the last one that was entered, then the path is the list of those that are open. -/
theorem run_follows {acts : List Action} (hopens : Opens (steps acts) names)
    (hnames : ∀ name, .push name ∈ steps acts → IsName name) : (({} : ScopeStack).run acts).Follows names := by
  have h : ∀ name ∈ names, IsName name := fun name hname => hnames name (hopens.push_mem hname)
  generalize hs : ({} : ScopeStack).run acts = s
  have hpath : s.path = ofNames names := by rw [← hs, path_run, hopens.walk_eq]; rfl
  have hfirst : ∀ x, (s.path.candidates x).head? = some (s.path.qualify x) := fun x => by
    rw [hpath, head?_candidates h, qualify_ofNames]
  have haway : ∀ {u : ScopeStack} {away elsewhere}, u.path = s.path → s.path.walk away = ofNames elsewhere →
      u.run (away.map .move) = { u with path := ofNames elsewhere } := fun hu hwalk => by rw [run_moves, hu, hwalk]
  exact {
    path := hpath
    back := fun acts hacts => by rw [path_run, hacts.walk_eq]; rfl
    candidates := fun x => by rw [hpath, candidates_ofNames h]
    first := hfirst
    direct := fun k x a => by
      have hself : ({ s.define k x a with path := s.path } : ScopeStack) = s.define k x a := by rw [← path_define s k x a]
      rw [← hself]
      exact find?_define_of_head? a (hfirst x)
    directLabel := fun x block t ht => label?_of_defineLabel (hfirst x) ht
    declared := fun k x y a around hx hy haround => declared_define hpath h haround hx hy a
    nearest := fun k x a => find?_eq_some_iff hpath h
    nearestLabel := fun x block => by
      rw [label?, hpath, findSome?_candidates_eq_some_iff h x]
    inside := by
      intro k x a away around inner hsplit hwalk
      have haround : ∀ name ∈ around, IsName name := fun name hname => h name (hsplit ▸ List.mem_append_left _ hname)
      rw [haway (path_define s k x a) hwalk]
      refine find?_define_of_head? a ?_
      rw [head?_candidates haround, ← dotted_append, ← hsplit, ScopeStack.qualify, hpath, qualify_ofNames]
    only := by
      intro k x a z away elsewhere hx helsewhere hwalk hne
      rw [haway (path_define s k x a) hwalk, haway rfl hwalk] at hne
      exact exists_inner_of_find?_ne hpath helsewhere hne h hx
    outside := by
      intro k x a away elsewhere helsewhere hwalk houtside
      rw [haway (path_define s k x a) hwalk, haway rfl hwalk]
      by_contra hne
      exact houtside (prefix_of_find?_ne hpath helsewhere hne h rfl) }

/-- In namespaces whose names are parts of each other. -/
theorem run_follows_nested :
    (({} : ScopeStack).run [.move (.push "ab"), .openFunction, .move (.push "b"),
      .define .var "x" (.ofVariable (.int 8) (.arg 0)), .move (.push "a"), .move (.pop "a")]).Follows ["ab", "b"] := by
  refine run_follows (.pop (.push (.push (.push .nil "ab") "b") "a")) fun name hname => ?_
  have hname : name = "ab" ∨ name = "b" ∨ name = "a" := by
    simpa [steps, Action.step?, eq_comm] using hname
  rcases hname with rfl | rfl | rfl <;> decide

end ScopeStack

end TreeFlow
