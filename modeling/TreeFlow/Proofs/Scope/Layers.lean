import TreeFlow.Proofs.Scope.Actions

/-!
# What is declared in a block itself

A block begins with a copy of the frame around it, so a frame does not tell what was declared in its block and what
around it. To tell them apart, the same is done with blocks that begin with nothing (`ScopeStack.apart`). The frames
are these, each laid over the ones around it (`ScopeStack.run_eq_layered`).

A declaration is thus seen from all blocks in its own (`ScopeStack.find?_run`), also where only declarations of the
very scope are asked for: what is found there is that of the innermost block around which has one (`ScopeStack.findInScope?_run`), and this is
the scope's own exactly if the scope has one or no block around it does (`ScopeStack.nearest?_eq_findInScope?_iff`).
-/

namespace TreeFlow

variable {k : NameKind}

/-! ### Layers -/

/-- What is declared in a frame, in front of what is declared in another one. -/
def Frame.atop (f around : Frame) : Frame where
  types := f.types ++ around.types
  vars := f.vars ++ around.vars
  structs := f.structs ++ around.structs
  unions := f.unions ++ around.unions

@[simp] theorem Frame.insert_atop (f around : Frame) (full : String) (a : k.Meaning) :
    (f.insert k full a).atop around = (f.atop around).insert k full a := by
  rcases k with _ | _ | _ | _ <;> rfl

@[simp] theorem Frame.names_atop (k : NameKind) (f around : Frame) :
    k.names (f.atop around) = k.names f ++ k.names around := by
  rcases k with _ | _ | _ | _ <;> rfl

/-- Frames, the innermost first, each over those around it. -/
def layers : List Frame → List Frame
  | [] => []
  | f :: around => f.atop ((layers around).headD {}) :: layers around

theorem lookup_names_layers (frames : List Frame) (k : NameKind) (full : String) :
    (k.names ((layers frames).headD {})).lookup full = frames.findSome? fun f => (k.names f).lookup full := by
  induction frames with
  | nil => rcases k with _ | _ | _ | _ <;> rfl
  | cons f around ih =>
    rw [layers, List.headD_cons, Frame.names_atop, List.lookup_append, ih, List.findSome?_cons]
    cases (k.names f).lookup full <;> rfl

namespace ScopeStack

variable {s : ScopeStack}

/-- The stack with each frame of the open function over those around it. -/
def layered (s : ScopeStack) : ScopeStack := { s with locals := layers s.locals }

/-! ### Blocks that begin with nothing -/

/-- The stack behind an action, if blocks begin with nothing. -/
def Action.performApart : Action → ScopeStack → ScopeStack
  | openLocal, s => if s.inFunction then { s with locals := {} :: s.locals } else s
  | a, s => a.perform s

/-- The stack behind some actions, if blocks begin with nothing. -/
def apart (s : ScopeStack) (acts : List Action) : ScopeStack := acts.foldl (fun s a => a.performApart s) s

/-- An action does the same to frames by themselves and to layers of them. -/
theorem Action.perform_layered (a : Action) (s : ScopeStack) : a.perform s.layered = (a.performApart s).layered := by
  obtain ⟨global, locals, labels, path⟩ := s
  cases a with
  | move step => cases step <;> rfl
  | define k name a =>
    cases locals with
    | nil => exact (define_of_nil rfl k name a).trans (congrArg layered (define_of_nil rfl k name a)).symm
    | cons f around =>
      refine (define_of_locals rfl k name a).trans ?_
      refine .trans ?_ (congrArg layered (define_of_locals rfl k name a)).symm
      simp only [layered, layers, Frame.insert_atop]
      rfl
  -- Where a block is opened, nothing over the layers around is a copy of the innermost one of them.
  | _ => rcases locals with _ | ⟨f, _ | ⟨g, around⟩⟩ <;> rfl

/-- **The frames are layers.** -/
theorem run_layered (s : ScopeStack) (acts : List Action) : s.layered.run acts = (s.apart acts).layered := by
  induction acts generalizing s with
  | nil => rfl
  | cons a acts ih =>
    show (a.perform s.layered).run acts = _
    rw [a.perform_layered, ih]
    rfl

theorem run_eq_layered (acts : List Action) : ({} : ScopeStack).run acts = (({} : ScopeStack).apart acts).layered :=
  run_layered {} acts

/-! ### Looking up -/

/-- A name is found in the nearest namespace that has it in some block, and there in the innermost such block. -/
theorem find?_layered (s : ScopeStack) (k : NameKind) (x : String) :
    s.layered.find? k.names x =
      ((s.path.candidates x).findSome? fun full => s.locals.findSome? fun f => (k.names f).lookup full).or
        ((s.path.candidates x).findSome? fun full => (k.names s.global).lookup full) := by
  rw [find?_eq_or]
  show (List.findSome? _ (s.path.candidates x)).or _ = _
  cases hlocals : s.locals with
  | nil =>
    have htop : s.layered.top = s.global := by simp [top, layered, hlocals, layers]
    have hnone : ((s.path.candidates x).findSome? fun full => ([] : List Frame).findSome? fun f => (k.names f).lookup full) =
        none := List.findSome?_eq_none_iff.2 fun _ _ => rfl
    rw [htop, hnone, Option.none_or]
    exact Option.or_self
  | cons f around =>
    have htop : s.layered.top = (layers (f :: around)).headD {} := by simp [top, layered, hlocals, layers]
    simp only [htop, lookup_names_layers]
    rfl

/-- **Names are found in all blocks around,** whatever was done before: a nearer namespace comes before a nearer block,
and any block before what is declared outside of functions. -/
theorem find?_run (acts : List Action) (k : NameKind) (x : String) :
    let own := ({} : ScopeStack).apart acts
    (({} : ScopeStack).run acts).find? k.names x =
      ((own.path.candidates x).findSome? fun full => own.locals.findSome? fun f => (k.names f).lookup full).or
        ((own.path.candidates x).findSome? fun full => (k.names own.global).lookup full) := by
  intro own
  rw [run_eq_layered, find?_layered]

/-- What the innermost scope that declares a name in the current namespace declares, of those around a place in the
function, or outside of functions. -/
def nearest? (own : ScopeStack) (k : NameKind) (x : String) : Option k.Meaning :=
  (own.findInScope? k.names x).or (own.locals.tail.findSome? fun f => (k.names f).lookup (own.qualify x))

theorem findInScope?_layered (s : ScopeStack) (k : NameKind) (x : String) :
    s.layered.findInScope? k.names x = s.nearest? k x := by
  show (k.names s.layered.top).lookup (s.qualify x) = _
  rw [nearest?]
  cases hlocals : s.locals with
  | nil =>
    have htop : s.layered.top = s.top := by simp [top, layered, hlocals, layers]
    rw [htop, List.tail_nil, List.findSome?_nil, Option.or_none]
    rfl
  | cons f around =>
    have htop : s.layered.top = f.atop ((layers around).headD {}) := by simp [top, layered, hlocals, layers]
    have hown : s.top = f := by simp [top, hlocals]
    rw [htop, Frame.names_atop, List.lookup_append, lookup_names_layers, findInScope?, hown]
    rfl

/-- The key that the innermost scope which declares a tag gives it. -/
def nearestTag? (own : ScopeStack) (kind : AggregateKind) (name : String) : Option String :=
  own.nearest? (.tag kind) name

theorem tagInScope?_layered (s : ScopeStack) (kind : AggregateKind) (name : String) :
    s.layered.tagInScope? kind name = s.nearestTag? kind name := s.findInScope?_layered (.tag kind) name

/-- **What is found in the very scope** is what the innermost scope around declares that declares the name, whatever
was done before. -/
theorem findInScope?_run (acts : List Action) (k : NameKind) (x : String) :
    (({} : ScopeStack).run acts).findInScope? k.names x = (({} : ScopeStack).apart acts).nearest? k x := by
  rw [run_eq_layered, findInScope?_layered]

/-- A struct that a block around declares is found in the very scope. -/
example : (({} : ScopeStack).run [.openFunction, .define (.tag .struct) "S" "struct.S", .openLocal]).tagInScope?
    .struct "S" = some "struct.S" := by decide

/-- It is what the scope itself declares exactly if there is such a declaration, or none in any block around. -/
theorem nearest?_eq_findInScope?_iff (own : ScopeStack) (k : NameKind) (x : String) :
    own.nearest? k x = own.findInScope? k.names x ↔
      (own.findInScope? k.names x).isSome ∨ ∀ f ∈ own.locals.tail, (k.names f).lookup (own.qualify x) = none := by
  rw [nearest?]
  cases own.findInScope? k.names x with
  | none => simp only [Option.none_or, List.findSome?_eq_none_iff, Option.isSome_none, Bool.false_eq_true, false_or]
  | some a => simp only [Option.some_or, Option.isSome_some, true_or]

end ScopeStack

end TreeFlow
