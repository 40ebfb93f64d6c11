import TreeFlow.Proofs.Scope.Frames
import TreeFlow.Proofs.Scope.Paths

/-!
# Everything that can be done with scopes

A stack of scopes is used by calling its operations in whatever order (`ScopeStack.Action`). One that is out of
place is rejected and leaves the stack as it is (`ScopeStack.Action.perform_of_rejected`), so that each of them
makes one stack of another.

What is declared in a frame is of one of a few kinds, which are all treated the same way (`NameKind`). Besides the
frames there are three things that no block owns, and an operation changes each of them in one way only: the path
is walked (`ScopeStack.path_run`), and what is declared outside of functions on purpose, and labels, are put in
front of what is there (`ScopeStack.Action.globals`, `ScopeStack.Action.labels`).
-/

namespace TreeFlow

/-! ### Kinds of names -/

/-- What may be declared in a frame: variables and functions, types, and tags. -/
inductive NameKind where
  | var
  | type
  | tag (kind : AggregateKind)
  deriving DecidableEq, Repr

namespace NameKind

/-- What a name of a kind stands for. -/
def Meaning : NameKind → Type
  | var => Binding
  | type => Ty
  | tag _ => String

/-- The names of a kind in a frame. -/
def names : (k : NameKind) → Frame → Names k.Meaning
  | var => Frame.vars
  | type => Frame.types
  | tag kind => (·.tags kind)

end NameKind

/-- Declares a full name in a frame. -/
def Frame.insert (f : Frame) (k : NameKind) (full : String) (a : k.Meaning) : Frame :=
  match k with
  | .var => { f with vars := (full, a) :: f.vars }
  | .type => { f with types := (full, a) :: f.types }
  | .tag .struct => { f with structs := (full, a) :: f.structs }
  | .tag .union => { f with unions := (full, a) :: f.unions }

variable {k : NameKind}

@[simp] theorem Frame.names_insert_self (f : Frame) (k : NameKind) (full : String) (a : k.Meaning) :
    k.names (f.insert k full a) = (full, a) :: k.names f := by
  rcases k with _ | _ | _ | _ <;> rfl

namespace ScopeStack

variable {α : Type} {s t : ScopeStack} {top : Frame} {below : List Frame}

/-- Declares a name of a kind in the innermost frame. -/
def define (s : ScopeStack) (k : NameKind) (name : String) (a : k.Meaning) : ScopeStack :=
  match k with
  | .var => s.defineVar name a
  | .type => s.defineType name a
  | .tag kind => s.defineTag kind name a

theorem define_eq (s : ScopeStack) (k : NameKind) (name : String) (a : k.Meaning) :
    s.define k name a = s.modifyTop fun f => f.insert k (s.qualify name) a := by
  rcases k with _ | _ | _ | _ <;> rfl

theorem define_of_locals (h : s.locals = top :: below) (k : NameKind) (name : String) (a : k.Meaning) :
    s.define k name a = { s with locals := top.insert k (s.qualify name) a :: below } := by
  rw [define_eq, modifyTop, h]

theorem define_of_nil (h : s.locals = []) (k : NameKind) (name : String) (a : k.Meaning) :
    s.define k name a = { s with global := s.global.insert k (s.qualify name) a } := by
  rw [define_eq, modifyTop, h]

@[simp] theorem path_define (s : ScopeStack) (k : NameKind) (name : String) (a : k.Meaning) :
    (s.define k name a).path = s.path := by
  cases h : s.locals with
  | nil => rw [define_of_nil h]
  | cons top below => rw [define_of_locals h]

/-! ### Actions -/

/-- What can be done with a stack of scopes, but for looking names up. -/
inductive Action where
  | openFunction
  | closeFunction
  | openLocal
  | closeLocal
  | move (step : NamespacePath.Step)
  | define (k : NameKind) (name : String) (a : k.Meaning)
  | defineGlobalVar (name : String) (b : Binding)
  | defineLabel (name : String) (block : BlockId)

namespace Action

/-- What becomes of a stack, unless the action is out of place. -/
def attempt : Action → ScopeStack → Except ScopeFault ScopeStack
  | openFunction, s => s.openFunction
  | closeFunction, s => s.closeFunction
  | openLocal, s => s.openLocal
  | closeLocal, s => s.closeLocal
  | move (.push name), s => .ok (s.pushNamespace name)
  | move (.pop name), s => .ok (s.popNamespace name)
  | define k name a, s => .ok (s.define k name a)
  | defineGlobalVar name b, s => .ok (s.defineGlobalVar name b)
  | defineLabel name block, s => s.defineLabel name block

/-- The stack behind an action, whether it was rejected or not. -/
def perform (a : Action) (s : ScopeStack) : ScopeStack :=
  match a.attempt s with
  | .ok t => t
  | .error _ => s

/-- Is an action out of place, given the number of frames of the open function? -/
def isMisplaced : Action → Nat → Bool
  | openFunction, n => n != 0
  | closeFunction, n => n != 1
  | openLocal, n => n == 0
  | closeLocal, n => n < 2
  | defineLabel _ _, n => n == 0
  | _, _ => false

theorem perform_of_ok {a : Action} (h : a.attempt s = .ok t) : a.perform s = t := by rw [perform, h]

/-- **What is rejected changes nothing.** -/
theorem perform_of_rejected {a : Action} {fault : ScopeFault} (h : a.attempt s = .error fault) : a.perform s = s := by
  rw [perform, h]

/-- An action is rejected exactly where it is out of place. -/
theorem exists_attempt_eq_error_iff (a : Action) (s : ScopeStack) :
    (∃ fault, a.attempt s = .error fault) ↔ a.isMisplaced s.locals.length := by
  -- It matters whether there is no frame, the one of the function alone, or that of a block.
  rcases hl : s.locals with _ | ⟨top, _ | ⟨next, below⟩⟩ <;> cases a with
  | move step => cases step <;> simp [attempt, isMisplaced]
  | _ =>
    simp [attempt, isMisplaced, ScopeStack.openFunction, ScopeStack.closeFunction, ScopeStack.openLocal,
      ScopeStack.closeLocal, ScopeStack.defineLabel, inFunction, hl]

/-- The step along the path that an action takes. -/
def step? : Action → Option NamespacePath.Step
  | move step => some step
  | _ => none

/-- What an action declares outside of functions on purpose. -/
def globals : Action → NamespacePath → Names Binding
  | defineGlobalVar name b, p => [(p.qualify name, b)]
  | _, _ => []

/-- The label that an action places. -/
def labels : Action → NamespacePath → Names BlockId
  | defineLabel name block, p => [(p.qualify name, block)]
  | _, _ => []

theorem path_perform (a : Action) (s : ScopeStack) : (a.perform s).path = s.path.walk a.step?.toList := by
  cases hattempt : a.attempt s with
  | error fault =>
    rw [perform_of_rejected hattempt]
    cases a with
    | move step => cases step <;> cases hattempt
    | _ => rfl
  | ok t =>
    rw [perform_of_ok hattempt]
    cases a with
    | openFunction =>
      obtain ⟨-, rfl⟩ := openFunction_eq_ok hattempt
      rfl
    | closeFunction =>
      obtain rfl := closeFunction_eq_ok hattempt
      rfl
    | openLocal =>
      obtain ⟨top, below, -, rfl⟩ := openLocal_eq_ok hattempt
      rfl
    | closeLocal =>
      obtain ⟨top, next, below, -, rfl⟩ := closeLocal_eq_ok hattempt
      rfl
    | move step => cases step <;> cases hattempt <;> rfl
    | define k name a =>
      obtain rfl := Except.ok.inj hattempt
      exact path_define s k name a
    | defineGlobalVar name b => cases hattempt; rfl
    | defineLabel name block =>
      simp only [attempt, ScopeStack.defineLabel] at hattempt
      split at hattempt <;> cases hattempt
      rfl

end Action

/-! ### Histories -/

/-- The stack behind some actions. -/
def run (s : ScopeStack) (acts : List Action) : ScopeStack := acts.foldl (fun s a => a.perform s) s

/-- The steps along the path that some actions take. -/
def steps (acts : List Action) : List NamespacePath.Step := acts.filterMap Action.step?

/-- What some actions declare, the latest first, when they begin at a path. -/
def gather (declared : Action → NamespacePath → Names α) : NamespacePath → List Action → Names α
  | _, [] => []
  | p, a :: acts => gather declared (p.walk a.step?.toList) acts ++ declared a p

variable {acts more : List Action}

theorem run_append (s : ScopeStack) (acts more : List Action) : s.run (acts ++ more) = (s.run acts).run more :=
  List.foldl_append

theorem steps_cons (a : Action) (acts : List Action) : steps (a :: acts) = a.step?.toList ++ steps acts := by
  cases h : a.step? <;> simp [steps, h]

theorem steps_append (acts more : List Action) : steps (acts ++ more) = steps acts ++ steps more :=
  List.filterMap_append

/-- The path behind some actions depends on the steps alone. -/
theorem path_run (s : ScopeStack) (acts : List Action) : (s.run acts).path = s.path.walk (steps acts) := by
  induction acts generalizing s with
  | nil => rfl
  | cons a acts ih =>
    rw [run, List.foldl_cons, ← run, ih, a.path_perform, steps_cons, NamespacePath.walk_append]

theorem gather_append (declared : Action → NamespacePath → Names α) (p : NamespacePath) (acts more : List Action) :
    gather declared p (acts ++ more) = gather declared (p.walk (steps acts)) more ++ gather declared p acts := by
  induction acts generalizing p with
  | nil => simp [gather, steps, NamespacePath.walk]
  | cons a acts ih =>
    rw [List.cons_append, gather, ih, gather, steps_cons, NamespacePath.walk_append, List.append_assoc]

end ScopeStack

end TreeFlow
