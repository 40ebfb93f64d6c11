import TreeFlow.Flow.Basic
import TreeFlow.Scope.Path

/-!
# Scopes

The names that can be seen at a place in a unit. The global frame holds everything declared
outside of functions. A function opens a frame of its own, and each block in it one more, which
starts as a copy of all that its parent sees; closing it brings back exactly what the parent had.

A name is looked up in the innermost frame and then in the global one; in a frame, every form that
the open namespaces give it is tried, the longest first. Labels belong to the function as a whole,
however deep the block that defines them.
-/

namespace TreeFlow

/-! ### Frames -/

/-- What a variable or function name stands for. -/
structure Binding where
  /-- The type of the storage, or of the function. -/
  ty : Ty
  addr : Operand
  isFunction : Bool
  deriving Inhabited, Repr, BEq

namespace Binding

/-- A variable at an address. -/
def ofVariable (ty : Ty) (addr : Operand) : Binding := ⟨ty, addr, false⟩

/-- A function at an address. -/
def ofFunction (ty : Ty) (addr : Operand) : Binding := ⟨ty, addr, true⟩

end Binding

/-- Names and what they stand for, the latest first. -/
abbrev Names (α : Type) := List (String × α)

/-- What is declared in a scope and around it. -/
structure Frame where
  types : Names Ty := []
  vars : Names Binding := []
  /-- The keys of struct tags. -/
  structs : Names String := []
  /-- The keys of union tags. -/
  unions : Names String := []
  deriving Inhabited

/-- The tags of one kind. -/
def Frame.tags (f : Frame) : AggregateKind → Names String
  | .struct => f.structs
  | .union => f.unions

/-! ### The stack -/

/-- Why a scope could not be opened or closed, or a label not be placed. -/
inductive ScopeFault where
  | openSecondFunction
  | closeFunctionAroundBlock
  | closeNoFunction
  | openBlockOutside
  | closeNoBlock
  | closeBlockOutside
  | labelOutside
  deriving DecidableEq, Repr

/-- What is said of a fault. -/
def ScopeFault.message : ScopeFault → String
  | openSecondFunction => "Cannot open fn scope: there is already one open"
  | closeFunctionAroundBlock => "Cannot close fn scope: there is an open local scope"
  | closeNoFunction => "Cannot close fn scope: there is no open fn scope"
  | openBlockOutside => "Cannot open local scope: there is no open fn scope"
  | closeNoBlock => "Cannot close local scope: there is no open local scope"
  | closeBlockOutside => "Cannot close local scope: there is no open fn scope"
  | labelOutside => "Cannot define label: there is no open fn scope"

/-- The open scopes. -/
structure ScopeStack where
  global : Frame := {}
  /-- The frames of the open function, the innermost first and the function's own last. -/
  locals : List Frame := []
  /-- The labels of the open function. -/
  labels : Names BlockId := []
  path : NamespacePath := {}
  deriving Inhabited

namespace ScopeStack

/-! ### Opening and closing -/

/-- Opens the scope of a function. -/
def openFunction (s : ScopeStack) : Except ScopeFault ScopeStack :=
  match s.locals with
  | [] => .ok { s with locals := [{}], labels := [] }
  | _ => .error .openSecondFunction

/-- Closes the scope of a function, its labels included. -/
def closeFunction (s : ScopeStack) : Except ScopeFault ScopeStack :=
  match s.locals with
  | [] => .error .closeNoFunction
  | [_] => .ok { s with locals := [], labels := [] }
  | _ => .error .closeFunctionAroundBlock

/-- Opens the scope of a block. -/
def openLocal (s : ScopeStack) : Except ScopeFault ScopeStack :=
  match s.locals with
  | [] => .error .openBlockOutside
  | top :: _ => .ok { s with locals := top :: s.locals }

/-- Closes the scope of a block. -/
def closeLocal (s : ScopeStack) : Except ScopeFault ScopeStack :=
  match s.locals with
  | [] => .error .closeBlockOutside
  | [_] => .error .closeNoBlock
  | _ :: below => .ok { s with locals := below }

/-- Is a function open? -/
def inFunction (s : ScopeStack) : Bool := !s.locals.isEmpty

/-- The number of frames. -/
def depth (s : ScopeStack) : Nat := s.locals.length + 1

/-- Enters a namespace. -/
def pushNamespace (s : ScopeStack) (name : String) : ScopeStack :=
  { s with path := s.path.push name }

/-- Leaves a namespace. -/
def popNamespace (s : ScopeStack) (name : String) : ScopeStack :=
  { s with path := s.path.pop name }

/-- The full form of a name declared here. -/
def qualify (s : ScopeStack) (name : String) : String := s.path.qualify name

/-! ### Looking up -/

/-- The innermost frame. -/
def top (s : ScopeStack) : Frame := s.locals.headD s.global

/-- The frames that names are looked up in. -/
def visible (s : ScopeStack) : List Frame :=
  match s.locals with
  | [] => [s.global]
  | top :: _ => [top, s.global]

/-- What a name stands for. -/
def find? (s : ScopeStack) (names : Frame → Names α) (name : String) : Option α :=
  let candidates := s.path.candidates name
  s.visible.findSome? fun frame => candidates.findSome? fun c => (names frame).lookup c

/-- What a name declared in this very scope and namespace stands for, or in one around it since
frames begin as copies. -/
def findInScope? (s : ScopeStack) (names : Frame → Names α) (name : String) : Option α :=
  (names s.top).lookup (s.qualify name)

/-- The variable or function with a name. -/
def var? (s : ScopeStack) (name : String) : Option Binding := s.find? Frame.vars name

/-- The variable or function with a full name outside of functions. -/
def globalVar? (s : ScopeStack) (name : String) : Option Binding := s.global.vars.lookup name

/-- The variable or function with a name in the innermost frame. -/
def varInScope? (s : ScopeStack) (name : String) : Option Binding :=
  s.findInScope? Frame.vars name

/-- The type with a name. -/
def type? (s : ScopeStack) (name : String) : Option Ty := s.find? Frame.types name

/-- The key of a tag. -/
def tag? (s : ScopeStack) (kind : AggregateKind) (name : String) : Option String :=
  s.find? (·.tags kind) name

/-- The key of a tag in the innermost frame. -/
def tagInScope? (s : ScopeStack) (kind : AggregateKind) (name : String) : Option String :=
  s.findInScope? (·.tags kind) name

/-- The block of a label of the open function. -/
def label? (s : ScopeStack) (name : String) : Option BlockId :=
  (s.path.candidates name).findSome? fun c => s.labels.lookup c

/-! ### Declaring -/

/-- Changes the innermost frame. -/
def modifyTop (s : ScopeStack) (change : Frame → Frame) : ScopeStack :=
  match s.locals with
  | [] => { s with global := change s.global }
  | top :: below => { s with locals := change top :: below }

/-- Declares a variable or function. -/
def defineVar (s : ScopeStack) (name : String) (b : Binding) : ScopeStack :=
  s.modifyTop fun f => { f with vars := (s.qualify name, b) :: f.vars }

/-- Declares a variable or function outside of functions, wherever the declaration stands. -/
def defineGlobalVar (s : ScopeStack) (name : String) (b : Binding) : ScopeStack :=
  { s with global := { s.global with vars := (s.qualify name, b) :: s.global.vars } }

/-- Declares the name of a type. -/
def defineType (s : ScopeStack) (name : String) (ty : Ty) : ScopeStack :=
  s.modifyTop fun f => { f with types := (s.qualify name, ty) :: f.types }

/-- Declares a tag. -/
def defineTag (s : ScopeStack) (kind : AggregateKind) (name key : String) : ScopeStack :=
  s.modifyTop fun f =>
    match kind with
    | .struct => { f with structs := (s.qualify name, key) :: f.structs }
    | .union => { f with unions := (s.qualify name, key) :: f.unions }

/-- Places a label of the open function. -/
def defineLabel (s : ScopeStack) (name : String) (block : BlockId) :
    Except ScopeFault ScopeStack :=
  if s.inFunction then .ok { s with labels := (s.qualify name, block) :: s.labels }
  else .error .labelOutside

end ScopeStack

end TreeFlow
