import TreeFlow.Ty.Basic

/-!
# The aggregate table

A module owns the structs and unions it mentions. Each has a key that no other entry has; types
refer to it by that key. An entry is first declared, and defined at most once after that, so a
type can point to an aggregate whose fields are not known yet.

A key is the kind, a dot and the tag. When it is taken, as for two functions that each declare a
local `struct P`, the first free number is appended.
-/

namespace TreeFlow

/-- Struct or union. -/
inductive AggregateKind where
  | struct | union
  deriving DecidableEq, Repr, Inhabited

namespace AggregateKind

/-- The keyword. -/
def text : AggregateKind → String
  | struct => "struct"
  | union => "union"

/-- The type with the given key. -/
def ty : AggregateKind → String → Ty
  | struct, key => .struct key
  | union, key => .union key

end AggregateKind

/-- A field of a struct or union. -/
structure Field where
  name : String
  ty : Ty
  deriving DecidableEq, Repr, Inhabited

/-- An entry of the table. -/
structure AggregateDef where
  key : String
  /-- The tag with the namespaces it was declared in. -/
  name : String
  kind : AggregateKind
  /-- The fields in order, once the entry is defined. -/
  fields : Option (List Field)
  deriving DecidableEq, Repr, Inhabited

namespace AggregateDef

/-- The type that stands for the entry. -/
def ty (d : AggregateDef) : Ty := d.kind.ty d.key

/-- The position and type of a field. -/
def findField? (d : AggregateDef) (name : String) : Option (Nat × Field) := do
  let fields ← d.fields
  let i ← fields.findIdx? (·.name == name)
  return (i, ← fields[i]?)

/-- The text of an entry. -/
def text (d : AggregateDef) : String :=
  match d.fields with
  | none => s!"{d.key} = opaque"
  | some fields =>
    let inside := ", ".intercalate (fields.map fun f => s!"{f.name}: {f.ty}")
    s!"{d.key} = {d.kind.text} \x7b {inside} \x7d"

end AggregateDef

/-- The structs and unions of a module, in the order of their declaration. -/
structure TypeTable where
  entries : Array AggregateDef := #[]
  deriving Inhabited

namespace TypeTable

/-- The entry with a key. -/
def find? (t : TypeTable) (key : String) : Option AggregateDef :=
  t.entries.find? (·.key == key)

/-- Is the key taken? -/
def contains (t : TypeTable) (key : String) : Bool := (t.find? key).isSome

/-- The first free one of `base.n`, `base.(n + 1)`, …. Among as many candidates as there are
entries, and one more, a free one is found. -/
def numberedKey (t : TypeTable) (base : String) : Nat → Nat → String
  | 0, n => s!"{base}.{n}"
  | tries + 1, n =>
    let key := s!"{base}.{n}"
    if t.contains key then numberedKey t base tries (n + 1) else key

/-- A key for `base` that is not taken. -/
def freshKey (t : TypeTable) (base : String) : String :=
  if t.contains base then t.numberedKey base t.entries.size 0 else base

/-- Adds an aggregate without fields. -/
def declare (t : TypeTable) (kind : AggregateKind) (name : String) : Ty × TypeTable :=
  let key := t.freshKey s!"{kind.text}.{name}"
  (kind.ty key, ⟨t.entries.push ⟨key, name, kind, none⟩⟩)

/-- Why an aggregate could not be given fields. -/
inductive Fault where
  | undeclared (key : String)
  | redefined (key : String)
  deriving DecidableEq, Repr

/-- What is said of a fault. -/
def Fault.message : Fault → String
  | .undeclared key => s!"Aggregate {key} was never declared"
  | .redefined key => s!"Aggregate {key} is already defined"

/-- Gives a declared aggregate its fields. -/
def define (t : TypeTable) (key : String) (fields : List Field) : Except Fault TypeTable :=
  match t.entries.findIdx? (·.key == key) with
  | none => .error (.undeclared key)
  | some i =>
    match t.entries[i]? with
    | some ⟨key, name, kind, none⟩ =>
      .ok ⟨t.entries.set! i ⟨key, name, kind, some fields⟩⟩
    | _ => .error (.redefined key)

/-- Does the key name an aggregate that has its fields? -/
def isDefined (t : TypeTable) (key : String) : Bool :=
  match t.find? key with
  | some d => d.fields.isSome
  | none => false

/-- A type as it is shown in a message: aggregates by their tag rather than their key. -/
def describe (t : TypeTable) (ty : Ty) : String :=
  match ty.key? >>= t.find? with
  | some d => s!"{d.kind.text} {d.name}"
  | none => ty.text

end TypeTable

end TreeFlow
