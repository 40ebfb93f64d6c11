import TreeFlow.Ty.Aggregate

/-!
# Sizes, alignments and offsets

The layout of a type is a function of the target and the aggregate table. An integer takes the
smallest power-of-two number of bytes that holds its bits. Structs and unions are packed, or
padded so that every field stands at a multiple of its alignment.

Sizes are exact: one that does not fit 64 bits is an error, and so is the size of a type that has
none. An aggregate that contains itself by value has no size; the search through the table is
bounded by the number of its entries, since a longer chain of aggregates has to repeat a key.
-/

namespace TreeFlow

/-- Why a type has no layout. -/
inductive LayoutError where
  | void
  | function
  | incomplete (key : String)
  | unknown (key : String)
  | tooLarge
  /-- The aggregate contains itself by value. -/
  | recursive (key : String)
  deriving DecidableEq, Repr

/-- What is said of a type without a layout. -/
def LayoutError.message : LayoutError → String
  | void => "void has no layout"
  | function => "function types have no layout"
  | incomplete key => s!"{key} is an incomplete type"
  | unknown key => s!"{key} is not a known aggregate"
  | tooLarge => "type is too large"
  | recursive key => s!"{key} contains itself"

/-- How values are laid out on the target. -/
structure Layout where
  /-- The width of a pointer in bytes. -/
  pointerBytes : UInt64 := 8
  /-- No padding inside structs and unions, and an alignment of one. -/
  packed : Bool := true
  deriving DecidableEq, Repr, Inhabited

namespace Layout

/-! ### Arithmetic of sizes -/

/-- The number of sizes that 64 bits can hold. -/
def limit : Nat := UInt64.size

/-- A size, if it fits 64 bits. -/
def checked (n : Nat) : Except LayoutError Nat := if n < limit then .ok n else .error .tooLarge

/-- The next multiple of `align` from `offset` on. -/
def roundUp (offset align : Nat) : Except LayoutError Nat :=
  if align ≤ 1 then .ok offset
  else (checked (offset + (align - 1))).map fun padded => padded / align * align

/-- The number of bytes of an integer with the given width: a power of two. -/
def intBytes (bits : Nat) : Nat :=
  let bytes := max 1 ((bits + 7) / 8)
  let floor := 1 <<< bytes.log2
  if floor = bytes then bytes else 2 * floor

/-- The size of a type that is neither an array nor an aggregate. -/
def scalarSize (L : Layout) : Ty → Except LayoutError Nat
  | .void => .error .void
  | .function .. => .error .function
  | .int n | .bitField n => .ok (intBytes n)
  | .float => .ok 4
  | .double => .ok 8
  | .pointer _ => .ok L.pointerBytes.toNat
  | _ => .ok 1

/-! ### Alignment -/

/-- The types of an aggregate's fields. -/
def fieldTypes (T : TypeTable) (key : String) : Except LayoutError (List Ty) :=
  match T.find? key with
  | none => .error (.unknown key)
  | some d =>
    match d.fields with
    | none => .error (.incomplete key)
    | some fields => .ok (fields.map (·.ty))

/-- The alignment of a type, given that of aggregates. -/
def alignWith (L : Layout) (aggregate : String → Except LayoutError Nat) :
    Ty → Except LayoutError Nat
  | .array t _ => alignWith L aggregate t
  | .struct key | .union key => aggregate key
  | t => (L.scalarSize t).map fun n => min n L.pointerBytes.toNat

/-- The greatest alignment among some types. -/
def alignAll (align : Ty → Except LayoutError Nat) : List Ty → Nat → Except LayoutError Nat
  | [], most => .ok most
  | t :: ts, most => do alignAll align ts (max most (← align t))

/-- The alignment of an aggregate, searched at most `depth` aggregates deep. -/
def aggregateAlign (L : Layout) (T : TypeTable) : Nat → String → Except LayoutError Nat
  | 0, key => .error (.recursive key)
  | depth + 1, key => do
    let fields ← fieldTypes T key
    if L.packed then return 1
    alignAll (L.alignWith (L.aggregateAlign T depth)) fields 1

/-- How many aggregates may lie inside each other. -/
def depth (T : TypeTable) : Nat := T.entries.size + 1

/-- The alignment of a type. -/
def alignOf (L : Layout) (T : TypeTable) (t : Ty) : Except LayoutError Nat :=
  L.alignWith (L.aggregateAlign T (depth T)) t

/-! ### Size -/

/-- The place of a field: the first one from `offset` on that suits its alignment. -/
def alignTo (L : Layout) (T : TypeTable) (offset : Nat) (t : Ty) : Except LayoutError Nat := do
  if L.packed then return offset
  roundUp offset (← L.alignOf T t)

/-- The size of a type, given that of aggregates. -/
def sizeWith (L : Layout) (aggregate : Ty → Except LayoutError Nat) :
    Ty → Except LayoutError Nat
  | .array t n => do checked ((← sizeWith L aggregate t) * n)
  | .struct key => aggregate (.struct key)
  | .union key => aggregate (.union key)
  | t => L.scalarSize t

/-- The end of the last of some fields laid out one after the other from `offset` on. -/
def structEnd (L : Layout) (T : TypeTable) (size : Ty → Except LayoutError Nat) :
    List Ty → Nat → Except LayoutError Nat
  | [], offset => .ok offset
  | t :: ts, offset => do
    let start ← L.alignTo T offset t
    structEnd L T size ts (← checked (start + (← size t)))

/-- The size of the largest of some fields. -/
def unionEnd (size : Ty → Except LayoutError Nat) : List Ty → Nat → Except LayoutError Nat
  | [], most => .ok most
  | t :: ts, most => do unionEnd size ts (max most (← size t))

/-- The size of a struct or union, searched at most `depth` aggregates deep. -/
def aggregateSize (L : Layout) (T : TypeTable) : Nat → Ty → Except LayoutError Nat
  | 0, t => .error (.recursive (t.key?.getD ""))
  | depth + 1, t => do
    let fields ← fieldTypes T (t.key?.getD "")
    let size := L.sizeWith (L.aggregateSize T depth)
    let stop ← match t with
      | .union _ => unionEnd size fields 0
      | _ => structEnd L T size fields 0
    if L.packed then return stop
    roundUp stop (← L.alignOf T t)

/-- The size of a type in bytes. -/
def sizeOf (L : Layout) (T : TypeTable) (t : Ty) : Except LayoutError Nat :=
  L.sizeWith (L.aggregateSize T (depth T)) t

/-! ### Fields -/

/-- The place of the field at `index` among fields laid out from `offset` on. Past the last field
it is the end of that one. -/
def offsetAmong (L : Layout) (T : TypeTable) :
    List Ty → Nat → Nat → Except LayoutError Nat
  | [], _, offset => .ok offset
  | t :: ts, index, offset => do
    let start ← L.alignTo T offset t
    match index with
    | 0 => return start
    | i + 1 => offsetAmong L T ts i (← checked (start + (← L.sizeOf T t)))

/-- The offset of the field at `index`. Every field of a union is at offset zero. -/
def fieldOffset (L : Layout) (T : TypeTable) (t : Ty) (index : Nat) : Except LayoutError Nat :=
  match t with
  | .union key => (fieldTypes T key).map fun _ => 0
  | .struct key => do L.offsetAmong T (← fieldTypes T key) index 0
  | _ => .ok 0

/-- The first of the widest among some types, given the widest so far. -/
def widest (L : Layout) (T : TypeTable) :
    List Ty → Option (Nat × Ty) → Except LayoutError (Option (Nat × Ty))
  | [], best => .ok best
  | t :: ts, best => do
    let size ← L.sizeOf T t
    let better : Bool := match best with
      | some (most, _) => most < size
      | none => true
    widest L T ts (if better then some (size, t) else best)

/-- The field that gives a union its storage: the first of the widest ones. -/
def unionStorage (L : Layout) (T : TypeTable) (key : String) : Except LayoutError (Option Ty) := do
  return (← L.widest T (← fieldTypes T key) none).map Prod.snd

end Layout

end TreeFlow
