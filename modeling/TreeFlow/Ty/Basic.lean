/-!
# Types

Two types are equal exactly when they are built alike, except that a struct or union is known by
its key in the aggregate table. Equality is decided by `Ty.beq`, which walks both types at once.
-/

namespace TreeFlow

/-- A concrete type. -/
inductive Ty where
  | void
  | bool
  /-- A signed integer of the given width in bits. -/
  | int (bits : Nat)
  /-- An integer field with a width of its own, `int:N`. -/
  | bitField (bits : Nat)
  | float
  | double
  | pointer (target : Ty)
  | array (element : Ty) (length : Nat)
  | function (result : Ty) (params : List Ty) (variadic : Bool)
  /-- A struct, by its key in the aggregate table. -/
  | struct (key : String)
  /-- A union, by its key in the aggregate table. -/
  | union (key : String)
  deriving Inhabited, Repr

/-! ### Equality -/

namespace Ty

mutual
/-- Are the two types built alike? -/
def beq : Ty → Ty → Bool
  | void, void | bool, bool | float, float | double, double => true
  | int a, int b | bitField a, bitField b => a == b
  | pointer a, pointer b => beq a b
  | array a m, array b n => m == n && beq a b
  | function r ps v, function r' ps' v' => v == v' && beq r r' && beqList ps ps'
  | struct k, struct k' | union k, union k' => k == k'
  | _, _ => false

/-- Are the types of the two lists built alike, one by one? -/
def beqList : List Ty → List Ty → Bool
  | [], [] => true
  | a :: as, b :: bs => beq a b && beqList as bs
  | _, _ => false
end

mutual
/-- Every type is equal to itself. -/
theorem beq_refl : (a : Ty) → beq a a = true
  | void | bool | float | double => by simp [beq]
  | int _ | bitField _ | struct _ | union _ => by simp [beq]
  | pointer a => by simp [beq, beq_refl a]
  | array a _ => by simp [beq, beq_refl a]
  | function r ps _ => by simp [beq, beq_refl r, beqList_refl ps]

/-- Every list of types is equal to itself. -/
theorem beqList_refl : (as : List Ty) → beqList as as = true
  | [] => by simp [beqList]
  | a :: as => by simp [beqList, beq_refl a, beqList_refl as]
end

mutual
/-- Types that test as equal are the same. -/
theorem eq_of_beq : (a b : Ty) → beq a b = true → a = b
  | void, b, h => by cases b <;> simp_all [beq]
  | bool, b, h => by cases b <;> simp_all [beq]
  | float, b, h => by cases b <;> simp_all [beq]
  | double, b, h => by cases b <;> simp_all [beq]
  | int _, b, h => by cases b <;> simp_all [beq]
  | bitField _, b, h => by cases b <;> simp_all [beq]
  | struct _, b, h => by cases b <;> simp_all [beq]
  | union _, b, h => by cases b <;> simp_all [beq]
  | pointer a, b, h => by
    cases b <;> simp only [beq, Bool.false_eq_true] at h
    rw [eq_of_beq a _ h]
  | array a _, b, h => by
    cases b <;> simp only [beq, Bool.false_eq_true, Bool.and_eq_true, beq_iff_eq] at h
    rw [eq_of_beq a _ h.2, h.1]
  | function r ps _, b, h => by
    cases b <;> simp only [beq, Bool.false_eq_true, Bool.and_eq_true, beq_iff_eq] at h
    rw [eq_of_beq r _ h.1.2, eq_of_beqList ps _ h.2, h.1.1]

/-- Lists of types that test as equal are the same. -/
theorem eq_of_beqList : (as bs : List Ty) → beqList as bs = true → as = bs
  | [], bs, h => by cases bs <;> simp_all [beqList]
  | a :: as, bs, h => by
    cases bs <;> simp only [beqList, Bool.false_eq_true, Bool.and_eq_true] at h
    rw [eq_of_beq a _ h.1, eq_of_beqList as _ h.2]
end

instance : DecidableEq Ty := fun a b =>
  decidable_of_iff (beq a b = true) ⟨eq_of_beq a b, fun h => h ▸ beq_refl a⟩

end Ty

/-- A function's type, apart from `Ty`. -/
structure Signature where
  result : Ty
  params : List Ty
  variadic : Bool
  deriving DecidableEq, Repr, Inhabited

namespace Ty

/-- The function type with the given signature. -/
def ofSignature (s : Signature) : Ty := function s.result s.params s.variadic

/-! ### Primitive types -/

/-- The type of a character. -/
def char : Ty := int 8

/-- The type of small literals and of truth values in arithmetic. -/
def word : Ty := int 32

/-- The type of sizes, offsets and large literals. -/
def long : Ty := int 64

/-- The primitive type with the given name, if there is one. -/
def primitive? : String → Option Ty
  | "bool" => some bool
  | "char" | "byte" => some char
  | "short" => some (int 16)
  | "int" => some word
  | "long" => some long
  | "float" => some float
  | "double" => some double
  | "void" => some void
  | _ => none

/-! ### Building types -/

/-- A pointer to a type. A pointer to nothing in particular points at a single byte. -/
def pointerTo : Ty → Ty
  | void => pointer char
  | t => pointer t

/-- A pointer with `depth` stars. -/
def pointers (t : Ty) : Nat → Ty
  | 0 => t
  | n + 1 => pointers t.pointerTo n

/-! ### Kinds of types -/

/-- Is it a truth value, an integer or a bit field? -/
def isInteger : Ty → Bool
  | bool | int _ | bitField _ => true
  | _ => false

/-- The width of an integral type. -/
def bits? : Ty → Option Nat
  | bool => some 1
  | int n | bitField n => some n
  | _ => none

/-- Is it a floating point type? -/
def isFloat : Ty → Bool
  | float | double => true
  | _ => false

/-- The floating point types, ordered by precision. -/
def floatRank? : Ty → Option Nat
  | float => some 1
  | double => some 2
  | _ => none

/-- Can one calculate with it? -/
def isArithmetic (t : Ty) : Bool := t.isInteger || t.isFloat

/-- Is it a pointer? -/
def isPointer : Ty → Bool
  | pointer _ => true
  | _ => false

/-- Can it be tested for truth and held in a register? -/
def isScalar (t : Ty) : Bool := t.isArithmetic || t.isPointer

/-- Is it an array? -/
def isArray : Ty → Bool
  | array .. => true
  | _ => false

/-- Is it a struct or union? -/
def isAggregate : Ty → Bool
  | struct _ | union _ => true
  | _ => false

/-- Is it a function type? -/
def isFunction : Ty → Bool
  | function .. => true
  | _ => false

/-- Is it `void`? -/
def isVoid : Ty → Bool
  | void => true
  | _ => false

/-- Is it `bool`? -/
def isBool : Ty → Bool
  | bool => true
  | _ => false

/-! ### Parts of types -/

/-- What a pointer points to. -/
def pointee? : Ty → Option Ty
  | pointer t => some t
  | _ => none

/-- What an array holds. -/
def element? : Ty → Option Ty
  | array t _ => some t
  | _ => none

/-- The signature of a function type. -/
def signature? : Ty → Option Signature
  | function r ps v => some ⟨r, ps, v⟩
  | _ => none

/-- The signature of the function that a pointer points to. -/
def calleeSignature? (t : Ty) : Option Signature := t.pointee? >>= signature?

/-- The table key of a struct or union. -/
def key? : Ty → Option String
  | struct k | union k => some k
  | _ => none

/-- What an array holds in the end, through all its dimensions. -/
def core : Ty → Ty
  | array t _ => core t
  | t => t

/-! ### Text -/

mutual
/-- The text of a type. -/
def text : Ty → String
  | void => "void"
  | bool => "bool"
  | int n => s!"i{n}"
  | bitField n => s!"int:{n}"
  | float => "float"
  | double => "double"
  | pointer t => text t ++ "*"
  | array t n => s!"[{n} x {text t}]"
  | function r ps v =>
    let inside := ", ".intercalate (texts ps ++ if v then ["..."] else [])
    s!"{text r} ({inside})"
  | struct k => s!"struct {k}"
  | union k => s!"union {k}"

/-- The texts of some types. -/
def texts : List Ty → List String
  | [] => []
  | t :: ts => text t :: texts ts
end

instance : ToString Ty := ⟨text⟩

end Ty

/-- The text of a function's type. -/
def Signature.text (s : Signature) : String := (Ty.ofSignature s).text

end TreeFlow
