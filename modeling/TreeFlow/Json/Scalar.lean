import TreeFlow.Number.Reading

/-!
# Scalars that their reader sorts

A document that is not JSON may hold scalars that do not say what kind of value they are: their
reader decides. The same `12` is a text where a text is asked for and a number where a number is.
Only a scalar without quotes can be more than a text, unless a tag names its kind. This module says
which scalars are null, truth values, integers and floats.

Integers may be written in base ten, or behind `0x`, `0o` and `0b` in other bases, and count only if
64 bits hold them. Decimal digits with a needless zero in front are no number.
-/

namespace TreeFlow

/-! ### Scalars without tags -/

namespace Plain

/-- Does the text stand for nothing? -/
def isNull (s : String) : Bool := s == "~" || s == "null"

/-- The truth value that a text is, if it is one. -/
def bool? : String → Option Bool
  | "true" => some true
  | "false" => some false
  | _ => none

/-- The digits behind the mark of a base. A plus may stand between the two, but not in a number
that has a minus in front. -/
def basedNat? (base : Nat) (negative : Bool) (cs : List Char) : Option Nat :=
  match cs with
  | '+' :: rest => if negative then none else Reading.nat? base rest
  | cs => Reading.nat? base cs

/-- The natural number that a text without its sign spells, in whatever base it says. -/
def nat? (negative : Bool) : List Char → Option Nat
  | '0' :: 'x' :: rest => basedNat? 16 negative rest
  | '0' :: 'o' :: rest => basedNat? 8 negative rest
  | '0' :: 'b' :: rest => basedNat? 2 negative rest
  | '0' :: _ :: _ => none
  | cs => Reading.nat? 10 cs

/-- The integer that a text spells, of any size. -/
def wholeNumber? (s : String) : Option Int := do
  let (negative, rest) := Reading.sign s.toList
  let n ← nat? negative rest
  return if negative then -n else n

/-- The integer that a text is, if it is one. -/
def int? (s : String) : Option Int := do
  let v ← wholeNumber? s
  if -Signed.span 63 ≤ v ∧ v < Signed.span 64 then some v else none

/-- Is the text made of digits, with a needless zero in front? -/
def hasLeadingZero (s : String) : Bool :=
  match (Reading.sign s.toList).2 with
  | '0' :: c :: rest => (c :: rest).all Char.isDigit
  | _ => false

/-- The float that a text spells with digits or in words. Any number of plus signs may stand before
infinity. -/
def spelledFloat? (s : String) : Option Float :=
  if [".inf", ".Inf", ".INF"].contains (String.ofList (s.toList.dropWhile (· == '+'))) then
    some (Binary64.infinity false)
  else if ["-.inf", "-.Inf", "-.INF"].contains s then some (Binary64.infinity true)
  else if [".nan", ".NaN", ".NAN"].contains s then some Binary64.nan
  else (Reading.float? s).filter Float.isFinite

/-- The float that a text is, if it is one. An integer stands for the nearest float; one that
takes more than 64 bits, but no more than 128, does not. -/
def float? (s : String) : Option Float :=
  match wholeNumber? s with
  | some v =>
    if -Signed.span 63 ≤ v ∧ v < Signed.span 64 then some (Binary64.ofInt v)
    else if -Signed.span 127 ≤ v ∧ v < Signed.span 128 then none
    else spelledFloat? s
  | none => if hasLeadingZero s then none else spelledFloat? s

end Plain

/-! ### Scalars -/

/-- A tag in front of a scalar: the handle that tells where its name belongs, and the name. -/
structure Tag where
  handle : String
  name : String
  deriving DecidableEq, Repr, Inhabited

/-- A scalar. -/
structure Scalar where
  text : String
  /-- The scalar has neither quotes nor a block of its own. -/
  isPlain : Bool
  tag : Option Tag := none
  deriving DecidableEq, Repr, Inhabited

namespace Scalar

/-- What a scalar can be taken for: what its text says, the kind that a tag behind two marks names,
or a text only. -/
inductive Kind where
  | untagged
  | named (name : String)
  | text
  deriving DecidableEq, Repr

/-- What the scalar can be taken for. -/
def kind (s : Scalar) : Kind :=
  match s.tag with
  | none => if s.isPlain then .untagged else .text
  | some tag => if tag.handle = "!!" then .named tag.name else .text

/-- Is the scalar null? -/
def isNull (s : Scalar) : Bool :=
  match s.kind with
  | .untagged | .named "null" => Plain.isNull s.text
  | _ => false

/-- The scalar in a place that may hold null instead: nothing, if it is null. One in quotes is not,
and one that is tagged as null may be nothing else. -/
def nullable? (s : Scalar) : Option (Option Scalar) :=
  if s.isPlain && s.isNull then some none
  else if s.isPlain && s.kind == .named "null" then none
  else some (some s)

/-- The truth value that the scalar is, if it is one. -/
def bool? (s : Scalar) : Option Bool :=
  match s.kind with
  | .untagged | .named "bool" => Plain.bool? s.text
  | _ => none

/-- The integer that the scalar is, if it is one. -/
def int? (s : Scalar) : Option Int :=
  match s.kind with
  | .untagged => Plain.int? s.text
  | .named "int" => do
    let v ← Reading.int? s.text.toList
    if -Signed.span 63 ≤ v ∧ v < Signed.span 63 then some v else none
  | _ => none

/-- The float that the scalar is; an integer stands for the nearest float. -/
def float? (s : Scalar) : Option Float :=
  match s.kind with
  | .untagged => Plain.float? s.text
  | .named "float" => Reading.float? s.text
  | .named "int" => s.int?.map Binary64.ofInt
  | _ => none

/-- The alternative that the scalar's tag names, among those with the given names. -/
def alternative? (names : List String) (s : Scalar) : Option String := do
  let tag ← s.tag
  if tag.handle = "!" ∧ tag.name ∈ names then some tag.name else none

end Scalar

end TreeFlow
