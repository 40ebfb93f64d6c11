import TreeFlow.Number.Signed

/-!
# Binary floating point, read exactly

A finite 64-bit float is `± m * 2 ^ q` with a natural `m` below `2 ^ 53`. This module takes a
float apart into that form and puts a ratio of naturals back together, rounded to the nearest
float with ties to the even significand. Everything that has to be exact about a float is
computed on the parts: conversion from and to integers, the remainder of a division, and (in
`Number.Shortest` and `Number.Fixed`) its decimal text.

Addition, subtraction, multiplication and division are those of `Float` itself.
-/

namespace TreeFlow.Binary64

/-- A float taken apart. A finite one stands for `± m * 2 ^ q`. -/
inductive Parts where
  | nan
  | infinite (negative : Bool)
  | finite (negative : Bool) (m : Nat) (q : Int)
  deriving Repr, DecidableEq

/-- The leading bit of the significand of a float that is not subnormal, the 53rd one. -/
def leadingBit : Nat := 0x10000000000000

/-- The bit of the pattern that tells negative floats. -/
def signBit : Nat := 0x8000000000000000

/-- The exponent of the subnormal floats, the finest grid there is. -/
def minExponent : Int := -1074

/-- The parts of the float with the bit pattern `bits`. -/
def Parts.ofBits (bits : UInt64) : Parts :=
  let word := bits.toNat
  let negative : Bool := word / signBit = 1
  let exponent : Nat := word / leadingBit % 2048
  let fraction : Nat := word % leadingBit
  if exponent = 2047 then
    if fraction = 0 then .infinite negative else .nan
  else if exponent = 0 then .finite negative fraction minExponent
  else .finite negative (leadingBit + fraction) (exponent - 1075)

/-- The parts of a float. -/
def parts (x : Float) : Parts := .ofBits x.toBits

/-! ### Putting a float together -/

/-- The quotient `num / den` rounded to the nearest natural number, ties to even. -/
def roundDiv (num den : Nat) : Nat :=
  let q := num / den
  let twice := 2 * (num % den)
  if den < twice ∨ (twice = den ∧ q % 2 = 1) then q + 1 else q

/-- The quotient of `num * 2 ^ (-q)` by `den`, rounded to the nearest natural number. -/
def roundScaled (num den : Nat) (q : Int) : Nat :=
  if 0 ≤ q then roundDiv num (den <<< q.toNat) else roundDiv (num <<< (-q).toNat) den

/-- The greatest exponent that leaves the significand of `num / den` at least 53 bits, but no
smaller than that of the subnormal floats. -/
def gridExponent (num den : Nat) : Int :=
  let guess : Int := num.log2 - den.log2 - 52
  let fits : Bool :=
    if 0 ≤ guess then leadingBit * (den <<< guess.toNat) ≤ num
    else leadingBit * den ≤ num <<< (-guess).toNat
  max minExponent (if fits then guess else guess - 1)

/-- The bit pattern of the float nearest to `± num / den`. -/
def bitsOfRatio (negative : Bool) (num den : Nat) : Nat :=
  let sign := if negative then signBit else 0
  if num = 0 ∨ den = 0 then sign
  else
    let q := gridExponent num den
    let m := roundScaled num den q
    let magnitude := if m < leadingBit then m else (q + 1075).toNat * leadingBit + (m - leadingBit)
    sign + min magnitude (2047 * leadingBit)

/-- The float nearest to `± num / den`, ties to even. -/
def ofRatio (negative : Bool) (num den : Nat) : Float :=
  .ofBits (UInt64.ofNat (bitsOfRatio negative num den))

/-- The float nearest to the integer `v`. -/
def ofInt (v : Int) : Float := ofRatio (v < 0) v.natAbs 1

/-- The float `± m * 2 ^ q`, rounded when it has too many bits. -/
def ofScaled (negative : Bool) (m : Nat) (q : Int) : Float :=
  if 0 ≤ q then ofRatio negative (m <<< q.toNat) 1
  else ofRatio negative m (1 <<< (-q).toNat)

/-- The float that is no number. -/
def nan : Float := .ofBits 0x7ff8000000000000

/-- Infinity with a sign. -/
def infinity (negative : Bool) : Float :=
  .ofBits (if negative then 0xfff0000000000000 else 0x7ff0000000000000)

/-! ### Conversions and the remainder -/

/-- The magnitude `m * 2 ^ q` with its fraction dropped. -/
def truncScaled (m : Nat) (q : Int) : Nat :=
  if 0 ≤ q then m <<< q.toNat else m >>> (-q).toNat

/-- The integer of a float, its fraction dropped. What is beyond the signed 128-bit range is
taken to the nearer end of it, and what is no number is zero. -/
def toInt (x : Float) : Int :=
  let least : Int := -Signed.span 127
  let greatest : Int := Signed.span 127 - 1
  match parts x with
  | .nan => 0
  | .infinite negative => if negative then least else greatest
  | .finite negative m q =>
    let v : Int := truncScaled m q
    max least (min greatest (if negative then -v else v))

/-- The exact remainder of the division of `x` by `y` toward zero. It has the sign of `x`. -/
def rem (x y : Float) : Float :=
  match parts x, parts y with
  | .nan, _ | _, .nan | .infinite _, _ => nan
  | .finite .., .infinite _ => x
  | .finite negative m q, .finite _ n r =>
    if n = 0 then nan
    else
      let low := min q r
      let a := m <<< (q - low).toNat
      let b := n <<< (r - low).toNat
      ofScaled negative (a % b) low

/-- The nearest 32-bit float, as a 64-bit one. -/
def toSingle (x : Float) : Float := x.toFloat32.toFloat

end TreeFlow.Binary64
