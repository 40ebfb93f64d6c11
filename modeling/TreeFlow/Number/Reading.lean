import TreeFlow.Number.Binary64

/-!
# Reading numbers

The decimal text of a float is read exactly: its digits make a ratio of naturals, and the float is
the one nearest to that ratio. A number may have a sign, a point with digits on at least one side
of it, and an exponent; infinity and what is no number are spelled out, in any case. The digits of
a natural number may be in any base up to sixteen.
-/

namespace TreeFlow.Reading

/-! ### Natural numbers -/

/-- The value of a digit in some base up to sixteen. -/
def digit? (c : Char) : Option Nat :=
  if '0' ≤ c ∧ c ≤ '9' then some (c.toNat - '0'.toNat)
  else if 'a' ≤ c ∧ c ≤ 'f' then some (c.toNat - 'a'.toNat + 10)
  else if 'A' ≤ c ∧ c ≤ 'F' then some (c.toNat - 'A'.toNat + 10)
  else none

/-- Reads digits behind those that came to `acc`. -/
def natFrom? (base : Nat) (acc : Nat) : List Char → Option Nat
  | [] => some acc
  | c :: rest => do
    let d ← digit? c
    if d < base then natFrom? base (acc * base + d) rest else none

/-- The natural number that digits of a base spell; there has to be one at least. -/
def nat? (base : Nat) : List Char → Option Nat
  | [] => none
  | cs => natFrom? base 0 cs

/-- Takes a sign off the front: whether it is a minus, and what follows. -/
def sign : List Char → Bool × List Char
  | '-' :: rest => (true, rest)
  | '+' :: rest => (false, rest)
  | rest => (false, rest)

/-- The integer that a sign and decimal digits spell. -/
def int? (cs : List Char) : Option Int := do
  let (negative, rest) := sign cs
  let n ← nat? 10 rest
  return if negative then -n else n

/-! ### Floats -/

/-- The float nearest to `digits * 10 ^ exponent`. Where the exponent is far out of the range of
floats, the power is not worked out. -/
def ofDecimal (negative : Bool) (digits : Nat) (exponent : Int) : Float :=
  let magnitude : Int := exponent + digits.log2 * 1233 / 4096
  if digits = 0 ∨ magnitude < -330 then Binary64.ofRatio negative 0 1
  else if 330 < magnitude then Binary64.infinity negative
  else if 0 ≤ exponent then Binary64.ofRatio negative (digits * Nat.pow 10 exponent.toNat) 1
  else Binary64.ofRatio negative digits (Nat.pow 10 (-exponent).toNat)

/-- The exponent behind the digits of a number; without one it is zero. -/
def exponent? : List Char → Option Int
  | [] => some 0
  | c :: rest => if c = 'e' ∨ c = 'E' then int? rest else none

/-- The float that digits spell, with a point and an exponent or without. -/
def magnitude? (negative : Bool) (cs : List Char) : Option Float := do
  let whole := cs.takeWhile Char.isDigit
  let rest := cs.dropWhile Char.isDigit
  let (fraction, rest) := match rest with
    | '.' :: rest => (rest.takeWhile Char.isDigit, rest.dropWhile Char.isDigit)
    | rest => ([], rest)
  let digits ← nat? 10 (whole ++ fraction)
  return ofDecimal negative digits ((← exponent? rest) - fraction.length)

/-- The float that a text spells. -/
def float? (s : String) : Option Float :=
  let (negative, rest) := sign s.toList
  match String.ofList (rest.map Char.toLower) with
  | "inf" | "infinity" => some (Binary64.infinity negative)
  | "nan" => some Binary64.nan
  | _ => magnitude? negative rest

end TreeFlow.Reading
