import TreeFlow.Number.Binary64

/-!
# The shortest decimal text of a float

Every decimal between the two midpoints around a float reads back as that float. The shortest
one is found on the decimal grids `d * 10 ^ k`, from the coarsest on: on each grid only the two
points next to the value can lie in the interval, and the first grid with a hit wins. Of two
hits the nearer is taken, and the greater one on an exact tie.

All of it is arithmetic on naturals. With the value `m * 2 ^ q` scaled by four, the interval has
the ends `4 * m - 2` (or `4 * m - 1` above a power of two, where the float below is nearer) and
`4 * m + 2`; the ends belong to it exactly when `m` is even.
-/

namespace TreeFlow.Shortest

/-- The decimal `digits * 10 ^ exponent`. -/
structure Decimal where
  digits : Nat
  exponent : Int
  deriving Repr, DecidableEq

/-- Quarters of the spacing between the value and the lower end of its interval. -/
def lowerGap (m : Nat) (q : Int) : Nat :=
  if m = Binary64.leadingBit ∧ Binary64.minExponent < q then 1 else 2

/-- The value scaled to a ratio: `m * 2 ^ q = 4 * m * unit / den`, with `unit` a quarter of the
spacing. -/
def scale (q : Int) : Nat × Nat :=
  if 2 ≤ q then (1 <<< (q - 2).toNat, 1) else (1, 1 <<< (2 - q).toNat)

/-- Does `d * 10 ^ k` read back as `m * 2 ^ q`? -/
def readsBack (m : Nat) (q : Int) (d : Nat) (k : Int) : Bool :=
  let (unit, den) := scale q
  let point := if 0 ≤ k then d * Nat.pow 10 k.toNat * den else d * den
  let quarter := if 0 ≤ k then unit else unit * Nat.pow 10 (-k).toNat
  let low := (4 * m - lowerGap m q) * quarter
  let high := (4 * m + 2) * quarter
  if m % 2 = 0 then low ≤ point ∧ point ≤ high else low < point ∧ point < high

/-- The value `m * 2 ^ q` in steps of `10 ^ k`: whole steps, and twice the rest against the
step. -/
def steps (m : Nat) (q k : Int) : Nat × Nat × Nat :=
  let num := (m <<< q.toNat) * Nat.pow 10 (-k).toNat
  let den := (1 <<< (-q).toNat) * Nat.pow 10 k.toNat
  (num / den, 2 * (num % den), den)

/-- The point of the grid of step `10 ^ k` that reads back as the value, if there is one. -/
def onGrid? (m : Nat) (q k : Int) : Option Decimal :=
  let (d, twice, den) := steps m q k
  let below := readsBack m q d k
  let above := readsBack m q (d + 1) k
  if below && (!above || twice < den) then some ⟨d, k⟩
  else if above then some ⟨d + 1, k⟩
  else none

/-- Searches the grids of step `10 ^ k`, `10 ^ (k - 1)`, …, at most `n` of them. -/
def search (m : Nat) (q : Int) : Nat → Int → Option Decimal
  | 0, _ => none
  | n + 1, k => (onGrid? m q k).or (search m q n (k - 1))

/-- Drops trailing zeros of the digits. -/
def Decimal.strip (x : Decimal) : Decimal := go x.digits x
where
  /-- At most as many zeros as there are digits. -/
  go : Nat → Decimal → Decimal
    | 0, x => x
    | n + 1, x =>
      if x.digits ≠ 0 ∧ x.digits % 10 = 0 then go n ⟨x.digits / 10, x.exponent + 1⟩ else x

/-- A decimal exponent from which the search has to go down: the greatest power of ten that is
no greater than the value, or one more. -/
def topExponent (m : Nat) (q : Int) : Int :=
  let bits : Int := m.log2 + q
  bits * 1233 / 4096 + 1

/-- The shortest decimal that reads back as `m * 2 ^ q`, for a positive `m`. Seventeen digits
always suffice. -/
def ofScaled (m : Nat) (q : Int) : Decimal :=
  ((search m q 20 (topExponent m q)).getD ⟨0, 0⟩).strip

/-! ### Layout of the digits -/

/-- The decimal digits of `n`. -/
def digitsOf (n : Nat) : List Char := Nat.toDigits 10 n

/-- Digits around a point: `whole.fraction`, with `places` digits after the point. -/
def withPoint (digits : List Char) (places : Nat) : List Char :=
  if places = 0 then digits
  else
    let padded := List.replicate (places + 1 - digits.length) '0' ++ digits
    padded.take (padded.length - places) ++ '.' :: padded.drop (padded.length - places)

/-- The decimal without an exponent. -/
def Decimal.positional (x : Decimal) : List Char :=
  if 0 ≤ x.exponent then digitsOf x.digits ++ List.replicate x.exponent.toNat '0'
  else withPoint (digitsOf x.digits) (-x.exponent).toNat

/-- The decimal with one digit before the point and an exponent, such as `1.5e-7`. -/
def Decimal.scientific (x : Decimal) : List Char :=
  let digits := digitsOf x.digits
  let exponent : Int := x.exponent + (digits.length - 1)
  withPoint digits (digits.length - 1) ++ 'e' :: (toString exponent).toList

/-- A sign in front of a text. -/
def signed (negative : Bool) (text : List Char) : String :=
  String.ofList (if negative then '-' :: text else text)

/-! ### The texts of a float -/

/-- The plain text of a float: the shortest digits that read back, never an exponent, whole
numbers without a point. -/
def text (x : Float) : String :=
  match Binary64.parts x with
  | .nan => "NaN"
  | .infinite negative => signed negative "inf".toList
  | .finite negative m q =>
    if m = 0 then signed negative ['0'] else signed negative (ofScaled m q).positional

/-- The text of a float in an error message: like `text`, but whole numbers end in `.0`, and
below `1e-4` and from `1e16` on there is an exponent. -/
def shown (x : Float) : String :=
  match Binary64.parts x with
  | .nan => "NaN"
  | .infinite negative => signed negative "inf".toList
  | .finite negative m q =>
    if m = 0 then signed negative "0.0".toList
    else
      let d := ofScaled m q
      let magnitude : Int := d.exponent + (digitsOf d.digits).length
      if magnitude < -3 ∨ 16 < magnitude then signed negative d.scientific
      else if 0 ≤ d.exponent then signed negative (d.positional ++ ['.', '0'])
      else signed negative d.positional

/-- A float as a number of the tree format. It has a point or an exponent, so that it is told
apart from an integer; a float that is not finite has no such text. -/
def number? (x : Float) : Option String :=
  match Binary64.parts x with
  | .finite .. => some (shown x)
  | _ => none

end TreeFlow.Shortest
