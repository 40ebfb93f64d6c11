import TreeFlow.Number.Shortest

/-!
# Floats with a fixed number of decimal places

`Fixed.text places x` writes `x` with exactly `places` digits after the point. The value is
rounded once, from its exact binary form, to the nearest decimal; a tie goes to the even digit.
-/

namespace TreeFlow.Fixed

/-- The value `m * 2 ^ q` counted in units of `10 ^ (-places)`, rounded to the nearest. -/
def units (places m : Nat) (q : Int) : Nat :=
  Binary64.roundDiv ((m <<< q.toNat) * Nat.pow 10 places) (1 <<< (-q).toNat)

/-- The text of a float with `places` digits after the point. -/
def text (places : Nat) (x : Float) : String :=
  match Binary64.parts x with
  | .nan => "NaN"
  | .infinite negative => Shortest.signed negative "inf".toList
  | .finite negative m q =>
    Shortest.signed negative
      (Shortest.withPoint (Shortest.digitsOf (units places m q)) places)

end TreeFlow.Fixed
