/-!
# Signed integers of a fixed width

Integer constants and run-time integers are mathematical integers kept in the range of a
width. `wrap n v` is the one value in the signed `n`-bit range that is congruent to `v`
modulo `span n`, the number of patterns of `n` bits. The widest arithmetic unit has 128 bits:
width `0` stands for it, and no width beyond it wraps any further.

The operations below are those of the 128-bit unit. Callers bring a result to its declared
width with a second `wrap`.
-/

namespace TreeFlow.Signed

/-- The width of the arithmetic unit in bits. -/
def unitBits : Nat := 128

/-- How many patterns there are of so many bits. -/
def span (bits : Nat) : Nat := 1 <<< bits

/-- The value in the signed 128-bit range congruent to `v`. -/
def wrapUnit (v : Int) : Int := v.bmod (span unitBits)

/-- Truncates `v` to `bits` bits and reads the result as a signed number. A width of zero or
of at least 128 bits leaves the value alone. -/
def wrap (bits : Nat) (v : Int) : Int :=
  if bits = 0 ∨ unitBits ≤ bits then v else v.bmod (span bits)

/-- The 128 two's complement bits of `v` as a number. -/
def toPattern (v : Int) : BitVec unitBits := BitVec.ofInt unitBits v

/-! ### Arithmetic of the unit -/

/-- The sum, wrapped at 128 bits. -/
def add (l r : Int) : Int := wrapUnit (l + r)

/-- The difference, wrapped at 128 bits. -/
def sub (l r : Int) : Int := wrapUnit (l - r)

/-- The product, wrapped at 128 bits. -/
def mul (l r : Int) : Int := wrapUnit (l * r)

/-- The quotient rounded toward zero; only the least value divided by `-1` wraps. -/
def div (l r : Int) : Int := wrapUnit (l.tdiv r)

/-- The remainder of the division toward zero; it has the sign of the dividend. -/
def rem (l r : Int) : Int := l.tmod r

/-- A shift to the left by `n` places that drops the bits beyond the unit. -/
def shl (l : Int) (n : Nat) : Int := wrapUnit (l <<< n)

/-- A shift to the right by `n` places that copies the sign: the floor of the quotient by
`span n`. -/
def ashr (l : Int) (n : Nat) : Int := l >>> n

/-- The bitwise conjunction of the two's complement patterns. -/
def and (l r : Int) : Int := (toPattern l &&& toPattern r).toInt

/-- The bitwise disjunction of the two's complement patterns. -/
def or (l r : Int) : Int := (toPattern l ||| toPattern r).toInt

/-- The bitwise exclusive disjunction of the two's complement patterns. -/
def xor (l r : Int) : Int := (toPattern l ^^^ toPattern r).toInt

/-! ### Reading a value as unsigned -/

/-- The low `bits` bits of `v` as a number that is not negative. Widths of at least 128 bits
keep the value as it is. -/
def unsigned (bits : Nat) (v : Int) : Int :=
  if unitBits ≤ bits then v else v % span bits

/-- The low 64 bits of `v`, as an address or an unsigned word. -/
def word (v : Int) : Nat := (v % span 64).toNat

/-- The low 64 bits of `v` read as a signed number. -/
def wrapWord (v : Int) : Int := v.bmod (span 64)

/-! ### Laws of `wrap` -/

/-- Width zero leaves a value alone. -/
theorem wrap_of_zero (v : Int) : wrap 0 v = v := by simp [wrap]

/-- A width below that of the unit takes the balanced remainder. -/
theorem wrap_eq_bmod {bits : Nat} (h0 : bits ≠ 0) (h : bits < unitBits) (v : Int) :
    wrap bits v = v.bmod (span bits) := by
  have hn : ¬(bits = 0 ∨ unitBits ≤ bits) := by omega
  rw [wrap, if_neg hn]

/-- Wrapping twice to one width is wrapping once. -/
theorem wrap_wrap (bits : Nat) (v : Int) : wrap bits (wrap bits v) = wrap bits v := by
  unfold wrap
  split
  · rfl
  · exact Int.bmod_bmod

end TreeFlow.Signed
