/-!
# UTF-8 bytes as text

A program's strings are bytes, and what it prints need not be well-formed UTF-8. Reading such
bytes as text replaces each ill-formed piece by U+FFFD: a piece is the longest start of a
well-formed sequence that the bytes continue, and at least one byte.
-/

namespace TreeFlow.Utf8

/-- The UTF-8 bytes of a text. -/
def encode (s : String) : List UInt8 := s.toUTF8.toList

/-- Stands for a piece of the input that is not well formed. -/
def replacement : Char := '\uFFFD'

/-- The shape of a sequence, read off its first byte: how many bytes follow, the bits that the
first byte contributes, and the range that the second byte must lie in. -/
structure Lead where
  follow : Nat
  bits : Nat
  low : Nat
  high : Nat

/-- The sequence that starts with the byte `b`. No sequence starts with a byte that only
continues one, nor with one whose sequences would be overlong or too large. -/
def lead? (b : Nat) : Option Lead :=
  if b < 0x80 then some ⟨0, b, 0, 0⟩
  else if b < 0xC2 then none
  else if b < 0xE0 then some ⟨1, b - 0xC0, 0x80, 0xBF⟩
  else if b = 0xE0 then some ⟨2, 0, 0xA0, 0xBF⟩
  else if b = 0xED then some ⟨2, 0xD, 0x80, 0x9F⟩
  else if b < 0xF0 then some ⟨2, b - 0xE0, 0x80, 0xBF⟩
  else if b = 0xF0 then some ⟨3, 0, 0x90, 0xBF⟩
  else if b < 0xF4 then some ⟨3, b - 0xF0, 0x80, 0xBF⟩
  else if b = 0xF4 then some ⟨3, 4, 0x80, 0x8F⟩
  else none

/-- Reads `follow` continuation bytes, the first of them within `low` and `high`. The result is
the code point, or nothing if a byte does not fit, with what is left. -/
def tail (follow : Nat) (code low high : Nat) : List UInt8 → Option Nat × List UInt8
  | [] => (if follow = 0 then some code else none, [])
  | b :: rest =>
    match follow with
    | 0 => (some code, b :: rest)
    | n + 1 =>
      if low ≤ b.toNat ∧ b.toNat ≤ high then
        tail n (code * 64 + (b.toNat - 0x80)) 0x80 0xBF rest
      else (none, b :: rest)

/-- What is left after the tail of a character is no longer than what was there. -/
theorem length_tail (follow code low high : Nat) (bytes : List UInt8) :
    (tail follow code low high bytes).2.length ≤ bytes.length := by
  induction bytes generalizing follow code low high with
  | nil => simp [tail]
  | cons b rest ih =>
    cases follow with
    | zero => simp [tail]
    | succ n =>
      simp only [tail]
      split
      · exact Nat.le_succ_of_le (ih ..)
      · exact Nat.le_refl _

/-- Reads bytes as text; ill-formed pieces become U+FFFD. -/
def decodeChars : List UInt8 → List Char
  | [] => []
  | b :: rest =>
    match lead? b.toNat with
    | none => replacement :: decodeChars rest
    | some l =>
      match _h : tail l.follow l.bits l.low l.high rest with
      | (code, after) => ((code.map Char.ofNat).getD replacement) :: decodeChars after
termination_by bytes => bytes.length
decreasing_by
  · exact Nat.lt_succ_self _
  · have := length_tail l.follow l.bits l.low l.high rest
    rw [_h] at this
    exact Nat.lt_succ_of_le this

/-- Reads bytes as text; ill-formed pieces become U+FFFD. -/
def decode (bytes : List UInt8) : String := String.ofList (decodeChars bytes)

/-- The character with the code of a byte. -/
def charOfByte (b : Nat) : Char := Char.ofNat (b % 256)

/-- The number of UTF-8 bytes of a text. -/
def size (s : String) : Nat := s.utf8ByteSize

end TreeFlow.Utf8
