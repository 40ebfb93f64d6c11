import TreeFlow.Json.Basic

/-!
# Reading JSON

`Json.parse?` reads one value and nothing after it but blanks. A number with a point, an
exponent or more digits than 64 bits hold becomes a float: as many digits as fit an unsigned
64-bit word make the significand, the rest only count as powers of ten, and the significand is
then multiplied or divided once by a power of ten.

A number too large for a float, and a string with half of a character, are unreadable, as is an
object with such a name. Whatever breaks the form of JSON is refused.
-/

namespace TreeFlow.Json

/-! ### Numbers -/

/-- The digits at the start of a text, as numbers, and what follows them. -/
def digits (cs : List Char) : List Nat × List Char :=
  ((cs.takeWhile Char.isDigit).map fun c => c.toNat - '0'.toNat, cs.dropWhile Char.isDigit)

/-- A significand and a power of ten, while digits are added to it. -/
structure Scaled where
  significand : Nat
  exponent : Int

/-- Adds a digit, if the significand still fits 64 bits. -/
def Scaled.push? (x : Scaled) (d : Nat) : Option Nat :=
  let next := x.significand * 10 + d
  if next < UInt64.size then some next else none

/-- Adds the digits before the point. Once the significand is full, each one counts as a power
of ten. -/
def Scaled.whole (x : Scaled) : List Nat → Scaled
  | [] => x
  | d :: rest =>
    match x.push? d with
    | some next => Scaled.whole ⟨next, x.exponent⟩ rest
    | none => ⟨x.significand, x.exponent + (rest.length + 1)⟩

/-- Adds the digits after the point. Once the significand is full, the others are dropped. -/
def Scaled.fraction (x : Scaled) : List Nat → Scaled
  | [] => x
  | d :: rest =>
    match x.push? d with
    | some next => Scaled.fraction ⟨next, x.exponent - 1⟩ rest
    | none => x

/-- The greatest power of ten that a float is scaled by in one step. -/
def maxPower : Nat := 308

/-- The float nearest to a power of ten. -/
def powerOfTen (n : Nat) : Float := Binary64.ofRatio false (Nat.pow 10 n) 1

/-- Divides by powers of ten in steps of at most `maxPower`. -/
def scaleDown (x : Float) (n : Nat) : Float :=
  if _h : maxPower < n then
    if x == 0.0 then x else scaleDown (x / powerOfTen maxPower) (n - maxPower)
  else x / powerOfTen n
termination_by n
decreasing_by
  simp only [maxPower] at *
  omega

/-- The float of a significand and a power of ten; nothing if it is too large. -/
def Scaled.float? (x : Scaled) : Option Float :=
  let f := (UInt64.ofNat x.significand).toFloat
  if 0 ≤ x.exponent then
    let n := x.exponent.toNat
    if maxPower < n then (if f == 0.0 then some f else none)
    else
      let scaled := f * powerOfTen n
      if scaled.isInf then none else some scaled
  else some (scaleDown f (-x.exponent).toNat)

/-- Reads an exponent after its `e`. -/
def exponent? (cs : List Char) : Option (Int × List Char) :=
  let (negative, rest) := match cs with
    | '+' :: rest => (false, rest)
    | '-' :: rest => (true, rest)
    | rest => (false, rest)
  match digits rest with
  | ([], _) => none
  | (ds, rest) =>
    let n : Int := (ds.foldl (fun n d => n * 10 + d) 0 : Nat)
    some (if negative then -n else n, rest)

/-- Reads a number without its sign. The flag tells whether it is written as an integer. -/
def magnitude? (cs : List Char) : Option (Bool × Scaled × List Char) := do
  let (ds, rest) := digits cs
  match ds with
  | [] => failure
  | 0 :: _ :: _ => failure
  | _ => pure ()
  let whole := Scaled.whole ⟨0, 0⟩ ds
  let (exact, x, rest) ← match rest with
    | '.' :: rest =>
      match digits rest with
      | ([], _) => failure
      | (fs, rest) => pure (false, whole.fraction fs, rest)
    | rest => pure (whole.exponent == 0, whole, rest)
  match rest with
  | 'e' :: rest | 'E' :: rest => do
    let (e, rest) ← exponent? rest
    return (false, ⟨x.significand, x.exponent + e⟩, rest)
  | rest => return (exact, x, rest)

/-- Reads a number. An integer below the signed 64-bit range is a float, and so is a negative
zero. A float that is too large is unreadable. -/
def number? (negative : Bool) (cs : List Char) : Option (Json × List Char) := do
  let (exact, x, rest) ← magnitude? cs
  if exact && (!negative || (x.significand != 0 && x.significand ≤ 0x8000000000000000)) then
    let v : Int := x.significand
    return (.int (if negative then -v else v), rest)
  else
    match x.float? with
    | some f => return (.float (if negative then -f else f), rest)
    | none => return (.unreadable, rest)

/-! ### Strings -/

/-- The number written by four hexadecimal digits. -/
def hex4? (a b c d : Char) : Option Nat := Reading.nat? 16 [a, b, c, d]

/-- The character of a one-letter escape. -/
def plainEscape? : Char → Option Char
  | '"' => some '"'
  | '\\' => some '\\'
  | '/' => some '/'
  | 'b' => some '\x08'
  | 'f' => some '\x0c'
  | 'n' => some '\n'
  | 'r' => some '\r'
  | 't' => some '\t'
  | _ => none

/-- Joins the two halves of a code point beyond 16 bits. -/
def joinHalves? (high low : Nat) : Option Char :=
  if 0xD800 ≤ high ∧ high < 0xDC00 ∧ 0xDC00 ≤ low ∧ low < 0xE000 then
    some (Char.ofNat (0x10000 + (high - 0xD800) * 0x400 + (low - 0xDC00)))
  else none

/-- A string that is being read: its characters so far, the last one first, unless it holds half of
a character. -/
abbrev Gathered := Option (List Char)

/-- Adds a character, if there is one. -/
def Gathered.add (acc : Gathered) (c : Option Char) : Gathered := do return (← c) :: (← acc)

/-- Reads the rest of a string after its opening quote: its text, if it has one, and what follows.
The first half of a character has to be followed by the second. -/
def stringRest? (acc : Gathered) : List Char → Option (Option String × List Char)
  | '"' :: rest => some (acc.map fun cs => String.ofList cs.reverse, rest)
  | '\\' :: 'u' :: a :: b :: c :: d :: '\\' :: 'u' :: e :: f :: g :: h :: rest => do
    let high ← hex4? a b c d
    if high < 0xD800 ∨ 0xE000 ≤ high then
      let acc := Gathered.add acc (some (Char.ofNat high))
      stringRest? acc ('\\' :: 'u' :: e :: f :: g :: h :: rest)
    else stringRest? (Gathered.add acc (joinHalves? high (← hex4? e f g h))) rest
  | '\\' :: 'u' :: a :: b :: c :: d :: rest => do
    let code ← hex4? a b c d
    stringRest? (Gathered.add acc (if code.isValidChar then some (Char.ofNat code) else none)) rest
  | '\\' :: c :: rest => do stringRest? (Gathered.add acc (some (← plainEscape? c))) rest
  | c :: rest => if c.toNat < 0x20 then none else stringRest? (Gathered.add acc (some c)) rest
  | [] => none

/-! ### Values -/

/-- Is the character a blank between tokens? -/
def isBlank (c : Char) : Bool := c == ' ' || c == '\n' || c == '\t' || c == '\r'

/-- Drops blanks. -/
def skipBlanks (cs : List Char) : List Char := cs.dropWhile isBlank

/-- Drops a given word. -/
def skipWord? : List Char → List Char → Option (List Char)
  | [], rest => some rest
  | w :: word, c :: rest => if w = c then skipWord? word rest else none
  | _ :: _, [] => none

/-- An object, if all of its names can be read. The last member comes first. -/
def objectOf (members : List (Option String × Json)) : Json :=
  match members.reverse.mapM fun (name, x) => name.map (·, x) with
  | some members => .object members
  | none => .unreadable

mutual
/-- Reads a value. Each step reads at least one character, so as many steps as there are
characters are enough. -/
def value? : Nat → List Char → Option (Json × List Char)
  | 0, _ => none
  | n + 1, cs =>
    match skipBlanks cs with
    | 'n' :: rest => (skipWord? ['u', 'l', 'l'] rest).map (.null, ·)
    | 't' :: rest => (skipWord? ['r', 'u', 'e'] rest).map (.bool true, ·)
    | 'f' :: rest => (skipWord? ['a', 'l', 's', 'e'] rest).map (.bool false, ·)
    | '"' :: rest => (stringRest? (some []) rest).map fun (s, rest) =>
      ((s.map .text).getD .unreadable, rest)
    | '[' :: rest =>
      match skipBlanks rest with
      | ']' :: rest => some (.list [], rest)
      | rest => items? n [] rest
    | '\x7b' :: rest =>
      match skipBlanks rest with
      | '\x7d' :: rest => some (.object [], rest)
      | rest => members? n [] rest
    | '-' :: rest => number? true rest
    | rest => number? false rest

/-- Reads the items of a list from the first one on. -/
def items? : Nat → List Json → List Char → Option (Json × List Char)
  | 0, _, _ => none
  | n + 1, acc, cs =>
    match value? n cs with
    | none => none
    | some (x, rest) =>
      match skipBlanks rest with
      | ',' :: rest => items? n (x :: acc) rest
      | ']' :: rest => some (.list (x :: acc).reverse, rest)
      | _ => none

/-- Reads the members of an object from the first one on. -/
def members? : Nat → List (Option String × Json) → List Char → Option (Json × List Char)
  | 0, _, _ => none
  | n + 1, acc, cs =>
    match skipBlanks cs with
    | '"' :: rest =>
      match stringRest? (some []) rest with
      | none => none
      | some (name, rest) =>
        match skipBlanks rest with
        | ':' :: rest =>
          match value? n rest with
          | none => none
          | some (x, rest) =>
            match skipBlanks rest with
            | ',' :: rest => members? n ((name, x) :: acc) rest
            | '\x7d' :: rest => some (objectOf ((name, x) :: acc), rest)
            | _ => none
        | _ => none
    | _ => none
end

/-- Reads a text that holds one value. -/
def parse? (s : String) : Option Json :=
  let cs := s.toList
  match value? (cs.length + 1) cs with
  | some (x, rest) => if (skipBlanks rest).isEmpty then some x else none
  | none => none

end TreeFlow.Json
