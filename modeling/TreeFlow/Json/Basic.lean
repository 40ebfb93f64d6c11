import TreeFlow.Json.Scalar
import TreeFlow.Number.Shortest
import TreeFlow.Text.Quoted

/-!
# JSON values

The form in which syntax trees arrive and diagnostics are written. A number is an integer when
it is written without a point and an exponent and fits 64 bits, and a float otherwise. Objects
keep their members in the order in which they are written.

A document that is not JSON may hold scalars too. Nothing about one is decided before it is read
as null, a truth value, a number or a text.

What nobody asks for may be malformed in ways that show only when its meaning is worked out. Such a
value is unreadable: it can be skipped, and read as nothing.
-/

namespace TreeFlow

/-- A JSON value. -/
inductive Json where
  | null
  | bool (b : Bool)
  | int (v : Int)
  | float (x : Float)
  | text (s : String)
  /-- A scalar whose kind is up to the reader. -/
  | scalar (s : Scalar)
  | list (items : List Json)
  | object (members : List (String × Json))
  /-- An object that is a record and no choice, because one of its names stands elsewhere. -/
  | record (members : List (String × Json))
  /-- What has the form of a value and means none. -/
  | unreadable
  deriving Inhabited

namespace Json

/-! ### Reading a value -/

/-- Is the value null? -/
def isNull : Json → Bool
  | .null => true
  | .scalar s => s.isNull
  | _ => false

/-- The integer that a value is, if it is one. -/
def int? : Json → Option Int
  | .int v => some v
  | .scalar s => s.int?
  | _ => none

/-- The natural number below `bound` that a value is, if it is one. -/
def nat? (bound : Nat) (x : Json) : Option Nat := do
  let v ← x.int?
  if 0 ≤ v ∧ v < bound then some v.toNat else none

/-- The float that a value is; an integer stands for the nearest float. -/
def float? : Json → Option Float
  | .int v => some (Binary64.ofInt v)
  | .float x => some x
  | .scalar s => s.float?
  | _ => none

/-- The text that a value is, if it is one. -/
def text? : Json → Option String
  | .text s => some s
  | .scalar s => some s.text
  | _ => none

/-- The truth value that a value is, if it is one. -/
def bool? : Json → Option Bool
  | .bool b => some b
  | .scalar s => s.bool?
  | _ => none

/-- The items of a list, if the value is one. -/
def list? : Json → Option (List Json)
  | .list items => some items
  | _ => none

/-- The members of an object, if the value is one. -/
def object? : Json → Option (List (String × Json))
  | .object members | .record members => some members
  | _ => none

/-- The value in a place that may hold null instead: nothing, if it is null. -/
def nullable? : Json → Option (Option Json)
  | .null => some none
  | .scalar s => s.nullable?.map (·.map .scalar)
  | x => some (some x)

/-! ### Repeated members -/

/-- Members with the given one in place of those of its name, where the first of them stood. -/
def putMember (name : String) (x : Json) : List (String × Json) → List (String × Json)
  | [] => [(name, x)]
  | (other, y) :: rest =>
    if other = name then (name, x) :: rest else (other, y) :: putMember name x rest

mutual
/-- The value with only the last one of members that have one name, in every object inside. -/
def lastWins : Json → Json
  | .list items => .list (lastWinsItems items)
  | .object members => .object (lastWinsMembers members [])
  | .record members => .record (lastWinsMembers members [])
  | x => x

/-- The items, each with only the last one of members that have one name. -/
def lastWinsItems : List Json → List Json
  | [] => []
  | x :: rest => lastWins x :: lastWinsItems rest

/-- Puts members behind those seen so far. -/
def lastWinsMembers : List (String × Json) → List (String × Json) → List (String × Json)
  | [], seen => seen
  | (name, x) :: rest, seen => lastWinsMembers rest (putMember name (lastWins x) seen)
end

/-! ### Writing -/

/-- The four hexadecimal digits of a control character. -/
def controlCode (c : Char) : List Char :=
  let digits := Quoted.hexDigits c.toNat
  List.replicate (4 - digits.length) '0' ++ digits

/-- A character inside a JSON string. -/
def escapeChar (c : Char) : List Char :=
  if c = '"' then ['\\', '"']
  else if c = '\\' then ['\\', '\\']
  else if c = '\x08' then ['\\', 'b']
  else if c = '\x0c' then ['\\', 'f']
  else if c = '\n' then ['\\', 'n']
  else if c = '\r' then ['\\', 'r']
  else if c = '\t' then ['\\', 't']
  else if c.toNat < 0x20 then '\\' :: 'u' :: controlCode c
  else [c]

/-- A JSON string. -/
def quote (s : String) : String := String.ofList ('"' :: s.toList.flatMap escapeChar ++ ['"'])

mutual
/-- The compact text of a value, without blanks. A float that is not finite is `null`, and so is
what cannot be read. -/
def render : Json → String
  | .null | .unreadable => "null"
  | .bool b => if b then "true" else "false"
  | .int v => toString v
  | .float x => (Shortest.number? x).getD "null"
  | .text s => quote s
  | .scalar s => quote s.text
  | .list items => "[" ++ ",".intercalate (renderItems items) ++ "]"
  | .object members | .record members => "\x7b" ++ ",".intercalate (renderMembers members) ++ "\x7d"

/-- The texts of the items. -/
def renderItems : List Json → List String
  | [] => []
  | x :: rest => render x :: renderItems rest

/-- The texts of the members. -/
def renderMembers : List (String × Json) → List String
  | [] => []
  | (name, x) :: rest => (quote name ++ ":" ++ render x) :: renderMembers rest
end

/-! ### Building -/

/-- An optional value; nothing is `null`. -/
def ofOption (f : α → Json) : Option α → Json
  | none => .null
  | some a => f a

/-- A count. -/
def ofNat (n : Nat) : Json := .int n

/-- A float. One that is not finite has no value and is `null`. -/
def ofFloat (x : Float) : Json := if x.isFinite then .float x else .null

end Json

end TreeFlow
