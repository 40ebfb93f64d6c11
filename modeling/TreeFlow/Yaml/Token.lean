import TreeFlow.Json.Scalar
import TreeFlow.Yaml.Cursor

/-!
# YAML tokens

A text in YAML is a sequence of tokens: scalars, the marks of flow style, and in block style the
starts and ends that indentation stands for. Two kinds of token say something about the value behind
them: an anchor gives it a name that an alias may stand for later, and a tag says what kind of value
it is. The words of both are read here.
-/

namespace TreeFlow.Yaml

/-- A token. -/
inductive Token where
  /-- A line with an instruction in front of a document. -/
  | directive
  | documentStart
  | documentEnd
  /-- A list in block style begins. -/
  | listStart
  /-- An object in block style begins. -/
  | objectStart
  /-- A list or an object in block style ends. -/
  | blockEnd
  /-- A dash in front of an item. -/
  | item
  /-- The next value is a key. -/
  | key
  /-- The next value belongs to a key. -/
  | value
  | openBracket
  | closeBracket
  | openBrace
  | closeBrace
  | comma
  | alias (name : String)
  | anchor (name : String)
  | tag (t : Tag)
  | scalar (text : String) (isPlain : Bool)
  deriving DecidableEq, Repr, Inhabited

/-! ### Names of values -/

/-- May an anchor or an alias end in front of this text? -/
def endsName : List Char → Bool
  | [] => true
  | c :: _ => isSpace c || ['?', ':', ',', ']', '\x7d', '%', '@', '\x60'].contains c

/-- Reads the name of an anchor or an alias behind its mark. -/
def name? (c : Cursor) : Option (String × Cursor) :=
  let c := c.advance 1
  let chars := c.ahead isNameChar
  let c := c.advance chars.length
  if chars.isEmpty || !endsName c.rest then none else some (String.ofList chars, c)

/-! ### Tags -/

/-- How many bytes a character takes that begins with a certain one. -/
def sequenceLength? (byte : Nat) : Option Nat :=
  if byte < 0x80 then some 1
  else if 0xC0 ≤ byte ∧ byte < 0xE0 then some 2
  else if 0xE0 ≤ byte ∧ byte < 0xF0 then some 3
  else if 0xF0 ≤ byte ∧ byte < 0xF8 then some 4
  else none

/-- Reads the bytes of a character behind the first one, each of them a percent sign with two
digits, into a number with a byte for each. -/
def furtherBytes? : Nat → Nat → List Char → Option (Nat × List Char)
  | 0, code, cs => some (code, cs)
  | n + 1, code, '%' :: a :: b :: rest => do
    let byte ← Reading.nat? 16 [a, b]
    if 0x80 ≤ byte ∧ byte < 0xC0 then furtherBytes? n (code * 0x100 + byte) rest else none
  | _ + 1, _, _ => none

/-- Reads a character of a tag that is written as bytes. The bytes are not put together: their
number has to be the code of a character as it stands. -/
def escapedChar? (cs : List Char) : Option (Char × List Char) := do
  match cs with
  | '%' :: a :: b :: rest =>
    let byte ← Reading.nat? 16 [a, b]
    let length ← sequenceLength? byte
    let (code, rest) ← furtherBytes? (length - 1) byte rest
    if code.isValidChar then some (Char.ofNat code, rest) else none
  | _ => none

/-- The characters of tags. -/
def isTagChar (c : Char) : Bool := isNameChar c || ";/?:@&=+$,.!~*'()[]".contains c

/-- Reads the characters of a tag. Every step takes one at least. -/
def tagChars? : Nat → List Char → List Char → Option (List Char × List Char)
  | 0, _, _ => none
  | n + 1, acc, cs =>
    match cs with
    | [] => some (acc.reverse, [])
    | '%' :: _ => do
      let (c, rest) ← escapedChar? cs
      tagChars? n (c :: acc) rest
    | c :: rest => if isTagChar c then tagChars? n (c :: acc) rest else some (acc.reverse, cs)

/-- Reads the name of a tag, and tells what follows it. -/
def tagName? (cs : List Char) : Option (String × List Char) :=
  (tagChars? (cs.length + 1) [] cs).map fun (name, rest) => (String.ofList name, rest)

/-- Reads a name that may not be empty. -/
def fullTagName? (cs : List Char) : Option (String × List Char) :=
  (tagName? cs).filter (·.1 != "")

/-- Reads a tag, given the text behind its first mark. Between angles the name stands alone; behind
a second mark it belongs to the handle that ends there; else it may be empty, and then the mark
itself is the name. -/
def tagRest? (cs : List Char) : Option (Tag × List Char) :=
  match cs with
  | '<' :: cs =>
    match fullTagName? cs with
    | some (name, '>' :: rest) => some (⟨"", name⟩, rest)
    | _ => none
  | cs =>
    let word := cs.takeWhile isNameChar
    match cs.dropWhile isNameChar with
    | '!' :: rest => (fullTagName? rest).map fun (name, rest) =>
      (⟨String.ofList ('!' :: word ++ ['!']), name⟩, rest)
    | _ => (tagName? cs).map fun (name, rest) =>
      (if name = "" then ⟨"", "!"⟩ else ⟨"!", name⟩, rest)

/-- Reads a tag. A space has to follow it. -/
def tag? (c : Cursor) : Option (Tag × Cursor) := do
  let (tag, rest) ← tagRest? (c.rest.drop 1)
  if atSpace rest then some (tag, c.advance (c.rest.length - rest.length)) else none

/-! ### Directives -/

/-- Reads a number of at most nine digits. -/
def versionNumber? (cs : List Char) : Option (List Char) :=
  let digits := cs.takeWhile Char.isDigit
  if 0 < digits.length ∧ digits.length ≤ 9 then some (cs.drop digits.length) else none

/-- What follows a version. -/
def version? (cs : List Char) : Option (List Char) := do
  match ← versionNumber? (cs.dropWhile isBlank) with
  | '.' :: rest => versionNumber? rest
  | _ => none

/-- What follows a handle and the name that it stands for. The name need not be there if the handle
is. -/
def tagDirective? (cs : List Char) : Option (List Char) := do
  match cs.dropWhile isBlank with
  | '!' :: cs =>
    let word := cs.takeWhile isNameChar
    let rest ← match cs.dropWhile isNameChar with
      | '!' :: rest => some rest
      | rest => if word.isEmpty then some rest else none
    let (_, rest) ← fullTagName? (rest.dropWhile isBlank)
    if atSpace rest then some rest else none
  | _ => none

/-- Reads the line of a directive, and goes behind its end. What a directive says does not matter;
only versions and handles of tags have a form of their own. -/
def directive? (c : Cursor) : Option Cursor := do
  let cs := c.rest.drop 1
  let word := cs.takeWhile isNameChar
  let rest := cs.drop word.length
  if word.isEmpty || !atSpace rest then none
  else
    let rest ← match String.ofList word with
      | "YAML" => version? rest
      | "TAG" => tagDirective? rest
      | _ => some (rest.dropWhile (!isBreak ·))
    let c := (c.advance (c.rest.length - rest.length)).skipComment
    if atBreak c.rest then some c.skipBreak else none

end TreeFlow.Yaml
