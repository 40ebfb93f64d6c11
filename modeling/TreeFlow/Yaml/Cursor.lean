/-!
# Places in a text

In YAML the column at which something stands says what it belongs to. A cursor is a place in a text
that knows its line and its column. Only a line feed begins a new line here: a carriage return ends
what stands before it, as a line break does, but columns go on being counted behind it.
-/

namespace TreeFlow.Yaml

/-! ### Classes of characters -/

/-- A blank within a line. -/
def isBlank (c : Char) : Bool := c == ' ' || c == '\t'

/-- A line break. -/
def isBreak (c : Char) : Bool := c == '\n' || c == '\r'

/-- A blank within a line or a line break. -/
def isSpace (c : Char) : Bool := isBlank c || isBreak c

/-- The characters that stand between values in flow style. -/
def isFlowMark (c : Char) : Bool := [',', '[', ']', '\x7b', '\x7d'].contains c

/-- The characters of names. -/
def isNameChar (c : Char) : Bool := c.isAlphanum || c == '_' || c == '-'

/-- Does a space or the end of the text come next? -/
def atSpace : List Char → Bool
  | [] => true
  | c :: _ => isSpace c

/-- Does a line break or the end of the text come next? -/
def atBreak : List Char → Bool
  | [] => true
  | c :: _ => isBreak c

/-- Is a colon in front of this text more than a character of a plain scalar? -/
def endsKey (flow : Bool) : List Char → Bool
  | [] => true
  | c :: _ => isSpace c || (flow && isFlowMark c)

/-- The number of line breaks among characters; a carriage return and the line feed behind it are
one. -/
def breakCount : List Char → Nat
  | [] => 0
  | '\r' :: '\n' :: rest => breakCount rest + 1
  | c :: rest => if isBreak c then breakCount rest + 1 else breakCount rest

/-! ### Cursors -/

/-- A place in a text. -/
structure Cursor where
  /-- What stands behind the place. -/
  rest : List Char
  line : Nat := 0
  column : Nat := 0
  /-- The number of characters in front of the place. -/
  index : Nat := 0
  deriving Repr, Inhabited

namespace Cursor

/-- The start of a text. A text ends at the first character that is zero. -/
def ofString (s : String) : Cursor := ⟨s.toList.takeWhile (· != '\x00'), 0, 0, 0⟩

/-- The place behind the next characters. -/
def advance : Nat → Cursor → Cursor
  | 0, c => c
  | n + 1, c =>
    match c.rest with
    | [] => c
    | '\n' :: rest => advance n ⟨rest, c.line + 1, 0, c.index + 1⟩
    | _ :: rest => advance n ⟨rest, c.line, c.column + 1, c.index + 1⟩

/-- The characters up to the first one that is not in a class. -/
def ahead (p : Char → Bool) (c : Cursor) : List Char := c.rest.takeWhile p

/-- The place behind the characters of a class. -/
def skip (p : Char → Bool) (c : Cursor) : Cursor := c.advance (c.ahead p).length

/-- The place behind the blanks and the comment that come next. -/
def skipComment (c : Cursor) : Cursor :=
  let c := c.skip isBlank
  match c.rest with
  | '#' :: _ => c.skip (!isBreak ·)
  | _ => c

/-- The place behind the line break that comes next, if one does. -/
def skipBreak (c : Cursor) : Cursor :=
  match c.rest with
  | '\r' :: '\n' :: _ => c.advance 2
  | b :: _ => if isBreak b then c.advance 1 else c
  | [] => c

/-- Does a line between documents begin here, with the given character three times? -/
def atMarker (mark : Char) (c : Cursor) : Bool :=
  match c.column, c.rest with
  | 0, x :: y :: z :: rest => x == mark && y == mark && z == mark && atSpace rest
  | _, _ => false

/-- Does a line between documents begin here? -/
def atAnyMarker (c : Cursor) : Bool := c.atMarker '-' || c.atMarker '.'

end Cursor

end TreeFlow.Yaml
