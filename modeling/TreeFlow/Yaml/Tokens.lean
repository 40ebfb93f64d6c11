import TreeFlow.Yaml.Scalar
import TreeFlow.Yaml.Token

/-!
# From text to tokens

`Token.ofString?` takes a text in YAML apart. Two things make this more than cutting it into words.

* Indentation stands for tokens. A list or an object in block style begins where a dash, a key or a
  colon stands deeper than what is open, and ends where something stands less deep.
* A key is told from a scalar by the colon behind it. So the place of what may turn out to be a key
  is kept, one for each bracket that is open, and the token in front of it is put in when the colon
  comes. A key has to stand on one line, and takes at most 1024 characters.

Inside brackets indentation means nothing.
-/

namespace TreeFlow.Yaml

/-- What may turn out to be a key. -/
structure KeyPlace where
  /-- The number of tokens in front of it. -/
  token : Nat
  start : Cursor
  /-- It stands in a place where nothing but a key may. -/
  isRequired : Bool

/-- The tokens of a text, while they are read. -/
structure Tokens where
  cursor : Cursor
  read : Array Token := #[]
  /-- For each list and object in block style that is open, the innermost first, the least column
  at which something inside of it may stand. -/
  levels : List Nat := []
  /-- The place of a key inside the innermost bracket. -/
  key : Option KeyPlace := none
  /-- The same for the other brackets, the innermost first, and for what is outside of all. -/
  outerKeys : List (Option KeyPlace) := []
  /-- May a key begin here? -/
  keyAllowed : Bool := true
  /-- The place behind the last quoted scalar; a colon there needs no space behind it. -/
  quoteEnd : Nat := 0

namespace Tokens

/-! ### State -/

/-- Is a bracket open? -/
def inFlow (s : Tokens) : Bool := !s.outerKeys.isEmpty

/-- The least column at which something inside of all that is open may stand. -/
def least (s : Tokens) : Nat := s.levels.headD 0

/-- The reading goes on at a place. -/
def goTo (s : Tokens) (c : Cursor) : Tokens := { s with cursor := c }

/-- The reading goes on behind the next characters. -/
def advance (s : Tokens) (n : Nat) : Tokens := s.goTo (s.cursor.advance n)

/-- Adds a token. -/
def push (s : Tokens) (t : Token) : Tokens := { s with read := s.read.push t }

/-- Tells whether a key may begin at the next token. -/
def allowKey (s : Tokens) (allowed : Bool) : Tokens := { s with keyAllowed := allowed }

/-! ### Indentation -/

/-- Opens a list or an object in block style at a column, if that is deeper than what is open. Its
token is put behind the first `position` ones. -/
def openLevel (s : Tokens) (t : Token) (column position : Nat) : Tokens :=
  if !s.inFlow && s.least ≤ column then
    { s with levels := (column + 1) :: s.levels, read := s.read.insertIdxIfInBounds position t }
  else s

/-- Closes the given levels up to the first one of which things may stand at column `bound - 1`. -/
def closeLevels (bound : Nat) (read : Array Token) : List Nat → Array Token × List Nat
  | [] => (read, [])
  | level :: levels =>
    if bound < level then closeLevels bound (read.push .blockEnd) levels
    else (read, level :: levels)

/-- Closes what may not hold anything at column `bound - 1`; with zero, everything. -/
def close (s : Tokens) (bound : Nat) : Tokens :=
  if s.inFlow then s
  else
    let (read, levels) := closeLevels bound s.read s.levels
    { s with read, levels }

/-! ### Keys -/

/-- The longest distance between a key and its colon. -/
def maxKeyLength : Nat := 1024

/-- Is the colon of a key that starts at a place missing at the cursor? -/
def KeyPlace.isStale (k : KeyPlace) (c : Cursor) : Bool :=
  k.start.line < c.line || k.start.index + maxKeyLength < c.index

/-- What is left of the place of a key at the cursor. A required one may not be given up. -/
def freshKey? (c : Cursor) : Option KeyPlace → Option (Option KeyPlace)
  | none => some none
  | some k =>
    if KeyPlace.isStale k c then (if k.isRequired then none else some none) else some (some k)

/-- Gives up the places of keys whose colon cannot come any more. -/
def dropStale? (s : Tokens) : Option Tokens := do
  return {
    s with
    key := ← freshKey? s.cursor s.key
    outerKeys := ← s.outerKeys.mapM (freshKey? s.cursor) }

/-- Gives up the place of a key. -/
def dropKey? (s : Tokens) : Option Tokens :=
  if s.key.any (·.isRequired) then none else some { s with key := none }

/-- Keeps the place of the next token, if it may turn out to be a key. -/
def saveKey? (s : Tokens) : Option Tokens :=
  if s.keyAllowed then do
    let isRequired := s.inFlow && s.least == s.cursor.column + 1
    return { ← s.dropKey? with key := some ⟨s.read.size, s.cursor, isRequired⟩ }
  else some s

/-! ### Marks -/

/-- The number of brackets that may be open at once. -/
def maxBrackets : Nat := 255

/-- Reads an opening bracket. -/
def openFlow? (s : Tokens) (t : Token) : Option Tokens := do
  let s ← s.saveKey?
  if maxBrackets ≤ s.outerKeys.length then none
  else
    let s := { s with key := none, outerKeys := s.key :: s.outerKeys }
    return ((s.push t).allowKey true).advance 1

/-- Reads a closing bracket. -/
def closeFlow? (s : Tokens) (t : Token) : Option Tokens := do
  let s ← s.dropKey?
  let s := match s.outerKeys with
    | [] => s
    | key :: outerKeys => { s with key, outerKeys }
  return ((s.push t).allowKey false).advance 1

/-- Reads a comma. -/
def comma? (s : Tokens) : Option Tokens := do
  return (((← s.dropKey?).push .comma).allowKey true).advance 1

/-- Reads the dash of an item, for which a key has to be allowed. -/
def item? (s : Tokens) : Option Tokens := do
  if s.inFlow || !s.keyAllowed then none
  else
    let s ← (s.openLevel .listStart s.cursor.column s.read.size).dropKey?
    return ((s.push .item).allowKey true).advance 1

/-- Opens an object for a question mark, or for a colon without a key in front of it. Outside of
brackets a key has to be allowed there. -/
def openObject? (s : Tokens) : Option Tokens :=
  if !s.inFlow && !s.keyAllowed then none
  else some (s.openLevel .objectStart s.cursor.column s.read.size)

/-- Reads the question mark in front of a key. -/
def key? (s : Tokens) : Option Tokens := do
  let s ← (← s.openObject?).dropKey?
  return ((s.push .key).allowKey !s.inFlow).advance 1

/-- Reads a colon. If there is the place of a key, its tokens are put in there. -/
def value? (s : Tokens) : Option Tokens := do
  let s ← match s.key with
    | some k =>
      let s := { s with key := none, read := s.read.insertIdxIfInBounds k.token .key }
      some ((s.openLevel .objectStart k.start.column k.token).allowKey false)
    | none => (← s.openObject?).allowKey !s.inFlow
  return (s.push .value).advance 1

/-- Reads what may be a key: words, given how they are read. -/
def word? (s : Tokens) (read : Tokens → Option Tokens) : Option Tokens := do
  read ((← s.saveKey?).allowKey false)

/-- Reads the name of an anchor or an alias. -/
def name? (s : Tokens) (t : String → Token) : Option Tokens :=
  s.word? fun s => do
    let (name, c) ← Yaml.name? s.cursor
    return (s.push (t name)).goTo c

/-- Reads a tag. -/
def tag? (s : Tokens) : Option Tokens :=
  s.word? fun s => do
    let (tag, c) ← Yaml.tag? s.cursor
    return (s.push (.tag tag)).goTo c

/-- Reads a quoted scalar. -/
def quoted? (s : Tokens) (mark : Char) : Option Tokens :=
  s.word? fun s => do
    let (text, c) ← Yaml.quoted? mark s.cursor
    return { (s.push (.scalar text false)).goTo c with quoteEnd := c.index }

/-- Reads a plain scalar. Behind one at the end of a line a key may begin. -/
def plain? (s : Tokens) : Option Tokens :=
  s.word? fun s => do
    let p ← Yaml.plain? s.inFlow s.least s.cursor
    return ((s.push (.scalar p.text true)).allowKey p.endsLine).goTo p.behind

/-- Reads a block of lines. Behind it a key may begin. -/
def blockText? (s : Tokens) (literal : Bool) : Option Tokens := do
  let s ← s.saveKey?
  let (text, c) ← Yaml.blockText? literal s.least s.cursor
  return ((s.push (.scalar text false)).allowKey true).goTo c

/-! ### Between documents -/

/-- Ends all that is open in block style. -/
def endBlocks? (s : Tokens) : Option Tokens := do
  return (← (s.close 0).dropKey?).allowKey false

/-- Reads a line between documents. -/
def marker? (s : Tokens) (t : Token) : Option Tokens := do
  return ((← s.endBlocks?).push t).advance 3

/-- Reads a directive. -/
def directive? (s : Tokens) : Option Tokens := do
  let s ← s.endBlocks?
  return (s.push .directive).goTo (← Yaml.directive? s.cursor)

/-! ### Steps -/

/-- Counts the characters between tokens, behind the first `n`, and tells whether a key may begin
behind them. Outside of brackets it may in a new line. A tab does not count as a space where a key
may begin. -/
def spaces (inFlow : Bool) : Nat → Bool → Bool → List Char → Nat × Bool
  | n, allowed, _, [] => (n, allowed)
  | n, allowed, inComment, c :: rest =>
    if isBreak c then spaces inFlow (n + 1) (allowed || !inFlow) false rest
    else if inComment || c == ' ' || (c == '\t' && (inFlow || !allowed)) then
      spaces inFlow (n + 1) allowed inComment rest
    else if c = '#' then spaces inFlow (n + 1) allowed true rest
    else (n, allowed)

/-- Goes to the next token, and ends what it is not inside of. -/
def toNext? (s : Tokens) : Option Tokens := do
  let (n, allowed) := spaces s.inFlow 0 s.keyAllowed false s.cursor.rest
  let s ← ((s.advance n).allowKey allowed).dropStale?
  return s.close (s.cursor.column + 1)

/-- Reads the token that begins with a character in front of others. -/
def token? (s : Tokens) (c : Char) (rest : List Char) : Option Tokens :=
  if s.cursor.column = 0 ∧ c = '%' then s.directive?
  else if s.cursor.atMarker '-' then s.marker? .documentStart
  else if s.cursor.atMarker '.' then s.marker? .documentEnd
  else if c = '[' then s.openFlow? .openBracket
  else if c = '\x7b' then s.openFlow? .openBrace
  else if c = ']' then s.closeFlow? .closeBracket
  else if c = '\x7d' then s.closeFlow? .closeBrace
  else if c = ',' then s.comma?
  else if c = '-' ∧ atSpace rest = true then s.item?
  else if c = '?' ∧ atSpace rest = true then s.key?
  else if c = ':' ∧ (endsKey s.inFlow rest || (s.inFlow && s.cursor.index == s.quoteEnd)) = true
  then s.value?
  else if c = '*' then s.name? .alias
  else if c = '&' then s.name? .anchor
  else if c = '!' then s.tag?
  else if c = '|' ∧ s.inFlow = false then s.blockText? true
  else if c = '>' ∧ s.inFlow = false then s.blockText? false
  else if c = '\'' ∨ c = '"' then s.quoted? c
  else if c = '%' ∨ c = '@' ∨ c = '\x60' then none
  else s.plain?

/-- Reads all tokens. Every step takes a character at least. -/
def all? : Nat → Tokens → Option (List Token)
  | 0, _ => none
  | n + 1, s => do
    let s ← s.toNext?
    match s.cursor.rest with
    | [] => return (← s.endBlocks?).read.toList
    | c :: rest => all? n (← s.token? c rest)

end Tokens

/-- The tokens of a text. -/
def Token.ofString? (s : String) : Option (List Token) :=
  Tokens.all? (s.length + 1) { cursor := .ofString s }

end TreeFlow.Yaml
