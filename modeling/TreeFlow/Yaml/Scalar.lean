import TreeFlow.Number.Reading
import TreeFlow.Yaml.Cursor

/-!
# YAML scalars

A scalar is plain, quoted in one of two ways, or a block of lines. Blanks inside a plain or quoted
scalar count only while they stay on a line: a line break, with the blanks around it, becomes a
single space, and further breaks after it stay. A plain scalar ends where something else has to
begin, such as a comment, the colon behind a key, or in flow style a bracket or a comma.

How deep the surroundings of a scalar are indented is given as `least`, the least column at which
something inside of them may stand.
-/

namespace TreeFlow.Yaml

/-! ### Blanks inside scalars -/

/-- What blanks and line breaks between two words stand for. -/
def fold (gap : List Char) : List Char :=
  match breakCount gap with
  | 0 => gap
  | 1 => [' ']
  | n + 2 => List.replicate (n + 1) '\n'

/-- Is there a tab where a line is still indented? The characters begin at a column; `broken` tells
whether a line break stands before them. -/
def hasIndentingTab (least : Nat) : Nat → Bool → List Char → Bool
  | _, _, [] => false
  | column, broken, c :: rest =>
    if c = '\n' then hasIndentingTab least 0 true rest
    else if c = '\t' ∧ broken = true ∧ column < least then true
    else hasIndentingTab least (column + 1) (broken || isBreak c) rest

/-! ### Plain scalars -/

/-- The characters of a plain scalar up to the next space. -/
def plainWord (flow : Bool) : List Char → List Char
  | [] => []
  | c :: rest =>
    if isSpace c || (c == ':' && endsKey flow rest) || (flow && isFlowMark c) then []
    else c :: plainWord flow rest

/-- A plain scalar, and the place behind it and the blanks that follow it. -/
structure PlainScalar where
  text : String
  /-- There is a line break among those blanks. -/
  endsLine : Bool
  behind : Cursor

/-- Reads a plain scalar on from what `acc` holds, the last character first, and a gap behind it.
Every step takes a character at least, so as many as there are characters are enough. -/
def plainFrom? (flow : Bool) (least : Nat) :
    Nat → List Char → List Char → Cursor → Option PlainScalar
  | 0, _, _, _ => none
  | n + 1, acc, gap, c =>
    let finish (acc gap : List Char) (c : Cursor) : Option PlainScalar :=
      some ⟨String.ofList acc.reverse, breakCount gap != 0, c⟩
    if c.atAnyMarker || c.rest.head? == some '#' then finish acc gap c
    else
      let word := plainWord flow c.rest
      let (acc, gap) :=
        if word.isEmpty then (acc, gap) else (word.reverse ++ (fold gap).reverse ++ acc, [])
      let c := c.advance word.length
      let spaces := c.ahead isSpace
      if spaces.isEmpty then finish acc gap c
      else if hasIndentingTab least c.column false spaces then none
      else
        let c := c.advance spaces.length
        if !flow && c.column < least then finish acc spaces c
        else plainFrom? flow least n acc spaces c

/-- Reads a plain scalar. -/
def plain? (flow : Bool) (least : Nat) (c : Cursor) : Option PlainScalar :=
  plainFrom? flow least (c.rest.length + 1) [] [] c

/-! ### Quoted scalars -/

/-- The character of a one-letter escape. -/
def plainEscape? : Char → Option Char
  | '0' => some '\x00'
  | 'a' => some '\x07'
  | 'b' => some '\x08'
  | 't' | '\t' => some '\t'
  | 'n' => some '\n'
  | 'v' => some '\x0b'
  | 'f' => some '\x0c'
  | 'r' => some '\r'
  | 'e' => some '\x1b'
  | ' ' => some ' '
  | '"' => some '"'
  | '\'' => some '\''
  | '\\' => some '\\'
  | 'N' => some '\u0085'
  | '_' => some '\u00a0'
  | 'L' => some '\u2028'
  | 'P' => some '\u2029'
  | _ => none

/-- The character whose code hexadecimal digits spell, if there is one. -/
def codedChar? (digits : List Char) : Option Char := do
  let code ← Reading.nat? 16 digits
  if code.isValidChar then some (Char.ofNat code) else none

/-- The characters between two spaces of a quoted scalar. -/
structure QuotedWord where
  /-- What the characters stand for. -/
  chars : List Char := []
  /-- How many characters there are. -/
  width : Nat := 0
  /-- The last of them is a line break that is escaped. -/
  joinsLines : Bool := false

/-- The word with another character in front that takes `width` characters. -/
def QuotedWord.cons (c : Char) (width : Nat) (w : QuotedWord) : QuotedWord :=
  { w with chars := c :: w.chars, width := w.width + width }

/-- Reads up to a space or the closing quote in single quotes, where a quote is written twice. -/
def singleWord : List Char → QuotedWord
  | '\'' :: '\'' :: rest => (singleWord rest).cons '\'' 2
  | c :: rest => if c = '\'' ∨ isSpace c = true then {} else (singleWord rest).cons c 1
  | [] => {}

/-- Reads up to a space or the closing quote in double quotes, where a backslash starts an
escape. -/
def doubleWord? : List Char → Option QuotedWord
  | '\\' :: 'x' :: a :: b :: rest => do return (← doubleWord? rest).cons (← codedChar? [a, b]) 4
  | '\\' :: 'u' :: a :: b :: c :: d :: rest => do
    return (← doubleWord? rest).cons (← codedChar? [a, b, c, d]) 6
  | '\\' :: 'U' :: a :: b :: c :: d :: e :: f :: g :: h :: rest => do
    return (← doubleWord? rest).cons (← codedChar? [a, b, c, d, e, f, g, h]) 10
  | '\\' :: '\r' :: '\n' :: _ => some { width := 3, joinsLines := true }
  | '\\' :: c :: rest =>
    if isBreak c then some { width := 2, joinsLines := true }
    else do return (← doubleWord? rest).cons (← plainEscape? c) 2
  | ['\\'] => none
  | c :: rest =>
    if c = '"' ∨ isSpace c = true then some {} else do return (← doubleWord? rest).cons c 1
  | [] => some {}

/-- Reads a quoted scalar on from what `acc` holds, the last character first. -/
def quotedFrom? (mark : Char) : Nat → List Char → Cursor → Option (String × Cursor)
  | 0, _, _ => none
  | n + 1, acc, c =>
    if c.atAnyMarker || c.rest.isEmpty then none
    else do
      let word ← if mark = '"' then doubleWord? c.rest else some (singleWord c.rest)
      let acc := word.chars.reverse ++ acc
      let c := c.advance word.width
      if c.rest.head? = some mark then some (String.ofList acc.reverse, c.advance 1)
      else
        let spaces := c.ahead isSpace
        let gap :=
          if word.joinsLines then List.replicate (breakCount spaces) '\n' else fold spaces
        quotedFrom? mark n (gap.reverse ++ acc) (c.advance spaces.length)

/-- Reads a quoted scalar that begins with its opening quote. -/
def quoted? (mark : Char) (c : Cursor) : Option (String × Cursor) :=
  quotedFrom? mark (c.rest.length + 1) [] (c.advance 1)

/-! ### Blocks of lines -/

/-- Which line breaks at the end of a block belong to it. -/
inductive Chomp where
  | strip | clip | keep
  deriving DecidableEq, Repr

/-- What stands behind the mark of a block. -/
structure BlockHeader where
  chomp : Chomp := .clip
  /-- How much deeper than its surroundings the block is indented; zero if its first line tells. -/
  deeper : Nat := 0

namespace BlockHeader

/-- Reads which breaks are kept. -/
def readChomp (h : BlockHeader) (c : Cursor) : BlockHeader × Cursor :=
  match c.rest with
  | '+' :: _ => ({ h with chomp := .keep }, c.advance 1)
  | '-' :: _ => ({ h with chomp := .strip }, c.advance 1)
  | _ => (h, c)

/-- Reads how much deeper a block is indented, in a digit that is not zero. -/
def readDeeper? (h : BlockHeader) (c : Cursor) : Option (BlockHeader × Cursor) :=
  match c.rest with
  | d :: _ =>
    if d = '0' then none
    else if d.isDigit then some ({ h with deeper := d.toNat - '0'.toNat }, c.advance 1)
    else some (h, c)
  | [] => some (h, c)

/-- Reads the rest of the line with the mark of a block. -/
def read? (c : Cursor) : Option (BlockHeader × Cursor) := do
  let (h, c') := readChomp {} c
  let (h, behind) ← h.readDeeper? c'
  let (h, behind) := if h.chomp = .clip then h.readChomp behind else (h, behind)
  let behind := behind.skipComment
  if atBreak behind.rest then some (h, behind.skipBreak) else none

end BlockHeader

/-- Empty lines of a block: how many there are, and the place behind them and the blanks that
indent the next line. -/
structure EmptyLines where
  count : Nat
  /-- The greatest column that the blanks reach. -/
  deepest : Nat
  behind : Cursor

/-- Reads empty lines, and the blanks of the next one up to column `indent`, or all of them if it
is zero. A tab may not stand among the latter. -/
def emptyLines? (indent : Nat) : Nat → Nat → Nat → Cursor → Option EmptyLines
  | 0, _, _, _ => none
  | n + 1, count, deepest, c =>
    let blanks := c.ahead (· == ' ')
    let c := c.advance (if indent = 0 then blanks.length else min blanks.length (indent - c.column))
    let deepest := max deepest c.column
    match c.rest with
    | [] => some ⟨count, deepest, c⟩
    | b :: _ =>
      if b = '\t' ∧ (indent = 0 ∨ c.column < indent) then none
      else if isBreak b then emptyLines? indent n (count + 1) deepest c.skipBreak
      else some ⟨count, deepest, c⟩

/-- A block while its lines are read. -/
structure BlockText where
  /-- The characters so far, the last one first. -/
  chars : List Char := []
  /-- A line has been read, and its break does not yet count. -/
  hasBreak : Bool := false
  /-- The line before starts with a blank. -/
  startsBlank : Bool := false
  /-- The empty lines read since. -/
  empty : Nat := 0

namespace BlockText

/-- The characters with the break behind the last line, if there is one. -/
def withBreak (t : BlockText) : List Char := if t.hasBreak then '\n' :: t.chars else t.chars

/-- The characters with another line behind them. In a folded block a single break between two
lines, neither of which starts with a blank, counts as a space. -/
def join (literal : Bool) (t : BlockText) (line : List Char) : List Char :=
  let startsBlank := line.head?.any isBlank
  let chars :=
    if !literal && t.hasBreak && !t.startsBlank && !startsBlank then
      if t.empty = 0 then ' ' :: t.chars else t.chars
    else t.withBreak
  line.reverse ++ List.replicate t.empty '\n' ++ chars

/-- The text of a whole block. -/
def close (chomp : Chomp) (t : BlockText) : String :=
  let chars := match chomp with
    | .strip => t.chars
    | .clip => t.withBreak
    | .keep => List.replicate t.empty '\n' ++ t.withBreak
  String.ofList chars.reverse

/-- Reads the lines that stand at column `indent`. -/
def read? (literal : Bool) (indent : Nat) : Nat → BlockText → Cursor → Option (BlockText × Cursor)
  | 0, _, _ => none
  | n + 1, t, c =>
    if c.column != indent || c.rest.isEmpty then some (t, c)
    else
      let line := c.ahead (!isBreak ·)
      let chars := t.join literal line
      let c := c.advance line.length
      if c.rest.isEmpty then some ({ chars }, c)
      else
        match emptyLines? indent (c.rest.length + 1) 0 0 c.skipBreak with
        | none => none
        | some e => read? literal indent n ⟨chars, true, line.head?.any isBlank, e.count⟩ e.behind

end BlockText

/-- Reads a block of lines that begins with its mark. -/
def blockText? (literal : Bool) (least : Nat) (c : Cursor) : Option (String × Cursor) := do
  let (header, c) ← BlockHeader.read? (c.advance 1)
  let given := if header.deeper = 0 then 0 else least - 1 + header.deeper
  let e ← emptyLines? given (c.rest.length + 1) 0 0 c
  let indent := if given = 0 then max e.deepest (max least 1) else given
  let (t, c) ← BlockText.read? literal indent (c.rest.length + 1) { empty := e.count } e.behind
  return (t.close header.chomp, c)

end TreeFlow.Yaml
