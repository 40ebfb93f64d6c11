import TreeFlow.Yaml.Tokens

/-!
# YAML nodes

A document is a node: a scalar, a list, or an object whose keys are nodes too. `Node.ofTokens?`
finds the one document that tokens hold. Where a value is left out, it is a plain scalar that stands
for nothing.

A name given by an anchor stands for the latest node of that name in front of the alias. So anchors
are counted from zero in the order in which they stand, and an alias holds the number of the anchor
that it means; it may stand inside of the node that it stands for. Tags matter in front of scalars
only.
-/

namespace TreeFlow.Yaml

/-- A node. -/
inductive Node where
  | scalar (s : Scalar)
  | list (items : List Node)
  | object (members : List (Node × Node))
  /-- A node that aliases may stand for. -/
  | anchored (node : Node)
  | alias (id : Nat)
  deriving Inhabited

/-! ### Reading nodes -/

/-- What stands where a value is left out. -/
def Node.absent : Node := .scalar ⟨"~", true, none⟩

/-- What is left to read. -/
structure Unread where
  tokens : List Token
  /-- The names of the anchors so far, the latest first. -/
  names : List String := []

namespace Unread

/-- What is left behind some tokens. -/
def goTo (u : Unread) (tokens : List Token) : Unread := { u with tokens }

/-- The number of the anchor that a name stands for. -/
def id? (u : Unread) (name : String) : Option Nat :=
  (u.names.findIdx? (· == name)).map fun i => u.names.length - 1 - i

/-- Whether there is an anchor in front of a node, and the tag, in either order. -/
def properties (u : Unread) : Bool × Option Tag × Unread :=
  let named (name : String) (tokens : List Token) : Unread := ⟨tokens, name :: u.names⟩
  match u.tokens with
  | .anchor name :: .tag t :: rest | .tag t :: .anchor name :: rest =>
    (true, some t, named name rest)
  | .anchor name :: rest => (true, none, named name rest)
  | .tag t :: rest => (false, some t, u.goTo rest)
  | _ => (false, none, u)

/-- Does a token come next that ends a value in block style before it began? -/
def atBlockGap (u : Unread) : Bool :=
  match u.tokens with
  | .key :: _ | .value :: _ | .blockEnd :: _ => true
  | _ => false

/-- Does a token come next that ends an item in block style before it began? -/
def atItemGap (inObject : Bool) (u : Unread) : Bool :=
  match u.tokens with
  | .item :: _ | .blockEnd :: _ => true
  | .key :: _ | .value :: _ => inObject
  | _ => false

/-- Does a comma or a closing token come next? -/
def atFlowGap (close : Token) (u : Unread) : Bool :=
  match u.tokens with
  | t :: _ => t == .comma || t == close
  | [] => false

end Unread

/-- Where a node stands. -/
structure Surroundings where
  /-- Lists and objects in block style may begin. -/
  block : Bool
  /-- Items may follow that are indented no deeper than the key in front of them. -/
  afterKey : Bool

namespace Node

/-- The surroundings of a value or a key in block style. -/
def afterKey : Surroundings := ⟨true, true⟩

/-- The surroundings of an item in block style, and of a document. -/
def inBlock : Surroundings := ⟨true, false⟩

/-- The surroundings of whatever stands inside of brackets. -/
def inFlow : Surroundings := ⟨false, false⟩

mutual
/-- Reads a node. Between two tokens that are read there are at most three steps. -/
def read? : Nat → Surroundings → Unread → Option (Node × Unread)
  | 0, _, _ => none
  | n + 1, place, u =>
    match u.tokens with
    | .alias name :: rest => (u.id? name).map (Node.alias ·, u.goTo rest)
    | _ =>
      let (isAnchored, tag, u) := u.properties
      let finish (node : Node) (u : Unread) : Node × Unread :=
        (if isAnchored then .anchored node else node, u)
      let empty? :=
        if isAnchored || tag.isSome then some (finish (.scalar ⟨"", true, tag⟩) u) else none
      match u.tokens with
      | .scalar text isPlain :: rest => some (finish (.scalar ⟨text, isPlain, tag⟩) (u.goTo rest))
      | .openBracket :: rest => (flowItems? n true [] (u.goTo rest)).map fun p => finish p.1 p.2
      | .openBrace :: rest => (flowMembers? n true [] (u.goTo rest)).map fun p => finish p.1 p.2
      | t :: rest =>
        if t = .item ∧ place.afterKey = true then
          (items? n true [] u).map fun p => finish p.1 p.2
        else if t = .listStart ∧ place.block = true then
          (items? n false [] (u.goTo rest)).map fun p => finish p.1 p.2
        else if t = .objectStart ∧ place.block = true then
          (members? n [] (u.goTo rest)).map fun p => finish p.1 p.2
        else empty?
      | [] => empty?

/-- Reads the items of a list in block style. In an object they end without a token of their
own. -/
def items? : Nat → Bool → List Node → Unread → Option (Node × Unread)
  | 0, _, _, _ => none
  | n + 1, inObject, acc, u =>
    match u.tokens with
    | .item :: rest => do
      let u := u.goTo rest
      let (x, u) ← if u.atItemGap inObject then some (absent, u) else read? n inBlock u
      items? n inObject (x :: acc) u
    | t :: rest =>
      if inObject then some (.list acc.reverse, u)
      else if t = .blockEnd then some (.list acc.reverse, u.goTo rest)
      else none
    | [] => if inObject then some (.list acc.reverse, u) else none

/-- Reads the members of an object in block style. -/
def members? : Nat → List (Node × Node) → Unread → Option (Node × Unread)
  | 0, _, _ => none
  | n + 1, acc, u =>
    match u.tokens with
    | .blockEnd :: rest => some (.object acc.reverse, u.goTo rest)
    | .value :: _ => do
      let (x, u) ← value? n u
      members? n ((absent, x) :: acc) u
    | .key :: rest => do
      let u := u.goTo rest
      let (key, u) ← if u.atBlockGap then some (absent, u) else read? n afterKey u
      let (x, u) ← value? n u
      members? n ((key, x) :: acc) u
    | _ => none

/-- Reads the value of a member in block style, if it has one. -/
def value? : Nat → Unread → Option (Node × Unread)
  | 0, _ => none
  | n + 1, u =>
    match u.tokens with
    | .value :: rest =>
      let u := u.goTo rest
      if u.atBlockGap then some (absent, u) else read? n afterKey u
    | _ => some (absent, u)

/-- Reads the items of a list in brackets. A comma stands in front of each but the first one. -/
def flowItems? : Nat → Bool → List Node → Unread → Option (Node × Unread)
  | 0, _, _, _ => none
  | n + 1, isFirst, acc, u => do
    let u ← match u.tokens with
      | .comma :: rest => if isFirst then none else some (u.goTo rest)
      | .closeBracket :: _ => some u
      | _ => if isFirst then some u else none
    match u.tokens with
    | .closeBracket :: rest => return (.list acc.reverse, u.goTo rest)
    | .key :: rest =>
      let (x, u) ← pair? n (u.goTo rest)
      flowItems? n false (x :: acc) u
    | _ =>
      let (x, u) ← read? n inFlow u
      flowItems? n false (x :: acc) u

/-- Reads an item that is an object with one member, behind the token of its key. Where the key is
left out, the token that tells so is left out too. -/
def pair? : Nat → Unread → Option (Node × Unread)
  | 0, _ => none
  | n + 1, u => do
    let (key, u) ← match u.tokens with
      | .value :: rest | .comma :: rest | .closeBracket :: rest => some (absent, u.goTo rest)
      | _ => read? n inFlow u
    let (x, u) ← flowValue? n .closeBracket u
    return (.object [(key, x)], u)

/-- Reads the members of an object in braces. A comma stands in front of each but the first one. A
key that is not marked as one has no value. -/
def flowMembers? : Nat → Bool → List (Node × Node) → Unread → Option (Node × Unread)
  | 0, _, _, _ => none
  | n + 1, isFirst, acc, u => do
    let u ← match u.tokens with
      | .comma :: rest => if isFirst then none else some (u.goTo rest)
      | .closeBrace :: _ => some u
      | _ => if isFirst then some u else none
    match u.tokens with
    | .closeBrace :: rest => return (.object acc.reverse, u.goTo rest)
    | .value :: _ =>
      let (x, u) ← flowValue? n .closeBrace u
      flowMembers? n false ((absent, x) :: acc) u
    | .key :: rest =>
      let u := u.goTo rest
      let (key, u) ←
        if u.tokens.head? == some .value || u.atFlowGap .closeBrace then some (absent, u)
        else read? n inFlow u
      let (x, u) ← flowValue? n .closeBrace u
      flowMembers? n false ((key, x) :: acc) u
    | _ =>
      let (key, u) ← read? n inFlow u
      flowMembers? n false ((key, absent) :: acc) u

/-- Reads the value of a member inside of brackets, if it has one. -/
def flowValue? : Nat → Token → Unread → Option (Node × Unread)
  | 0, _, _ => none
  | n + 1, close, u =>
    match u.tokens with
    | .value :: rest =>
      let u := u.goTo rest
      if u.atFlowGap close then some (absent, u) else read? n inFlow u
    | _ => some (absent, u)
end

/-! ### Documents -/

/-- The node of a document behind its first token. -/
def ofContent? (tokens : List Token) : Option (Node × Unread) :=
  match tokens with
  | [] | .directive :: _ | .documentStart :: _ | .documentEnd :: _ => some (absent, ⟨tokens, []⟩)
  | _ => read? (3 * tokens.length + 3) inBlock ⟨tokens, []⟩

/-- The node of the one document that tokens hold. Directives come in front of a document that has
a token at its start, and nothing but ends of documents behind it. -/
def ofTokens? (tokens : List Token) : Option Node := do
  let (node, u) ← match tokens with
    | [] => none
    | .directive :: _ | .documentStart :: _ =>
      match tokens.dropWhile (· == .directive) with
      | .documentStart :: rest => ofContent? rest
      | _ => none
    | _ => read? (3 * tokens.length + 3) inBlock ⟨tokens, []⟩
  if u.tokens.all (· == .documentEnd) then some node else none

/-! ### Anchors -/

mutual
/-- The nodes that have anchors, in the order of their numbers. -/
def anchors : Node → List Node
  | .scalar _ | .alias _ => []
  | .list items => anchorsOfItems items
  | .object members => anchorsOfMembers members
  | .anchored node => node :: anchors node

/-- The nodes inside of items that have anchors. -/
def anchorsOfItems : List Node → List Node
  | [] => []
  | x :: rest => anchors x ++ anchorsOfItems rest

/-- The nodes inside of members that have anchors. -/
def anchorsOfMembers : List (Node × Node) → List Node
  | [] => []
  | (key, x) :: rest => anchors key ++ anchors x ++ anchorsOfMembers rest
end

end Node

end TreeFlow.Yaml
