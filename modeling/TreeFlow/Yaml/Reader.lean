import TreeFlow.Json.Basic
import TreeFlow.Yaml.Node

/-!
# Reading YAML

`Yaml.parse?` reads a text that holds one document. The result is a `Json` value in which scalars
are kept as they are, so that their reader decides what they mean. Keys are texts; an object with
a key of another kind cannot be read, but is no error where nobody asks for it.

An alias stands for a node that may hold the alias itself, and then no finite value has the node's
meaning. So aliases are followed up to a depth that no form of value reaches, and are unreadable
beyond it.
-/

namespace TreeFlow.Yaml

namespace Node

/-- A key as a text, and whether it stands in its own place. An alias does not. -/
def keyOf (known : Nat → Json) : Node → Option (String × Bool)
  | .scalar s | .anchored (.scalar s) => some (s.text, true)
  | .alias id =>
    match known id with
    | .scalar s => some (s.text, false)
    | _ => none
  | _ => none

mutual
/-- The value of a node, given the values of those that aliases stand for. -/
def toJson (known : Nat → Json) : Node → Json
  | .scalar s => .scalar s
  | .list items => .list (itemsToJson known items)
  | .object members =>
    match membersToJson known members with
    | none => .unreadable
    | some (members, ownKeys) => if ownKeys then .object members else .record members
  | .anchored node => toJson known node
  | .alias id => known id

/-- The values of items. -/
def itemsToJson (known : Nat → Json) : List Node → List Json
  | [] => []
  | x :: rest => toJson known x :: itemsToJson known rest

/-- The members of an object, if all keys are texts, and whether all of those stand in their own
places. -/
def membersToJson (known : Nat → Json) : List (Node × Node) → Option (List (String × Json) × Bool)
  | [] => some ([], true)
  | (key, x) :: rest =>
    match keyOf known key, membersToJson known rest with
    | some (name, own), some (members, ownKeys) =>
      some ((name, toJson known x) :: members, own && ownKeys)
    | _, _ => none
end

/-- How deep aliases are followed. -/
def aliasDepth : Nat := 32

/-- The values of anchored nodes, with aliases followed up to a depth. -/
def valuesOf (nodes : List Node) : Nat → Array Json
  | 0 => #[]
  | depth + 1 =>
    let known := valuesOf nodes depth
    (nodes.map (toJson fun id => known[id]?.getD .unreadable)).toArray

/-- The value of the node of a document. -/
def value (node : Node) : Json :=
  let known := valuesOf node.anchors aliasDepth
  node.toJson fun id => known[id]?.getD .unreadable

end Node

/-- Reads a text that holds one document. -/
def parse? (s : String) : Option Json := (Token.ofString? s >>= Node.ofTokens?).map Node.value

end TreeFlow.Yaml
