/-!
# Namespace paths

The namespaces that surround a place in a unit are written as one text, every name followed by a
dot. Declaring a name qualifies it with the whole path; looking one up tries the path from its
whole length down to nothing, so that a name is found in the nearest namespace that has it.
-/

namespace TreeFlow

/-- The namespaces that are open, as `a.b.`. -/
structure NamespacePath where
  text : String := ""
  deriving DecidableEq, Repr, Inhabited

namespace NamespacePath

/-- Enters a namespace. -/
def push (p : NamespacePath) (name : String) : NamespacePath := ⟨p.text ++ name ++ "."⟩

/-- Leaves a namespace; a path that does not end in it stays as it is. -/
def pop (p : NamespacePath) (name : String) : NamespacePath :=
  let path := p.text.toList
  let last := name.toList ++ ['.']
  if last.isSuffixOf path then ⟨String.ofList (path.take (path.length - last.length))⟩ else p

/-- Is no namespace open? -/
def isRoot (p : NamespacePath) : Bool := p.text.isEmpty

/-- The full form of a name declared here. -/
def qualify (p : NamespacePath) (name : String) : String := p.text ++ name

/-- The parts of a text between its dots. -/
def split : List Char → List (List Char)
  | [] => [[]]
  | c :: rest =>
    if c = '.' then [] :: split rest
    else
      match split rest with
      | [] => [[c]]
      | part :: parts => (c :: part) :: parts

/-- The names of the namespaces that are open, from the outside in. -/
def segments (p : NamespacePath) : List String :=
  ((split p.text.toList).filter fun part => !part.isEmpty).map String.ofList

/-- The full forms a name may stand for, those in the nearest namespace first. -/
def candidates (p : NamespacePath) (name : String) : List String :=
  let segments := p.segments
  let qualified := (List.range segments.length).reverse.map fun i =>
    ".".intercalate (segments.take (i + 1)) ++ "." ++ name
  qualified ++ [name]

end NamespacePath

end TreeFlow
