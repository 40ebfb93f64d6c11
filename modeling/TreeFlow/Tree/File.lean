import TreeFlow.Json.Reader
import TreeFlow.Tree.Format
import TreeFlow.Tree.Handles
import TreeFlow.Yaml.Reader

/-!
# Trees in files

A tree is read from a JSON or a YAML file; the extension of the file's name says which. Only sound
trees are accepted. A file that cannot be opened is reported before its extension is looked at, and
its extension before its contents.
-/

namespace TreeFlow

/-! ### Extensions -/

/-- The parts of a path, without those that stay in a directory. -/
def pathParts (path : String) : List String :=
  (path.splitOn "/").filter fun part => part != "" && part != "."

/-- The part of a file name behind its last point. A name that has no other point than one at its
start has no extension. -/
def extension? (path : String) : Option String := do
  let name ← (pathParts path).getLast?
  if name == ".." then none
  else
    let reversed := name.toList.reverse
    match reversed.dropWhile (· != '.') with
    | [] | [_] => none
    | _ => some (String.ofList (reversed.takeWhile (· != '.')).reverse)

/-! ### Reading a tree -/

/-- Why a tree could not be read from a file. -/
inductive TreeFileFault where
  | unreadable (path reason : String)
  | noExtension (path : String)
  | unknownExtension (ext : String)
  /-- The contents do not have the form of a tree. -/
  | malformed (path : String)
  /-- The tree is not sound. -/
  | dangling (h : Handle)
  deriving DecidableEq, Repr

/-- What is said of a fault. -/
def TreeFileFault.message : TreeFileFault → String
  | unreadable path reason => s!"Could not read {path}: {reason}"
  | noExtension path => s!"Is not a syntax tree file, {path} has no extension"
  | unknownExtension ext =>
    s!"Is not a syntax tree file, expected extension json, yaml or yml but got {ext}"
  | malformed path => s!"Malformed syntax tree in {path}: not the form of a syntax tree"
  | dangling h => h.outOfRange

namespace Tree

/-- The reader of files with an extension, whatever the case of its letters. -/
def readerOf? (ext : String) : Option (String → Option Json) :=
  match ext with
  | "json" => some Json.parse?
  | "yaml" | "yml" => some Yaml.parse?
  | _ => none

/-- Reads a tree from a file, given its contents or why they could not be had. -/
def ofFile (path : String) (contents : Except String String) : Except TreeFileFault Tree := do
  let text ← contents.mapError (TreeFileFault.unreadable path)
  let some ext := extension? path | throw (.noExtension path)
  let ext := String.ofList (ext.toList.map Char.toLower)
  let some read := readerOf? ext | throw (.unknownExtension ext)
  let some tree := read text >>= Format.decode? .text | throw (.malformed path)
  tree.validate.mapError TreeFileFault.dangling
  return tree

end Tree

end TreeFlow
