import TreeFlow.Command.Session

/-!
# Sessions in a directory

A directory that holds nothing but files, with what a process has written so far, is enough to carry
a session out. A file that a session writes takes the place of one with its name.
-/

namespace TreeFlow

/-- A directory without others in it, and what was written by a process that runs in it. -/
structure Directory where
  /-- The files that were there, by name. -/
  files : List (String × String)
  /-- The files that the process wrote, the latest first. -/
  written : List (String × String) := []
  out : String := ""
  err : String := ""
  deriving DecidableEq, Repr, Inhabited

namespace Directory

/-- Why a file that is not there cannot be opened. -/
def missing : String := "No such file or directory (os error 2)"

/-- Why a directory cannot be read or written as a file. -/
def noFile : String := "Is a directory (os error 21)"

/-- The most bytes that a path may have. -/
def maxPath : Nat := 4095

/-- The most bytes that a name in a path may have. -/
def maxName : Nat := 255

/-- Why a path cannot be looked up at all: it holds a zero, or it is too long, or the first name on
the way out of the directory is. -/
def unusable? (path : String) : Option String :=
  if path.toList.contains '\x00' then some "file name contained an unexpected NUL byte"
  else
    let names := (pathParts path).dropWhile (· == "..")
    if maxPath < path.utf8ByteSize || names.head?.any (maxName < ·.utf8ByteSize) then
      some "File name too long (os error 36)"
    else none

/-- Does a path lead to the directory itself, or one around it? -/
def isDirectory (path : String) : Bool := path != "" && (pathParts path).all (· == "..")

/-- The name of the file in the directory that a path leads to. -/
def name? (path : String) : Option String :=
  match pathParts path with
  | [name] => if path.startsWith "/" then none else some name
  | _ => none

/-- Reads a file. -/
def read (d : Directory) (path : String) : FileRead :=
  match name? path >>= fun name => (d.written ++ d.files).lookup name with
  | some text => .contents text
  | none =>
    if isDirectory path then .noText noFile else .refused ((unusable? path).getD missing)

/-- Writes a file; yields the reason if that is refused. -/
def write (d : Directory) (path contents : String) : Option String × Directory :=
  if isDirectory path then (some noFile, d)
  else
    match unusable? path, name? path with
    | some reason, _ => (some reason, d)
    | none, some name => (none, { d with written := (name, contents) :: d.written })
    | none, none => (some missing, d)

/-- Carries a session out; yields how it ends. -/
def carryOut (d : Directory) : Session → Exit × Directory
  | .print text next => carryOut { d with out := d.out ++ text } next
  | .complain text next => carryOut { d with err := d.err ++ text } next
  | .read path next => carryOut d (next (d.read path))
  | .write path contents next =>
    let (reason, d) := d.write path contents
    carryOut d (next reason)
  | .done exit => (exit, d)

/-- The files that were made where there were none. -/
def created (d : Directory) : List (String × String) :=
  d.written.filter fun (name, _) => (d.files.lookup name).isNone

end Directory

end TreeFlow
