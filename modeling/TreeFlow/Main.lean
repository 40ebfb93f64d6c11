import TreeFlow.Command.Session

/-!
# The command line program

Carries a session out: files are those of the file system, and texts go to the standard streams.
-/

namespace TreeFlow.Main

/-- What is said of an error of the file system. -/
def reason : IO.Error → String
  | .noFileOrDirectory .. => "No such file or directory (os error 2)"
  | .permissionDenied .. => "Permission denied (os error 13)"
  | .inappropriateType .. => "Is a directory (os error 21)"
  | e => toString e

/-- Reads the text of an open file. -/
def readText (handle : IO.FS.Handle) : IO FileRead := do
  try
    match String.fromUTF8? (← handle.readBinToEnd) with
    | some text => pure (.contents text)
    | none => pure (.noText "stream did not contain valid UTF-8")
  catch e => pure (.noText (reason e))

/-- Reads a file. -/
def readFile (path : String) : IO FileRead := do
  try readText (← IO.FS.Handle.mk path .read)
  catch e => pure (.refused (reason e))

/-- Writes a file; yields the reason if that is refused. -/
def writeFile (path contents : String) : IO (Option String) := do
  try
    IO.FS.writeFile path contents
    pure none
  catch e => pure (some (reason e))

/-- Carries a session out; yields how it ends. -/
def carryOut : Session → IO Exit
  | .print text next => do
    IO.print text
    carryOut next
  | .complain text next => do
    IO.eprint text
    carryOut next
  | .read path next => do carryOut (next (← readFile path))
  | .write path contents next => do carryOut (next (← writeFile path contents))
  | .done exit => pure exit

/-- The exit code of a process; one that is stopped on the spot has that of an abort signal. -/
def exitCode : Exit → UInt32
  | .code n => .ofNat n
  | .aborted => 134

end TreeFlow.Main

/-- Runs the program with its command line. -/
def main (words : List String) : IO UInt32 := do
  return TreeFlow.Main.exitCode (← TreeFlow.Main.carryOut (.ofCommandLine words))
