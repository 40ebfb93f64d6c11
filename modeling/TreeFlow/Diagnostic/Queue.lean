import TreeFlow.Diagnostic.Kind

/-!
# Queued diagnostics

Problems are queued rather than raised, so that one pass over a unit finds every independent one.
The queue remembers the number of errors ever reported, also once they have been taken out, and
can forget what was queued after a mark.
-/

namespace TreeFlow

/-- A problem at a line of a file. -/
structure Diagnostic where
  kind : DiagnosticKind
  file : String
  line : Nat
  deriving DecidableEq, Repr, Inhabited

namespace Diagnostic

/-- How bad the problem is. -/
def severity (d : Diagnostic) : Severity := d.kind.severity

/-- What happens once the problem has been reported. -/
def action (d : Diagnostic) : Action := d.kind.action

/-- Is the problem an error? -/
def isError (d : Diagnostic) : Bool := d.severity == .error

/-- The line of a report: the place, the severity and the message. -/
def text (d : Diagnostic) : String :=
  s!"{d.file}:{d.line}: {d.severity.text}: {d.kind.message}"

/-- The record of a diagnostic. -/
def toJson (d : Diagnostic) : Json :=
  .object [("kind", d.kind.toJson), ("severity", .text d.severity.name),
    ("action", .text d.action.name), ("message", .text d.kind.message),
    ("pos", .object [("file", .text d.file), ("line", .ofNat d.line)])]

end Diagnostic

/-- The diagnostics of a unit that have not been taken out yet, the first one first. -/
structure DiagnosticQueue where
  items : Array Diagnostic := #[]
  /-- The number of errors ever queued and not forgotten. -/
  errors : Nat := 0
  deriving Inhabited

namespace DiagnosticQueue

/-- Queues a diagnostic. -/
def push (q : DiagnosticQueue) (d : Diagnostic) : DiagnosticQueue :=
  ⟨q.items.push d, if d.isError then q.errors + 1 else q.errors⟩

/-- The number of queued diagnostics. -/
def size (q : DiagnosticQueue) : Nat := q.items.size

/-- Forgets every diagnostic after the first `n`, as if it had never been reported. -/
def truncate (q : DiagnosticQueue) (n : Nat) : DiagnosticQueue :=
  ⟨q.items.take n, q.errors - (q.items.toList.drop n).countP (·.isError)⟩

/-- Was an error reported? -/
def hasErrors (q : DiagnosticQueue) : Bool := 0 < q.errors

/-- Does a queued diagnostic ask to stop at once? -/
def hasAbort (q : DiagnosticQueue) : Bool := q.items.any (·.action == .abort)

/-- Takes out every queued diagnostic. -/
def drain (q : DiagnosticQueue) : List Diagnostic × DiagnosticQueue :=
  (q.items.toList, ⟨#[], q.errors⟩)

/-- The most drastic action that some diagnostics ask for. -/
def worstAction (ds : List Diagnostic) : Action := ds.foldl (fun a d => a.max d.action) .none

end DiagnosticQueue

end TreeFlow
