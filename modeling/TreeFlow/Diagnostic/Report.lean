import TreeFlow.Diagnostic.Queue

/-!
# Reports

What a reader of diagnostics is shown: either one line of text for each, with a count of the
errors and the warnings, or one JSON record a line.
-/

namespace TreeFlow

/-- How many errors and warnings have been shown. -/
structure ReportCount where
  errors : Nat := 0
  warnings : Nat := 0
  deriving DecidableEq, Repr, Inhabited

/-- Counts one more diagnostic; a note counts as nothing. -/
def ReportCount.add (c : ReportCount) (d : Diagnostic) : ReportCount :=
  match d.severity with
  | .error => { c with errors := c.errors + 1 }
  | .warning => { c with warnings := c.warnings + 1 }
  | .note => c

/-- The form of a report. -/
inductive ReportForm where
  | text | json
  deriving DecidableEq, Repr, Inhabited

/-- The line for one diagnostic. -/
def ReportForm.line : ReportForm → Diagnostic → String
  | text, d => d.text ++ "\n"
  | json, d => d.toJson.render ++ "\n"

/-- The report of some diagnostics. -/
def ReportForm.report (form : ReportForm) (ds : List Diagnostic) : String :=
  String.join (ds.map form.line)

end TreeFlow
