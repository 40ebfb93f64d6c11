import TreeFlow.Diagnostic.Report
import TreeFlow.Lower.Statement

/-!
# Units

A unit is lowered in one pass over its declarations, first the foreign ones and then the top
level. After each of them a hook may look at the queued diagnostics and take some out, for
instance to show them. What it does there has no influence on the module.
-/

namespace TreeFlow

/-- What lowering a unit gives. -/
structure CompiledUnit where
  module : Module
  /-- The diagnostics that nobody took out. -/
  diags : DiagnosticQueue

/-- Looks at the queued diagnostics, and may take some out; carries what it gathered along. -/
abbrev DiagnosticHook (σ : Type) := DiagnosticQueue → σ → DiagnosticQueue × σ

namespace DiagnosticHook

/-- Leaves every diagnostic in the queue. -/
def keep : DiagnosticHook Unit := fun queue _ => (queue, ())

/-- Takes out every diagnostic and gathers them, one group for each call. -/
def drain : DiagnosticHook (List (List Diagnostic)) := fun queue groups =>
  let (taken, left) := queue.drain
  (left, groups ++ [taken])

end DiagnosticHook

/-! ### Lowering a unit -/

namespace Lower

/-- Lowers some declarations, with the hook after each. An internal fault may end the pass. -/
def declarations (hook : DiagnosticHook σ) : List StmtId → σ → Lower σ
  | [], acc => pure acc
  | id :: rest, acc => do
    global id
    let queue ← read (·.diags)
    let (left, acc) := hook queue acc
    update fun s => { s with diags := left }
    if queue.hasAbort && (← env).config.stopOnAbort then return acc
    else declarations hook rest acc

/-- Lowers every declaration of a unit. -/
def unit (hook : DiagnosticHook σ) (start : σ) : Lower σ := do
  let tree := (← env).tree
  declarations hook (tree.externs ++ tree.root) start

/-- Lowers a whole unit and closes its startup routine. -/
def completeUnit (hook : DiagnosticHook σ) (start : σ) : Lower σ := do
  let acc ← unit hook start
  ignoring finishStartup
  return acc

end Lower

namespace Tree

/-- Lowers a tree, with a hook that sees the diagnostics after each declaration. -/
def compileWith (tree : Tree) (config : Config) (hook : DiagnosticHook σ) (start : σ) :
    Except Lower.Stuck (CompiledUnit × σ) :=
  match Lower.completeUnit hook start ⟨tree, config⟩ (.initial config) with
  | (.done acc, s) => .ok (⟨s.builder.mod, s.diags⟩, acc)
  | (.failed, s) => .ok (⟨s.builder.mod, s.diags⟩, start)
  | (.stuck why, _) => .error why

/-- Lowers a tree and keeps every diagnostic. -/
def compile (tree : Tree) (config : Config) : Except Lower.Stuck CompiledUnit :=
  (tree.compileWith config .keep ()).map Prod.fst

end Tree

/-! ### Reporting while lowering -/

/-- What a user sees of lowering a unit. -/
structure UnitReport where
  /-- What was written. -/
  text : String
  /-- The first drastic action that a diagnostic asked for; it ended the pass. -/
  action : Action
  deriving DecidableEq, Repr

/-- Reports groups of diagnostics one by one, until one of them asks for an action. -/
def UnitReport.ofGroups (form : ReportForm) : List (List Diagnostic) → UnitReport
  | [] => ⟨"", .none⟩
  | group :: rest =>
    match DiagnosticQueue.worstAction group with
    | .none =>
      let after := ofGroups form rest
      ⟨form.report group ++ after.text, after.action⟩
    | action => ⟨form.report group, action⟩

/-- Lowers a tree and reports after each declaration and at the end. -/
def Tree.compileAndReport (tree : Tree) (config : Config) (form : ReportForm) :
    Except Lower.Stuck (Module × UnitReport) := do
  let (result, groups) ← tree.compileWith config .drain []
  return (result.module, .ofGroups form (groups ++ [result.diags.drain.1]))

end TreeFlow
