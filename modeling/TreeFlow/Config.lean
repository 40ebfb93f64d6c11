import TreeFlow.Ty.Layout

/-!
# Settings

What a user can choose about the lowering of a unit.
-/

namespace TreeFlow

/-- The settings of a unit. -/
structure Config where
  layout : Layout := {}
  /-- Stop after a declaration that ran into an internal fault. -/
  stopOnAbort : Bool := true
  /-- The priority of the routine that initializes globals. -/
  ctorPriority : Nat := 65535
  /-- The name of the module. -/
  module : String := "main"
  deriving DecidableEq, Repr, Inhabited

end TreeFlow
