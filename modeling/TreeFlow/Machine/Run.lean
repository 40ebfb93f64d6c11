import TreeFlow.Diagnostic.Queue
import TreeFlow.Machine.Step

/-!
# Running programs

A program is run by taking step after step. Whether it ends cannot be known, so a run takes a
bound on the number of its steps; a run that ends within a bound ends alike within any greater
one.

The globals are loaded first. Then the startup routines run, and `main` after them.
-/

namespace TreeFlow

namespace Machine

/-- Takes at most so many steps; yields nothing when they do not suffice. -/
def run (p : Program) : Nat → Machine → Option (Except RunError RunValue × World)
  | 0, _ => none
  | steps + 1, m =>
    match step p m with
    | .running m => run p steps m
    | .returned v world => some (.ok v, world)
    | .failed e world => some (.error e, world)

end Machine

namespace Program

/-- Calls a function without arguments and runs it to its end. -/
def call (p : Program) (steps : Nat) (id : FuncId) (world : World) :
    Option (Except RunError RunValue × World) :=
  match Exec.run (Machine.enter p id [] 0) world with
  | (.error e, world) => some (.error e, world)
  | (.ok (.inl v), world) => some (.ok v, world)
  | (.ok (.inr opened), world) => Machine.run p steps ⟨world, [opened]⟩

/-- Calls some functions one after the other, as long as none fails. -/
def callEach (p : Program) (steps : Nat) :
    List FuncId → World → Option (Except RunError Unit × World)
  | [], world => some (.ok (), world)
  | id :: ids, world => do
    match ← p.call steps id world with
    | (.error e, world) => return (.error e, world)
    | (.ok _, world) => callEach p steps ids world

/-- What a program does with its exit code: anything but an integer counts as zero. -/
def exitCode : RunValue → Int
  | .int v => Signed.wrapWord v
  | _ => 0

/-- Loads the globals, runs the startup routines and then `main`. -/
def execute (p : Program) (steps : Nat) : Option (Except RunError Int × World) := do
  match Exec.run (World.loadGlobals p) {} with
  | (.error e, world) => return (.error e, world)
  | (.ok _, world) =>
    match ← p.callEach steps (p.module.orderedCtors.map Prod.snd) world with
    | (.error e, world) => return (.error e, world)
    | (.ok _, world) =>
      match p.module.findFunction? "main" with
      | none => return (.error .noMain, world)
      | some id =>
        let (result, world) ← p.call steps id world
        return (result.map exitCode, world)

end Program

/-! ### Running a unit -/

/-- More steps than any run takes in practice. -/
def stepLimit : Nat := 0x4000000000000000

/-- What running a unit gives. -/
structure Execution where
  /-- What `main` returned; nothing if it was not run. -/
  result : Except RunError (Option Int)
  /-- What was printed. -/
  output : String
  diags : List Diagnostic

/-- Why `main` cannot be run. -/
def Module.mainFault? (m : Module) : Option DiagnosticKind :=
  match m.findFunction? "main" >>= m.function? with
  | none => some .missingMainFunction
  | some f => if f.sig.params.isEmpty then none else some .mainTakesArguments

/-- Runs the `main` of a module within so many steps. One that is missing, or has parameters, is
reported and not run. -/
def Program.runMain (p : Program) (file : String) (steps : Nat) : Option Execution :=
  match p.module.mainFault? with
  | some kind => some ⟨.ok none, "", [⟨kind, file, 0⟩]⟩
  | none => do
    let (result, world) ← p.execute steps
    return ⟨result.map some, world.output, []⟩

end TreeFlow
