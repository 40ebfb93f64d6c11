import TreeFlow.Lower.Basic

/-!
# The startup routine

What a unit does outside of functions runs before `main`: statements at the top level, and the
initializers of globals that are not constant. They are gathered in one routine, made when it is
first needed. Its code is added piece by piece, between other functions, each piece where the one
before it ended.
-/

namespace TreeFlow.Lower

/-- The startup routine, which is declared if there is none yet. -/
def startupRoutine : Lower Startup := do
  match ← read (·.startup) with
  | some routine => return routine
  | none =>
    let name := ".global_ctor." ++ (← read (·.builder.mod.name))
    return ⟨← withBuilder (·.declareFunction name ⟨.void, [], false⟩ .internal), none⟩

/-- Moves the cursor to the end of the startup routine; yields the function it was in. -/
def enterStartup : Lower (Option FuncId) := do
  let prev ← read (·.builder.func)
  let routine ← startupRoutine
  updateBuilder (·.setFunction (some routine.id))
  let block ← match routine.block with
    | some block => pure block
    | none => emit 0 Build.newBlock
  setBlock block
  update fun s => { s with startup := some ⟨routine.id, some block⟩ }
  return prev

/-- Remembers where the code of the startup routine ends, and moves the cursor to a function. -/
def leaveStartup (prev : Option FuncId) : Lower Unit :=
  update fun s =>
    { s with
      startup := s.startup.map fun routine => { routine with block := s.builder.block }
      builder := s.builder.setFunction prev }

/-- Runs a step whose code belongs to the startup routine. -/
def inStartup (m : Lower α) : Lower α := do
  let prev ← enterStartup
  let result ← attempt m
  leaveStartup prev
  match result with
  | some a => return a
  | none => fail

/-- Closes the startup routine, if there is one, and has it run before `main`. -/
def finishStartup : Lower Unit := do
  match ← read (·.startup) with
  | none => pure ()
  | some routine =>
    update fun s => { s with startup := none }
    updateBuilder (·.setFunction (some routine.id))
    match routine.block with
    | some block => setBlock block
    | none => pure ()
    emit 0 (Build.ret none)
    updateBuilder (·.setFunction none)
    let priority := (← env).config.ctorPriority
    updateBuilder fun b => { b with mod := b.mod.addCtor priority routine.id }

end TreeFlow.Lower
