import TreeFlow.Flow.Convert

/-!
# Traces of a conversion

A target that writes one line for everything it is told. The values of a function are named
`v0`, `v1`, … in the order in which they appear; arguments and constants stand for themselves.
-/

namespace TreeFlow

/-- The lines written so far, the last one first, and the number of the next value. -/
structure Trace where
  lines : List String := []
  next : Nat := 0
  deriving Repr, Inhabited

namespace Trace

/-- Writes a line. -/
def log (line : String) : StateM Trace Unit := modify fun t => { t with lines := line :: t.lines }

/-- Writes a line that names a value. -/
def value (line : String) : StateM Trace String := do
  let name := s!"v{(← get).next}"
  log s!"{name} = {line}"
  modify fun t => { t with next := t.next + 1 }
  return name

/-- The target that records what it is told. -/
def target : Target (StateM Trace) String where
  addType d := log s!"type {d.key}"
  defineType d := log s!"define {d.text}"
  addGlobal id g := log s!"global {id.text} {g.name} {g.pointerTy}"
  initGlobal id c := log s!"init {id.text} = {c.text}"
  addFunction id f := log s!"fn {id.text} {f.linkage.text} {f.name} {f.sig.text}"
  addCtor priority id := log s!"ctor {priority} {id.text}"
  openFunction id := do
    log s!"build {id.text}"
    modify fun t => { t with next := 0 }
  createBlock id := log s!"create {id.text}"
  setBlock id := log s!"{id.text}:"
  arg i := return s!"arg{i}"
  constant c := return c.text
  alloca ty := value s!"alloca {ty}"
  load ptr ty := value s!"load {ty} {ptr}"
  store ptr v := log s!"store {v} -> {ptr}"
  copy dst src ty := log s!"memcopy {src} -> {dst} {ty}"
  binary op l r ty := value s!"{op.text} {ty} {l}, {r}"
  cmp op l r := value s!"{op.text} {l}, {r}"
  cast op v ty := value s!"{op.text} {v} to {ty}"
  offset ptr index element := value s!"offset {element} {ptr}[{index}]"
  field base aggregate index := value s!"field {aggregate} {base}.{index}"
  call callee sig args := do
    let inside := commaSeparated args
    let line := s!"call {sig.text} {callee}({inside})"
    if sig.result.isVoid then
      log line
      return none
    else return some (← value line)
  phi ty := value s!"phi {ty}"
  addIncoming phi incoming := do
    let inside := commaSeparated (incoming.map fun (v, id) => incomingText v id)
    log s!"incoming {phi} {inside}"
  ret v := log <| match v with
    | some v => s!"return {v}"
    | none => "return"
  goto id := log s!"goto {id.text}"
  branch cond yes no := log s!"if {cond} then {yes.text} else {no.text}"
  unreachable := log "unreachable"

/-- The lines of the conversion of a module, and how it ended. -/
def ofModule (mod : Module) : Except ConvertError Unit × List String :=
  let (result, t) := (target.convert mod).run.run {}
  (result, t.lines.reverse)

end Trace

end TreeFlow
