import TreeFlow.Config
import TreeFlow.Tree.Format

/-!
# The form of settings

Settings are a record, and the layout a record inside it. Every field may be left out and then has
its default; members that are not known are ignored.
-/

namespace TreeFlow

open Format

/-- Reads a layout. -/
def Layout.decode? (x : Json) : Option Layout := do
  let f ← fields? ["pointer_bytes", "packed"] x
  let default : Layout := {}
  return {
    pointerBytes := ← f.withDefault "pointer_bytes" default.pointerBytes fun x =>
      (x.nat? UInt64.size).map .ofNat
    packed := ← f.withDefault "packed" default.packed Json.bool? }

/-- Writes a layout. -/
def Layout.encode (l : Layout) : Json :=
  .object [("pointer_bytes", .ofNat l.pointerBytes.toNat), ("packed", .bool l.packed)]

namespace Config

/-- Reads settings. -/
def decode? (x : Json) : Option Config := do
  let f ← fields? ["layout", "stop_on_abort", "ctor_priority", "module"] x
  let default : Config := {}
  return {
    layout := ← f.withDefault "layout" default.layout Layout.decode?
    stopOnAbort := ← f.withDefault "stop_on_abort" default.stopOnAbort Json.bool?
    ctorPriority := ← f.withDefault "ctor_priority" default.ctorPriority (·.nat? UInt32.size)
    module := ← f.withDefault "module" default.module Json.text? }

/-- Writes settings in full. -/
def encode (c : Config) : Json :=
  .object [("layout", c.layout.encode), ("stop_on_abort", .bool c.stopOnAbort),
    ("ctor_priority", .ofNat c.ctorPriority), ("module", .text c.module)]

end Config

end TreeFlow
