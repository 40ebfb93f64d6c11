import TreeFlow.Machine.Printing
import TreeFlow.Machine.World

/-!
# Library functions

A function without a body is looked up by name among a few routines for printing and for memory
on the heap.
-/

namespace TreeFlow.Library

/-- The argument at a position. -/
def argument (name : String) (args : List RunValue) (i : Nat) : Except RunError RunValue :=
  match args[i]? with
  | some v => .ok v
  | none => .error (.fewArguments name (i + 1))

/-- The text that an address points to. -/
def text (v : RunValue) : Exec String := do
  let address ← v.address?
  World.query fun w => w.memory.text address

/-- Prints a format with its arguments; yields the number of bytes. -/
def printf (format : RunValue) (args : List RunValue) : Exec RunValue := do
  let format ← text format
  let expanded ← World.query fun w => formatText w.memory format args
  World.print expanded
  return .int (Utf8.size expanded)

/-- Prints a text and ends the line; yields the number of bytes. -/
def puts (v : RunValue) : Exec RunValue := do
  let line ← text v
  World.print (line ++ "\n")
  return .int (Utf8.size line + 1)

/-- Prints the character with a code, taken modulo 256; yields the code. -/
def putchar (v : RunValue) : Exec RunValue := do
  let code ← v.int?
  World.print (Utf8.charOfByte (Signed.word code)).toString
  return .int code

/-- A block on the heap of so many bytes. -/
def malloc (v : RunValue) : Exec RunValue := do
  let size ← v.int?
  World.malloc (Signed.word (max size 0))

/-- Runs the routine with a name. -/
def call (name : String) (args : List RunValue) : Exec RunValue := do
  match name with
  | "printf" => printf (← argument name args 0) (args.drop 1)
  | "puts" => puts (← argument name args 0)
  | "putchar" => putchar (← argument name args 0)
  | "malloc" => malloc (← argument name args 0)
  | "free" => return .void
  | _ => throw (.undefinedFunction name)

end TreeFlow.Library
