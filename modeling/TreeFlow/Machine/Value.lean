import TreeFlow.Flow.Text
import TreeFlow.Number.Binary64
import TreeFlow.Number.Shortest
import TreeFlow.Ty.Layout

/-!
# Run-time values

What an instruction yields when a program runs, and what can go wrong. Integers are kept in the
range of their type, arrays and aggregates as their bytes. A pointer is a 64-bit word.
-/

namespace TreeFlow

/-- A value of a running program. -/
inductive RunValue where
  | int (value : Int)
  | float (value : Float)
  | pointer (address : UInt64)
  /-- The contents of an array, struct or union. -/
  | bytes (contents : List UInt8)
  | void
  deriving Inhabited

namespace RunValue

/-- A value as it is shown in an error. -/
def text : RunValue → String
  | int v => s!"Int({v})"
  | float x => s!"Float({Shortest.shown x})"
  | pointer p => s!"Ptr({p.toNat})"
  | bytes contents => s!"Bytes([{commaSeparated (contents.map fun b => toString b.toNat)}])"
  | void => "Void"

end RunValue

/-- A number in hexadecimal, with the mark of that base. -/
def hexText (n : Nat) : String := "0x" ++ String.ofList (Nat.toDigits 16 n)

/-- Why a program cannot go on. -/
inductive RunError where
  | notInteger (found : RunValue)
  | notFloat (found : RunValue)
  | notPointer (found : RunValue)
  | noLayout (why : LayoutError)
  | nullAccess (address : UInt64)
  | outOfBounds (length : Nat) (address : UInt64)
  | cannotStore (value : RunValue) (ty : Ty)
  | stackOverflow
  | noStorage (id : GlobalId)
  | notComputed (id : InstId)
  | missingArgument (index : Nat)
  | notFunction (id : FuncId)
  | tooDeep (name : String)
  | noBody (name : String)
  | reachedUnreachable (name : String)
  | openBlock (id : BlockId) (name : String)
  | offsetOfNonPointer (ty : Ty)
  | fieldOfNonPointer (ty : Ty)
  | callThrough (address : UInt64)
  | noIncoming (id : InstId)
  | fewArguments (name : String) (least : Nat)
  | undefinedFunction (name : String)
  | formatEnds
  | missingFormatArgument (conversion : Char)
  | unsupportedConversion (conversion : Char)
  | noMain
  | divisionByZero
  | notFloatOperation (op : BinOp)
  | notIntegerOperation (op : BinOp)
  /-- An integer of so many bytes was read, which is more than the machine can hold. -/
  | wideInteger (bytes : Nat)
  /-- An address or the size of a block does not fit the machine. -/
  | addressOverflow
  /-- A jump went to a block that its function does not have. -/
  | missingBlock (id : BlockId)

namespace RunError

/-- What is said of an error. -/
def message : RunError → String
  | notInteger v => s!"expected an integer but found {v.text}"
  | notFloat v => s!"expected a floating point value but found {v.text}"
  | notPointer v => s!"expected a pointer but found {v.text}"
  | noLayout e => e.message
  | nullAccess p => s!"null pointer dereference at {hexText p.toNat}"
  | outOfBounds n p => s!"out of bounds access of {n} bytes at {hexText p.toNat}"
  | cannotStore v ty => s!"cannot store {v.text} as {ty}"
  | stackOverflow => "stack overflow"
  | noStorage id => s!"{id.text} has no storage"
  | notComputed id => s!"{id.text} was used before it was computed"
  | missingArgument i => s!"missing argument {i}"
  | notFunction id => s!"{id.text} is not a function"
  | tooDeep name => s!"call depth exceeded in {name}"
  | noBody name => s!"{name} has no body"
  | reachedUnreachable name => s!"reached unreachable code in {name}"
  | openBlock id name => s!"{id.text} of {name} has no terminator"
  | offsetOfNonPointer ty => s!"offset of non pointer {ty}"
  | fieldOfNonPointer ty => s!"field of non pointer {ty}"
  | callThrough p => s!"call through {hexText p.toNat}, which is not a function"
  | noIncoming id => s!"{id.text} has no value for the incoming edge"
  | fewArguments name n => s!"{name} expects at least {n} arguments"
  | undefinedFunction name => s!"{name} is declared but never defined"
  | formatEnds => "format string ends in %"
  | missingFormatArgument c => s!"missing argument for %{c}"
  | unsupportedConversion c => s!"unsupported conversion %{c}"
  | noMain => "the module has no main function"
  | divisionByZero => "division by zero"
  | notFloatOperation op => s!"{op.text} is not a floating point operation"
  | notIntegerOperation op => s!"{op.text} is not an integer operation"
  | wideInteger n => s!"an integer of {n} bytes is too wide"
  | addressOverflow => "an address is out of range"
  | missingBlock id => s!"there is no {id.text}"

/-- Does the machine itself break down, so that nothing more can be said of the program? -/
def isBreakdown : RunError → Bool
  | wideInteger _ | addressOverflow | missingBlock _ => true
  | _ => false

end RunError

namespace RunValue

/-- The value as an integer; a pointer counts as its address. -/
def int? : RunValue → Except RunError Int
  | int v => .ok v
  | pointer p => .ok p.toNat
  | v => .error (.notInteger v)

/-- The value as a float. -/
def float? : RunValue → Except RunError Float
  | float x => .ok x
  | v => .error (.notFloat v)

/-- The value as an address; of an integer, its low 64 bits. -/
def address? : RunValue → Except RunError UInt64
  | pointer p => .ok p
  | int v => .ok (.ofNat (Signed.word v))
  | v => .error (.notPointer v)

/-- Does the value count as true? -/
def truth? : RunValue → Except RunError Bool
  | float x => .ok (x != 0)
  | v => v.int?.map (· != 0)

end RunValue

end TreeFlow
