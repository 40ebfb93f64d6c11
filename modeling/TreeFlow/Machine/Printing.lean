import TreeFlow.Machine.Memory
import TreeFlow.Number.Fixed

/-!
# Formatted printing

A format is copied as it is, up to directives that start with a percent sign. A directive may set
flags, a width and a precision before its conversion; each takes the next argument. A minus sign
puts the padding on the right, a zero pads numbers with zeros behind their sign. Widths count
bytes.
-/

namespace TreeFlow

/-- What a directive says besides its conversion. -/
structure Directive where
  left : Bool
  zero : Bool
  width : Nat
  precision : Option Nat
  deriving DecidableEq, Repr

namespace Directive

/-- The number that some characters start with, if they start with a digit, and the rest. -/
def number? (cs : List Char) : Option Nat × List Char :=
  let digits := cs.takeWhile Char.isDigit
  let value := digits.foldl (fun n d => n * 10 + (d.toNat - '0'.toNat)) 0
  (if digits.isEmpty then none else some value, cs.dropWhile Char.isDigit)

/-- Is the character a flag? -/
def isFlag (c : Char) : Bool := c == '-' || c == '0'

/-- Is the character the mark of a size? -/
def isSizeMark (c : Char) : Bool := c == 'l' || c == 'h'

/-- Reads what stands between a percent sign and the conversion. -/
def read (cs : List Char) : Directive × List Char :=
  let flags := cs.takeWhile isFlag
  let (width, rest) := number? (cs.dropWhile isFlag)
  let (precision, rest) := match rest with
    | '.' :: rest =>
      let (precision, rest) := number? rest
      (some (precision.getD 0), rest)
    | _ => (none, rest)
  (⟨flags.contains '-', flags.contains '0', width.getD 0, precision⟩, rest.dropWhile isSizeMark)

/-- The text that a conversion makes of an argument. -/
def convert (m : Memory) (d : Directive) (conversion : Char) (arg : RunValue) :
    Except RunError String :=
  match conversion with
  | 'd' | 'i' => do return toString (← arg.int?)
  | 'u' => do return toString (Signed.word (← arg.int?))
  | 'x' => do return String.ofList (Nat.toDigits 16 (Signed.word (← arg.int?)))
  | 'c' => do return (Utf8.charOfByte (Signed.word (← arg.int?))).toString
  | 's' => do m.text (← arg.address?)
  | 'f' => do return Fixed.text (d.precision.getD 6) (← arg.float?)
  | 'p' => do return hexText (← arg.address?).toNat
  | c => .error (.unsupportedConversion c)

/-- A text brought to the width. -/
def pad (d : Directive) (conversion : Char) (text : String) : String :=
  let missing := d.width - Utf8.size text
  let fill (c : Char) := String.ofList (List.replicate missing c)
  if d.left then text ++ fill ' '
  else if d.zero && conversion != 's' && conversion != 'c' then
    match text.toList with
    | '-' :: digits => "-" ++ fill '0' ++ String.ofList digits
    | _ => fill '0' ++ text
  else fill ' ' ++ text

end Directive

/-- Expands a format that has at most so many directives. -/
def expandFormat (m : Memory) : Nat → List Char → List RunValue → Except RunError String
  | 0, _, _ => .ok ""
  | most + 1, cs, args => do
    let plain := String.ofList (cs.takeWhile (· != '%'))
    match cs.dropWhile (· != '%') with
    | [] => return plain
    | _ :: cs =>
      let (d, rest) := Directive.read cs
      match rest with
      | [] => throw .formatEnds
      | '%' :: rest => return plain ++ "%" ++ (← expandFormat m most rest args)
      | conversion :: rest =>
        match args with
        | [] => throw (.missingFormatArgument conversion)
        | arg :: args =>
          let text := d.pad conversion (← d.convert m conversion arg)
          return plain ++ text ++ (← expandFormat m most rest args)

/-- The text of a format with its arguments. -/
def formatText (m : Memory) (format : String) (args : List RunValue) : Except RunError String :=
  expandFormat m (format.length + 1) format.toList args

end TreeFlow
