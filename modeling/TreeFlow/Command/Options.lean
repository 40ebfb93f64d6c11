import TreeFlow.Diagnostic.Report

/-!
# Command line options

A command line is read word by word. An option is written out behind two dashes or as one letter
behind a single dash, and takes its value from the same word or from the next one. Words after a
lone `--`, words that belong to no option, options that nobody knows and options that are given
twice are refused, and so is an option without its value, unless there is a value that it has by
default.

Whoever asks for the version gets it as soon as it is asked for, whatever is missing on the line.
-/

namespace TreeFlow

/-! ### The options -/

/-- What the options select. -/
inductive OptionName where
  | input | output | emit | run | diagnostics | config | logLevel
  deriving DecidableEq, Repr, Inhabited

namespace OptionName

/-- The option that is written out in a certain way. -/
def ofWord? : String → Option OptionName
  | "input" => some input
  | "output" => some output
  | "emit" => some emit
  | "run" => some run
  | "diagnostics" => some diagnostics
  | "config" => some config
  | "log-level" => some logLevel
  | _ => none

/-- The option with a certain letter. -/
def ofLetter? : Char → Option OptionName
  | 'i' => some input
  | 'o' => some output
  | _ => none

/-- Does the option take a value? -/
def takesValue : OptionName → Bool
  | run => false
  | _ => true

/-- May the option be given without a value? -/
def allowsNone : OptionName → Bool
  | run | diagnostics => true
  | _ => false

/-- May the option have this value? -/
def allows : OptionName → String → Bool
  | emit, value => value == "ir" || value == "llvm-ir"
  | diagnostics, value => value == "text" || value == "json"
  | logLevel, value => ["error", "warn", "info", "debug", "trace"].contains value
  | _, _ => true

end OptionName

/-! ### Reading a line -/

/-- The options of a line, each with its value if it has one, in the order in which they stand. -/
abbrev GivenOptions := List (OptionName × Option String)

/-- One word of a command line. -/
inductive Word where
  /-- Two dashes and nothing else. -/
  | lastOption
  /-- An option, with the value in the same word if there is one. -/
  | option (name : OptionName) (value : Option String)
  /-- The question which version this is. -/
  | version
  | unknown
  /-- A word that can only be the value of an option. -/
  | value (text : String)
  deriving DecidableEq, Repr

namespace Word

/-- A value without the equals signs in front of it. -/
def trimValue (cs : List Char) : String := String.ofList (cs.dropWhile (· == '='))

/-- An option that is written out, with or without a value behind an equals sign. -/
def ofLong (cs : List Char) : Word :=
  let cs := cs.dropWhile (· == '-')
  let behind := cs.dropWhile (· != '=')
  let word := String.ofList (cs.takeWhile (· != '='))
  match OptionName.ofWord? word with
  | none => if word = "version" then version else unknown
  | some name =>
    if name.takesValue && !behind.isEmpty then option name (some (trimValue behind))
    else option name none

/-- An option of one letter, with or without a value right behind it. -/
def ofShort : List Char → Word
  | [] => unknown
  | c :: behind =>
    match OptionName.ofLetter? c with
    | none => if c = 'V' then version else unknown
    | some name => option name (if behind.isEmpty then none else some (trimValue behind))

/-- Sorts a word. -/
def ofString (s : String) : Word :=
  match s.toList with
  | ['-', '-'] => lastOption
  | ['-'] => value s
  | '-' :: '-' :: cs => ofLong cs
  | '-' :: cs => ofShort cs
  | _ => value s

end Word

namespace GivenOptions

/-- Reads words, and tells which of them are left at the first one that makes no sense where it
stands. -/
def ofWords : List Word → GivenOptions × List Word
  | [] | [.lastOption] => ([], [])
  | .option name none :: .value text :: rest =>
    if name.takesValue then
      let (given, left) := ofWords rest
      ((name, some text) :: given, left)
    else ([(name, none)], .value text :: rest)
  | .option name value :: rest =>
    let (given, left) := ofWords rest
    ((name, value) :: given, left)
  | words => ([], words)

/-- Is an option given? -/
def contains (given : GivenOptions) (name : OptionName) : Bool := given.any (·.1 == name)

/-- The value of an option, if it is given one. -/
def value? (given : GivenOptions) (name : OptionName) : Option String :=
  given.findSome? fun (other, value) => if other = name then value else none

/-- Is every option given once at most, with a value that it may have, and the input at all? -/
def isSound (given : GivenOptions) : Bool :=
  decide (given.map Prod.fst).Nodup && given.contains .input &&
    given.all fun (name, value) =>
      match value with
      | some value => name.allows value
      | none => name.allowsNone

end GivenOptions

/-! ### What the options say -/

/-- The form in which a module is written out. -/
inductive EmitForm where
  /-- The text of the flow graphs. -/
  | flow
  /-- The text of another intermediate language, which takes a backend of its own. -/
  | foreign
  deriving DecidableEq, Repr, Inhabited

/-- How much is logged. -/
inductive LogLevel where
  | error | warn | info | debug | trace
  deriving DecidableEq, Repr, Inhabited

/-- What a command line asks for. -/
structure Options where
  /-- The file that holds the tree. -/
  input : Option String := none
  /-- The file that the module is written to. -/
  output : Option String := none
  config : Option String := none
  logLevel : Option LogLevel := none
  emit : Option EmitForm := none
  diagnostics : ReportForm := .text
  run : Bool := false
  deriving DecidableEq, Repr, Inhabited

namespace Options

/-- The log level with a name. -/
def logLevel? : String → Option LogLevel
  | "error" => some .error
  | "warn" => some .warn
  | "info" => some .info
  | "debug" => some .debug
  | "trace" => some .trace
  | _ => none

/-- The form of emitted modules with a name. -/
def emitForm? : String → Option EmitForm
  | "ir" => some .flow
  | "llvm-ir" => some .foreign
  | _ => none

/-- What the given options say. -/
def ofGiven (given : GivenOptions) : Options where
  input := given.value? .input
  output := given.value? .output
  config := given.value? .config
  logLevel := given.value? .logLevel >>= logLevel?
  emit := given.value? .emit >>= emitForm?
  diagnostics := if given.value? .diagnostics = some "json" then .json else .text
  run := given.contains .run

/-- Reads a command line, without the name of the program. -/
def parse? (words : List String) : Option Options :=
  let (given, left) := GivenOptions.ofWords (words.map Word.ofString)
  if left.isEmpty && given.isSound then some (ofGiven given) else none

/-- Does a command line ask for the version before anything on it is refused? -/
def asksVersion (words : List String) : Bool :=
  (GivenOptions.ofWords (words.map Word.ofString)).2.head? == some .version

end Options

end TreeFlow
