import TreeFlow.Command.Options
import TreeFlow.Config.Format
import TreeFlow.Lower.Unit
import TreeFlow.Machine.Run
import TreeFlow.Tree.File
import TreeFlow.Yaml.Reader

/-!
# Sessions

What the program does is described as a session: a tree of the things that it asks of its
surroundings, each followed by what it does next. Texts are printed, files are read and written, and
in the end there is an exit. Whoever carries a session out decides what is in the files; a session
itself has no effects, and all that it does is decided by what it is told.
-/

namespace TreeFlow

/-! ### Sessions -/

/-- How a process ends. -/
inductive Exit where
  | code (n : Nat)
  /-- It is stopped on the spot. -/
  | aborted
  deriving DecidableEq, Repr, Inhabited

/-- What comes of reading a file. -/
inductive FileRead where
  | contents (text : String)
  /-- The file cannot be opened. -/
  | refused (reason : String)
  /-- The file can be opened, but no text can be read from it. -/
  | noText (reason : String)
  deriving DecidableEq, Repr, Inhabited

/-- The text of a file, or why it cannot be had. -/
def FileRead.text : FileRead → Except String String
  | contents text => .ok text
  | refused reason | noText reason => .error reason

/-- What a process does from some point on. -/
inductive Session where
  /-- Writes to the standard output. -/
  | print (text : String) (next : Session)
  /-- Writes to the standard error output. -/
  | complain (text : String) (next : Session)
  | read (path : String) (next : FileRead → Session)
  /-- Writes a file; what comes next depends on why that was refused, if it was. -/
  | write (path contents : String) (next : Option String → Session)
  | done (exit : Exit)
  deriving Inhabited

/-! ### Failures -/

/-- Why a session ends early, told by the number that it ends with. -/
inductive Failure where
  | noTree | noConfig | noBackend | noOutput | noResult
  deriving DecidableEq, Repr, Inhabited

/-- The number of a failure. -/
def Failure.number : Failure → Nat
  | noTree => 2
  | noConfig => 3
  | noBackend => 4
  | noOutput => 5
  | noResult => 6

namespace Session

/-- Ends with a failure, and its number. -/
def failed (failure : Failure) : Session :=
  complain s!"Error: {failure.number}\n" (done (.code 1))

/-- Says what is wrong and ends with a failure. -/
def failedWith (failure : Failure) (message : String) : Session :=
  complain (message ++ "\n") (failed failure)

/-! ### Stages -/

/-- Goes on with the settings in a file; without a file they are the default ones. -/
def withConfig (path : Option String) (next : Config → Session) : Session :=
  match path with
  | none => next {}
  | some path =>
    read path fun
      | .refused reason => failedWith .noConfig s!"Could not open {path}: {reason}"
      | .noText reason => failedWith .noConfig s!"Could not parse {path}: {reason}"
      | .contents text =>
        match Yaml.parse? text >>= Config.decode? with
        | some config => next config
        | none => failedWith .noConfig s!"Could not parse {path}: not the form of settings"

/-- Goes on with the tree in a file. -/
def withTree (path : Option String) (next : Tree → Session) : Session :=
  match path with
  | none => failed .noTree
  | some path =>
    read path fun file =>
      match Tree.ofFile path file.text with
      | .ok tree => next tree
      | .error fault => failedWith .noTree fault.message

/-- Tells a report where its form belongs: lines of text are complaints, records are printed. -/
def tell (form : ReportForm) (text : String) (next : Session) : Session :=
  match form with
  | .text => complain text next
  | .json => print text next

/-- Lowers a tree and reports what is wrong with it; that may be the end. -/
def withModule (form : ReportForm) (config : Config) (tree : Tree) (next : Module → Session) :
    Session :=
  match tree.compileAndReport config form with
  | .error _ => done .aborted
  | .ok (mod, report) =>
    tell form report.text <|
      match report.action with
      | .none => next mod
      | .exit => done (.code 1)
      | .abort => done .aborted

/-- Writes a module out. -/
def emit (form : Option EmitForm) (output : Option String) (mod : Module) (next : Session) :
    Session :=
  match form, output with
  | none, _ => next
  | some .foreign, _ =>
    failedWith .noBackend "LLVM IR requires nanocc to be built with the llvm feature"
  | some .flow, none => print mod.text next
  | some .flow, some path =>
    write path mod.text fun
      | none => next
      | some reason => failedWith .noOutput s!"Could not write {path}: {reason}"

/-- The end of a session whose program was run. What `main` returned becomes the exit code, as far
as that goes. -/
def ending : Except RunError (Option Int) → Session
  | .ok none => done (.code 0)
  | .ok (some v) => done (.code (v % 256).toNat)
  | .error fault => failedWith .noResult fault.message

/-- Did the machine break down in a run? -/
def isBrokenDown : Except RunError α → Bool
  | .error fault => fault.isBreakdown
  | .ok _ => false

/-- Runs a module: what the program printed is printed, and then what is wrong with it reported.
When the machine breaks down, nothing of that is seen. -/
def execute (form : ReportForm) (config : Config) (file : String) (mod : Module) : Session :=
  match Program.runMain ⟨mod, config.layout⟩ file stepLimit with
  | none => done .aborted
  | some run =>
    if isBrokenDown run.result then done (.code 101)
    else print run.output (tell form (form.report run.diags) (ending run.result))

/-- What the program does with the given options. -/
def ofOptions (o : Options) : Session :=
  withConfig o.config fun config =>
    withTree o.input fun tree =>
      withModule o.diagnostics config tree fun mod =>
        emit o.emit o.output mod <|
          if o.run then execute o.diagnostics config tree.file mod else done (.code 0)

/-- What the program does when its options make no sense. -/
def refused : Session :=
  complain "The options are not understood\n" (done (.code 1))

/-- What the program says of itself. -/
def version : Session := print "nanocc 0.1.0\n" (done (.code 0))

/-- What the program does with a command line. -/
def ofCommandLine (words : List String) : Session :=
  match Options.parse? words with
  | none => if Options.asksVersion words then version else refused
  | some o => ofOptions o

end Session

end TreeFlow
