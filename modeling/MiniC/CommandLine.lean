import MiniC.FileTree
import MiniC.Session

/-!
# The command line

A command names a source file or gives the source itself, and may set where input comes from, the
function to start in, and the limits.  An option is written `--option value` or `--option=value`;
the source may also be given by `-e value`, `-evalue` or `-e=value`.  Behind `--` stands a file
name whatever it looks like.  An option that is given twice, a second file name, and both a file
name and a source are errors of usage, as is a value that looks like an option.

Main definitions:

* `MiniC.Command`, `MiniC.Command.ofArgs`: what the arguments ask for;
* `MiniC.Surroundings`, `MiniC.Surroundings.ofTree`: what a command finds;
* `MiniC.Exit`: what a command leaves behind;
* `MiniC.Command.perform`: what a command does.
-/

set_option autoImplicit false

namespace MiniC

/-- What the arguments of a command set.  The options come without their default values. -/
structure Options where
  file : Option String
  code : Option String
  input : Option String
  entry : Option String
  maxCallDepth : Option Nat
  heapLimit : Option Nat
deriving DecidableEq, Repr, Inhabited

/-- The options that take a value. -/
inductive OptionName where
  | eval
  | input
  | entry
  | maxCallDepth
  | heapLimit
deriving DecidableEq, Repr, Inhabited

/-- What the arguments of a command ask for. -/
inductive Command where
  | help
  | version
  | run (options : Options)
  /-- The arguments make no command. -/
  | misused
deriving DecidableEq, Repr, Inhabited

namespace Options

/-- No options. -/
def unset : Options := ⟨none, none, none, none, none, none⟩

/-- The limits and the function to start in, with default values where nothing is set. -/
def config (o : Options) : Config where
  entry := o.entry.getD "main"
  maxCallDepth := o.maxCallDepth.getD 10000
  heapLimit := o.heapLimit.getD Heap.defaultLimit

/-- Sets what has not been set yet. -/
def setOnce {α : Type} (old : Option α) (new : Option α) : Option (Option α) :=
  match old, new with
  | none, some x => some (some x)
  | _, _ => none

/-- A size: digits with a plus sign before them perhaps, within 64 bits. -/
def size? (s : String) : Option Nat :=
  let digits := match s.toList with
    | '+' :: cs => cs
    | cs => cs
  match Decimal.nat? digits with
  | some n => if n < UInt64.size then some n else none
  | none => none

/-- A path, which is not empty. -/
def path? (s : String) : Option String := if s.isEmpty then none else some s

/-- Sets an option to a value; `none` if the value does not suit it or it is set already. -/
def set (o : Options) (name : OptionName) (value : String) : Option Options :=
  match name with
  | .eval => (setOnce o.code (some value)).map fun x => { o with code := x }
  | .input => (setOnce o.input (path? value)).map fun x => { o with input := x }
  | .entry => (setOnce o.entry (some value)).map fun x => { o with entry := x }
  | .maxCallDepth =>
    (setOnce o.maxCallDepth (size? value)).map fun x => { o with maxCallDepth := x }
  | .heapLimit => (setOnce o.heapLimit (size? value)).map fun x => { o with heapLimit := x }

/-- Sets the file name; `none` if it is empty or set already. -/
def setFile (o : Options) (name : String) : Option Options :=
  (setOnce o.file (path? name)).map fun x => { o with file := x }

/-- Exactly one of a file name and a source is given. -/
def hasOneSource (o : Options) : Bool := o.file.isSome != o.code.isSome

end Options

namespace Command

/-- The option that is spelled out behind two dashes. -/
def long? (name : String) : Option OptionName :=
  if name = "eval" then some .eval
  else if name = "input" then some .input
  else if name = "entry" then some .entry
  else if name = "max-call-depth" then some .maxCallDepth
  else if name = "heap-limit" then some .heapLimit
  else none

/-- What one argument is. -/
inductive Argument where
  /-- A file name. -/
  | name (s : String)
  /-- The mark behind which all arguments are file names. -/
  | rest
  | help
  | version
  /-- An option with its value in the same argument. -/
  | assigned (option : OptionName) (value : String)
  /-- An option whose value is the next argument. -/
  | awaiting (option : OptionName)
  | unknown
deriving DecidableEq, Repr, Inhabited

/-- What one argument is. -/
def classify (arg : String) : Argument :=
  match arg.toList with
  | ['-', '-'] => .rest
  | '-' :: '-' :: cs =>
    let name := String.ofList (cs.takeWhile (· ≠ '='))
    match cs.dropWhile (· ≠ '=') with
    | '=' :: value =>
      match long? name with
      | some o => .assigned o (String.ofList value)
      | none => .unknown
    | _ =>
      if name = "help" then .help
      else if name = "version" then .version
      else
        match long? name with
        | some o => .awaiting o
        | none => .unknown
  | ['-', 'e'] => .awaiting .eval
  | '-' :: 'e' :: '=' :: value => .assigned .eval (String.ofList value)
  | '-' :: 'e' :: value => .assigned .eval (String.ofList value)
  | '-' :: 'h' :: _ => .help
  | '-' :: 'V' :: _ => .version
  | '-' :: _ :: _ => .unknown
  | _ => .name arg

/-- The argument looks like an option, so it is no value of the option before it. -/
def looksLikeOption (arg : String) : Bool :=
  match arg.toList with
  | '-' :: _ :: _ => true
  | _ => false

/-- The command that options make: exactly one source must be given. -/
def ofOptions (o : Options) : Command := if o.hasOneSource then .run o else .misused

/-- File names behind `--`. -/
def readNames : Options → List String → Command
  | o, [] => ofOptions o
  | o, arg :: args =>
    match o.setFile arg with
    | some o => readNames o args
    | none => .misused

/-- Reads arguments from left to right; the first that is wrong, or asks for help or for the
version, decides. -/
def readArgs : Options → List String → Command
  | o, [] => ofOptions o
  | o, arg :: args =>
    match classify arg with
    | .name s =>
      match o.setFile s with
      | some o => readArgs o args
      | none => .misused
    | .rest => readNames o args
    | .help => .help
    | .version => .version
    | .unknown => .misused
    | .assigned option value =>
      match o.set option value with
      | some o => readArgs o args
      | none => .misused
    | .awaiting option =>
      match args with
      | [] => .misused
      | value :: args =>
        if looksLikeOption value then .misused
        else
          match o.set option value with
          | some o => readArgs o args
          | none => .misused

/-- What some arguments ask for. -/
def ofArgs (args : List String) : Command := readArgs .unset args

end Command

/-- What a command finds: files, or why they cannot be opened, and the bytes of standard input. -/
structure Surroundings where
  file : String → Except String OpenFile
  stdin : List UInt8

/-- A tree of files, and the bytes of standard input, as surroundings. -/
def Surroundings.ofTree (t : FileTree) (stdin : List UInt8) : Surroundings where
  file := fun path => (t.file path).mapError FileError.message
  stdin := stdin

/-- What a command leaves behind: its exit code and what it writes. -/
structure Exit where
  code : UInt8
  stdout : String
  stderr : String
deriving DecidableEq, Repr, Inhabited

namespace Command

/-- The answer to a request for the version. -/
def versionText : String := "cwalk 0.1.0\n"

/-- The answer to a request for help. -/
def helpText : String :=
  "Run a small subset of C by walking its syntax tree\n\n" ++
  "Usage: cwalk [OPTIONS] [FILE]\n\n" ++
  "Arguments:\n" ++
  "  [FILE]  C source file to run\n\n" ++
  "Options:\n" ++
  "  -e, --eval <CODE>                      Run this source text instead of a file\n" ++
  "      --input <FILE>                     Read GET input from this file instead of stdin\n" ++
  "      --entry <ENTRY>                    Function to start execution in [default: main]\n" ++
  "      --max-call-depth <MAX_CALL_DEPTH>  Maximum number of nested function calls " ++
  "[default: 10000]\n" ++
  "      --heap-limit <HEAP_LIMIT>          Maximum bytes held by heap blocks and arrays " ++
  "[default: 16777216]\n" ++
  "  -h, --help                             Print help\n" ++
  "  -V, --version                          Print version\n"

/-- The answer to arguments that make no command. -/
def usageText : String :=
  "error: invalid arguments\n\nUsage: cwalk [OPTIONS] [FILE]\n\n" ++
  "For more information, try '--help'.\n"

/-- The end of a command that fails behind some output. -/
def failed (output : String) (f : Failure) : Exit :=
  ⟨1, output, "error[" ++ f.kind ++ "]: " ++ f.message ++ "\n"⟩

/-- The source text that the options name. -/
def source (o : Options) (s : Surroundings) : Except Failure String :=
  match o.code with
  | some code => .ok code
  | none =>
    match s.file (o.file.getD "") with
    | .error reason | .ok (.unreadable reason) => .error (.io reason)
    | .ok (.bytes bytes) =>
      match Input.decode? bytes with
      | some cs => .ok (String.ofList cs)
      | none => .error (.io InputError.notText.message)

/-- The input that the options name.  A file is opened at once, and failing to read it is an error
of the run only. -/
def input (o : Options) (s : Surroundings) : Except Failure Input :=
  match o.input with
  | none => .ok (.ofBytes s.stdin)
  | some path =>
    match s.file path with
    | .error reason => .error (.io reason)
    | .ok (.bytes bytes) => .ok (.ofBytes bytes)
    | .ok (.unreadable reason) => .ok (.unreadable reason)

/-- Runs the program that the options name: the source is read, the input opened, and only then is
the source looked into. -/
def runOptions (o : Options) (s : Surroundings) (fuel : Nat) : Option Exit :=
  match source o s with
  | .error f => some (failed "" f)
  | .ok source =>
    match input o s with
    | .error f => some (failed "" f)
    | .ok input =>
      let report := Program.runSource source o.config input .unlimited false fuel
      report.result.map fun
        | .ok _ => ⟨0, report.output, ""⟩
        | .error f => failed report.output f

/-- What a command does; `none` if the bound on the length of the run was too small. -/
def perform (c : Command) (s : Surroundings) (fuel : Nat) : Option Exit :=
  match c with
  | help => some ⟨0, helpText, ""⟩
  | version => some ⟨0, versionText, ""⟩
  | misused => some ⟨2, "", usageText⟩
  | run o => runOptions o s fuel

end Command

end MiniC
