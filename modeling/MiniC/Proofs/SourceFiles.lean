import MiniC.CommandLine
import MiniC.Proofs.Items

/-!
# Commands that name files

A command that names a source file does what it does if the text of the file is given in its place,
whatever its other options are; and a command that names an input file does what it does if the
bytes of the file are on standard input.  The files of the current directory are found by their
names, so both hold of them.

Main results:

* `MiniC.Command.runOptions_of_file`, `MiniC.Command.runOptions_of_input`: what a named file stands
  for;
* `MiniC.Command.perform_file`: a command that names a file runs its text;
* `MiniC.Command.perform_ofFiles`: so it does with a file of the current directory.
-/

set_option autoImplicit false

namespace MiniC

namespace Command

variable {o : Options} {s : Surroundings} {path text : String} {bytes : List UInt8}

/-! ### What a named file stands for -/

/-- A source file stands for its text. -/
theorem source_of_file (hcode : o.code = none) (hfile : o.file = some path)
    (h : s.file path = .ok (.bytes text.toUTF8.toList)) : source o s = .ok text := by
  unfold source
  rw [hcode, hfile]
  dsimp only [Option.getD_some]
  rw [h]
  dsimp only
  rw [Input.decode?_toUTF8]
  exact congrArg Except.ok String.ofList_toList

/-- An input file stands for standard input. -/
theorem input_of_file (hinput : o.input = some path) (h : s.file path = .ok (.bytes bytes)) :
    input o s = .ok (.ofBytes bytes) := by
  unfold input
  rw [hinput]
  dsimp only
  rw [h]

/-- To name a source file is to give its text. -/
theorem runOptions_of_file (hcode : o.code = none) (hfile : o.file = some path)
    (h : s.file path = .ok (.bytes text.toUTF8.toList)) (fuel : Nat) :
    runOptions o s fuel = runOptions { o with file := none, code := some text } s fuel := by
  unfold runOptions
  rw [source_of_file hcode hfile h]
  rfl

/-- To name an input file is to have its bytes on standard input. -/
theorem runOptions_of_input (hinput : o.input = some path) (h : s.file path = .ok (.bytes bytes))
    (fuel : Nat) :
    runOptions o s fuel = runOptions { o with input := none } { s with stdin := bytes } fuel := by
  unfold runOptions
  rw [input_of_file hinput h]
  rfl

/-! ### Arguments -/

/-- Behind `--` stands a file name. -/
theorem ofArgs_file (hpath : path ≠ "") :
    ofArgs ["--", path] = .run { Options.unset with file := some path } := by
  have hset : Options.unset.setFile path = some { Options.unset with file := some path } := by
    simp [Options.setFile, Options.path?, Options.setOnce, Options.unset, hpath]
  have hrest : classify "--" = .rest := by decide
  rw [ofArgs, readArgs, hrest]
  dsimp only
  rw [readNames, hset]
  rfl

/-- Behind `-e=` stands a source. -/
theorem ofArgs_code (text : String) :
    ofArgs ["-e=" ++ text] = .run { Options.unset with code := some text } := by
  have hassigned : classify ("-e=" ++ text) = .assigned .eval text := by
    unfold classify
    rw [String.toList_append]
    exact congrArg (Argument.assigned .eval) String.ofList_toList
  rw [ofArgs, readArgs, hassigned]
  rfl

/-- A command that names a file runs its text. -/
theorem perform_file (hpath : path ≠ "") (h : s.file path = .ok (.bytes text.toUTF8.toList))
    (fuel : Nat) :
    (ofArgs ["--", path]).perform s fuel = (ofArgs ["-e=" ++ text]).perform s fuel := by
  rw [ofArgs_file hpath, ofArgs_code]
  exact runOptions_of_file rfl rfl h fuel

/-- A command that names a file of the current directory runs its text. -/
theorem perform_ofFiles {files : List (String × List UInt8)}
    (hfile : files.lookup path = some text.toUTF8.toList)
    (hnames : ∀ name ∈ FileTree.partsOf path, FileTree.IsName name)
    (hlength : path.utf8ByteSize ≤ FileTree.maxPath) (stdin : List UInt8) (fuel : Nat) :
    let s : Surroundings := .ofTree (.ofFiles files) stdin
    (ofArgs ["--", path]).perform s fuel = (ofArgs ["-e=" ++ text]).perform s fuel := by
  intro s
  refine perform_file (FileTree.ne_empty_of_names hnames) ?_ fuel
  show ((FileTree.ofFiles files).file path).mapError FileError.message = _
  rw [FileTree.file_ofFiles hnames hlength hfile]
  rfl

end Command

end MiniC
