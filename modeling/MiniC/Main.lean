import MiniC.CommandLine

/-!
# The program

Reads what the arguments name, performs the command, and writes what it leaves behind.
-/

set_option autoImplicit false

namespace MiniC

/-- A bound on the length of a run that no run reaches. -/
def unreachedFuel : Nat := 1000000000000000000

/-- The text of a failure to open or to read a file, with its number. -/
def reasonOf : IO.Error → String
  | .noFileOrDirectory _ code details | .permissionDenied _ code details
  | .inappropriateType _ code details | .invalidArgument _ code details
  | .noSuchThing _ code details => s!"{details} (os error {code})"
  | e => toString e

/-- The bytes of an open file, or why they cannot be read. -/
def readOpened (handle : IO.FS.Handle) : IO OpenFile := do
  try
    let bytes ← handle.readBinToEnd
    return .bytes bytes.toList
  catch e => return .unreadable (reasonOf e)

/-- Opens a file and reads its bytes, or finds out why it cannot be opened. -/
def openFile (path : String) : IO (Except String OpenFile) := do
  try
    let contents ← readOpened (← IO.FS.Handle.mk path .read)
    return .ok contents
  catch e => return .error (reasonOf e)

/-- Reads all bytes of a stream. -/
partial def readAll (stream : IO.FS.Stream) (seen : ByteArray) : IO ByteArray := do
  let bytes ← stream.read 65536
  if bytes.isEmpty then return seen else readAll stream (seen ++ bytes)

/-- The surroundings of a command: the files that its options name, and standard input unless a
file stands in for it. -/
def surroundings (o : Options) : IO Surroundings := do
  let files ← (o.file.toList ++ o.input.toList).mapM fun path => do
    let contents ← openFile path
    return (path, contents)
  let stdin ← if o.input.isSome then pure ByteArray.empty else readAll (← IO.getStdin) .empty
  return ⟨fun path => (files.lookup path).getD (.error FileError.missing.message),
    stdin.toList⟩

end MiniC

/-- The command line. -/
def main (args : List String) : IO UInt32 := do
  let command := MiniC.Command.ofArgs args
  let options := match command with
    | .run o => o
    | _ => MiniC.Options.unset
  let reads := match command with
    | .run _ => true
    | _ => false
  let found ← if reads then MiniC.surroundings options
    else pure ⟨fun _ => .error "", []⟩
  match command.perform found MiniC.unreachedFuel with
  | some exit => do
    IO.print exit.stdout
    IO.eprint exit.stderr
    return exit.code.toUInt32
  | none => return 1
