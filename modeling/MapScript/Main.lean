import MapScript.Console.Run

/-!
# The program

Runs the command that the command line gives, on the files and streams of the system.  A command
line that was refused ends with status two.
-/

namespace MapScript.Console

/-- The cause of a failure, as far as it can be told. -/
def FileError.ofSystem : IO.Error → FileError
  | .noFileOrDirectory .. => .notFound
  | .alreadyExists .. => .exists
  | .inappropriateType _ 20 _ => .notDirectory
  | .inappropriateType _ 21 _ => .isDirectory
  | .invalidArgument _ 36 _ => .nameTooLong
  | e => .other e.toString

def attempt {α : Type} (act : IO α) : IO (Except FileError α) := do
  try return .ok (← act)
  catch e => return .error (.ofSystem e)

instance : Host IO where
  readFile path := attempt (IO.FS.readBinFile path)
  writeFile path content := attempt (IO.FS.writeBinFile path content)
  makeFolders path := attempt (IO.FS.createDirAll path)
  print bytes := do (← IO.getStdout).write bytes
  complain text := IO.eprint text

end MapScript.Console

open MapScript.Console in
def main (args : List String) : IO UInt32 := do
  match Command.ofArgs args with
  | .error e =>
    IO.eprintln ("error: " ++ e.message)
    return 2
  | .ok command =>
    let status ← (command.run : IO Nat)
    return UInt32.ofNat status
