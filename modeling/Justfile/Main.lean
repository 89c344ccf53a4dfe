import Justfile.Command

/-!
# Program

Reads the files that the arguments name, runs the command, and writes what it returns.
-/

set_option autoImplicit false

namespace Justfile

/-- Reads a file of the system. -/
def readPath (path : String) : IO (Except ReadError Text) := do
  try
    return decode (← IO.FS.readBinFile path)
  catch
    | .noFileOrDirectory .. => return .error .absent
    | error => return .error (.other (toString error))

end Justfile

/-- The program. -/
def main (arguments : List String) : IO UInt32 := do
  let files ← (Justfile.Command.paths (arguments.drop 1)).mapM fun path => do
    return (path, ← Justfile.readPath path)
  let read (path : String) : Except Justfile.ReadError Justfile.Text :=
    (files.lookup path).getD (.error .absent)
  let outcome := Justfile.Command.run read arguments
  (← IO.getStdout).putStr outcome.stdout
  (← IO.getStderr).putStr outcome.stderr
  return outcome.code.toUInt32
