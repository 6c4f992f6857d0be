import ScalarLang.CommandLine.Run

/-!
# The program

Reads the named files, runs the command line on them and writes what it says.
-/

namespace ScalarLang.CommandLine

/-- The reason why the system could not read a file. -/
def readErrorOf : IO.Error → ReadError
  | .noFileOrDirectory .. => .notFound
  | .inappropriateType _ code _ => if code = 21 then .isDirectory else .notDirectory
  | .permissionDenied .. => .failed "permission denied"
  | e => .failed (toString e)

/-- Reads a file. -/
def readSource (name : String) : IO (Except ReadError (List UInt8)) := do
  try
    return .ok (← IO.FS.readBinFile name).toList
  catch e => return .error (readErrorOf e)

/-- The names that the arguments ask to be read. -/
def requestedNames (arguments : List String) : List String :=
  match Request.ofArguments arguments with
  | .work _ names => names
  | _ => []

end ScalarLang.CommandLine

open ScalarLang CommandLine in
/-- Runs the command line on the files of the system. -/
def main (arguments : List String) : IO UInt32 := do
  let names := requestedNames arguments
  let sources ← names.mapM readSource
  let read : Reader := fun name => ((names.zip sources).lookup name).getD (.error .notFound)
  let stdout ← IO.getStdout
  let stderr ← IO.getStderr
  let terminal ← stderr.isTty
  let output := run ⟨read, terminal, .working⟩ arguments
  let output ←
    try
      stdout.putStr output.stdout
      stdout.flush
      pure output
    catch _ => pure (run ⟨read, terminal, .full⟩ arguments)
  stderr.putStr output.stderr
  return output.exitCode.toUInt32
