import WorldScript.Command

/-! # The program

Reads the files that the arguments name and prints what the command says.
-/

namespace WorldScript.Command

def stateOfError : IO.Error → FileState
  | .noFileOrDirectory .. => .missing
  | .inappropriateType _ code details | .permissionDenied _ code details
  | .invalidArgument _ code details | .resourceExhausted _ code details =>
    .unreadable s!"{details} (os error {code})"
  | e => .unreadable (toString e)

def readFile (path : String) : IO FileState := do
  try
    return .text (← IO.FS.readFile path)
  catch e => return stateOfError e

def readFiles (paths : List String) : IO Files := do
  let found ← paths.mapM fun path => do return (path, ← readFile path)
  return fun path => (found.lookup path).getD .missing

end WorldScript.Command

open WorldScript.Command

def main (arguments : List String) : IO UInt32 := do
  let paths := match Invocation.ofArguments arguments with
    | .ok i => i.paths
    | .error _ => []
  let output := run (← readFiles paths) arguments
  (← IO.getStdout).putStr output.stdout
  (← IO.getStderr).putStr output.stderr
  return output.exit
