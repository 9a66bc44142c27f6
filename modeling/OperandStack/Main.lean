import OperandStack.Cli.Outcome

/-!
# The program

The outer layer: it reads the two variables of the environment and the script, and writes what `Request.outcome` says.
-/

namespace OperandStack

namespace ReadError

/-- The number of an error of the operating system, which may come negated. -/
def number (code : UInt32) : Nat :=
  if code < 0x80000000 then code.toNat else (0 - code).toNat

/-- The reason that the operating system gives for a failed read. -/
def ofSystem : IO.Error → ReadError
  | .noFileOrDirectory .. => .missing
  | .inappropriateType _ code details =>
    if number code = 21 then .directory
    else if number code = 20 then .notDirectory
    else .system details.toList (number code)
  | .permissionDenied _ code details | .invalidArgument _ code details | .resourceExhausted _ code details
  | .noSuchThing _ code details => .system details.toList (number code)
  | .otherError code details | .hardwareFault code details | .illegalOperation code details =>
    .system details.toList (number code)
  | e => .system (toString e).toList 0

end ReadError

/-- The bytes of a file, or why there are none. -/
def readFile (path : Text) : IO (Except ReadError ByteArray) := do
  try
    return .ok (← IO.FS.readBinFile (String.ofList path))
  catch e =>
    return .error (.ofSystem e)

end OperandStack

open OperandStack in
/-- The program: it ends with the exit code of its outcome. -/
def main (args : List String) : IO UInt32 := do
  let journal := (← IO.getEnv "EVALSTACK_JOURNAL").map String.toUTF8
  let limit := (← IO.getEnv "EVALSTACK_MAX_STACK_REFERENCES").map String.toUTF8
  let request := Request.read (args.map String.toList)
  let content ← match request.path? with
    | some path => readFile path
    | none => pure (.error .missing)
  let outcome := request.outcome { journal, limit } content
  (← IO.getStdout).putStr (String.ofList outcome.stdout)
  (← IO.getStderr).putStr (String.ofList outcome.stderr)
  return UInt32.ofNat outcome.exit
