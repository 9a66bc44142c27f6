import OperandStack.Script.Reader
import OperandStack.Text.Split

/-!
# Scripts

A script holds one command on a line. A `#` opens a comment that runs to the end of its line, and a line without words
holds no command. Lines are numbered from 1, and a script is refused at its first line that is neither empty nor a
command.
-/

namespace OperandStack

/-- A command and the number of its line. -/
structure Line where
  number : Nat
  command : Command
  deriving DecidableEq, Repr

/-- The first line of a script that is no command, and why. -/
structure ScriptError where
  line : Nat
  cause : CommandError
  deriving DecidableEq, Repr

/-- The wording of a refusal. -/
def ScriptError.message (e : ScriptError) : Text :=
  "line ".toList ++ Decimal.ofNat e.line ++ ": ".toList ++ e.cause.message

namespace Script

/-- The command of one line, if it holds any words before its comment. -/
def readLine (t : Text) : Except CommandError (Option Command) :=
  match t.uncommented.words with
  | [] => .ok none
  | words => some <$> Command.read words

/-- The commands of lines of which the first has the given number. -/
def readFrom (number : Nat) : List Text → Except ScriptError (List Line)
  | [] => .ok []
  | t :: rest =>
    match readLine t with
    | .error cause => .error { line := number, cause }
    | .ok none => readFrom (number + 1) rest
    | .ok (some command) => ({ number, command } :: ·) <$> readFrom (number + 1) rest

/-- The commands of a script with the numbers of their lines. -/
def read (source : Text) : Except ScriptError (List Line) :=
  readFrom 1 source.lines

end Script

end OperandStack
