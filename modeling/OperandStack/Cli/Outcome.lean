import OperandStack.Cli.Arguments
import OperandStack.Cli.Tree
import OperandStack.Run.Report

/-!
# The program as a function

The exit code and the two output streams of the program, from its arguments, its environment and what reading a path
gives. A report goes to the standard output whether or not the run met a fault; a script that cannot be read leaves that
stream empty and one line on the other. The exit code is 0 without a failure, 1 after one, and 2 for arguments that
cannot be used.
-/

namespace OperandStack

/-- What the program leaves: its exit code and its output. -/
structure Outcome where
  exit : Nat
  stdout : Text := []
  stderr : Text := []
  deriving DecidableEq, Repr

namespace Outcome

/-- The version of the program in one line. -/
def versionLine : Text :=
  Text.line "evalstack 0.3.0".toList

/-- A line that only stands for the help text: its wording is not that of the help. -/
def usageLine : Text :=
  Text.line "Usage: evalstack run [--json] [--no-journal] <SCRIPT>".toList

/-- A failure before anything is run. -/
def failure (message : Text) : Outcome :=
  { exit := 1, stderr := Text.line ("Error: ".toList ++ message) }

/-- A failure to read a path. -/
def unreadable (path : Text) (e : ReadError) : Outcome :=
  failure ("failed to read ".toList ++ path ++ ": ".toList ++ e.message)

/-- A report as text, or as an indented document. -/
def ofReport (json : Bool) (r : Report) : Outcome :=
  { exit := if r.fault.isSome then 1 else 0
    stdout := if json then Text.line r.document.pretty else r.text }

/-- The settings of a run: those of the environment, with journals off where the arguments say so. -/
def settings (e : Environment) (noJournal : Bool) : Settings :=
  if noJournal then (Settings.ofEnvironment e).withoutJournal else .ofEnvironment e

/-- The outcome of running the script at a path, from what reading it gave. -/
def ofScript (e : Environment) (path : Text) (content : Except ReadError ByteArray) (json noJournal : Bool) : Outcome :=
  match content with
  | .error reason => unreadable path reason
  | .ok bytes =>
    match Text.ofBytes? bytes with
    | none => unreadable path .notText
    | some source =>
      match Script.read source with
      | .error refusal => failure refusal.message
      | .ok lines => ofReport json (runLines (settings e noJournal) lines).report

end Outcome

namespace Request

/-- The outcome of a request, from what reading its path gave. Where the help is shown, asked for or because the
arguments cannot be used, the exit code and the stream are exact and `usageLine` stands for the text. -/
def outcome (e : Environment) (content : Except ReadError ByteArray) : Request → Outcome
  | run path json noJournal => .ofScript e path content json noJournal
  | version => { exit := 0, stdout := Outcome.versionLine }
  | usage => { exit := 0, stdout := Outcome.usageLine }
  | unusable => { exit := 2, stderr := Outcome.usageLine }

end Request

/-- The outcome of the program in a place of a directory tree. -/
def Outcome.inPlace (p : Place) (e : Environment) (args : List Text) : Outcome :=
  let request := Request.read args
  request.outcome e (p.read (request.path?.getD []))

end OperandStack
