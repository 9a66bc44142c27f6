import OperandStack.Text

/-!
# Command line arguments

What the arguments of the program ask for: to run a script, in any order with its two flags, or to show the version or
the usage. Arguments are judged from left to right, and the first that does not fit makes them unusable. A flag may
stand once and takes no value; after `--` every argument is a path; exactly one path is needed, and it is not empty.
-/

namespace OperandStack

/-- What the arguments ask for. -/
inductive Request where
  | run (path : Text) (json noJournal : Bool)
  | version
  | usage
  | unusable
  deriving DecidableEq, Repr

/-- The arguments of a run that have been read so far. -/
structure RunArguments where
  path : Option Text := none
  json : Bool := false
  noJournal : Bool := false

namespace RunArguments

/-- The request of complete arguments. -/
def request (found : RunArguments) : Request :=
  match found.path with
  | some path => .run path found.json found.noJournal
  | none => .unusable

/-- The arguments with a path, if it is the first and not empty. -/
def addPath? (found : RunArguments) (w : Text) : Option RunArguments :=
  if found.path.isSome ∨ w.isEmpty then none else some { found with path := some w }

/-- Paths up to the end. -/
def readPaths (found : RunArguments) : List Text → Request
  | [] => found.request
  | w :: rest =>
    match found.addPath? w with
    | some found => found.readPaths rest
    | none => .unusable

/-- An argument that opens with a dash and is more than one is an option. -/
def isOption (w : Text) : Bool :=
  w.head? = some '-' && w.length != 1

/-- Flags and paths up to the end. -/
def read (found : RunArguments) : List Text → Request
  | [] => found.request
  | w :: rest =>
    if w = "--".toList then found.readPaths rest
    else if w = "--json".toList then if found.json then .unusable else { found with json := true }.read rest
    else if w = "--no-journal".toList then
      if found.noJournal then .unusable else { found with noJournal := true }.read rest
    else if w = "--help".toList ∨ "-h".toList.isPrefixOf w then .usage
    else if isOption w then .unusable
    else
      match found.addPath? w with
      | some found => found.read rest
      | none => .unusable

end RunArguments

namespace Request

/-- What is asked for by `help` and the arguments after it: nothing more, or the name of a command. -/
def readHelp : List Text → Request
  | [] => .usage
  | [w] => if w = "run".toList ∨ w = "help".toList then .usage else .unusable
  | _ => .unusable

/-- What arguments ask for. -/
def read : List Text → Request
  | [] => .unusable
  | w :: rest =>
    if w = "run".toList then RunArguments.read {} rest
    else if w = "help".toList then readHelp rest
    else if w = "--version".toList ∨ "-V".toList.isPrefixOf w then .version
    else if w = "--help".toList ∨ "-h".toList.isPrefixOf w then .usage
    else .unusable

/-- The file that a request reads. -/
def path? : Request → Option Text
  | run path _ _ => some path
  | _ => none

end Request

end OperandStack
