import OperandStack.Text.Decimal
import OperandStack.Text.Split

/-!
# Directory trees

Files in directories, and what reading a path among them gives: the bytes of a file, or the reason why there are none.
With a tree in place of a disk, the program is a function of its arguments, its environment and the tree.
-/

namespace OperandStack

/-- Why a path gives no text. -/
inductive ReadError where
  | missing
  | directory
  | notDirectory
  | notText
  | system (details : Text) (code : Nat)
  deriving DecidableEq, Repr

namespace ReadError

/-- The wording of a reason. -/
def message : ReadError → Text
  | missing => "No such file or directory (os error 2)".toList
  | directory => "Is a directory (os error 21)".toList
  | notDirectory => "Not a directory (os error 20)".toList
  | notText => "stream did not contain valid UTF-8".toList
  | system details code => details ++ " (os error ".toList ++ Decimal.ofNat code ++ ")".toList

end ReadError

/-- A file with its bytes, or a directory with its named entries. -/
inductive Tree where
  | file (content : ByteArray)
  | directory (entries : List (Text × Tree))

/-- A place in a tree: what is there, and the directories above it, the nearest first. -/
structure Place where
  here : Tree
  above : List Tree := []

namespace Place

/-- The directory above a place; the topmost directory is above itself. -/
def parent (p : Place) : Place :=
  match p.above with
  | [] => p
  | up :: rest => { here := up, above := rest }

/-- The topmost directory above a place. -/
def root (p : Place) : Place :=
  match p.above.getLast? with
  | none => p
  | some top => { here := top }

/-- One step along a path, from a directory to the place that a name stands for in it. -/
def enter (p : Place) (name : Text) : Except ReadError Place :=
  match p.here with
  | .file _ => .error .notDirectory
  | .directory entries =>
    if name.isEmpty ∨ name = ".".toList then .ok p
    else if name = "..".toList then .ok p.parent
    else
      match entries.lookup name with
      | some tree => .ok { here := tree, above := p.here :: p.above }
      | none => .error .missing

/-- The place at the end of a path. A path that opens with a slash starts at the topmost directory. -/
def find (p : Place) (path : Text) : Except ReadError Place :=
  let start := if path.head? = some '/' then p.root else p
  if path.isEmpty then .error .missing else (path.pieces (· == '/')).foldlM enter start

/-- The bytes of the file at the end of a path. -/
def read (p : Place) (path : Text) : Except ReadError ByteArray := do
  match (← p.find path).here with
  | .file content => .ok content
  | .directory _ => .error .directory

end Place

end OperandStack
