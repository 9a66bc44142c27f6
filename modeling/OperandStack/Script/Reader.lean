import OperandStack.Script.Command

/-!
# Reading commands

A command is read from the words of a line. A word list is a command or is refused with one cause, the first that shows
from left to right.
-/

namespace OperandStack

/-- Why words are no command. -/
inductive CommandError where
  | noWords
  | unknownOperation (word : Text)
  | wrongArguments (op : Operation)
  | unknownType (word : Text)
  | badIndex (word : Text)
  | badCount (word : Text)
  | badBoolean (word : Text)
  | badInteger (word : Text)
  | badHex (word : Text) (flaw : Hex.Flaw)
  | notLiteral (words : List Text)
  deriving DecidableEq, Repr

namespace CommandError

/-- A text between apostrophes, as it is. -/
def quoted (t : Text) : Text :=
  "'".toList ++ t ++ "'".toList

/-- The wording of an error. -/
def message : CommandError → Text
  | noWords => "empty command".toList
  | unknownOperation word => "unknown operation ".toList ++ quoted word
  | wrongArguments op => "wrong arguments for ".toList ++ quoted op.word
  | unknownType word => "unknown type ".toList ++ quoted word
  | badIndex word => "invalid index ".toList ++ quoted word
  | badCount word => "invalid count ".toList ++ quoted word
  | badBoolean word => "invalid boolean ".toList ++ quoted word
  | badInteger word => "invalid integer ".toList ++ quoted word
  | badHex word flaw => "invalid hex ".toList ++ quoted word ++ ": ".toList ++ flaw.message
  | notLiteral words => "expected a literal, found ".toList ++ quoted (List.intercalate " ".toList words)

end CommandError

namespace Command

/-- A signed 64-bit index. -/
def readIndex (w : Text) : Except CommandError Int64 :=
  match Decimal.signed? w with
  | some n => .ok n
  | none => .error (.badIndex w)

/-- An unsigned 64-bit count. -/
def readCount (w : Text) : Except CommandError UInt64 :=
  match Decimal.unsigned? w with
  | some n => .ok n
  | none => .error (.badCount w)

/-- The keyword of a view. -/
def readView (w : Text) : Except CommandError View :=
  match View.ofKeyword? w with
  | some v => .ok v
  | none => .error (.unknownType w)

end Command

namespace Literal

/-- The truth value `true` or `false`. -/
def readBoolean (w : Text) : Except CommandError Literal :=
  if w = "true".toList then .ok (.boolean true)
  else if w = "false".toList then .ok (.boolean false)
  else .error (.badBoolean w)

/-- A signed 64-bit integer. -/
def readInteger (w : Text) : Except CommandError Literal :=
  match Decimal.signed? w with
  | some n => .ok (.integer n)
  | none => .error (.badInteger w)

/-- The digits of a hexadecimal word, without the marker `0x` that may open it. -/
def hexDigits : Text → Text
  | '0' :: 'x' :: rest => rest
  | w => w

/-- Bytes in hexadecimal. -/
def readBytes (w : Text) : Except CommandError Literal :=
  match Hex.decode (hexDigits w) with
  | .ok bs => .ok (.bytes bs)
  | .error flaw => .error (.badHex w flaw)

/-- A literal is `null`, or `bool`, `int` or `bytes` and one word. -/
def read (words : List Text) : Except CommandError Literal :=
  match words with
  | [keyword] => if keyword = "null".toList then .ok .null else .error (.notLiteral words)
  | [keyword, w] =>
    if keyword = "bool".toList then readBoolean w
    else if keyword = "int".toList then readInteger w
    else if keyword = "bytes".toList then readBytes w
    else .error (.notLiteral words)
  | _ => .error (.notLiteral words)

end Literal

namespace Command

/-- What a push pushes: an array or a struct of a number of items, or a literal. -/
def readPush (args : List Text) : Except CommandError Command :=
  match args with
  | [keyword, w] =>
    if keyword = "array".toList then pushArray <$> readCount w
    else if keyword = "struct".toList then pushStruct <$> readCount w
    else push <$> Literal.read args
  | _ => push <$> Literal.read args

/-- The command of an operation and its arguments. -/
def readArguments : Operation → List Text → Except CommandError Command
  | .push, args => readPush args
  | .pop, [] => .ok (pop .any)
  | .pop, [w] => pop <$> readView w
  | .trypop, [] => .ok (tryPop .any)
  | .trypop, [w] => tryPop <$> readView w
  | .peek, [i] => peek <$> readIndex i
  | .peekq, [i] => peekQuiet <$> readIndex i
  | .insert, i :: literal => do
    let index ← readIndex i
    let literal ← Literal.read literal
    .ok (insert index literal)
  | .remove, [i] => do
    let index ← readIndex i
    .ok (remove index .any)
  | .remove, [i, w] => do
    let index ← readIndex i
    let view ← readView w
    .ok (remove index view)
  | .reverse, [n] => reverse <$> readIndex n
  | .clear, [] => .ok clear
  | .copy, [] => .ok (copy none)
  | .copy, [n] => do
    let count ← readCount n
    .ok (copy (some count))
  | op, _ => .error (.wrongArguments op)

/-- The command that words denote. -/
def read : List Text → Except CommandError Command
  | [] => .error .noWords
  | w :: args =>
    match Operation.ofWord? w with
    | some op => readArguments op args
    | none => .error (.unknownOperation w)

end Command

end OperandStack
