import OperandStack.Script.Keyword

/-!
# Commands

The commands of a script and their written form, which echoes in reports what a line asked for.
-/

namespace OperandStack

/-- A value that a script can write down. -/
inductive Literal where
  | null
  | boolean (flag : Bool)
  | integer (number : Int64)
  | bytes (bytes : List UInt8)
  deriving DecidableEq, Repr

namespace Literal

/-- The written form of a literal: a keyword and, but for `null`, a word. -/
def text : Literal → Text
  | null => "null".toList
  | boolean flag => "bool ".toList ++ Text.ofBool flag
  | integer number => "int ".toList ++ Decimal.ofInt number.toInt
  | bytes bs => "bytes ".toList ++ Hex.encode bs

/-- The value that a literal denotes. -/
def value : Literal → Value Item
  | null => .null
  | boolean flag => .boolean flag
  | integer number => .integer number
  | bytes bs => .byteString bs

end Literal

/-- A command of a script. A compound push wraps the top items in an array or a struct; a copy without a count takes
all. -/
inductive Command where
  | push (literal : Literal)
  | pushArray (size : UInt64)
  | pushStruct (size : UInt64)
  | pop (view : View)
  | tryPop (view : View)
  | peek (index : Int64)
  | peekQuiet (index : Int64)
  | insert (index : Int64) (literal : Literal)
  | remove (index : Int64) (view : View)
  | reverse (count : Int64)
  | clear
  | copy (count : Option UInt64)
  deriving DecidableEq, Repr

namespace Command

/-- The operation of a command. -/
def operation : Command → Operation
  | push _ | pushArray _ | pushStruct _ => .push
  | pop _ => .pop
  | tryPop _ => .trypop
  | peek _ => .peek
  | peekQuiet _ => .peekq
  | insert _ _ => .insert
  | remove _ _ => .remove
  | reverse _ => .reverse
  | clear => .clear
  | copy _ => .copy

/-- The written arguments of a command. A pop of any item names no view. -/
def arguments : Command → List Text
  | push literal => [literal.text]
  | pushArray size => ["array".toList, Decimal.ofNat size.toNat]
  | pushStruct size => ["struct".toList, Decimal.ofNat size.toNat]
  | pop view => if view = .any then [] else [view.keyword]
  | tryPop view => [view.keyword]
  | peek index | peekQuiet index => [Decimal.ofInt index.toInt]
  | insert index literal => [Decimal.ofInt index.toInt, literal.text]
  | remove index view => [Decimal.ofInt index.toInt, view.keyword]
  | reverse count => [Decimal.ofInt count.toInt]
  | clear => []
  | copy count => count.toList.map fun n => Decimal.ofNat n.toNat

/-- The written form of a command: its operation and its arguments with spaces between them. -/
def text (c : Command) : Text :=
  List.intercalate " ".toList (c.operation.word :: c.arguments)

end Command

end OperandStack
