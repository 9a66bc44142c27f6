import OperandStack.Fault
import OperandStack.Journal

/-!
# Events

What stacks, counters and runs report as they go. An event has a level, a message and named fields, and is written as
one line. A reader of a log asks for a level and gets the events of that level and of the more severe ones.
-/

namespace OperandStack

/-- The levels of events, the most severe first. -/
inductive Level where
  | warn
  | debug
  | trace
  deriving DecidableEq, Repr

namespace Level

/-- The name of a level. -/
def name : Level → Text
  | warn => "WARN".toList
  | debug => "DEBUG".toList
  | trace => "TRACE".toList

/-- The place of a level, the most severe level first. -/
def rank : Level → Nat
  | warn => 0
  | debug => 1
  | trace => 2

/-- A log at a level shows the events of that level and of the more severe ones. -/
def shows (asked level : Level) : Bool :=
  level.rank ≤ asked.rank

end Level

/-- Something worth a line in a log. The depths are those after the change, and `released` counts shared slots too. -/
inductive Event where
  | pushed (item : Item) (depth : Nat)
  | inserted (item : Item) (index : Int64) (depth : Nat)
  | removed (item : Item) (index : Int64) (depth : Nat)
  | cleared (released : Nat)
  | copied (count depth : Nat)
  | failed (op : Journal.Op) (depth : Nat) (fault : Fault)
  | failedPeek (fault : Fault)
  | strayRemoval (item : Item)
  | ceilingCrossed (references limit : Nat)
  | executing (line : Nat) (command : Text)
  | stopped (line : Nat) (fault : Fault)

namespace Event

/-- Changes of a stack are traced, the crossing of the ceiling is a warning, all else is for finding errors. -/
def level : Event → Level
  | pushed .. | inserted .. | removed .. | cleared .. | copied .. => .trace
  | failed .. | failedPeek .. | strayRemoval .. | executing .. | stopped .. => .debug
  | ceilingCrossed .. => .warn

/-- The message of an event. -/
def message : Event → Text
  | pushed .. => "push".toList
  | inserted .. => "insert".toList
  | removed .. => "remove".toList
  | cleared .. => "clear".toList
  | copied .. => "copy_to".toList
  | failed .. | failedPeek .. => "stack operation failed".toList
  | strayRemoval .. => "remove for untracked item ignored".toList
  | ceilingCrossed .. => "stack references exceed limit".toList
  | executing .. => "execute".toList
  | stopped .. => "script faulted".toList

/-- The fields of an event in order, each a name and a value. A failed peek has no field for the depth, which its error
names. -/
def fields : Event → List (Text × Text)
  | pushed item depth => [("item".toList, item.text), ("depth".toList, Decimal.ofNat depth)]
  | inserted item index depth | removed item index depth =>
    [("item".toList, item.text), ("index".toList, Decimal.ofInt index.toInt), ("depth".toList, Decimal.ofNat depth)]
  | cleared released => [("released".toList, Decimal.ofNat released)]
  | copied count depth => [("count".toList, Decimal.ofNat count), ("target_depth".toList, Decimal.ofNat depth)]
  | failed op depth fault =>
    [("op".toList, op.title), ("depth".toList, Decimal.ofNat depth), ("error".toList, fault.message)]
  | failedPeek fault => [("op".toList, Journal.Op.peek.title), ("error".toList, fault.message)]
  | strayRemoval item => [("item".toList, item.text)]
  | ceilingCrossed references limit =>
    [("references".toList, Decimal.ofNat references), ("limit".toList, Decimal.ofNat limit)]
  | executing line command => [("line".toList, Decimal.ofNat line), ("command".toList, command)]
  | stopped line fault => [("line".toList, Decimal.ofNat line), ("error".toList, fault.message)]

/-- An event in one line: its level, its message and each field as `name=value`. -/
def text (e : Event) : Text :=
  e.level.name ++ " ".toList ++ e.message ++ e.fields.flatMap fun field => " ".toList ++ field.1 ++ "=".toList ++ field.2

end Event

/-- The lines of a log at a level. -/
def logLines (asked : Level) (events : List Event) : List Text :=
  (events.filter fun e => asked.shows e.level).map Event.text

end OperandStack
