import OperandStack.Event

/-!
# Stacks

The slots of a stack from bottom to top and its journal. A slot is owned when the stack has announced its item to the
counter, and shared when a copy placed it there. Wherever a stack is shown, its top comes first.
-/

namespace OperandStack

/-- A place on a stack: the item it holds, and whether the stack has announced it to the counter. -/
structure Slot where
  item : Item
  owned : Bool := true

/-- The slots of a stack, the bottom first, and its journal. -/
structure Stack where
  slots : List Slot := []
  journal : Journal := {}

namespace Stack

/-- An empty stack whose journal is on or off. -/
def new (journal : Bool) : Stack :=
  { journal := .empty journal }

/-- The number of slots. -/
def depth (s : Stack) : Nat :=
  s.slots.length

/-- The items of a stack, the bottom first. -/
def items (s : Stack) : List Item :=
  s.slots.map Slot.item

/-- The items of a stack, the top first. -/
def fromTop (s : Stack) : List Item :=
  s.items.reverse

/-- The number of slots that copies placed here. -/
def sharedCount (s : Stack) : Nat :=
  s.slots.countP fun slot => !slot.owned

/-- The items of a stack in one line, the top first. -/
def text (s : Stack) : Text :=
  Text.bracketed (s.fromTop.map Item.text)

/-- A stack in one line with its numbers of shared slots and of journal records. -/
def detail (s : Stack) : Text :=
  "EvaluationStack \x7b items: ".toList ++ s.text ++ ", shared: ".toList ++ Decimal.ofNat s.sharedCount ++
    ", journal: ".toList ++ Decimal.ofNat s.journal.records.length ++ " \x7d".toList

/-- A stack whose journal has lost its records. -/
def clearJournal (s : Stack) : Stack :=
  { s with journal := s.journal.clear }

end Stack

end OperandStack
