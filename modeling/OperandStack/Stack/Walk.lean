import OperandStack.Stack

/-!
# Walks over a stack

A walk visits the items of a stack from both ends: from the bottom up and from the top down. It keeps how many items
each end has given; the two ends meet when together they have given them all.
-/

namespace OperandStack

/-- A walk over items, the bottom first: the numbers of items taken at the bottom and at the top. -/
structure Walk where
  items : List Item
  fromBottom : Nat := 0
  fromTop : Nat := 0

namespace Walk

/-- The number of items not visited yet. -/
def remaining (w : Walk) : Nat :=
  w.items.length - w.fromBottom - w.fromTop

/-- The next item from the bottom, if one is left. -/
def next (w : Walk) : Option Item × Walk :=
  if w.remaining = 0 then (none, w) else (w.items[w.fromBottom]?, { w with fromBottom := w.fromBottom + 1 })

/-- The next item from the top, if one is left. -/
def nextBack (w : Walk) : Option Item × Walk :=
  if w.remaining = 0 then (none, w)
  else (w.items[w.items.length - w.fromTop - 1]?, { w with fromTop := w.fromTop + 1 })

end Walk

/-- A walk over a stack that has not begun. -/
def Stack.walk (s : Stack) : Walk :=
  { items := s.items }

end OperandStack
