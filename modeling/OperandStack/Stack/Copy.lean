import OperandStack.Stack

/-!
# Copies between stacks

The top items of one stack are placed on top of another, in the same order. The placed slots are shared: no counter
hears of them, neither now nor when they leave. No journal records a copy.
-/

namespace OperandStack

namespace Stack

/-- The number of items that a copy takes from a stack: all without a count, and never more than there are. -/
def copyCount (s : Stack) (count : Option UInt64) : Nat :=
  match count with
  | none => s.depth
  | some n => min n.toNat s.depth

/-- The shared slots that a copy of the top `n` items makes, the bottom first. -/
def copies (s : Stack) (n : Nat) : List Slot :=
  (s.slots.drop (s.depth - n)).map fun slot => { slot with owned := false }

/-- A target after a copy from a source, with the event that reports it; a copy of nothing is not reported. -/
def copyOnto (source : Stack) (count : Option UInt64) (target : Stack) : Stack × Option Event :=
  let n := source.copyCount count
  if n = 0 then (target, none)
  else
    let slots := target.slots ++ source.copies n
    ({ target with slots }, some (.copied n slots.length))

end Stack

end OperandStack
