import OperandStack.Fault

/-!
# Positions on a stack

An index counts from the top: 0 is the top item. A negative index of a read or a removal counts from the bottom, -1
being the bottom item. Slots are kept from the bottom up, so an index is turned into a position counted from the bottom;
each operation has its own range and its own fault for an index outside of it.
-/

namespace OperandStack

namespace Position

/-- How far from the top an index reaches into a stack: a negative one is counted from the bottom. -/
def reach (depth : Nat) (index : Int64) : Int :=
  if index.toInt < 0 then index.toInt + depth else index.toInt

/-- The position that a read names. -/
def read (depth : Nat) (index : Int64) : Except Fault (Fin depth) :=
  if h : 0 ≤ reach depth index ∧ reach depth index < depth then
    .ok ⟨depth - (reach depth index).toNat - 1, by omega⟩
  else .error (.outOfRange index depth)

/-- The position that a removal names: an index at or beyond the depth is an underflow, a negative one below the bottom
is out of range. -/
def removal (depth : Nat) (index : Int64) : Except Fault (Fin depth) :=
  if hd : (depth : Int) ≤ index.toInt then .error (.underflow index depth)
  else if hr : reach depth index < 0 then .error (.outOfRange index depth)
  else .ok ⟨depth - (reach depth index).toNat - 1, by unfold reach at hr ⊢; split at hr <;> split <;> omega⟩

/-- The position at which an inserted item stands: index 0 is above the top, the depth below the bottom, and there are
no negative indices. -/
def insertion (depth : Nat) (index : Int64) : Except Fault Nat :=
  if index.toInt < 0 ∨ (depth : Int) < index.toInt then .error (.outOfRange index depth)
  else .ok (depth - index.toInt.toNat)

/-- The position from which on a reversal of the top items turns them over. -/
def reversal (depth : Nat) (count : Int64) : Except Fault Nat :=
  if count.toInt < 0 ∨ (depth : Int) < count.toInt then .error (.badReverse count depth)
  else .ok (depth - count.toInt.toNat)

end Position

end OperandStack
