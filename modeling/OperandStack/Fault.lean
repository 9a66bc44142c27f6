import OperandStack.Item.View

/-!
# Faults

Why a call on a stack fails, and the one fault that the reference counter reports. A fault keeps the index or count as
it was given, before any conversion of a negative index.
-/

namespace OperandStack

/-- The cause of a failed call. -/
inductive Fault where
  | underflow (index : Int64) (depth : Nat)
  | outOfRange (index : Int64) (depth : Nat)
  | mismatch (expected : View) (found : Kind)
  | badReverse (count : Int64) (depth : Nat)
  | overLimit (references limit : Nat)
  deriving DecidableEq, Repr

namespace Fault

/-- The wording of a fault. -/
def message : Fault → Text
  | underflow index depth =>
    "stack underflow: index ".toList ++ Decimal.ofInt index.toInt ++ " with depth ".toList ++ Decimal.ofNat depth
  | outOfRange index depth =>
    "index ".toList ++ Decimal.ofInt index.toInt ++ " out of range for stack depth ".toList ++ Decimal.ofNat depth
  | mismatch expected found =>
    "type mismatch: expected ".toList ++ expected.name ++ ", found ".toList ++ found.name
  | badReverse count depth =>
    "invalid reverse count ".toList ++ Decimal.ofInt count.toInt ++ " for stack depth ".toList ++ Decimal.ofNat depth
  | overLimit references limit =>
    "stack references ".toList ++ Decimal.ofNat references ++ " exceed limit ".toList ++ Decimal.ofNat limit

end Fault

end OperandStack
