/-!
# Counts by identity

How often each identity occurs, as a list of identities with their counts. An identity stands in the list once and with
a count above zero, or not at all; raising and lowering keep it so.
-/

namespace OperandStack

/-- Identities with their counts, in the order in which they were first raised. -/
abbrev Counts := List (Nat × Nat)

namespace Counts

/-- The count of an identity, zero where it does not stand in the list. -/
def of (id : Nat) (counts : Counts) : Nat :=
  (counts.lookup id).getD 0

/-- One more of an identity. -/
def raise (id : Nat) : Counts → Counts
  | [] => [(id, 1)]
  | (key, n) :: rest => if key = id then (key, n + 1) :: rest else (key, n) :: raise id rest

/-- One less of an identity, which leaves the list with its last count. -/
def lower (id : Nat) : Counts → Counts
  | [] => []
  | (key, n) :: rest =>
    if key = id then if n ≤ 1 then rest else (key, n - 1) :: rest else (key, n) :: lower id rest

end Counts

end OperandStack
