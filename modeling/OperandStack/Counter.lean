import OperandStack.Counter.Counts
import OperandStack.Event

/-!
# Reference counters

Stacks notify a counter of the items that enter and leave their own slots. A tally counts these references in all and by
identity, keeps the highest count reached and warns once when the count rises above its ceiling. A counter is a tally,
or is silent, or records what it hears.
-/

namespace OperandStack

/-- What a stack tells its counter. -/
inductive Notice where
  | added (item : Item)
  | removed (item : Item)

/-- The figures of a tally that reports show. -/
structure Stats where
  references : Nat
  peak : Nat
  trackedItems : Nat
  adds : Nat
  removes : Nat
  deriving DecidableEq, Repr

/-- The document of the figures. -/
def Stats.document (s : Stats) : Json :=
  .object [("references".toList, .nat s.references), ("peak".toList, .nat s.peak),
    ("tracked_items".toList, .nat s.trackedItems), ("adds".toList, .nat s.adds), ("removes".toList, .nat s.removes)]

/-- References counted in all and by identity. `overLimit` is set while the crossing of the ceiling has been reported
and the references have not come back. -/
structure Tally where
  limit : Nat
  references : Nat := 0
  peak : Nat := 0
  adds : Nat := 0
  removes : Nat := 0
  overLimit : Bool := false
  counts : Counts := []
  deriving DecidableEq, Repr

namespace Tally

/-- A new tally has counted nothing. -/
def new (limit : Nat) : Tally :=
  { limit }

/-- The live references to an item. -/
def referencesTo (t : Tally) (item : Item) : Nat :=
  t.counts.of item.id

/-- The figures of a tally. -/
def stats (t : Tally) : Stats :=
  { references := t.references, peak := t.peak, trackedItems := t.counts.length, adds := t.adds, removes := t.removes }

/-- The check of the ceiling fails while there are more references than it allows. -/
def check (t : Tally) : Except Fault Unit :=
  if t.limit < t.references then .error (.overLimit t.references t.limit) else .ok ()

/-- An added item is counted; the first addition above the ceiling is reported. -/
def add (t : Tally) (item : Item) : Tally × Option Event :=
  let references := t.references + 1
  let crosses := decide (t.limit < references) && !t.overLimit
  ({ t with
      references
      peak := max t.peak references
      adds := t.adds + 1
      overLimit := t.overLimit || crosses
      counts := t.counts.raise item.id },
    if crosses then some (.ceilingCrossed references t.limit) else none)

/-- A removed item is counted off; the removal of an item that has no count is reported and otherwise ignored. -/
def remove (t : Tally) (item : Item) : Tally × Option Event :=
  let t := { t with removes := t.removes + 1 }
  match t.counts.lookup item.id with
  | none => (t, some (.strayRemoval item))
  | some _ =>
    let references := t.references - 1
    ({ t with
        references
        overLimit := t.overLimit && decide (t.limit < references)
        counts := t.counts.lower item.id },
      none)

/-- A tally after a notice, with the event it reports. -/
def receive (t : Tally) : Notice → Tally × Option Event
  | .added item => t.add item
  | .removed item => t.remove item

end Tally

/-- A receiver of notices. -/
inductive Counter where
  | tracking (tally : Tally)
  | silent
  | recording (heard : List Notice)

namespace Counter

/-- A counter after a notice, with the event it reports. -/
def receive : Counter → Notice → Counter × Option Event
  | tracking tally, notice => let (tally, event) := tally.receive notice; (tracking tally, event)
  | silent, _ => (silent, none)
  | recording heard, notice => (recording (heard ++ [notice]), none)

end Counter

/-- What can be notified: each notice leaves it in a next state and may have it report an event. -/
class Listener (κ : Type) where
  receive : κ → Notice → κ × Option Event

instance : Listener Tally where
  receive := Tally.receive

instance : Listener Counter where
  receive := Counter.receive

namespace Listener

/-- A listener after notices in order, with the events it reports. -/
def receiveAll {κ : Type} [Listener κ] (k : κ) : List Notice → κ × List Event
  | [] => (k, [])
  | notice :: rest =>
    let (k, event) := receive k notice
    let (k, events) := receiveAll k rest
    (k, event.toList ++ events)

end Listener

end OperandStack
