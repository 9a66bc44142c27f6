import OperandStack.Stack.Call
import OperandStack.Stack.Copy

/-!
# Stacks and counters together

Any number of stacks, each attached to one of any number of counters; several stacks may share a counter. Stacks may be
created and discarded on the way. A discarded stack tells its counter nothing; its slots are kept as they stood, for its
references stay counted. A counter may also be notified directly.
-/

namespace OperandStack

/-- A stack, the number of the counter it notifies, and whether it is still in use. -/
structure Seat where
  stack : Stack
  counter : Nat
  live : Bool := true

/-- Counters and stacks, each named by its place. -/
structure World where
  counters : List Counter := []
  seats : List Seat := []

/-- One step of a world. -/
inductive Action where
  | call (seat : Nat) (c : Call)
  | copy (source target : Nat) (count : Option UInt64)
  | clearJournal (seat : Nat)
  | create (counter : Nat) (journal : Bool)
  | discard (seat : Nat)
  | notify (counter : Nat) (notice : Notice)

/-- What an action leaves behind. -/
structure Turn where
  reply : Reply
  world : World
  events : List Event

namespace World

/-- The seat of a stack that is in use. -/
def seat? (w : World) (i : Nat) : Option Seat :=
  (w.seats[i]?).filter Seat.live

/-- A world whose seat at a place holds another stack. -/
def setStack (w : World) (i : Nat) (s : Stack) : World :=
  { w with seats := w.seats.modify i fun seat => { seat with stack := s } }

/-- A world with another counter at a place. -/
def setCounter (w : World) (i : Nat) (k : Counter) : World :=
  { w with counters := w.counters.set i k }

/-- A world after an action. There is none where the action names a stack or a counter that is not there, or copies a
stack onto itself. -/
def act (w : World) : Action → Option Turn
  | .call i c => do
    let seat ← w.seat? i
    let counter ← w.counters[seat.counter]?
    let step := seat.stack.call counter c
    some
      { reply := step.reply
        world := (w.setStack i step.stack).setCounter seat.counter step.listener
        events := step.events }
  | .copy i j count => do
    let source ← w.seat? i
    let target ← w.seat? j
    if i = j then none
    else
      let (stack, event) := source.stack.copyOnto count target.stack
      some { reply := .done, world := w.setStack j stack, events := event.toList }
  | .clearJournal i => do
    let seat ← w.seat? i
    some { reply := .done, world := w.setStack i seat.stack.clearJournal, events := [] }
  | .create k journal => do
    let _ ← w.counters[k]?
    some { reply := .done, world := { w with seats := w.seats ++ [{ stack := .new journal, counter := k }] }, events := [] }
  | .discard i => do
    let _ ← w.seat? i
    let seats := w.seats.modify i fun seat => { seat with live := false }
    some { reply := .done, world := { w with seats }, events := [] }
  | .notify k notice => do
    let counter ← w.counters[k]?
    let (counter, event) := counter.receive notice
    some { reply := .done, world := w.setCounter k counter, events := event.toList }

end World

end OperandStack
