import OperandStack.Counter
import OperandStack.Stack
import OperandStack.Stack.Position

/-!
# Calls on a stack

Every call does four things: it leaves a record in the journal, it changes the slots, it notifies the counter and it
replies. The record depends on the call alone and is taken before the call is judged. The rest, its effect, depends on
the call and the slots alone, so neither the journal nor the counter has a say in it.
-/

namespace OperandStack

/-- A call on one stack. The forms named `try` answer a failure with a reply, the others with a fault. -/
inductive Call where
  | push (item : Item)
  | insert (index : Int64) (item : Item)
  | pop
  | popAs (view : View)
  | tryPop
  | tryPopAs (view : View)
  | remove (index : Int64) (view : View)
  | tryRemove (index : Int64) (view : View)
  | peek (index : Int64)
  | peekTop
  | tryPeek (index : Int64)
  | peekQuiet (index : Int64)
  | reverse (count : Int64)
  | tryReverse (count : Int64)
  | clear

/-- What a call answers: that it is done, an item, the lack of one, whether it could be done, or a fault. -/
inductive Reply where
  | done
  | item (x : Item)
  | missing
  | flag (b : Bool)
  | fault (f : Fault)

/-- What a call does besides its record in the journal. The counter hears the notices before the event is reported. -/
structure Effect where
  reply : Reply
  slots : List Slot
  notices : List Notice := []
  event : Option Event := none

namespace Slot

/-- The notice that a slot's item leaves: an owned slot gives one, a shared slot none. -/
def release (s : Slot) : List Notice :=
  if s.owned then [.removed s.item] else []

end Slot

namespace Call

/-- The record of a call, if it leaves one. The pops that reply to a failure are recorded as the removal of the top
item. -/
def record : Call → Option Journal.Record
  | push _ => some { op := .push }
  | insert index _ => some { op := .insert, index := some index }
  | pop | popAs _ => some { op := .pop }
  | tryPop | tryPopAs _ => some { op := .remove, index := some 0 }
  | remove index _ | tryRemove index _ => some { op := .remove, index := some index }
  | peek index | tryPeek index => some { op := .peek, index := some index }
  | peekTop => some { op := .peek, index := some 0 }
  | peekQuiet _ => none
  | reverse count | tryReverse count => some { op := .reverse, index := some count }
  | clear => some { op := .clear }

/-! ## The changes that calls are made of -/

/-- The slot at an index and the slots without it, if the view accepts its item. -/
def take (view : View) (index : Int64) (slots : List Slot) : Except Fault (Slot × List Slot) := do
  let position ← Position.removal slots.length index
  let slot := slots[position]
  if view.accepts slot.item.kind then .ok (slot, slots.eraseIdx position)
  else .error (.mismatch view slot.item.kind)

/-- The item at an index. -/
def look (index : Int64) (slots : List Slot) : Except Fault Item := do
  let position ← Position.read slots.length index
  .ok slots[position].item

/-- The slots with an owned slot for an item at an index. -/
def place (index : Int64) (item : Item) (slots : List Slot) : Except Fault (List Slot) := do
  let position ← Position.insertion slots.length index
  .ok (slots.insertIdx position { item })

/-- The slots with the top ones turned over. -/
def turn (count : Int64) (slots : List Slot) : Except Fault (List Slot) := do
  let position ← Position.reversal slots.length count
  .ok (slots.take position ++ (slots.drop position).reverse)

/-! ## The effects of calls -/

/-- A removal that succeeds replies with the item, lets the counter know of an owned one and is reported. -/
def taken (index : Int64) (slot : Slot) (slots : List Slot) : Effect :=
  { reply := .item slot.item, slots, notices := slot.release, event := some (.removed slot.item index slots.length) }

/-- A failed call that answers with a fault changes nothing and is reported. -/
def refused (op : Journal.Op) (slots : List Slot) (fault : Fault) : Effect :=
  { reply := .fault fault, slots, event := some (.failed op slots.length fault) }

/-- A failed call that answers with a reply changes nothing and is not reported. -/
def declined (reply : Reply) (slots : List Slot) : Effect :=
  { reply, slots }

/-- A removal that answers a failure with a fault. -/
def removal (op : Journal.Op) (view : View) (index : Int64) (slots : List Slot) : Effect :=
  match take view index slots with
  | .ok (slot, rest) => taken index slot rest
  | .error fault => refused op slots fault

/-- A removal that answers a failure with the lack of an item. -/
def tryRemoval (view : View) (index : Int64) (slots : List Slot) : Effect :=
  match take view index slots with
  | .ok (slot, rest) => taken index slot rest
  | .error _ => declined .missing slots

/-- A read that answers a failure with a fault and reports it. -/
def reading (index : Int64) (slots : List Slot) : Effect :=
  match look index slots with
  | .ok item => declined (.item item) slots
  | .error fault => { reply := .fault fault, slots, event := some (.failedPeek fault) }

/-- What a call does to the slots it finds. -/
def effect (slots : List Slot) : Call → Effect
  | push item =>
    { reply := .done
      slots := slots ++ [{ item }]
      notices := [.added item]
      event := some (.pushed item (slots.length + 1)) }
  | insert index item =>
    match place index item slots with
    | .ok after =>
      { reply := .done
        slots := after
        notices := [.added item]
        event := some (.inserted item index (slots.length + 1)) }
    | .error fault => refused .insert slots fault
  | pop => removal .pop .any 0 slots
  | popAs view => removal .pop view 0 slots
  | tryPop => tryRemoval .any 0 slots
  | tryPopAs view => tryRemoval view 0 slots
  | remove index view => removal .remove view index slots
  | tryRemove index view => tryRemoval view index slots
  | peek index => reading index slots
  | peekTop => reading 0 slots
  | tryPeek index =>
    match look index slots with
    | .ok item => declined (.item item) slots
    | .error _ => declined .missing slots
  | peekQuiet index =>
    match look index slots with
    | .ok item => declined (.item item) slots
    | .error fault => declined (.fault fault) slots
  | reverse count =>
    match turn count slots with
    | .ok after => { reply := .done, slots := after }
    | .error fault => refused .reverse slots fault
  | tryReverse count =>
    match turn count slots with
    | .ok after => { reply := .flag true, slots := after }
    | .error _ => declined (.flag false) slots
  | clear =>
    { reply := .done
      slots := []
      notices := slots.flatMap Slot.release
      event := some (.cleared slots.length) }

end Call

/-- What a call leaves behind: its reply, the stack, the listener, and the events in the order in which they were
reported. -/
structure Step (κ : Type) where
  reply : Reply
  stack : Stack
  listener : κ
  events : List Event

namespace Stack

/-- The journal of a stack after a call. -/
def recorded (s : Stack) (c : Call) : Journal :=
  match c.record with
  | none => s.journal
  | some r => s.journal.record r

/-- A call on a stack that notifies a listener. -/
def call {κ : Type} [Listener κ] (s : Stack) (k : κ) (c : Call) : Step κ :=
  let effect := c.effect s.slots
  let (listener, warnings) := Listener.receiveAll k effect.notices
  { reply := effect.reply
    stack := { slots := effect.slots, journal := s.recorded c }
    listener
    events := warnings ++ effect.event.toList }

end Stack

end OperandStack
