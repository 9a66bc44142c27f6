import OperandStack.Script
import OperandStack.Settings
import OperandStack.Stack.Call
import OperandStack.Stack.Copy

/-!
# Running scripts

A machine has a main stack, on which commands work, and a target stack, onto which they copy; one tally counts for both.
It runs lines in order. After each line it checks the ceiling on references. A fault ends the run and leaves the machine
as it stands.

Each item that a line creates takes the next identity of a supply, a function from the number of items created before
it.
-/

namespace OperandStack

/-- What a line that reads the stack has read. -/
structure Observation where
  line : Nat
  command : Text
  result : Text
  deriving DecidableEq, Repr

/-- The state of a run. -/
structure Machine where
  main : Stack
  target : Stack
  tally : Tally
  created : Nat := 0
  observations : List Observation := []
  log : List Event := []

namespace Machine

/-- A machine before its first line. -/
def start (s : Settings) : Machine :=
  { main := .new s.journal, target := .new s.journal, tally := .new s.limit }

/-- A machine that has logged one more event. -/
def logged (m : Machine) (e : Event) : Machine :=
  { m with log := m.log ++ [e] }

/-- A new item with the next identity. -/
def create (m : Machine) (supply : Nat → Nat) (value : Value Item) : Item × Machine :=
  ({ id := supply m.created, value }, { m with created := m.created + 1 })

/-- A call on the main stack. -/
def call (m : Machine) (c : Call) : Reply × Machine :=
  let step := m.main.call m.tally c
  (step.reply, { m with main := step.stack, tally := step.listener, log := m.log ++ step.events })

/-- A call of which only the failure matters. -/
def change (m : Machine) (c : Call) : Except Fault Unit × Machine :=
  match m.call c with
  | (.fault f, m) => (.error f, m)
  | (_, m) => (.ok (), m)

/-- The machine with an observation of a line. -/
def note (m : Machine) (line : Line) (result : Text) : Machine :=
  { m with observations := m.observations ++ [{ line := line.number, command := line.command.text, result }] }

/-- A call whose answer is observed: the item, or `none` for the lack of one. -/
def observe (m : Machine) (line : Line) (c : Call) : Except Fault Unit × Machine :=
  match m.call c with
  | (.fault f, m) => (.error f, m)
  | (.item x, m) => (.ok (), m.note line x.text)
  | (.missing, m) => (.ok (), m.note line "none".toList)
  | (_, m) => (.ok (), m)

/-- Pops in a row; their items come in the order in which they lay, the bottom first. -/
def popMany (m : Machine) : Nat → Except Fault (List Item) × Machine
  | 0 => (.ok [], m)
  | n + 1 =>
    match m.call .pop with
    | (.fault f, m) => (.error f, m)
    | (.item x, m) =>
      match m.popMany n with
      | (.error f, m) => (.error f, m)
      | (.ok below, m) => (.ok (below ++ [x]), m)
    | (_, m) => (.ok [], m)

/-- The index of the last of a number of items from the top, or the largest index where the number itself is larger. -/
def lastIndex (size : UInt64) : Int64 :=
  if (size.toNat : Int) ≤ Int64.maxValue.toInt then Int64.ofInt (size.toNat - 1) else Int64.maxValue

/-- A compound push: as many items as asked for are popped and one item that holds them is pushed. With fewer items on
the stack it fails before the first pop. -/
def wrap (m : Machine) (supply : Nat → Nat) (size : UInt64) (compound : List Item → Value Item) :
    Except Fault Unit × Machine :=
  if m.main.depth < size.toNat then (.error (.underflow (lastIndex size) m.main.depth), m)
  else
    match m.popMany size.toNat with
    | (.error f, m) => (.error f, m)
    | (.ok items, m) =>
      let (item, m) := m.create supply (compound items)
      m.change (.push item)

/-- A copy from the main stack onto the target. -/
def copy (m : Machine) (count : Option UInt64) : Machine :=
  let (target, event) := m.main.copyOnto count m.target
  { m with target, log := m.log ++ event.toList }

/-- The command of a line, without the check that follows it. -/
def execute (m : Machine) (supply : Nat → Nat) (line : Line) : Except Fault Unit × Machine :=
  match line.command with
  | .push literal =>
    let (item, m) := m.create supply literal.value
    m.change (.push item)
  | .pushArray size => m.wrap supply size .array
  | .pushStruct size => m.wrap supply size .struct
  | .pop view => m.observe line (.popAs view)
  | .tryPop view => m.observe line (.tryPopAs view)
  | .peek index => m.observe line (.peek index)
  | .peekQuiet index => m.observe line (.peekQuiet index)
  | .insert index literal =>
    let (item, m) := m.create supply literal.value
    m.change (.insert index item)
  | .remove index view => m.observe line (.remove index view)
  | .reverse count => m.change (.reverse count)
  | .clear => m.change .clear
  | .copy count => (.ok (), m.copy count)

/-- A line and the check of the ceiling. A fault of either is reported. -/
def step (m : Machine) (supply : Nat → Nat) (line : Line) : Except Fault Unit × Machine :=
  let m := m.logged (.executing line.number line.command.text)
  match m.execute supply line with
  | (.error f, m) => (.error f, m.logged (.stopped line.number f))
  | (.ok (), m) =>
    match m.tally.check with
    | .error f => (.error f, m.logged (.stopped line.number f))
    | .ok () => (.ok (), m)

end Machine

/-- How a run ended: how many lines passed, which line stopped it if one did, and the machine it left. -/
structure Ending where
  executed : Nat
  stop : Option (Line × Fault)
  machine : Machine

namespace Machine

/-- The lines of a script in order, up to the first fault. -/
def run (m : Machine) (supply : Nat → Nat) : List Line → Ending
  | [] => { executed := 0, stop := none, machine := m }
  | line :: rest =>
    match m.step supply line with
    | (.error f, m) => { executed := 0, stop := some (line, f), machine := m }
    | (.ok (), m) =>
      let ending := m.run supply rest
      { ending with executed := ending.executed + 1 }

end Machine

end OperandStack
