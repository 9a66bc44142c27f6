import OperandStack.Proofs.ItemMap
import OperandStack.Proofs.Pile
import OperandStack.Proofs.Run

/-!
# Translations of worlds

A translation says what becomes of items, stacks, counters and the switches of journals, so that what happens to a
stack or a counter happens to its translation in the same way. Then it happens to whole worlds in the same way: an action
that is translated leaves behind what the action left, translated (`Translation.act_world`), and a run does too
(`Translation.run_world`); a translated action is possible exactly where the action is.
-/

namespace OperandStack

/-- A map of items, stacks, counters and switches that everything a world does goes along with. -/
structure Translation where
  item : Item → Item
  stack : Stack → Stack
  counter : Counter → Counter
  switch : Bool → Bool
  stack_new : ∀ on, stack (.new on) = .new (switch on)
  stack_clearJournal : ∀ s, stack s.clearJournal = (stack s).clearJournal
  call : ∀ s k c, (stack s).call (counter k) (c.map item) =
    { reply := (s.call k c).reply.map item
      stack := stack (s.call k c).stack
      listener := counter (s.call k c).listener
      events := (s.call k c).events.map (Event.map item) }
  copyOnto : ∀ source count target, (stack source).copyOnto count (stack target) =
    (stack (source.copyOnto count target).1, (source.copyOnto count target).2.map (Event.map item))
  receive : ∀ k n, (counter k).receive (n.map item) =
    (counter (k.receive n).1, (k.receive n).2.map (Event.map item))

namespace Translation

variable (f : Translation)

/-- A seat with the translation of its stack. -/
def seat (seat : Seat) : Seat :=
  { seat with stack := f.stack seat.stack }

/-- A world of translated counters and stacks. -/
def world (w : World) : World :=
  { counters := w.counters.map f.counter, seats := w.seats.map f.seat }

/-- An action with translated items, that creates stacks with translated switches. -/
def action : Action → Action
  | .call i c => .call i (c.map f.item)
  | .copy i j count => .copy i j count
  | .clearJournal i => .clearJournal i
  | .create k on => .create k (f.switch on)
  | .discard i => .discard i
  | .notify k notice => .notify k (notice.map f.item)

/-- A turn with everything in it translated. -/
def turn (t : Turn) : Turn :=
  { reply := t.reply.map f.item, world := f.world t.world, events := t.events.map (Event.map f.item) }

/-- A history with everything in it translated. -/
def history (h : History) : History :=
  { turns := h.turns.map f.turn, world := f.world h.world }

/-! ## Parts of a translated world -/

theorem seat?_world (w : World) (i : Nat) : (f.world w).seat? i = (w.seat? i).map f.seat := by
  simp only [World.seat?, world, List.getElem?_map]
  cases w.seats[i]? with
  | none => rfl
  | some s => cases h : s.live <;> simp [Option.filter, seat, h]

theorem getElem?_counters_world (w : World) (k : Nat) : (f.world w).counters[k]? = (w.counters[k]?).map f.counter :=
  List.getElem?_map ..

theorem setStack_world (w : World) (i : Nat) (s : Stack) :
    (f.world w).setStack i (f.stack s) = f.world (w.setStack i s) :=
  congrArg (World.mk (w.counters.map f.counter)) (modify_map f.seat w.seats i fun _ => rfl)

theorem setCounter_world (w : World) (k : Nat) (c : Counter) :
    (f.world w).setCounter k (f.counter c) = f.world (w.setCounter k c) :=
  congrArg (World.mk · (w.seats.map f.seat)) List.map_set.symm

/-! ## Actions and runs -/

/-- A translated action leaves in a translated world what the action leaves in the world, translated. -/
theorem act_world (w : World) (a : Action) : (f.world w).act (f.action a) = (w.act a).map f.turn := by
  cases a with
  | call i c =>
    simp only [action, World.act, seat?_world, Option.bind_eq_bind]
    cases w.seat? i with
    | none => rfl
    | some s =>
      simp only [Option.map_some, Option.bind_some, seat, getElem?_counters_world]
      cases w.counters[s.counter]? with
      | none => rfl
      | some k => simp only [Option.map_some, Option.bind_some, f.call, setStack_world, setCounter_world, turn]
  | copy i j count =>
    simp only [action, World.act, seat?_world, Option.bind_eq_bind]
    cases w.seat? i with
    | none => rfl
    | some source =>
      cases w.seat? j with
      | none => rfl
      | some target =>
        simp only [Option.map_some, Option.bind_some, seat, f.copyOnto, setStack_world]
        split
        · rfl
        · simp only [Option.map_some, turn]
          cases (source.stack.copyOnto count target.stack).2 <;> rfl
  | clearJournal i =>
    simp only [action, World.act, seat?_world, Option.bind_eq_bind]
    cases w.seat? i with
    | none => rfl
    | some s =>
      simp only [Option.map_some, Option.bind_some, seat, ← f.stack_clearJournal, setStack_world]
      rfl
  | create k on =>
    simp only [action, World.act, getElem?_counters_world, Option.bind_eq_bind]
    cases w.counters[k]? with
    | none => rfl
    | some c =>
      simp only [Option.map_some, Option.bind_some, ← f.stack_new]
      simp [turn, world, seat, Reply.map]
  | discard i =>
    simp only [action, World.act, seat?_world, Option.bind_eq_bind]
    cases w.seat? i with
    | none => rfl
    | some s =>
      have hseats : (w.seats.map f.seat).modify i (fun s => { s with live := false }) =
          (w.seats.modify i fun s => { s with live := false }).map f.seat :=
        modify_map f.seat w.seats i fun _ => rfl
      simp only [Option.map_some, Option.bind_some, turn, world, hseats]
      rfl
  | notify k notice =>
    simp only [action, World.act, getElem?_counters_world, Option.bind_eq_bind]
    cases w.counters[k]? with
    | none => rfl
    | some c =>
      simp only [Option.map_some, Option.bind_some, f.receive, setCounter_world, turn]
      cases (c.receive notice).2 <;> rfl

/-- A run of translated actions is the run of the actions, translated. -/
theorem run_world (w : World) (actions : List Action) :
    (f.world w).run (actions.map f.action) = (w.run actions).map f.history := by
  induction actions generalizing w with
  | nil => rfl
  | cons a rest ih =>
    simp only [List.map_cons, World.run, act_world, Option.bind_eq_bind]
    cases w.act a with
    | none => rfl
    | some t =>
      simp only [Option.map_some, Option.bind_some, turn, ih]
      cases t.world.run rest <;> rfl

end Translation

end OperandStack
