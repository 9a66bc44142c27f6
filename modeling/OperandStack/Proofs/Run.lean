import OperandStack.World

/-!
# Runs of a world

A run is a list of actions, each of them possible in the world that the one before it left. `act_call_iff` and its
siblings say once what each action does; statements about all runs go through `run_invariant`, which asks for the same
statement about one action.
-/

namespace OperandStack

/-- What the actions of a run left behind, one turn for each, and the world at its end. -/
structure History where
  turns : List Turn
  world : World

namespace World

/-- A world with its counters and no stack yet. -/
def start (counters : List Counter) : World :=
  { counters }

/-- The actions in order. There is no such run where one of them is not possible. -/
def run (w : World) : List Action → Option History
  | [] => some { turns := [], world := w }
  | a :: rest => do
    let turn ← w.act a
    let history ← turn.world.run rest
    some { history with turns := turn :: history.turns }

/-! ## What an action does -/

/-- A seat in use is a seat of the world that has not been discarded. -/
theorem seat?_eq_some_iff {w : World} {i : Nat} {seat : Seat} :
    w.seat? i = some seat ↔ w.seats[i]? = some seat ∧ seat.live = true := by
  simp [seat?, Option.filter_eq_some_iff]

/-- A call changes the called stack and its counter, as `Stack.call` says. -/
theorem act_call_iff {w : World} {i : Nat} {c : Call} {t : Turn} :
    w.act (.call i c) = some t ↔ ∃ seat counter, w.seat? i = some seat ∧ w.counters[seat.counter]? = some counter ∧
      t = { reply := (seat.stack.call counter c).reply
            world := (w.setStack i (seat.stack.call counter c).stack).setCounter seat.counter
              (seat.stack.call counter c).listener
            events := (seat.stack.call counter c).events } := by
  simp only [act, Option.bind_eq_bind, Option.bind_eq_some_iff, Option.some.injEq]
  constructor
  · rintro ⟨seat, hs, counter, hc, rfl⟩
    exact ⟨seat, counter, hs, hc, rfl⟩
  · rintro ⟨seat, counter, hs, hc, rfl⟩
    exact ⟨seat, hs, counter, hc, rfl⟩

/-- A copy changes the target alone, and needs two different stacks. -/
theorem act_copy_iff {w : World} {i j : Nat} {count : Option UInt64} {t : Turn} :
    w.act (.copy i j count) = some t ↔ ∃ source target, w.seat? i = some source ∧ w.seat? j = some target ∧ i ≠ j ∧
      t = { reply := .done
            world := w.setStack j (source.stack.copyOnto count target.stack).1
            events := (source.stack.copyOnto count target.stack).2.toList } := by
  simp only [act, Option.bind_eq_bind, Option.bind_eq_some_iff]
  constructor
  · rintro ⟨source, hs, target, ht, h⟩
    split at h
    · cases h
    · rename_i hne
      exact ⟨source, target, hs, ht, hne, (Option.some.inj h).symm⟩
  · rintro ⟨source, target, hs, ht, hne, rfl⟩
    exact ⟨source, hs, target, ht, by rw [if_neg hne]⟩

/-- Clearing a journal changes nothing but the journal of its stack. -/
theorem act_clearJournal_iff {w : World} {i : Nat} {t : Turn} :
    w.act (.clearJournal i) = some t ↔ ∃ seat, w.seat? i = some seat ∧
      t = { reply := .done, world := w.setStack i seat.stack.clearJournal, events := [] } := by
  simp only [act, Option.bind_eq_bind, Option.bind_eq_some_iff, Option.some.injEq, @eq_comm _ _ t]

/-- A new stack takes the next seat. -/
theorem act_create_iff {w : World} {k : Nat} {journal : Bool} {t : Turn} :
    w.act (.create k journal) = some t ↔ k < w.counters.length ∧
      t = { reply := .done
            world := { w with seats := w.seats ++ [{ stack := .new journal, counter := k }] }
            events := [] } := by
  simp only [act, Option.bind_eq_bind, Option.bind_eq_some_iff, Option.some.injEq, List.getElem?_eq_some_iff]
  constructor
  · rintro ⟨c, ⟨hk, -⟩, rfl⟩
    exact ⟨hk, rfl⟩
  · rintro ⟨hk, rfl⟩
    exact ⟨w.counters[k], ⟨hk, rfl⟩, rfl⟩

/-- A discarded stack keeps its seat and its slots. -/
theorem act_discard_iff {w : World} {i : Nat} {t : Turn} :
    w.act (.discard i) = some t ↔ (∃ seat, w.seat? i = some seat) ∧
      t = { reply := .done
            world := { w with seats := w.seats.modify i fun seat => { seat with live := false } }
            events := [] } := by
  simp only [act, Option.bind_eq_bind, Option.bind_eq_some_iff, Option.some.injEq]
  constructor
  · rintro ⟨seat, hs, rfl⟩
    exact ⟨⟨seat, hs⟩, rfl⟩
  · rintro ⟨⟨seat, hs⟩, rfl⟩
    exact ⟨seat, hs, rfl⟩

/-- A direct notice changes its counter alone. -/
theorem act_notify_iff {w : World} {k : Nat} {notice : Notice} {t : Turn} :
    w.act (.notify k notice) = some t ↔ ∃ counter, w.counters[k]? = some counter ∧
      t = { reply := .done
            world := w.setCounter k (counter.receive notice).1
            events := (counter.receive notice).2.toList } := by
  simp only [act, Option.bind_eq_bind, Option.bind_eq_some_iff, Option.some.injEq, @eq_comm _ _ t]

/-! ## Seats and counters after a change -/

@[simp]
theorem seats_setCounter (w : World) (k : Nat) (c : Counter) : (w.setCounter k c).seats = w.seats := rfl

/-- The seats after another stack was put on one of them. -/
theorem getElem?_seats_setStack (w : World) (i j : Nat) (s : Stack) :
    (w.setStack i s).seats[j]? =
      if i = j then w.seats[j]?.map fun seat => { seat with stack := s } else w.seats[j]? := by
  simp only [setStack, List.getElem?_modify]
  split <;> simp

/-- A seat that holds the stack it held is the same. -/
theorem setStack_self {w : World} {i : Nat} {seat : Seat} (hi : w.seats[i]? = some seat) :
    w.setStack i seat.stack = w := by
  obtain ⟨counters, seats⟩ := w
  have h : seats.modify i (fun s => { s with stack := seat.stack }) = seats := by
    apply List.ext_getElem?
    intro j
    rw [List.getElem?_modify]
    by_cases hj : i = j
    · subst hj
      simp only at hi
      simp [hi]
    · simp [hj]
  exact congrArg (World.mk counters) h

/-- The counters after another was put at a place that had one. -/
theorem getElem?_counters_setCounter {w : World} {k : Nat} {c : Counter} (hk : w.counters[k]? = some c) (c' : Counter)
    (j : Nat) : (w.setCounter k c').counters[j]? = if k = j then some c' else w.counters[j]? := by
  simp only [setCounter, List.getElem?_set]
  split
  · rename_i h
    subst h
    exact if_pos (List.getElem?_eq_some_iff.mp hk).1
  · rfl

/-- A discarded stack stays as it is, whatever is done. -/
theorem act_discarded {w : World} {a : Action} {t : Turn} (h : w.act a = some t) {i : Nat} {seat : Seat}
    (hi : w.seats[i]? = some seat) (hl : seat.live = false) : t.world.seats[i]? = some seat := by
  have hne : ∀ {j seat'}, w.seat? j = some seat' → j ≠ i := by
    rintro j seat' hj rfl
    obtain ⟨hs, hlive⟩ := seat?_eq_some_iff.mp hj
    rw [hi] at hs
    cases hs
    rw [hl] at hlive
    cases hlive
  cases a with
  | call j c =>
    obtain ⟨seat', counter, hs, -, rfl⟩ := act_call_iff.mp h
    rw [seats_setCounter, getElem?_seats_setStack, if_neg (hne hs)]
    exact hi
  | copy j k count =>
    obtain ⟨source, target, -, ht, -, rfl⟩ := act_copy_iff.mp h
    rw [getElem?_seats_setStack, if_neg (hne ht)]
    exact hi
  | clearJournal j =>
    obtain ⟨seat', hs, rfl⟩ := act_clearJournal_iff.mp h
    rw [getElem?_seats_setStack, if_neg (hne hs)]
    exact hi
  | create k journal =>
    obtain ⟨-, rfl⟩ := act_create_iff.mp h
    rw [List.getElem?_append_left (List.getElem?_eq_some_iff.mp hi).1]
    exact hi
  | discard j =>
    obtain ⟨⟨seat', hs⟩, rfl⟩ := act_discard_iff.mp h
    rw [List.getElem?_modify_ne _ _ (hne hs)]
    exact hi
  | notify k n =>
    obtain ⟨counter, -, rfl⟩ := act_notify_iff.mp h
    exact hi

/-- No counter comes or goes. -/
theorem length_counters_act {w : World} {a : Action} {t : Turn} (h : w.act a = some t) :
    t.world.counters.length = w.counters.length := by
  cases a with
  | call i c =>
    obtain ⟨seat, counter, -, -, rfl⟩ := act_call_iff.mp h
    exact List.length_set
  | copy i j count =>
    obtain ⟨source, target, -, -, -, rfl⟩ := act_copy_iff.mp h
    rfl
  | clearJournal i =>
    obtain ⟨seat, -, rfl⟩ := act_clearJournal_iff.mp h
    rfl
  | create k journal =>
    obtain ⟨-, rfl⟩ := act_create_iff.mp h
    rfl
  | discard i =>
    obtain ⟨-, rfl⟩ := act_discard_iff.mp h
    rfl
  | notify k n =>
    obtain ⟨counter, -, rfl⟩ := act_notify_iff.mp h
    exact List.length_set

/-! ## Runs -/

@[simp]
theorem run_nil (w : World) : w.run [] = some { turns := [], world := w } := rfl

/-- A run is its first turn and a run from the world that the turn left. -/
theorem run_cons_iff {w : World} {a : Action} {rest : List Action} {h : History} :
    w.run (a :: rest) = some h ↔ ∃ turn history, w.act a = some turn ∧ turn.world.run rest = some history ∧
      h = { history with turns := turn :: history.turns } := by
  simp only [run, Option.bind_eq_bind, Option.bind_eq_some_iff, Option.some.injEq]
  constructor
  · rintro ⟨turn, ht, history, hh, rfl⟩
    exact ⟨turn, history, ht, hh, rfl⟩
  · rintro ⟨turn, history, ht, hh, rfl⟩
    exact ⟨turn, ht, history, hh, rfl⟩

/-- A run of two lists of actions is a run of the first and, from where it ends, a run of the second. -/
theorem run_append_iff {w : World} {first second : List Action} {h : History} :
    w.run (first ++ second) = some h ↔ ∃ h₁ h₂, w.run first = some h₁ ∧ h₁.world.run second = some h₂ ∧
      h = { turns := h₁.turns ++ h₂.turns, world := h₂.world } := by
  induction first generalizing w h with
  | nil =>
    constructor
    · intro hr
      exact ⟨_, h, run_nil w, hr, rfl⟩
    · rintro ⟨h₁, h₂, hn, hr, rfl⟩
      cases hn
      exact hr
  | cons a first ih =>
    simp only [List.cons_append, run_cons_iff]
    constructor
    · rintro ⟨turn, history, ht, hr, rfl⟩
      obtain ⟨h₁, h₂, hr₁, hr₂, rfl⟩ := ih.mp hr
      exact ⟨_, h₂, ⟨turn, h₁, ht, hr₁, rfl⟩, hr₂, rfl⟩
    · rintro ⟨_, h₂, ⟨turn, h₁, ht, hr₁, rfl⟩, hr₂, rfl⟩
      exact ⟨turn, _, ht, ih.mpr ⟨h₁, h₂, hr₁, hr₂, rfl⟩, rfl⟩

/-- What each action of a kind keeps holds at the end of every run of such actions, and what each of them leaves
behind besides holds of every turn. -/
theorem run_invariant {I : World → Prop} {A : Action → Prop} {Q : Turn → Prop}
    (step : ∀ {w a t}, A a → I w → w.act a = some t → I t.world ∧ Q t) {w : World} {actions : List Action} {h : History}
    (hr : w.run actions = some h) (ha : ∀ a ∈ actions, A a) (hi : I w) : I h.world ∧ ∀ t ∈ h.turns, Q t := by
  induction actions generalizing w h with
  | nil =>
    cases hr
    exact ⟨hi, by simp⟩
  | cons a rest ih =>
    obtain ⟨turn, history, ht, hr', rfl⟩ := run_cons_iff.mp hr
    obtain ⟨hi', hq⟩ := step (ha a List.mem_cons_self) hi ht
    obtain ⟨hend, hall⟩ := ih hr' (fun b hb => ha b (List.mem_cons_of_mem a hb)) hi'
    refine ⟨hend, ?_⟩
    intro t hm
    rcases List.mem_cons.mp hm with rfl | hm
    · exact hq
    · exact hall t hm

/-- What every action keeps holds at the end of every run. -/
theorem run_keeps {I : World → Prop} (step : ∀ {w a t}, I w → w.act a = some t → I t.world) {w : World}
    {actions : List Action} {h : History} (hr : w.run actions = some h) (hi : I w) : I h.world :=
  (run_invariant (A := fun _ => True) (Q := fun _ => True) (fun _ hw ht => ⟨step hw ht, trivial⟩) hr
    (fun _ _ => trivial) hi).1

/-- A discarded stack stays as it is to the end of the run. -/
theorem run_discarded {w : World} {actions : List Action} {h : History} (hr : w.run actions = some h) {i : Nat}
    {seat : Seat} (hi : w.seats[i]? = some seat) (hl : seat.live = false) : h.world.seats[i]? = some seat :=
  run_keeps (I := fun w => w.seats[i]? = some seat) (fun hw ht => act_discarded ht hw hl) hr hi

end World

end OperandStack
