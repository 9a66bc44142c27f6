import OperandStack.Proofs.Accounting

/-!
# Each stack by itself

An action on one stack does to it, and answers, what the stack alone says (`Seat.deed`); the other stacks and the
counter have no part in it. So a run of such actions leaves each stack as its own actions do, whatever stands between
them (`World.run_at`), and whether there is such a run is a matter of each stack by itself too (`World.exists_run_iff`).
-/

namespace OperandStack

namespace Action

/-- The stack of an action that is about one stack alone. -/
def seat? : Action → Option Nat
  | call i _ | clearJournal i | discard i => some i
  | copy .. | create .. | notify .. => none

/-- The actions on a stack, in their order. -/
def own (i : Nat) (actions : List Action) : List Action :=
  actions.filter fun a => a.seat? == some i

theorem own_cons_self {a : Action} {i : Nat} (ha : a.seat? = some i) (rest : List Action) :
    own i (a :: rest) = a :: own i rest :=
  List.filter_cons_of_pos (by simp [ha])

theorem own_cons_of_ne {a : Action} {i j : Nat} (ha : a.seat? = some i) (hj : j ≠ i) (rest : List Action) :
    own j (a :: rest) = own j rest :=
  List.filter_cons_of_neg (by simp [ha, Ne.symm hj])

/-- The actions on one stack are calls, clearing the journal, and discarding. -/
theorem cases_of_seat? {a : Action} {i : Nat} (ha : a.seat? = some i) :
    (∃ c, a = call i c) ∨ a = clearJournal i ∨ a = discard i := by
  cases a with
  | call j c =>
    cases ha
    exact Or.inl ⟨c, rfl⟩
  | clearJournal j =>
    cases ha
    exact Or.inr (Or.inl rfl)
  | discard j =>
    cases ha
    exact Or.inr (Or.inr rfl)
  | _ => cases ha

/-- An action on one stack is no direct notice. -/
theorem not_notify {a : Action} {i : Nat} (ha : a.seat? = some i) (k : Nat) (n : Notice) : a ≠ .notify k n := by
  rintro rfl
  cases ha

end Action

/-- What is left of a turn when warnings are left out: its reply and its other events. -/
def Turn.answer (t : Turn) : Reply × List Event :=
  (t.reply, t.events.filter fun e => e.level != .warn)

/-- What the actions on a stack were answered, among the turns of a run. -/
def Turn.answers (i : Nat) (actions : List Action) (turns : List Turn) : List (Reply × List Event) :=
  ((actions.zip turns).filter fun p => p.1.seat? == some i).map fun p => p.2.answer

namespace Turn

variable {a : Action} {i j : Nat}

theorem answers_cons_self (ha : a.seat? = some i) (rest : List Action) (t : Turn) (turns : List Turn) :
    answers i (a :: rest) (t :: turns) = t.answer :: answers i rest turns := by
  rw [answers, List.zip_cons_cons, List.filter_cons_of_pos (by simp [ha])]
  rfl

theorem answers_cons_of_ne (ha : a.seat? = some i) (hj : j ≠ i) (rest : List Action) (t : Turn) (turns : List Turn) :
    answers j (a :: rest) (t :: turns) = answers j rest turns := by
  rw [answers, List.zip_cons_cons, List.filter_cons_of_neg (by simp [ha, Ne.symm hj])]
  rfl

end Turn

/-! ## One stack by itself -/

/-- What an action does to its stack, answers and has the counter hear. -/
structure Deed where
  seat : Seat
  reply : Reply := .done
  notices : List Notice := []
  event : Option Event := none

/-- The answer of a deed. A stack gives no warnings. -/
def Deed.answer (d : Deed) : Reply × List Event :=
  (d.reply, d.event.toList)

namespace Seat

/-- What an action on a stack does. -/
def deed (seat : Seat) : Action → Deed
  | .call _ c =>
    let effect := c.effect seat.stack.slots
    { seat := { seat with stack := { slots := effect.slots, journal := seat.stack.recorded c } }
      reply := effect.reply
      notices := effect.notices
      event := effect.event }
  | .clearJournal _ => { seat := { seat with stack := seat.stack.clearJournal } }
  | .discard _ => { seat := { seat with live := false } }
  | .copy .. | .create .. | .notify .. => { seat }

/-- What actions on a stack do, one after the other. -/
def deeds (seat : Seat) : List Action → List Deed
  | [] => []
  | a :: rest => seat.deed a :: (seat.deed a).seat.deeds rest

/-- A stack after actions on it. -/
def after (seat : Seat) : List Action → Seat
  | [] => seat
  | a :: rest => (seat.deed a).seat.after rest

/-- Whether actions are possible at a place: if there are any, a stack in use is there. -/
def Allows : Option Seat → List Action → Prop
  | _, [] => True
  | place, a :: rest => ∃ seat, place.filter Seat.live = some seat ∧ Allows (some (seat.deed a).seat) rest

/-- A stack stays with its counter. -/
@[simp]
theorem deed_counter (seat : Seat) (a : Action) : (seat.deed a).seat.counter = seat.counter := by
  cases a <;> rfl

/-- What a stack does by itself is no event of a counter. -/
theorem deed_event {seat : Seat} {a : Action} {e : Event} (h : (seat.deed a).event = some e) :
    e.ofCounter = false := by
  cases a with
  | call i c => exact Call.event_not_ofCounter h
  | _ => cases h

end Seat

/-! ## What counters report -/

/-- What a tally reports is an event of a counter. -/
theorem Tally.ofCounter_of_receive {t : Tally} {n : Notice} {e : Event} (h : (t.receive n).2 = some e) :
    e.ofCounter = true := by
  cases n with
  | added item =>
    simp only [receive, add] at h
    split at h <;> cases h
    rfl
  | removed item =>
    simp only [receive, remove] at h
    split at h <;> cases h
    rfl

/-- What a counter reports is an event of a counter. -/
theorem Listener.ofCounter_of_mem {c : Counter} {notices : List Notice} {e : Event} (h : e ∈ (receiveAll c notices).2) :
    e.ofCounter = true := by
  induction notices generalizing c with
  | nil => cases h
  | cons n rest ih =>
    rw [receiveAll_cons] at h
    rcases List.mem_append.mp h with h | h
    · have he : (c.receive n).2 = some e := Option.mem_toList.mp h
      cases c with
      | tracking t => exact Tally.ofCounter_of_receive he
      | silent => cases he
      | recording heard => cases he
    · exact ih h

namespace World

/-! ## One action -/

/-- An action on one stack changes the stack as its deed says, and the counter of the stack by the notices of the
deed. -/
structure Performed (w : World) (i : Nat) (d : Deed) (t : Turn) : Prop where
  reply : t.reply = d.reply
  seats : ∀ j, t.world.seats[j]? = if j = i then some d.seat else w.seats[j]?
  length : t.world.seats.length = w.seats.length
  counters : ∀ k c, w.counters[k]? = some c →
    t.world.counters[k]? = some (if d.seat.counter = k then (Listener.receiveAll c d.notices).1 else c)
  events : ∃ c : Counter, t.events = (Listener.receiveAll c d.notices).2 ++ d.event.toList

theorem length_seats_setStack (w : World) (i : Nat) (s : Stack) :
    (w.setStack i s).seats.length = w.seats.length :=
  List.length_modify _ _ _

theorem getElem?_seats_setStack_of_seat {w : World} {i : Nat} {seat : Seat} (hi : w.seats[i]? = some seat) (s : Stack)
    (j : Nat) : (w.setStack i s).seats[j]? = if j = i then some { seat with stack := s } else w.seats[j]? := by
  rw [getElem?_seats_setStack]
  by_cases hj : i = j
  · subst hj
    rw [if_pos rfl, if_pos rfl, hi, Option.map_some]
  · rw [if_neg hj, if_neg (Ne.symm hj)]

/-- An action on one stack needs the stack to be in use, and performs the deed of the stack. -/
theorem act_performed {w : World} {a : Action} {i : Nat} (ha : a.seat? = some i) {t : Turn} (h : w.act a = some t) :
    ∃ seat, w.seat? i = some seat ∧ w.Performed i (seat.deed a) t := by
  obtain ⟨c, rfl⟩ | rfl | rfl := Action.cases_of_seat? ha
  · obtain ⟨seat, counter, hs, hk, rfl⟩ := act_call_iff.mp h
    refine ⟨seat, hs, rfl, fun j => ?_, length_seats_setStack _ _ _, fun k' c' hk' => ?_, counter, rfl⟩
    · exact getElem?_seats_setStack_of_seat (seat?_eq_some_iff.mp hs).1 _ j
    · rw [getElem?_counters_setCounter (w := w.setStack i (seat.stack.call counter c).stack) hk]
      change _ = some (if seat.counter = k' then _ else c')
      split
      · rename_i he
        rw [he, hk'] at hk
        cases hk
        rfl
      · exact hk'
  · obtain ⟨seat, hs, rfl⟩ := act_clearJournal_iff.mp h
    refine ⟨seat, hs, rfl, fun j => ?_, length_seats_setStack _ _ _, fun k c hk => ?_, .silent, rfl⟩
    · exact getElem?_seats_setStack_of_seat (seat?_eq_some_iff.mp hs).1 _ j
    · exact hk.trans (congrArg some (ite_self c).symm)
  · obtain ⟨⟨seat, hs⟩, rfl⟩ := act_discard_iff.mp h
    refine ⟨seat, hs, rfl, fun j => ?_, List.length_modify _ _ _, fun k c hk => ?_, .silent, rfl⟩
    · rw [List.getElem?_modify]
      by_cases hj : i = j
      · subst hj
        rw [(seat?_eq_some_iff.mp hs).1]
        simp [Seat.deed]
      · simp [hj, Ne.symm hj]
    · exact hk.trans (congrArg some (ite_self c).symm)

/-- The answer of an action on one stack is that of its deed, if no counter has ignored a removal. -/
theorem Performed.answer {w : World} {i : Nat} {seat : Seat} {a : Action} {t : Turn}
    (h : w.Performed i (seat.deed a) t) (hquiet : ∀ x, Event.strayRemoval x ∉ t.events) :
    t.answer = (seat.deed a).answer := by
  obtain ⟨c, he⟩ := h.events
  have hcounter : ((Listener.receiveAll c (seat.deed a).notices).2.filter fun e => e.level != .warn) = [] := by
    rw [List.filter_eq_nil_iff]
    intro e hm
    have hof := Listener.ofCounter_of_mem hm
    have hstray : ∀ x, e ≠ .strayRemoval x := by
      rintro x rfl
      exact hquiet x (he ▸ List.mem_append_left _ hm)
    cases e with
    | strayRemoval x => exact absurd rfl (hstray x)
    | ceilingCrossed references limit => exact Bool.false_ne_true
    | _ => cases hof
  have hown : ((seat.deed a).event.toList.filter fun e => e.level != .warn) = (seat.deed a).event.toList := by
    rw [List.filter_eq_self]
    intro e hm
    have hof := Seat.deed_event (Option.mem_toList.mp hm)
    cases e <;> first | rfl | cases hof
  rw [Turn.answer, Deed.answer, h.reply, he, List.filter_append, hcounter, hown, List.nil_append]

/-! ## Stacks and their counters -/

/-- Every stack notifies a counter that is there. -/
def Wired (w : World) : Prop :=
  ∀ (i : Nat) (seat : Seat), w.seats[i]? = some seat → seat.counter < w.counters.length

theorem Wired.setStack {w : World} (hw : w.Wired) (i : Nat) (s : Stack) : (w.setStack i s).Wired := by
  intro j seat hj
  rw [getElem?_seats_setStack] at hj
  split at hj
  · obtain ⟨old, hold, rfl⟩ := Option.map_eq_some_iff.mp hj
    exact hw j old hold
  · exact hw j seat hj

theorem Wired.setCounter {w : World} (hw : w.Wired) (k : Nat) (c : Counter) : (w.setCounter k c).Wired := by
  intro j seat hj
  have hlength : (w.setCounter k c).counters.length = w.counters.length := List.length_set
  rw [hlength]
  exact hw j seat hj

/-- Every action leaves each stack with a counter that is there. -/
theorem Wired.act {w : World} (hw : w.Wired) {a : Action} {t : Turn} (h : w.act a = some t) : t.world.Wired := by
  cases a with
  | call i c =>
    obtain ⟨seat, counter, -, -, rfl⟩ := act_call_iff.mp h
    exact (hw.setStack i _).setCounter seat.counter _
  | copy i j count =>
    obtain ⟨source, target, -, -, -, rfl⟩ := act_copy_iff.mp h
    exact hw.setStack j _
  | clearJournal i =>
    obtain ⟨seat, -, rfl⟩ := act_clearJournal_iff.mp h
    exact hw.setStack i _
  | create k journal =>
    obtain ⟨hk, rfl⟩ := act_create_iff.mp h
    intro j seat hj
    rcases List.mem_append.mp (List.mem_of_getElem? hj) with hm | hm
    · obtain ⟨i, hi⟩ := List.mem_iff_getElem?.mp hm
      exact hw i seat hi
    · cases List.mem_singleton.mp hm
      exact hk
  | discard i =>
    obtain ⟨-, rfl⟩ := act_discard_iff.mp h
    intro j seat hj
    rw [List.getElem?_modify] at hj
    obtain ⟨old, hold, rfl⟩ := Option.map_eq_some_iff.mp hj
    have hk := hw j old hold
    split <;> exact hk
  | notify k n =>
    obtain ⟨counter, -, rfl⟩ := act_notify_iff.mp h
    exact hw.setCounter k _

theorem wired_start (counters : List Counter) : (start counters).Wired := by
  intro i seat hi
  cases hi

/-- An action on a stack in use is possible. -/
theorem exists_act {w : World} (hw : w.Wired) {a : Action} {i : Nat} (ha : a.seat? = some i) {seat : Seat}
    (hs : w.seat? i = some seat) : ∃ t, w.act a = some t := by
  obtain ⟨c, rfl⟩ | rfl | rfl := Action.cases_of_seat? ha
  · have hk := hw i seat (seat?_eq_some_iff.mp hs).1
    exact ⟨_, act_call_iff.mpr ⟨seat, w.counters[seat.counter], hs, List.getElem?_eq_getElem hk, rfl⟩⟩
  · exact ⟨_, act_clearJournal_iff.mpr ⟨seat, hs, rfl⟩⟩
  · exact ⟨_, act_discard_iff.mpr ⟨⟨seat, hs⟩, rfl⟩⟩

/-! ## Runs, seen from one stack -/

variable {w : World} {actions : List Action} {h : History}

/-- Whether actions that are each on one stack can be run is a matter of each stack by itself. -/
theorem exists_run_iff (hw : w.Wired) (hl : ∀ a ∈ actions, ∃ i, a.seat? = some i) :
    (∃ h, w.run actions = some h) ↔ ∀ i, Seat.Allows w.seats[i]? (Action.own i actions) := by
  induction actions generalizing w with
  | nil => exact ⟨fun _ i => trivial, fun _ => ⟨_, run_nil w⟩⟩
  | cons a rest ih =>
    obtain ⟨i, ha⟩ := hl a List.mem_cons_self
    have hrest : ∀ b ∈ rest, ∃ i, b.seat? = some i := fun b hb => hl b (List.mem_cons_of_mem a hb)
    constructor
    · rintro ⟨h, hr⟩ j
      obtain ⟨turn, history, ht, hr', -⟩ := run_cons_iff.mp hr
      obtain ⟨seat, hs, hp⟩ := act_performed ha ht
      have hallows := (ih (hw.act ht) hrest).mp ⟨history, hr'⟩ j
      rw [hp.seats] at hallows
      by_cases hj : j = i
      · subst hj
        rw [if_pos rfl] at hallows
        rw [Action.own_cons_self ha]
        exact ⟨seat, hs, hallows⟩
      · rw [if_neg hj] at hallows
        rwa [Action.own_cons_of_ne ha hj]
    · intro hallows
      have hfirst := hallows i
      rw [Action.own_cons_self ha] at hfirst
      obtain ⟨seat, hs, hnext⟩ := hfirst
      obtain ⟨turn, ht⟩ := exists_act hw ha hs
      obtain ⟨seat', hs', hp⟩ := act_performed ha ht
      cases hs.symm.trans hs'
      have hothers : ∀ j, Seat.Allows turn.world.seats[j]? (Action.own j rest) := by
        intro j
        rw [hp.seats]
        by_cases hj : j = i
        · subst hj
          rwa [if_pos rfl]
        · rw [if_neg hj, ← Action.own_cons_of_ne ha hj rest]
          exact hallows j
      obtain ⟨history, hr'⟩ := (ih (hw.act ht) hrest).mpr hothers
      exact ⟨_, run_cons_iff.mpr ⟨turn, history, ht, hr', rfl⟩⟩

/-- In a run of actions that are each on one stack, every stack ends and answers as if it had been alone. -/
theorem run_at (hw : w.Accounted) (hl : ∀ a ∈ actions, ∃ i, a.seat? = some i) (hr : w.run actions = some h) (i : Nat) :
    h.world.seats[i]? = (w.seats[i]?).map (Seat.after · (Action.own i actions)) ∧
      Turn.answers i actions h.turns =
        (w.seats[i]?).elim [] fun seat => (seat.deeds (Action.own i actions)).map Deed.answer := by
  induction actions generalizing w h with
  | nil =>
    cases hr
    cases w.seats[i]? <;> exact ⟨rfl, rfl⟩
  | cons a rest ih =>
    obtain ⟨j, ha⟩ := hl a List.mem_cons_self
    obtain ⟨turn, history, ht, hr', rfl⟩ := run_cons_iff.mp hr
    obtain ⟨seat, hs, hp⟩ := act_performed ha ht
    obtain ⟨hw', hquiet⟩ := hw.act (Action.not_notify ha) ht
    obtain ⟨hend, hanswers⟩ := ih hw' (fun b hb => hl b (List.mem_cons_of_mem a hb)) hr'
    rw [hp.seats] at hend hanswers
    by_cases hj : i = j
    · subst hj
      rw [if_pos rfl] at hend hanswers
      rw [(seat?_eq_some_iff.mp hs).1, Action.own_cons_self ha, Turn.answers_cons_self ha, hp.answer hquiet]
      exact ⟨hend, congrArg (List.cons _) hanswers⟩
    · rw [if_neg hj] at hend hanswers
      rw [Action.own_cons_of_ne ha hj, Turn.answers_cons_of_ne ha hj]
      exact ⟨hend, hanswers⟩

end World

end OperandStack
