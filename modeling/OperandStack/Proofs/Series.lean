import OperandStack.Proofs.Gain
import OperandStack.Proofs.Ledger
import OperandStack.Proofs.Warning

/-!
# Calls in a row

Calls in a row on one stack are answered, change the slots and notify the counter as the slots alone say
(`Call.series`); in a world they leave the other stacks and counters as they are (`World.run_series`). The rows of calls
that take all there is, from the top or from the bottom, and that put items on a stack are worked out here. A world is
reachable if a run on new counters leads to it; direct notices may have put the tallies out of step with the slots, but
where there were none each tally covers the items in owned slots (`World.ReachableByStacks.covers`).
-/

namespace OperandStack

/-! ## Reachable worlds -/

namespace World

/-- A world to which a run on new counters leads. -/
def Reachable (w : World) : Prop :=
  ∃ counters actions h, (∀ c ∈ counters, Counter.New c) ∧ (start counters).run actions = some h ∧ h.world = w

/-- A world to which a run on new counters leads in which no counter is notified directly. -/
def ReachableByStacks (w : World) : Prop :=
  ∃ counters actions h, (∀ c ∈ counters, Counter.New c) ∧ (∀ k n, Action.notify k n ∉ actions) ∧
    (start counters).run actions = some h ∧ h.world = w

theorem ReachableByStacks.reachable {w : World} (hw : w.ReachableByStacks) : w.Reachable := by
  obtain ⟨counters, actions, h, hnew, -, hr, hlast⟩ := hw
  exact ⟨counters, actions, h, hnew, hr, hlast⟩

/-- In a reachable world a stack has its counter. -/
theorem Reachable.exists_counter {w : World} (hw : w.Reachable) {i : Nat} {seat : Seat} (hs : w.seat? i = some seat) :
    ∃ counter, w.counters[seat.counter]? = some counter := by
  obtain ⟨counters, actions, h, -, hr, rfl⟩ := hw
  have hwired : h.world.Wired := run_keeps (fun hw ht => hw.act ht) hr (wired_start counters)
  exact ⟨_, List.getElem?_eq_getElem (hwired i seat (seat?_eq_some_iff.mp hs).1)⟩

/-- In a reachable world a tally keeps to identities, has its flag set exactly while it is above its limit, and was
never above its peak. -/
theorem Reachable.tally {w : World} (hw : w.Reachable) {k : Nat} {t : Tally}
    (hk : w.counters[k]? = some (.tracking t)) :
    (∃ ids, t.Keeps ids) ∧ t.overLimit = decide (t.limit < t.references) ∧ t.references ≤ t.peak := by
  obtain ⟨counters, actions, h, hnew, hr, rfl⟩ := hw
  have hflag := (run_watched hnew hr hk).2
  rw [run_eq_after hnew hr hk] at hflag ⊢
  exact ⟨⟨_, Tally.keeps_after _ _⟩, hflag, (Tally.isGreatest_peak _ _).2 ⟨_, List.prefix_refl _, rfl⟩⟩

/-- Where no counter was notified directly a tally covers the items in the owned slots of each of its stacks. -/
theorem ReachableByStacks.covers {w : World} (hw : w.ReachableByStacks) {i : Nat} {seat : Seat}
    (hs : w.seat? i = some seat) {t : Tally} (hk : w.counters[seat.counter]? = some (.tracking t)) :
    t.Covers (Slot.ownedItems seat.stack.slots) := by
  obtain ⟨counters, actions, h, hnew, hdirect, hr, rfl⟩ := hw
  have haccounted := (accounted_start hnew).run (fun a ha k n e => hdirect k n (e ▸ ha)) hr
  obtain ⟨hi, -⟩ := seat?_eq_some_iff.mp hs
  obtain ⟨others, hothers⟩ := ownedItems_setStack_others hi
  have hself := hothers seat.stack
  rw [setStack_self hi] at hself
  -- What the stack owns is among what the tally is exact for, the rest being owned by its other stacks.
  intro x
  rw [(haccounted _ _ hk).referencesTo_eq, hself.countP_eq, List.countP_append]
  exact Nat.le_add_right _ _

/-- In a reachable world the items of some slots of a stack return to its tally, if that covers the owned ones, as it
does where no counter was notified directly. -/
theorem Reachable.returned {w : World} (hw : w.Reachable) {i : Nat} {seat : Seat} (hs : w.seat? i = some seat)
    {slots : List Slot} (hslots : slots.Subperm seat.stack.slots) {t : Tally}
    (hk : w.counters[seat.counter]? = some (.tracking t))
    (hcovers : w.ReachableByStacks ∨ t.Covers (Slot.ownedItems slots)) :
    t.Returned (Listener.receiveAll t (slots.flatMap Slot.release ++ (slots.map Slot.item).map .added)).1 slots := by
  obtain ⟨⟨ids, hkeeps⟩, hflag, hpeak⟩ := hw.tally hk
  apply Tally.returned hkeeps hflag hpeak
  rcases hcovers with hstacks | hcovered
  · exact (hstacks.covers hs hk).of_subperm hslots
  · exact hcovered

end World

/-! ## Calls in a row -/

/-- What calls in a row are answered, the slots they leave, and what the counter hears of them. -/
structure Series where
  replies : List Reply
  slots : List Slot
  notices : List Notice

namespace Call

/-- What calls in a row do to the slots they find. -/
def series (slots : List Slot) : List Call → Series
  | [] => { replies := [], slots, notices := [] }
  | c :: rest =>
    let effect := c.effect slots
    let others := series effect.slots rest
    { replies := effect.reply :: others.replies
      slots := others.slots
      notices := effect.notices ++ others.notices }

theorem series_cons (slots : List Slot) (c : Call) (rest : List Call) :
    series slots (c :: rest) =
      { replies := (c.effect slots).reply :: (series (c.effect slots).slots rest).replies
        slots := (series (c.effect slots).slots rest).slots
        notices := (c.effect slots).notices ++ (series (c.effect slots).slots rest).notices } := rfl

/-- Two rows of calls, one after the other, are a row of calls. -/
theorem series_append (slots : List Slot) (a b : List Call) :
    series slots (a ++ b) =
      { replies := (series slots a).replies ++ (series (series slots a).slots b).replies
        slots := (series (series slots a).slots b).slots
        notices := (series slots a).notices ++ (series (series slots a).slots b).notices } := by
  induction a generalizing slots with
  | nil => rfl
  | cons c a ih => simp only [List.cons_append, series_cons, ih, List.append_assoc]

/-! ## One removal -/

/-- The slot at a place counted from the top can be taken at two indices, counted from the top or from the bottom. -/
theorem take_at {slots : List Slot} {n : Nat} {slot : Slot} (hn : slots.reverse[n]? = some slot) {index : Int64}
    (hindex : index.toInt = n ∨ index.toInt = n - (slots.length : Int)) {view : View}
    (hview : view.accepts slot.item.kind = true) :
    take view index slots = .ok (slot, (slots.reverse.eraseIdx n).reverse) := by
  obtain ⟨hlt, hget⟩ := List.getElem?_eq_some_iff.mp hn
  have hlength : slots.reverse.length = slots.length := List.length_reverse
  have hbelow : ¬(slots.reverse.length : Int) ≤ index.toInt := by omega
  have habove : ¬index.toInt < -(slots.reverse.length : Int) := by omega
  have hplace : ∀ h, Pile.place slots.reverse.length index h = ⟨n, hlt⟩ := by
    intro h
    apply Fin.ext
    simp only [Pile.place]
    split <;> omega
  have hitem : Cell.item (slots.reverse.get ⟨n, hlt⟩) = slot.item := congrArg Slot.item hget
  rw [take_eq, Pile.take, dif_neg hbelow, dif_neg habove, hplace, Pile.lift, hitem, if_pos hview]
  simp [Except.map, hget]

/-- A removal at such an index takes the slot. -/
theorem effect_remove_at {slots : List Slot} {n : Nat} {slot : Slot} (hn : slots.reverse[n]? = some slot)
    {index : Int64} (hindex : index.toInt = n ∨ index.toInt = n - (slots.length : Int)) {view : View}
    (hview : view.accepts slot.item.kind = true) :
    effect slots (.remove index view) = taken index slot (slots.reverse.eraseIdx n).reverse := by
  simp only [effect, removal, take_at hn hindex hview]

/-- The bottom slot is removed at the index -1. -/
theorem effect_remove_bottom (slot : Slot) (above : List Slot) :
    effect (slot :: above) (.remove (-1) .any) = taken (-1) slot above := by
  have hbottom : (slot :: above).reverse[above.length]? = some slot := by
    rw [List.reverse_cons, List.getElem?_append_right (by simp), List.length_reverse, Nat.sub_self]
    rfl
  have hindex : (-1 : Int64).toInt = above.length - ((slot :: above).length : Int) := by
    have hone : (-1 : Int64).toInt = -1 := rfl
    rw [hone, List.length_cons]
    omega
  have hrest : ((slot :: above).reverse.eraseIdx above.length).reverse = above := by
    rw [List.reverse_cons, List.eraseIdx_append_of_length_le (by simp), List.length_reverse, Nat.sub_self]
    simp
  rw [effect_remove_at hbottom (Or.inr hindex) rfl, hrest]

/-! ## Rows of the same call -/

/-- Pops in a row take the slots from the top. -/
theorem series_pop (below top : List Slot) :
    series (below ++ top) (List.replicate top.length .pop) =
      { replies := top.reverse.map fun slot => .item slot.item
        slots := below
        notices := top.reverse.flatMap Slot.release } := by
  induction top using List.reverseRecOn with
  | nil => rw [List.append_nil]; rfl
  | append_singleton rest slot ih =>
    rw [List.length_append, List.length_singleton, List.replicate_succ, series_cons, ← List.append_assoc,
      effect_pop_top, List.reverse_append, List.reverse_singleton]
    simp only [taken, ih, List.singleton_append, List.map_cons, List.flatMap_cons]

/-- Pushes in a row put owned slots on top. -/
theorem series_push (slots : List Slot) (items : List Item) :
    series slots (items.map .push) =
      { replies := List.replicate items.length .done
        slots := slots ++ items.map fun x => { item := x }
        notices := items.map .added } := by
  induction items generalizing slots with
  | nil => simp [series]
  | cons x rest ih =>
    simp only [List.map_cons, series_cons, effect, ih, List.append_assoc, List.singleton_append, List.length_cons,
      List.replicate_succ]

/-- Removals from the bottom in a row take all slots. -/
theorem series_remove_bottom (slots : List Slot) :
    series slots (List.replicate slots.length (.remove (-1) .any)) =
      { replies := slots.map fun slot => .item slot.item, slots := [], notices := slots.flatMap Slot.release } := by
  induction slots with
  | nil => rfl
  | cons slot above ih =>
    rw [List.length_cons, List.replicate_succ, series_cons, effect_remove_bottom]
    simp only [taken, ih, List.map_cons, List.flatMap_cons]

end Call

namespace World

variable {w : World} {i : Nat} {seat : Seat} {counter : Counter}

/-- A world after calls in a row on a stack: the stack has the slots that they leave and their records, its counter has
heard their notices, and all else is as it was. -/
def called (w : World) (i : Nat) (seat : Seat) (counter : Counter) (calls : List Call) : World :=
  (w.setStack i
    { slots := (Call.series seat.stack.slots calls).slots
      journal := seat.stack.journal.extended (calls.flatMap Call.entries) }).setCounter seat.counter
    (Listener.receiveAll counter (Call.series seat.stack.slots calls).notices).1

/-- The last stack on a seat and the last counter at a place are those that stay. -/
theorem setStack_setCounter_twice (w : World) (i k : Nat) (s s' : Stack) (c c' : Counter) :
    (((w.setStack i s).setCounter k c).setStack i s').setCounter k c' = (w.setStack i s').setCounter k c' := by
  simp only [setStack, setCounter, List.set_set, List.modify_modify_eq, Function.comp_def]

/-- Calls in a row on a stack in use can be made, and do what the slots say. -/
theorem run_series (hs : w.seat? i = some seat) (hk : w.counters[seat.counter]? = some counter) (calls : List Call) :
    ∃ h, w.run (calls.map (.call i)) = some h ∧
      h.turns.map Turn.reply = (Call.series seat.stack.slots calls).replies ∧
      h.world = w.called i seat counter calls := by
  obtain ⟨hi, hlive⟩ := seat?_eq_some_iff.mp hs
  induction calls generalizing w seat counter with
  | nil =>
    refine ⟨_, run_nil w, rfl, ?_⟩
    change w = (w.setStack i { seat.stack with journal := seat.stack.journal.extended [] }).setCounter _ _
    rw [Journal.extended_nil, setStack_self hi]
    exact (setCounter_self hk).symm
  | cons c rest ih =>
    let next : World := (w.setStack i (seat.stack.call counter c).stack).setCounter seat.counter
      (seat.stack.call counter c).listener
    have hact : w.act (.call i c) = some
        { reply := (seat.stack.call counter c).reply, world := next, events := (seat.stack.call counter c).events } :=
      act_call_iff.mpr ⟨seat, counter, hs, hk, rfl⟩
    have hnext : next.seats[i]? = some { seat with stack := (seat.stack.call counter c).stack } := by
      rw [seats_setCounter, getElem?_seats_setStack_of_seat hi, if_pos rfl]
    have hcounter : next.counters[seat.counter]? = some (seat.stack.call counter c).listener := by
      rw [getElem?_counters_setCounter (w := w.setStack i _) hk, if_pos rfl]
    obtain ⟨h, hr, hreplies, hlast⟩ := ih (seat?_eq_some_iff.mpr ⟨hnext, hlive⟩) hcounter hnext hlive
    refine ⟨_, run_cons_iff.mpr ⟨_, h, hact, hr, rfl⟩, ?_, ?_⟩
    · rw [List.map_cons, hreplies]
      rfl
    · rw [hlast, called, setStack_setCounter_twice, called, List.flatMap_cons, ← Journal.extended_extended,
        ← Stack.recorded_eq_entries, Call.series_cons, Listener.receiveAll_append]
      rfl

/-! ## What is left of a world after calls in a row -/

/-- Of the cells that a pile is given in turn it has the last. -/
theorem setCells_setCells {α : Type} (y : Yard α) (i : Nat) (cells cells' : List α) :
    (y.setCells i cells).setCells i cells' = y.setCells i cells' := by
  simp only [Yard.setCells, List.modify_modify_eq, Function.comp_def]

/-- A pile with the cells that it has is the same. -/
theorem setCells_shelves_self (hs : w.seat? i = some seat) :
    w.shelves.setCells i seat.stack.slots.reverse = w.shelves := by
  rw [← shelves_setStack, setStack_self (seat?_eq_some_iff.mp hs).1]

/-- Piles with other cells are the same exactly when the cells are. -/
theorem setCells_shelves_inj (hs : w.seat? i = some seat) {cells cells' : List Slot} :
    w.shelves.setCells i cells = w.shelves.setCells i cells' ↔ cells = cells' := by
  constructor
  · intro h
    have hpile : w.shelves.piles[i]? = some seat.pile := by
      rw [shelves, List.getElem?_map, (seat?_eq_some_iff.mp hs).1, Option.map_some]
    have hpiles := congrArg (fun y : Yard Slot => y.piles[i]?) h
    simpa [Yard.setCells, List.getElem?_modify, hpile] using hpiles
  · intro h
    rw [h]

theorem shelves_called (w : World) (i : Nat) (seat : Seat) (counter : Counter) (calls : List Call) :
    (w.called i seat counter calls).shelves =
      w.shelves.setCells i (Call.series seat.stack.slots calls).slots.reverse := by
  rw [called, shelves_setCounter, shelves_setStack]

/-- Calls that leave slots with the same items leave the same items in the world. -/
theorem items_setCells_shelves (hs : w.seat? i = some seat) {cells : List Slot}
    (h : cells.map Slot.item = seat.stack.fromTop) : (w.shelves.setCells i cells).map Slot.item = w.items := by
  have hself := congrArg (Yard.map Slot.item) (setCells_shelves_self hs)
  rw [← Yard.setCells_map] at hself ⊢
  rw [h, Stack.fromTop, Stack.items, ← List.map_reverse, hself, items_eq]

theorem counters_called (w : World) (i : Nat) (seat : Seat) (counter : Counter) (calls : List Call) :
    (w.called i seat counter calls).counters = w.counters.set seat.counter
      (Listener.receiveAll counter (Call.series seat.stack.slots calls).notices).1 := rfl

/-- In a reachable world calls in a row on a stack in use can be made. They are answered as the slots say and leave the
slots that they leave there, a tally of the stack hears their notices, and the other stacks and counters are as they
were. -/
theorem Reachable.exists_run (hw : w.Reachable) (hs : w.seat? i = some seat) (calls : List Call) :
    ∃ h, w.run (calls.map (.call i)) = some h ∧
      h.turns.map Turn.reply = (Call.series seat.stack.slots calls).replies ∧
      h.world.shelves = w.shelves.setCells i (Call.series seat.stack.slots calls).slots.reverse ∧
      (∀ k, k ≠ seat.counter → h.world.counters[k]? = w.counters[k]?) ∧
      ∀ t, w.counters[seat.counter]? = some (.tracking t) → h.world.counters[seat.counter]? =
        some (.tracking (Listener.receiveAll t (Call.series seat.stack.slots calls).notices).1) := by
  obtain ⟨counter, hk⟩ := hw.exists_counter hs
  obtain ⟨h, hr, hreplies, hlast⟩ := run_series hs hk calls
  refine ⟨h, hr, hreplies, ?_, ?_, ?_⟩
  · rw [hlast, shelves_called]
  · intro k hne
    rw [hlast, counters_called, List.getElem?_set_ne (Ne.symm hne)]
  · intro t ht
    rw [ht] at hk
    cases hk
    rw [hlast, counters_called, List.getElem?_set_self (List.getElem?_eq_some_iff.mp ht).1,
      Listener.receiveAll_tracking]

end World

end OperandStack
