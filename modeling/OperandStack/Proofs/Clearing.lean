import OperandStack.Proofs.Series

/-!
# Clearing

Clearing a stack gives the notices of removing its slots one by one from the bottom. Pops give the same notices from the
top, and for a tally it makes no difference in which order items are removed, whether it counts them or not
(`Tally.remove_comm`). So all three ways to empty a stack leave the same slots and the same tallies.
-/

namespace OperandStack

/-! ## Removals in any order -/

namespace Counts

variable {a b : Nat} (h : a ≠ b)
include h

/-- Lowering one identity leaves the counts of the others. -/
theorem lookup_lower_of_ne (counts : Counts) : (lower b counts).lookup a = counts.lookup a := by
  induction counts with
  | nil => rfl
  | cons entry rest ih =>
    obtain ⟨k, n⟩ := entry
    unfold lower
    split
    · rename_i hk
      subst hk
      split
      · rw [lookup_cons, if_neg h]
      · rw [lookup_cons, lookup_cons, if_neg h, if_neg h]
    · rw [lookup_cons, lookup_cons, ih]

/-- Two identities can be lowered in either order. -/
theorem lower_comm (counts : Counts) : lower a (lower b counts) = lower b (lower a counts) := by
  induction counts with
  | nil => rfl
  | cons entry rest ih =>
    obtain ⟨k, n⟩ := entry
    by_cases ha : k = a
    · subst ha
      by_cases hn : n ≤ 1
      · simp only [lower, if_neg h, if_pos, if_pos hn]
      · simp only [lower, if_neg h, if_pos, if_neg hn]
    · by_cases hb : k = b
      · subst hb
        by_cases hn : n ≤ 1
        · simp only [lower, if_neg ha, if_pos, if_pos hn]
        · simp only [lower, if_neg ha, if_pos, if_neg hn]
      · simp only [lower, if_neg ha, if_neg hb, ih]

end Counts

namespace Tally

/-- A removal that finds a count takes a reference off and may set the flag back; one that finds none adds to the
removals alone. -/
theorem remove_fst (t : Tally) (x : Item) : (t.remove x).1 =
    if (t.counts.lookup x.id).isSome then
      { t with
        references := t.references - 1
        removes := t.removes + 1
        overLimit := t.overLimit && decide (t.limit < t.references - 1)
        counts := t.counts.lower x.id }
    else { t with removes := t.removes + 1 } := by
  simp only [remove]
  cases t.counts.lookup x.id <;> rfl

/-- Two items can be removed in either order, whether the tally counts them or not. -/
theorem remove_comm (t : Tally) (x y : Item) : ((t.remove x).1.remove y).1 = ((t.remove y).1.remove x).1 := by
  simp only [remove_fst]
  by_cases h : x.id = y.id
  · rw [h]
  · -- Each removal finds the same count before and after the other one.
    have hx := Counts.lookup_lower_of_ne h t.counts
    have hy := Counts.lookup_lower_of_ne (Ne.symm h) t.counts
    by_cases hcx : (t.counts.lookup x.id).isSome
    · by_cases hcy : (t.counts.lookup y.id).isSome
      · simp only [if_pos hcx, if_pos hcy, hx, hy, Counts.lower_comm h]
      · simp only [if_pos hcx, if_neg hcy, hy]
    · by_cases hcy : (t.counts.lookup y.id).isSome
      · simp only [if_neg hcx, if_pos hcy, hx]
      · simp only [if_neg hcx, if_neg hcy]

end Tally

namespace Listener

/-- A listener after notices has heard one after the other. -/
theorem receiveAll_eq_foldl {κ : Type} [Listener κ] (k : κ) (notices : List Notice) :
    (receiveAll k notices).1 = notices.foldl (fun k n => (receive k n).1) k := by
  induction notices generalizing k with
  | nil => rfl
  | cons n rest ih => exact ih (receive k n).1

/-- A tally that hears of removals in another order is the same. -/
theorem receiveAll_removed_perm {items items' : List Item} (hp : items.Perm items') (t : Tally) :
    (receiveAll t (items.map .removed)).1 = (receiveAll t (items'.map .removed)).1 := by
  rw [receiveAll_eq_foldl, receiveAll_eq_foldl, List.foldl_map, List.foldl_map]
  apply hp.foldl_eq'
  intro x _ y _ t
  exact t.remove_comm x y

/-- A counter that hears of removals in the opposite order is the same, unless it records what it hears. -/
theorem receiveAll_removed_reverse {c : Counter} (hc : ∀ heard, c ≠ .recording heard) (items : List Item) :
    (receiveAll c (items.reverse.map .removed)).1 = (receiveAll c (items.map .removed)).1 := by
  cases c with
  | tracking t =>
    rw [receiveAll_tracking, receiveAll_tracking, receiveAll_removed_perm (List.reverse_perm items) t]
  | silent =>
    have hsilent : ∀ notices, (receiveAll Counter.silent notices).1 = .silent := by
      intro notices
      induction notices with
      | nil => rfl
      | cons n rest ih => exact ih
    rw [hsilent, hsilent]
  | recording heard => exact absurd rfl (hc heard)

end Listener

/-! ## Slots -/

theorem Slot.ownedItems_reverse (slots : List Slot) : ownedItems slots.reverse = (ownedItems slots).reverse := by
  rw [ownedItems, ownedItems, List.filter_reverse, List.map_reverse]

namespace Stack

/-- Removing the slots of a stack one by one from the bottom. -/
def removals (s : Stack) : List Call :=
  List.replicate s.depth (.remove (-1) .any)

/-- Popping the slots of a stack one by one. -/
def pops (s : Stack) : List Call :=
  List.replicate s.depth .pop

/-- The notices of clearing a stack: its owned items leave, from the bottom up. -/
def leaving (s : Stack) : List Notice :=
  (Slot.ownedItems s.slots).map .removed

theorem effect_clear (s : Stack) : Call.clear.effect s.slots =
    { reply := .done, slots := [], notices := s.leaving, event := some (.cleared s.depth) } := by
  rw [leaving, ← Slot.flatMap_release]
  rfl

theorem series_removals (s : Stack) :
    Call.series s.slots s.removals = { replies := s.items.map .item, slots := [], notices := s.leaving } := by
  rw [leaving, ← Slot.flatMap_release, items, List.map_map]
  exact Call.series_remove_bottom s.slots

theorem series_pops (s : Stack) :
    Call.series s.slots s.pops = { replies := s.fromTop.map .item, slots := [], notices := s.leaving.reverse } := by
  have hpops := Call.series_pop [] s.slots
  rw [List.nil_append, Slot.flatMap_release, Slot.ownedItems_reverse] at hpops
  rw [leaving, fromTop, items, ← List.map_reverse, ← List.map_reverse, List.map_map]
  exact hpops

end Stack

/-- Clearing a stack leaves no slot on it and has its counter hear that the owned items leave. -/
theorem World.act_clear {w : World} {i : Nat} {seat : Seat} (hs : w.seat? i = some seat) {counter : Counter}
    (hk : w.counters[seat.counter]? = some counter) :
    ∃ t, w.act (.call i .clear) = some t ∧ t.reply = .done ∧ t.world.shelves = w.shelves.setCells i [] ∧
      t.world.counters = w.counters.set seat.counter (Listener.receiveAll counter seat.stack.leaving).1 := by
  refine ⟨_, act_call_iff.mpr ⟨seat, counter, hs, hk, rfl⟩, rfl, ?_, ?_⟩
  · rw [shelves_setCounter, shelves_setStack]
    rfl
  · rw [Stack.call_listener, Stack.effect_clear]
    rfl

/-- In every reachable world, on every stack in use: clearing, removing as many items as there are from the bottom, and
as many pops can be done and leave no slot on the stack, and the other stacks as they are. The removals answer with the
items from the bottom up, the pops with those from the top down. Clearing and the removals give the same notices, of the
owned items from the bottom up, and so leave all counters alike; the pops give these notices in the opposite order, and
leave all counters like them too, but for one that records what it hears. -/
theorem clear_removes_one_by_one :
    ∀ w : World, w.Reachable → ∀ i seat, w.seat? i = some seat →
      ∃ t up down, w.act (.call i .clear) = some t ∧
        w.run (seat.stack.removals.map (.call i)) = some up ∧ w.run (seat.stack.pops.map (.call i)) = some down ∧
        t.reply = .done ∧ up.turns.map Turn.reply = seat.stack.items.map .item ∧
        down.turns.map Turn.reply = seat.stack.fromTop.map .item ∧
        t.world.shelves = w.shelves.setCells i [] ∧ up.world.shelves = t.world.shelves ∧
        down.world.shelves = t.world.shelves ∧
        (Call.series seat.stack.slots seat.stack.removals).notices = (Call.clear.effect seat.stack.slots).notices ∧
        (Call.series seat.stack.slots seat.stack.pops).notices = (Call.clear.effect seat.stack.slots).notices.reverse ∧
        up.world.counters = t.world.counters ∧
        ((∀ heard, w.counters[seat.counter]? ≠ some (.recording heard)) → down.world.counters = t.world.counters) ∧
        ∀ heard, w.counters[seat.counter]? = some (.recording heard) →
          t.world.counters = w.counters.set seat.counter (.recording (heard ++ seat.stack.leaving)) ∧
          down.world.counters = w.counters.set seat.counter (.recording (heard ++ seat.stack.leaving.reverse)) := by
  intro w hw i seat hs
  obtain ⟨counter, hk⟩ := hw.exists_counter hs
  obtain ⟨t, ht, hdone, hshelves, hcounters⟩ := World.act_clear hs hk
  obtain ⟨up, hup, hupReplies, hupLast⟩ := World.run_series hs hk seat.stack.removals
  obtain ⟨down, hdown, hdownReplies, hdownLast⟩ := World.run_series hs hk seat.stack.pops
  have hupCounters : up.world.counters = t.world.counters := by
    rw [hupLast, World.counters_called, Stack.series_removals, hcounters]
  have hdownCounters : down.world.counters =
      w.counters.set seat.counter (Listener.receiveAll counter seat.stack.leaving.reverse).1 := by
    rw [hdownLast, World.counters_called, Stack.series_pops]
  rw [Stack.series_removals] at hupReplies
  rw [Stack.series_pops] at hdownReplies
  refine ⟨t, up, down, ht, hup, hdown, hdone, hupReplies, hdownReplies, hshelves, ?_, ?_, ?_, ?_, hupCounters, ?_, ?_⟩
  · rw [hupLast, World.shelves_called, Stack.series_removals, hshelves, List.reverse_nil]
  · rw [hdownLast, World.shelves_called, Stack.series_pops, hshelves, List.reverse_nil]
  · rw [Stack.series_removals, Stack.effect_clear]
  · rw [Stack.series_pops, Stack.effect_clear]
  · intro hsilent
    have hc : ∀ heard, counter ≠ .recording heard := by
      rintro heard rfl
      exact hsilent heard hk
    rw [hdownCounters, hcounters, Stack.leaving, ← List.map_reverse, Listener.receiveAll_removed_reverse hc]
  · intro heard hheard
    rw [hheard] at hk
    cases hk
    rw [hdownCounters, hcounters, Listener.receiveAll_recording, Listener.receiveAll_recording]
    exact ⟨rfl, rfl⟩

/-- Two items on a stack, of which the tally was told directly that the first one has left. -/
def forgettingActions : List Action :=
  [.create 0 true, .call 0 (.push ⟨0, .null⟩), .call 0 (.push ⟨1, .null⟩), .notify 0 (.removed ⟨0, .null⟩)]

theorem clear_removes_one_by_one_forgotten :
    ∃ h, (World.start [.tracking (.new 1)]).run forgettingActions = some h ∧ ∃ t up down,
      h.world.act (.call 0 .clear) = some t ∧
      h.world.run [.call 0 (.remove (-1) .any), .call 0 (.remove (-1) .any)] = some up ∧
      h.world.run [.call 0 .pop, .call 0 .pop] = some down ∧
      up.world.counters = t.world.counters ∧ down.world.counters = t.world.counters := by
  have hnew : ∀ c ∈ [Counter.tracking (.new 1)], c.New := by simp [Counter.New, Tally.new]
  have hw : ∀ h, (World.start [.tracking (.new 1)]).run forgettingActions = some h → h.world.Reachable := by
    intro h hr
    exact ⟨_, forgettingActions, h, hnew, hr, rfl⟩
  obtain ⟨t, up, down, ht, hup, hdown, -, -, -, -, -, -, -, -, hremovals, hpops, -⟩ :=
    clear_removes_one_by_one _ (hw _ rfl) 0 _ rfl
  exact ⟨_, rfl, t, up, down, ht, hup, hdown, hremovals, hpops fun _ h => (by cases h)⟩

end OperandStack
