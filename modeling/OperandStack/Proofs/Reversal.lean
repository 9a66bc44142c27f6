import OperandStack.Proofs.Series

/-!
# Reversals

A reversal turns the top slots over and tells no one; a second one turns them back. Popping the top items and pushing
them in the order in which they came leaves the same items, but tells the counter of each, and all of them are in owned
slots then: a reversal keeps the mark of a slot with its item.
-/

namespace OperandStack

/-- The top slots of a stack, the top first. -/
def Stack.top (s : Stack) (n : Nat) : List Slot :=
  s.slots.reverse.take n

/-- The slots of a stack below the top ones, the uppermost first. -/
def Stack.below (s : Stack) (n : Nat) : List Slot :=
  s.slots.reverse.drop n

/-- A stack with its top slots turned over, and with a journal. -/
def Stack.turned (s : Stack) (n : Nat) (journal : Journal) : Stack :=
  { slots := (s.below n).reverse ++ s.top n, journal }

/-- Pops of the top items of a stack, and pushes of them in the order in which they came. -/
def Stack.popsAndPushes (s : Stack) (n : Nat) : List Call :=
  List.replicate n .pop ++ (s.fromTop.take n).map .push

/-- Slots that are all made owned are the same exactly when they were. -/
theorem Slot.map_owned_eq_iff {slots : List Slot} :
    (slots.map fun slot => { slot with owned := true }) = slots ↔ ∀ slot ∈ slots, slot.owned = true := by
  induction slots with
  | nil => simp
  | cons slot rest ih =>
    obtain ⟨item, owned⟩ := slot
    rw [List.map_cons, List.cons.injEq, ih, List.forall_mem_cons, Slot.mk.injEq, @eq_comm _ true]
    simp

namespace Stack

variable {s : Stack} {n : Nat}

theorem top_append_below (s : Stack) (n : Nat) : s.top n ++ s.below n = s.slots.reverse :=
  List.take_append_drop n _

theorem length_top (hn : n ≤ s.depth) : (s.top n).length = n := by
  rw [top, List.length_take, List.length_reverse]
  exact Nat.min_eq_left hn

theorem map_item_top (s : Stack) (n : Nat) : (s.top n).map Slot.item = s.fromTop.take n := by
  rw [top, List.map_take, List.map_reverse]
  rfl

/-- The slots of a stack, the bottom first: those below the top ones, and the top ones. -/
theorem slots_eq (s : Stack) (n : Nat) : s.slots = (s.below n).reverse ++ (s.top n).reverse := by
  rw [← List.reverse_append, top_append_below, List.reverse_reverse]

/-! ## Slots -/

/-- A reversal turns the top slots over and gives no notice. -/
theorem effect_reverse {count : Int64} (hcount : count.toInt = n) (hn : n ≤ s.depth) :
    (Call.reverse count).effect s.slots = { reply := .done, slots := (s.below n).reverse ++ s.top n } := by
  have hrange : 0 ≤ count.toInt ∧ count.toInt ≤ s.slots.reverse.length := by
    rw [List.length_reverse]
    unfold depth at hn
    omega
  have hturn : Call.turn count s.slots = .ok ((s.below n).reverse ++ s.top n) := by
    rw [Call.turn_eq, Pile.turn, if_pos hrange, hcount, Int.toNat_natCast]
    simp [Except.map, top, below]
  simp only [Call.effect, hturn]

theorem reverse_slots_turned (s : Stack) (n : Nat) (j : Journal) :
    (s.turned n j).slots.reverse = (s.top n).reverse ++ s.below n := by
  rw [turned, List.reverse_append, List.reverse_reverse]

theorem depth_turned (s : Stack) (n : Nat) (j : Journal) : (s.turned n j).depth = s.depth := by
  have hturned := congrArg List.length (s.reverse_slots_turned n j)
  have hslots := congrArg List.length (s.slots_eq n)
  simp only [List.length_append, List.length_reverse] at hturned hslots
  rw [depth, depth, hturned, hslots, Nat.add_comm]

/-- Turning over twice puts the slots back in their order. -/
theorem turned_turned (hn : n ≤ s.depth) (j j' : Journal) : ((s.turned n j).turned n j').slots = s.slots := by
  have hlength : (s.top n).reverse.length = n := by rw [List.length_reverse, length_top hn]
  have htop : (s.turned n j).top n = (s.top n).reverse := by
    rw [top, reverse_slots_turned, List.take_left' hlength]
  have hbelow : (s.turned n j).below n = s.below n := by
    rw [below, reverse_slots_turned, List.drop_left' hlength]
  rw [turned, htop, hbelow, ← s.slots_eq n]

/-- Pops of the top items and pushes in the order in which they came turn the slots over too, and leave owned ones. -/
theorem series_popsAndPushes (hn : n ≤ s.depth) :
    Call.series s.slots (s.popsAndPushes n) =
      { replies := (s.fromTop.take n).map .item ++ List.replicate n .done
        slots := (s.below n).reverse ++ (s.top n).map fun slot => { slot with owned := true }
        notices := (s.top n).flatMap Slot.release ++ ((s.top n).map Slot.item).map .added } := by
  have hlength : (s.top n).reverse.length = n := by rw [List.length_reverse, length_top hn]
  have hpops := Call.series_pop (s.below n).reverse (s.top n).reverse
  rw [hlength, ← s.slots_eq n, List.reverse_reverse] at hpops
  rw [popsAndPushes, Call.series_append, hpops, ← map_item_top, Call.series_push]
  simp [length_top hn, Function.comp_def]

end Stack

namespace World

variable {w : World} {i : Nat} {seat : Seat} {n : Nat} {count : Int64}

/-! ## Worlds -/

/-- A reversal changes the slots of its stack and its journal, and nothing else. -/
theorem act_reverse (hs : w.seat? i = some seat) {counter : Counter} (hk : w.counters[seat.counter]? = some counter)
    (hcount : count.toInt = n) (hn : n ≤ seat.stack.depth) :
    ∃ j, w.act (.call i (.reverse count)) =
      some { reply := .done, world := w.setStack i (seat.stack.turned n j), events := [] } := by
  have heffect := Stack.effect_reverse hcount hn
  refine ⟨seat.stack.recorded (.reverse count), act_call_iff.mpr ⟨seat, counter, hs, hk, ?_⟩⟩
  simp only [Stack.call, heffect, Listener.receiveAll_nil]
  rw [setCounter_self (w := w.setStack i _) hk]
  rfl

/-- A second reversal takes back the first one. -/
theorem run_reverse_twice (hs : w.seat? i = some seat) {counter : Counter}
    (hk : w.counters[seat.counter]? = some counter) (hcount : count.toInt = n) (hn : n ≤ seat.stack.depth) :
    ∃ h, w.run [.call i (.reverse count), .call i (.reverse count)] = some h ∧
      (∀ turn ∈ h.turns, turn.reply = .done ∧ turn.events = [] ∧ turn.world.counters = w.counters) ∧
      h.world.shelves = w.shelves := by
  obtain ⟨hi, hlive⟩ := seat?_eq_some_iff.mp hs
  obtain ⟨j, hfirst⟩ := act_reverse hs hk hcount hn
  have hs' : (w.setStack i (seat.stack.turned n j)).seat? i = some { seat with stack := seat.stack.turned n j } := by
    rw [seat?_eq_some_iff, getElem?_seats_setStack_of_seat hi, if_pos rfl]
    exact ⟨rfl, hlive⟩
  -- The stack is as deep as before, so the same count is in range again.
  obtain ⟨j', hsecond⟩ := act_reverse hs' hk hcount ((seat.stack.depth_turned n j).symm ▸ hn)
  refine ⟨_, run_cons_iff.mpr ⟨_, _, hfirst, run_cons_iff.mpr ⟨_, _, hsecond, run_nil _, rfl⟩, rfl⟩, ?_, ?_⟩
  · intro turn hturn
    rcases List.mem_cons.mp hturn with rfl | hturn
    · exact ⟨rfl, rfl, rfl⟩
    · cases List.mem_singleton.mp hturn
      exact ⟨rfl, rfl, rfl⟩
  · have hslots := Stack.turned_turned hn j j'
    rw [shelves_setStack, shelves_setStack, setCells_setCells, hslots, setCells_shelves_self hs]

/-- In a reachable world a reversal, and pops of the top items with pushes in the order in which they came, leave the
same items. The pushed ones are in owned slots, and a tally gains those that were shared. -/
theorem Reachable.reverse_pop_push (hw : w.Reachable) (hs : w.seat? i = some seat) (hcount : count.toInt = n)
    (hn : n ≤ seat.stack.depth) :
    ∃ t h, w.act (.call i (.reverse count)) = some t ∧
      w.run ((seat.stack.popsAndPushes n).map (.call i)) = some h ∧
      h.turns.map Turn.reply = (seat.stack.fromTop.take n).map .item ++ List.replicate n .done ∧
      t.world.counters = w.counters ∧ h.world.items = t.world.items ∧
      t.world.shelves = w.shelves.setCells i ((seat.stack.top n).reverse ++ seat.stack.below n) ∧
      h.world.shelves = w.shelves.setCells i
        (((seat.stack.top n).reverse.map fun slot => { slot with owned := true }) ++ seat.stack.below n) ∧
      (∀ k, k ≠ seat.counter → h.world.counters[k]? = w.counters[k]?) ∧
      ∀ tally, w.counters[seat.counter]? = some (.tracking tally) →
        w.ReachableByStacks ∨ tally.Covers (Slot.ownedItems (seat.stack.top n)) →
        ∃ after, h.world.counters[seat.counter]? = some (.tracking after) ∧
          tally.Returned after (seat.stack.top n) := by
  obtain ⟨counter, hk⟩ := hw.exists_counter hs
  obtain ⟨j, hact⟩ := act_reverse hs hk hcount hn
  obtain ⟨h, hr, hreplies, hslots, hothers, htally⟩ :=
    hw.exists_run hs (seat.stack.popsAndPushes n)
  rw [Stack.series_popsAndPushes hn] at hreplies hslots htally
  rw [List.reverse_append, List.reverse_reverse, ← List.map_reverse] at hslots
  have hturned : (w.setStack i (seat.stack.turned n j)).shelves =
      w.shelves.setCells i ((seat.stack.top n).reverse ++ seat.stack.below n) := by
    rw [shelves_setStack, Stack.reverse_slots_turned]
  refine ⟨_, h, hact, hr, hreplies, rfl, ?_, hturned, hslots, hothers, ?_⟩
  · rw [items_eq, items_eq, hslots, hturned, ← Yard.setCells_map, ← Yard.setCells_map]
    simp [Function.comp_def]
  · intro tally ht hcovers
    have hslots : (seat.stack.top n).Subperm seat.stack.slots :=
      (List.take_sublist n _).subperm.trans (List.reverse_perm _).subperm
    exact ⟨_, htally tally ht, hw.returned hs hslots ht hcovers⟩

end World

/-- In every reachable world, for every count from `0` to the depth: a reversal and another one answer that they are
done, report nothing, leave all counters alone and in the end all slots as they were. One reversal leaves the same items
as pops of as many items and pushes in the order in which they came, which are answered by these items. The reversal
keeps each mark with its item, while the pushed items are all in owned slots; so both leave the same slots exactly if
the top slots were owned. If no counter was notified directly, or the tally counts the items of the owned top slots
anyway, it has after the pops and pushes as many additions more as there are top slots, as many removals more as owned
ones among them, and as many references more as shared ones; if all were owned, all else that it says is as after the
reversal. -/
theorem reversal_pops_and_pushes :
    ∀ w : World, w.Reachable → ∀ i seat, w.seat? i = some seat → ∀ (n : Nat) (count : Int64),
      count.toInt = n → n ≤ seat.stack.depth →
      (∃ h, w.run [.call i (.reverse count), .call i (.reverse count)] = some h ∧
        (∀ turn ∈ h.turns, turn.reply = .done ∧ turn.events = [] ∧ turn.world.counters = w.counters) ∧
        h.world.shelves = w.shelves) ∧
      (seat.stack.top n).length = n ∧ ∃ t h, w.act (.call i (.reverse count)) = some t ∧
        w.run ((seat.stack.popsAndPushes n).map (.call i)) = some h ∧
        h.turns.map Turn.reply = (seat.stack.fromTop.take n).map .item ++ List.replicate n .done ∧
        t.world.counters = w.counters ∧ h.world.items = t.world.items ∧
        t.world.shelves = w.shelves.setCells i ((seat.stack.top n).reverse ++ seat.stack.below n) ∧
        h.world.shelves = w.shelves.setCells i
          (((seat.stack.top n).reverse.map fun slot => { slot with owned := true }) ++ seat.stack.below n) ∧
        (h.world.shelves = t.world.shelves ↔ ∀ slot ∈ seat.stack.top n, slot.owned = true) ∧
        (∀ k, k ≠ seat.counter → h.world.counters[k]? = w.counters[k]?) ∧
        ∀ tally, w.counters[seat.counter]? = some (.tracking tally) →
          w.ReachableByStacks ∨ tally.Covers (Slot.ownedItems (seat.stack.top n)) →
          ∃ after, h.world.counters[seat.counter]? = some (.tracking after) ∧
            tally.Returned after (seat.stack.top n) := by
  intro w hw i seat hs n count hcount hn
  obtain ⟨counter, hk⟩ := hw.exists_counter hs
  refine ⟨World.run_reverse_twice hs hk hcount hn, Stack.length_top hn, ?_⟩
  obtain ⟨t, h, hact, hr, hreplies, hcounters, hitems, hturned, hslots, hothers, htally⟩ :=
    hw.reverse_pop_push hs hcount hn
  refine ⟨t, h, hact, hr, hreplies, hcounters, hitems, hturned, hslots, ?_, hothers, htally⟩
  rw [hturned, hslots, World.setCells_shelves_inj hs, List.append_left_inj, Slot.map_owned_eq_iff]
  simp only [List.mem_reverse]

/-- On the second stack an item of its own, and under it a copy of the one on the first stack. -/
def mixingActions : List Action :=
  [.create 0 true, .create 0 true, .call 0 (.push ⟨0, .null⟩), .copy 0 1 none, .call 1 (.push ⟨1, .null⟩)]

theorem reversal_pops_and_pushes_mixed : ∃ h, (World.start [.tracking (.new 2)]).run mixingActions = some h ∧
    (∃ h', h.world.run [.call 1 (.reverse 2), .call 1 (.reverse 2)] = some h' ∧ h'.world.shelves = h.world.shelves) ∧
    ∃ t h' after, h.world.act (.call 1 (.reverse 2)) = some t ∧
      h.world.run [.call 1 .pop, .call 1 .pop, .call 1 (.push ⟨1, .null⟩), .call 1 (.push ⟨0, .null⟩)] = some h' ∧
      h'.world.items = t.world.items ∧ h'.world.counters[0]? = some (.tracking after) ∧
      after.stats.references = 2 + 1 := by
  have hnew : ∀ c ∈ [Counter.tracking (.new 2)], c.New := by simp [Counter.New, Tally.new]
  have hw : ∀ h, (World.start [.tracking (.new 2)]).run mixingActions = some h → h.world.ReachableByStacks := by
    intro h hr
    exact ⟨_, mixingActions, h, hnew, by simp [mixingActions], hr, rfl⟩
  refine ⟨_, rfl, ?_⟩
  obtain ⟨⟨h, hr, -, hslots⟩, -, t, h', hact, hr', -, -, hitems, -, -, -, -, htally⟩ :=
    reversal_pops_and_pushes _ (hw _ rfl).reachable 1 _ rfl 2 2 rfl (by decide)
  obtain ⟨after, hafter, hreturned⟩ := htally _ rfl (Or.inl (hw _ rfl))
  exact ⟨⟨h, hr, hslots⟩, t, h', after, hact, hr', hitems, hafter, hreturned.gain.references⟩

end OperandStack
