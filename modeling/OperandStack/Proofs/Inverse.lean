import OperandStack.Proofs.Series

/-!
# Insertion and removal undo each other

An insertion and the removal at its index leave the slots as they were, and the tally has only seen the item come and
go. A removal and the insertion of its item at its place leave the items as they were; but the slot of the item is owned
then, so that the tally gains a reference where it was shared.
-/

namespace OperandStack

/-- A list with another element at a place is the same exactly when the element is. -/
theorem set_eq_self_iff {α : Type} {l : List α} {n : Nat} {a b : α} (h : l[n]? = some a) :
    l.set n b = l ↔ b = a := by
  obtain ⟨hlt, rfl⟩ := List.getElem?_eq_some_iff.mp h
  constructor
  · intro hsame
    have hb := congrArg (fun l : List α => l[n]?) hsame
    simpa [hlt] using hb
  · rintro rfl
    exact List.set_getElem_self hlt

namespace Call

variable {slots : List Slot}

/-! ## Slots -/

/-- The removal at the index of an insertion takes the inserted item. -/
theorem series_insert_remove {index : Int64} (h : 0 ≤ index.toInt ∧ index.toInt ≤ slots.length) {x : Item}
    {view : View} (hview : view.accepts x.kind = true) :
    series slots [.insert index x, .remove index view] =
      { replies := [.done, .item x], slots, notices := [.added x, .removed x] } := by
  obtain ⟨hreply, hnotices, hslots⟩ := effect_insert_of_le h x
  -- Above the inserted item are as many slots as its index says, so the removal finds it there.
  have hlength : (slots.reverse.take index.toInt.toNat).length = index.toInt.toNat := by
    rw [List.length_take, List.length_reverse]
    omega
  have hplace : (effect slots (.insert index x)).slots.reverse[index.toInt.toNat]? = some { item := x } := by
    rw [hslots, List.getElem?_append_right hlength.le, hlength, Nat.sub_self]
    rfl
  have hrest : ((effect slots (.insert index x)).slots.reverse.eraseIdx index.toInt.toNat).reverse = slots := by
    rw [hslots, List.eraseIdx_append_of_length_le hlength.le, hlength, Nat.sub_self, List.eraseIdx_cons_zero,
      List.take_append_drop, List.reverse_reverse]
  have hremove : effect (effect slots (.insert index x)).slots (.remove index view) = _ :=
    effect_remove_at hplace (Or.inl (by omega)) hview
  rw [series_cons, series_cons, hremove, hrest, hreply, hnotices]
  rfl

/-- The insertion of a removed item at its place makes its slot an owned one. -/
theorem series_remove_insert {n : Nat} {slot : Slot} (hn : slots.reverse[n]? = some slot) {j index : Int64}
    (hj : j.toInt = n ∨ j.toInt = n - (slots.length : Int)) (hindex : index.toInt = n) {view : View}
    (hview : view.accepts slot.item.kind = true) :
    series slots [.remove j view, .insert index slot.item] =
      { replies := [.item slot.item, .done]
        slots := (slots.reverse.set n { item := slot.item }).reverse
        notices := slot.release ++ [.added slot.item] } := by
  have hlt : n < slots.reverse.length := (List.getElem?_eq_some_iff.mp hn).1
  have hlength : (slots.reverse.take n).length = n := by
    rw [List.length_take]
    omega
  have hplace : 0 ≤ index.toInt ∧ index.toInt ≤ (slots.reverse.eraseIdx n).reverse.length := by
    rw [List.length_reverse, List.length_eraseIdx_of_lt hlt]
    omega
  have hset : (slots.reverse.eraseIdx n).take n ++ { item := slot.item } :: (slots.reverse.eraseIdx n).drop n =
      slots.reverse.set n { item := slot.item } := by
    rw [List.eraseIdx_eq_take_drop_succ, List.take_left' hlength, List.drop_left' hlength,
      List.set_eq_take_cons_drop _ hlt]
  obtain ⟨hreply, hnotices, hslots⟩ := effect_insert_of_le hplace slot.item
  rw [List.reverse_reverse, hindex, Int.toNat_natCast, hset] at hslots
  have hafter := congrArg List.reverse hslots
  rw [List.reverse_reverse] at hafter
  rw [series_cons, series_cons, effect_remove_at hn hj hview]
  simp only [taken, hreply, hnotices, hafter]
  rfl

/-- A push is an insertion at the index 0. -/
theorem effect_push_eq (slots : List Slot) (x : Item) :
    (effect slots (.push x)).reply = (effect slots (.insert 0 x)).reply ∧
      (effect slots (.push x)).slots = (effect slots (.insert 0 x)).slots ∧
      (effect slots (.push x)).notices = (effect slots (.insert 0 x)).notices := by
  have hzero : 0 ≤ (0 : Int64).toInt ∧ (0 : Int64).toInt ≤ slots.length := by
    rw [Int64.toInt_zero]
    omega
  obtain ⟨hreply, hnotices, hslots⟩ := effect_insert_of_le hzero x
  refine ⟨hreply.symm, ?_, hnotices.symm⟩
  apply List.reverse_injective
  rw [hslots]
  simp [effect]

end Call

namespace World

variable {w : World} {i : Nat} {seat : Seat}

/-! ## Worlds -/

/-- In a reachable world an insertion and the removal at its index leave all slots as they were. -/
theorem Reachable.insert_remove (hw : w.Reachable) (hs : w.seat? i = some seat) {index : Int64}
    (hindex : 0 ≤ index.toInt ∧ index.toInt ≤ seat.stack.depth) {x : Item} {view : View}
    (hview : view.accepts x.kind = true) :
    ∃ h, w.run [.call i (.insert index x), .call i (.remove index view)] = some h ∧
      h.turns.map Turn.reply = [.done, .item x] ∧ h.world.shelves = w.shelves ∧
      (∀ k, k ≠ seat.counter → h.world.counters[k]? = w.counters[k]?) ∧
      ∀ t, w.counters[seat.counter]? = some (.tracking t) →
        ∃ t', h.world.counters[seat.counter]? = some (.tracking t') ∧ t.Gain t' [] ∧
          t'.stats.adds = t.stats.adds + 1 ∧ t'.stats.removes = t.stats.removes + 1 ∧
          t'.stats.peak = max t.stats.peak (t.stats.references + 1) := by
  obtain ⟨h, hr, hreplies, hslots, hothers, htally⟩ := hw.exists_run hs [.insert index x, .remove index view]
  rw [Call.series_insert_remove hindex hview] at hreplies hslots htally
  refine ⟨h, hr, hreplies, hslots.trans (setCells_shelves_self hs), hothers, ?_⟩
  intro t ht
  obtain ⟨⟨ids, hkeeps⟩, hflag, -⟩ := hw.tally ht
  exact ⟨_, htally t ht, hkeeps.gain_of_visit hflag x, Listener.adds_receiveAll t _, Listener.removes_receiveAll t _,
    ((t.add x).1.falls_remove x).peak⟩

/-- In a reachable world a removal and the insertion of its item at its place leave all items as they were, and the
slots too exactly if the slot was owned. -/
theorem Reachable.remove_insert (hw : w.Reachable) (hs : w.seat? i = some seat) {n : Nat} {slot : Slot}
    (hn : seat.stack.slots.reverse[n]? = some slot) {j index : Int64}
    (hj : j.toInt = n ∨ j.toInt = n - (seat.stack.depth : Int)) (hindex : index.toInt = n) {view : View}
    (hview : view.accepts slot.item.kind = true) :
    ∃ h, w.run [.call i (.remove j view), .call i (.insert index slot.item)] = some h ∧
      h.turns.map Turn.reply = [.item slot.item, .done] ∧ h.world.items = w.items ∧
      h.world.shelves = w.shelves.setCells i (seat.stack.slots.reverse.set n { item := slot.item }) ∧
      (h.world.shelves = w.shelves ↔ slot.owned = true) ∧
      (∀ k, k ≠ seat.counter → h.world.counters[k]? = w.counters[k]?) ∧
      ∀ t, w.counters[seat.counter]? = some (.tracking t) →
        w.ReachableByStacks ∨ t.Covers (Slot.ownedItems [slot]) →
        ∃ t', h.world.counters[seat.counter]? = some (.tracking t') ∧ t.Returned t' [slot] := by
  obtain ⟨h, hr, hreplies, hslots, hothers, htally⟩ := hw.exists_run hs [.remove j view, .insert index slot.item]
  rw [Call.series_remove_insert hn hj hindex hview] at hreplies hslots htally
  rw [List.reverse_reverse] at hslots
  obtain ⟨hlt, hget⟩ := List.getElem?_eq_some_iff.mp hn
  refine ⟨h, hr, hreplies, ?_, hslots, ?_, hothers, ?_⟩
  · rw [items_eq, hslots]
    apply items_setCells_shelves hs
    have hitem : (seat.stack.slots.reverse.map Slot.item)[n]? = some slot.item := by
      rw [List.getElem?_map, hn, Option.map_some]
    rw [List.map_set, Stack.fromTop, Stack.items, ← List.map_reverse]
    exact (set_eq_self_iff hitem).mpr rfl
  · have hself := setCells_shelves_self hs
    rw [hslots]
    constructor
    · intro hsame
      have hcells := (setCells_shelves_inj hs).mp (hsame.trans hself.symm)
      exact congrArg Slot.owned ((set_eq_self_iff hn).mp hcells).symm
    · intro howned
      obtain ⟨item, owned⟩ := slot
      cases howned
      rw [(set_eq_self_iff hn).mpr rfl, hself]
  · intro t ht hcovers
    have hmem : slot ∈ seat.stack.slots := List.mem_reverse.mp (List.mem_of_getElem? hn)
    have hreturned := hw.returned hs (List.singleton_subperm_iff.mpr hmem) ht hcovers
    rw [List.flatMap_singleton] at hreturned
    exact ⟨_, htally t ht, hreturned⟩

/-- A push does to slots and counters what an insertion at the index 0 does, where either is possible. -/
theorem act_push_eq (w : World) (i : Nat) (x : Item) :
    (w.act (.call i (.push x))).map (fun t => (t.reply, t.world.shelves, t.world.counters)) =
      (w.act (.call i (.insert 0 x))).map fun t => (t.reply, t.world.shelves, t.world.counters) := by
  simp only [act, Option.bind_eq_bind]
  cases w.seat? i with
  | none => rfl
  | some seat =>
    simp only [Option.bind_some]
    cases w.counters[seat.counter]? with
    | none => rfl
    | some counter =>
      obtain ⟨hreply, hslots, hnotices⟩ := Call.effect_push_eq seat.stack.slots x
      simp only [Option.bind_some, Option.map_some, shelves_setCounter, shelves_setStack, Stack.call, hreply, hslots,
        hnotices]
      rfl

end World

/-- In every reachable world, whatever the item, the index and the view: an insertion and the removal at its index
answer with the inserted item and leave all slots as they were, and a tally has as many references to each item and in
all as before, has heard of one addition and one removal more, and its peak is what it was or one more than there were
references. A removal and the insertion of its item at its place, counted from the top, leave all items as they were,
but slots and counts only if the removed slot was owned; a shared one is owned then, and there is one more reference to
its item. What is said of the counts needs that no counter was notified directly, or that the tally counts the removed
item anyway. And a push does to slots and counters what an insertion at the index 0 does. -/
theorem insertion_removal_inverse :
    (∀ w : World, w.Reachable → ∀ i seat, w.seat? i = some seat → ∀ (index : Int64) (x : Item) (view : View),
      0 ≤ index.toInt ∧ index.toInt ≤ seat.stack.depth → view.accepts x.kind = true →
      ∃ h, w.run [.call i (.insert index x), .call i (.remove index view)] = some h ∧
        h.turns.map Turn.reply = [.done, .item x] ∧ h.world.shelves = w.shelves ∧
        (∀ k, k ≠ seat.counter → h.world.counters[k]? = w.counters[k]?) ∧
        ∀ t, w.counters[seat.counter]? = some (.tracking t) →
          ∃ t', h.world.counters[seat.counter]? = some (.tracking t') ∧ t.Gain t' [] ∧
            t'.stats.adds = t.stats.adds + 1 ∧ t'.stats.removes = t.stats.removes + 1 ∧
            t'.stats.peak = max t.stats.peak (t.stats.references + 1)) ∧
    (∀ w : World, w.Reachable → ∀ i seat, w.seat? i = some seat →
      ∀ (n : Nat) (slot : Slot), seat.stack.slots.reverse[n]? = some slot → ∀ (j index : Int64) (view : View),
      j.toInt = n ∨ j.toInt = n - (seat.stack.depth : Int) → index.toInt = n → view.accepts slot.item.kind = true →
      ∃ h, w.run [.call i (.remove j view), .call i (.insert index slot.item)] = some h ∧
        h.turns.map Turn.reply = [.item slot.item, .done] ∧ h.world.items = w.items ∧
        h.world.shelves = w.shelves.setCells i (seat.stack.slots.reverse.set n { item := slot.item }) ∧
        (h.world.shelves = w.shelves ↔ slot.owned = true) ∧
        (∀ k, k ≠ seat.counter → h.world.counters[k]? = w.counters[k]?) ∧
        ∀ t, w.counters[seat.counter]? = some (.tracking t) →
          w.ReachableByStacks ∨ t.Covers (Slot.ownedItems [slot]) →
          ∃ t', h.world.counters[seat.counter]? = some (.tracking t') ∧ t.Returned t' [slot] ∧
            ((∀ x, t'.referencesTo x = t.referencesTo x) ↔ slot.owned = true) ∧
            (slot.owned = false → t'.stats.references = t.stats.references + 1)) ∧
    ∀ (w : World) (i : Nat) (x : Item),
      (w.act (.call i (.push x))).map (fun t => (t.reply, t.world.shelves, t.world.counters)) =
        (w.act (.call i (.insert 0 x))).map fun t => (t.reply, t.world.shelves, t.world.counters) := by
  refine ⟨?_, ?_, World.act_push_eq⟩
  · intro w hw i seat hs index x view hindex hview
    exact hw.insert_remove hs hindex hview
  · intro w hw i seat hs n slot hn j index view hj hindex hview
    obtain ⟨h, hr, hreplies, hitems, hslots, hrestored, hothers, htally⟩ := hw.remove_insert hs hn hj hindex hview
    refine ⟨h, hr, hreplies, hitems, hslots, hrestored, hothers, ?_⟩
    intro t ht hcovers
    obtain ⟨t', ht', hreturned⟩ := htally t ht hcovers
    refine ⟨t', ht', hreturned, ?_, ?_⟩
    · rw [hreturned.gain.each_eq_iff, Slot.sharedItems_eq_nil_iff]
      simp
    · intro hshared
      simpa [Slot.sharedItems, hshared] using hreturned.gain.references

/-- An item on one stack and a copy of it on another, both of one counter. -/
def lendingActions : List Action :=
  [.create 0 true, .create 0 true, .call 0 (.push ⟨0, .null⟩), .copy 0 1 none]

theorem insertion_removal_inverse_lent : ∃ h, (World.start [.tracking (.new 1)]).run lendingActions = some h ∧
    (∃ h', h.world.run [.call 0 (.insert 1 ⟨1, .null⟩), .call 0 (.remove 1 .any)] = some h' ∧
      h'.turns.map Turn.reply = [.done, .item ⟨1, .null⟩] ∧ h'.world.shelves = h.world.shelves) ∧
    ∃ h' t', h.world.run [.call 1 (.remove (-1) .any), .call 1 (.insert 0 ⟨0, .null⟩)] = some h' ∧
      h'.world.items = h.world.items ∧ h'.world.counters[0]? = some (.tracking t') ∧ t'.stats.references = 2 := by
  have hnew : ∀ c ∈ [Counter.tracking (.new 1)], c.New := by simp [Counter.New, Tally.new]
  have hw : ∀ h, (World.start [.tracking (.new 1)]).run lendingActions = some h → h.world.ReachableByStacks := by
    intro h hr
    exact ⟨_, lendingActions, h, hnew, by simp [lendingActions], hr, rfl⟩
  obtain ⟨hvisit, hreturn, -⟩ := insertion_removal_inverse
  refine ⟨_, rfl, ?_, ?_⟩
  · obtain ⟨h', hr', hreplies, hslots, -⟩ :=
      hvisit _ (hw _ rfl).reachable 0 _ rfl 1 ⟨1, .null⟩ .any (by decide) rfl
    exact ⟨h', hr', hreplies, hslots⟩
  · obtain ⟨h', hr', -, hitems, -, -, -, htally⟩ :=
      hreturn _ (hw _ rfl).reachable 1 _ rfl 0 ⟨⟨0, .null⟩, false⟩ rfl (-1) 0 .any (Or.inr rfl) rfl rfl
    obtain ⟨t', ht', -, -, hmore⟩ := htally _ rfl (Or.inl (hw _ rfl))
    exact ⟨h', t', hr', hitems, ht', hmore rfl⟩

end OperandStack
