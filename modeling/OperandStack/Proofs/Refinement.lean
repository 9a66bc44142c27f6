import OperandStack.Proofs.Effect
import OperandStack.Proofs.Pile
import OperandStack.Proofs.Run

/-!
# Stacks are piles

A stack keeps its slots from the bottom up and turns every index, each operation in its own way, into a position counted
from the bottom. Read from the top its slots are a pile, and every call does to it what the call does to the pile
(`Call.effect_pile`); so does every action to the piles of a world (`World.act_shelves`). A slot is a cell that
remembers whether it is owned. Forgetting that leaves piles of items, and the answers and the contents in every run of a
world are those of the piles (`World.run_items`).
-/

namespace OperandStack

/-- A slot is a cell: what is pushed or inserted is owned, a copy is not. -/
instance : Cell Slot where
  item := Slot.item
  pushed x := { item := x }
  inserted x := { item := x }
  copied slot := { slot with owned := false }

/-- Slots without their marks are items. -/
theorem Slot.item_hom : Cell.Hom Slot.item :=
  ⟨fun _ => rfl, fun _ => rfl, fun _ => rfl, fun _ => rfl⟩

/-! ## Positions from the top and from the bottom -/

namespace Position

/-- A read turns the place that an index names from the top into a position from the bottom. -/
theorem read_eq (n : Nat) (index : Int64) :
    read n index = if h : -(n : Int) ≤ index.toInt ∧ index.toInt < n then .ok (Pile.place n index h).rev
      else .error (.outOfRange index n) := by
  unfold read
  by_cases h : -(n : Int) ≤ index.toInt ∧ index.toInt < n
  · have hr : 0 ≤ reach n index ∧ reach n index < n := by
      unfold reach
      split <;> omega
    rw [dif_pos h, dif_pos hr]
    rfl
  · have hr : ¬(0 ≤ reach n index ∧ reach n index < n) := by
      unfold reach
      split <;> omega
    rw [dif_neg h, dif_neg hr]

/-- A removal turns the same place into the same position, and has its own two faults. -/
theorem removal_eq (n : Nat) (index : Int64) :
    removal n index = if hn : (n : Int) ≤ index.toInt then .error (.underflow index n)
      else if hb : index.toInt < -(n : Int) then .error (.outOfRange index n)
      else .ok (Pile.place n index (by omega)).rev := by
  unfold removal
  split
  · rfl
  · rename_i hn
    by_cases hb : index.toInt < -(n : Int)
    · have hr : reach n index < 0 := by
        unfold reach
        split <;> omega
      rw [dif_pos hb, dif_pos hr]
    · have hr : ¬reach n index < 0 := by
        unfold reach
        split <;> omega
      rw [dif_neg hb, dif_neg hr]
      rfl

end Position

/-! ## Slots from the top and from the bottom -/

namespace Slot

theorem get_reverse (slots : List Slot) (p : Fin slots.length) (q : Fin slots.reverse.length) (h : (q : Nat) = p) :
    slots.reverse.get q = slots.get p.rev := by
  simp only [List.get_eq_getElem, List.getElem_reverse, Fin.val_rev, h]
  congr 1
  omega

theorem eraseIdx_reverse (slots : List Slot) (p : Fin slots.length) :
    slots.reverse.eraseIdx p = (slots.eraseIdx p.rev).reverse := by
  have hp : (p.rev : Nat) + 1 = slots.length - p := by
    rw [Fin.val_rev]
    omega
  rw [List.eraseIdx_eq_take_drop_succ, List.eraseIdx_eq_take_drop_succ, List.reverse_append, List.take_reverse,
    List.drop_reverse, hp, Fin.val_rev]

theorem insertIdx_reverse (slots : List Slot) (slot : Slot) {n : Nat} (hn : n ≤ slots.length) :
    slots.reverse.take n ++ slot :: slots.reverse.drop n = (slots.insertIdx (slots.length - n) slot).reverse := by
  obtain ⟨below, above, hs, hlen, hi⟩ := List.exists_of_modifyTailIdx (List.cons slot) (Nat.sub_le slots.length n)
  have hn' : above.reverse.length = n := by
    rw [hs, List.length_append] at hn hlen
    rw [List.length_reverse]
    omega
  rw [List.insertIdx, hi, hs, List.reverse_append, List.take_left' hn', List.drop_left' hn', List.reverse_append,
    List.reverse_cons, List.append_assoc, List.singleton_append]

/-- A slot lifted from the pile at a place is the one as far from the other end, and the others stay in their order. -/
theorem lift_reverse (view : View) (slots : List Slot) (p : Fin slots.length) (q : Fin slots.reverse.length)
    (h : (q : Nat) = p) : Pile.lift view slots.reverse q =
      if view.accepts slots[p.rev].item.kind then .ok (slots[p.rev], (slots.eraseIdx p.rev).reverse)
      else .error (.mismatch view slots[p.rev].item.kind) := by
  simp only [Pile.lift, get_reverse slots p q h, h, eraseIdx_reverse]
  rfl

end Slot

/-! ## Calls -/

namespace Call

/-- A read finds the item that the pile shows at the index. -/
theorem look_eq (index : Int64) (slots : List Slot) :
    look index slots = (Pile.look index slots.reverse).map Slot.item := by
  simp only [look, Position.read_eq, Pile.look]
  by_cases h : -(slots.length : Int) ≤ index.toInt ∧ index.toInt < slots.length
  · have hr : -(slots.reverse.length : Int) ≤ index.toInt ∧ index.toInt < slots.reverse.length := by
      rwa [List.length_reverse]
    rw [dif_pos h, dif_pos hr, Slot.get_reverse slots (Pile.place _ index h) _ (by simp [Pile.place])]
    rfl
  · have hr : ¬(-(slots.reverse.length : Int) ≤ index.toInt ∧ index.toInt < slots.reverse.length) := by
      rwa [List.length_reverse]
    rw [dif_neg h, dif_neg hr, List.length_reverse]
    rfl

/-- A removal takes the slot that the pile gives up at the index, and the others stay in their order. -/
theorem take_eq (view : View) (index : Int64) (slots : List Slot) :
    take view index slots = (Pile.take view index slots.reverse).map (Prod.map id List.reverse) := by
  simp only [take, Position.removal_eq, Pile.take]
  by_cases hn : (slots.length : Int) ≤ index.toInt
  · have hr : (slots.reverse.length : Int) ≤ index.toInt := by rwa [List.length_reverse]
    rw [dif_pos hn, dif_pos hr, List.length_reverse]
    rfl
  · have hr : ¬(slots.reverse.length : Int) ≤ index.toInt := by rwa [List.length_reverse]
    rw [dif_neg hn, dif_neg hr]
    by_cases hb : index.toInt < -(slots.length : Int)
    · have hrb : index.toInt < -(slots.reverse.length : Int) := by rwa [List.length_reverse]
      rw [dif_pos hb, dif_pos hrb, List.length_reverse]
      rfl
    · have hrb : ¬index.toInt < -(slots.reverse.length : Int) := by rwa [List.length_reverse]
      have hp : -(slots.length : Int) ≤ index.toInt ∧ index.toInt < slots.length := by omega
      rw [dif_neg hb, dif_neg hrb, Slot.lift_reverse view slots (Pile.place _ index hp) _ (by simp [Pile.place])]
      simp only [bind, Except.bind]
      split
      · simp [Except.map]
      · rfl

/-- An insertion puts an owned slot where the pile has room for it. -/
theorem place_eq (index : Int64) (item : Item) (slots : List Slot) :
    place index item slots = (Pile.insert index (Cell.inserted item) slots.reverse).map List.reverse := by
  simp only [place, Position.insertion, Pile.insert, List.length_reverse]
  by_cases h : 0 ≤ index.toInt ∧ index.toInt ≤ slots.length
  · have hi : ¬(index.toInt < 0 ∨ (slots.length : Int) < index.toInt) := by omega
    rw [if_pos h, if_neg hi, Slot.insertIdx_reverse slots _ (by omega)]
    simp [Except.map, bind, Except.bind, Cell.inserted]
  · have hi : index.toInt < 0 ∨ (slots.length : Int) < index.toInt := by omega
    rw [if_neg h, if_pos hi]
    rfl

/-- A reversal turns the top of the pile over. -/
theorem turn_eq (count : Int64) (slots : List Slot) :
    turn count slots = (Pile.turn count slots.reverse).map List.reverse := by
  simp only [turn, Position.reversal, Pile.turn, List.length_reverse]
  by_cases h : 0 ≤ count.toInt ∧ count.toInt ≤ slots.length
  · have hi : ¬(count.toInt < 0 ∨ (slots.length : Int) < count.toInt) := by omega
    rw [if_pos h, if_neg hi]
    simp [Except.map, bind, Except.bind, List.take_reverse, List.drop_reverse]
  · have hi : count.toInt < 0 ∨ (slots.length : Int) < count.toInt := by omega
    rw [if_neg h, if_pos hi]
    rfl

theorem removal_pile (op : Journal.Op) (view : View) (index : Int64) (slots : List Slot) :
    Pile.removal .fault view index slots.reverse =
      ((removal op view index slots).reply, (removal op view index slots).slots.reverse) := by
  unfold removal Pile.removal
  rw [take_eq]
  cases Pile.take view index slots.reverse with
  | ok r => simp [Except.map, taken, Cell.item]
  | error fault => rfl

theorem tryRemoval_pile (view : View) (index : Int64) (slots : List Slot) :
    Pile.removal (fun _ => .missing) view index slots.reverse =
      ((tryRemoval view index slots).reply, (tryRemoval view index slots).slots.reverse) := by
  unfold tryRemoval Pile.removal
  rw [take_eq]
  cases Pile.take view index slots.reverse with
  | ok r => simp [Except.map, taken, Cell.item]
  | error fault => rfl

theorem reading_pile (index : Int64) (slots : List Slot) :
    Pile.reading .fault index slots.reverse =
      ((reading index slots).reply, (reading index slots).slots.reverse) := by
  unfold reading Pile.reading
  rw [look_eq]
  cases Pile.look index slots.reverse <;> rfl

/-- Every call answers what it answers on the pile, and leaves the slots that it leaves on the pile. -/
theorem effect_pile (slots : List Slot) (c : Call) :
    Pile.call slots.reverse c = ((c.effect slots).reply, (c.effect slots).slots.reverse) := by
  cases c with
  | push item => simp [Pile.call, effect, Cell.pushed]
  | insert index item =>
    simp only [Pile.call, effect, place_eq]
    cases Pile.insert index (Cell.inserted item) slots.reverse with
    | ok after => simp [Except.map]
    | error fault => rfl
  | pop => exact removal_pile _ _ _ _
  | popAs view => exact removal_pile _ _ _ _
  | tryPop => exact tryRemoval_pile _ _ _
  | tryPopAs view => exact tryRemoval_pile _ _ _
  | remove index view => exact removal_pile _ _ _ _
  | tryRemove index view => exact tryRemoval_pile _ _ _
  | peek index => exact reading_pile _ _
  | peekTop => exact reading_pile _ _
  | tryPeek index =>
    simp only [Pile.call, effect, Pile.reading, look_eq]
    cases Pile.look index slots.reverse <;> rfl
  | peekQuiet index =>
    simp only [Pile.call, effect, Pile.reading, look_eq]
    cases Pile.look index slots.reverse <;> rfl
  | reverse count =>
    simp only [Pile.call, effect, turn_eq]
    cases Pile.turn count slots.reverse with
    | ok after => simp [Except.map]
    | error fault => rfl
  | tryReverse count =>
    simp only [Pile.call, effect, turn_eq]
    cases Pile.turn count slots.reverse with
    | ok after => simp [Except.map]
    | error fault => rfl
  | clear => rfl

end Call

/-- A copy puts on the target's pile copies of the first cells of the source's. -/
theorem Stack.copyOnto_pile (source : Stack) (count : Option UInt64) (target : Stack) :
    (source.copyOnto count target).1.slots.reverse =
      Pile.copies count source.slots.reverse ++ target.slots.reverse := by
  rw [copyOnto_slots, List.reverse_append]
  congr 1
  rw [copies, ← List.map_reverse]
  cases count with
  | none => simp [copyCount, Pile.copies, depth, Cell.copied]
  | some n =>
    simp only [copyCount, Pile.copies, List.take_reverse, depth, Cell.copied]
    congr 3
    omega

/-! ## Worlds -/

/-- What stands on a seat, from the top down. -/
def Seat.pile (seat : Seat) : Pile Slot :=
  { cells := seat.stack.slots.reverse, counter := seat.counter, live := seat.live }

namespace World

/-- The slots of a world, from the top down. -/
def shelves (w : World) : Yard Slot :=
  { counters := w.counters.length, piles := w.seats.map Seat.pile }

/-- The items of a world, from the top down. -/
def items (w : World) : Yard Item :=
  { counters := w.counters.length
    piles := w.seats.map fun seat => { cells := seat.stack.fromTop, counter := seat.counter, live := seat.live } }

theorem items_eq (w : World) : w.items = w.shelves.map Slot.item := by
  simp [items, shelves, Yard.map, Pile.map, Seat.pile, Stack.fromTop, Stack.items]

theorem pile?_shelves (w : World) (i : Nat) : w.shelves.pile? i = (w.seat? i).map Seat.pile := by
  simp only [Yard.pile?, shelves, seat?, List.getElem?_map]
  cases w.seats[i]? with
  | none => rfl
  | some seat => cases h : seat.live <;> simp [Option.filter, Seat.pile, h]

theorem shelves_setStack (w : World) (i : Nat) (s : Stack) :
    (w.setStack i s).shelves = w.shelves.setCells i s.slots.reverse :=
  congrArg (Yard.mk w.counters.length) (modify_map Seat.pile w.seats i fun _ => rfl).symm

theorem shelves_setCounter (w : World) (k : Nat) (c : Counter) : (w.setCounter k c).shelves = w.shelves := by
  simp [shelves, setCounter]

theorem lt_counters_shelves {w : World} {k : Nat} {c : Counter} (hk : w.counters[k]? = some c) :
    k < w.shelves.counters :=
  (List.getElem?_eq_some_iff.mp hk).1

theorem not_lt_counters_shelves {w : World} {k : Nat} (hk : w.counters[k]? = none) : ¬k < w.shelves.counters :=
  Nat.not_lt.mpr (List.getElem?_eq_none_iff.mp hk)

/-- An action answers what it answers on the piles of slots, and leaves the piles that it leaves there; it is possible
where it is possible there. -/
theorem act_shelves (w : World) (a : Action) :
    (w.act a).map (fun t => (t.reply, t.world.shelves)) = w.shelves.act a := by
  cases a with
  | call i c =>
    simp only [act, Yard.act, pile?_shelves, Option.bind_eq_bind]
    cases w.seat? i with
    | none => rfl
    | some seat =>
      simp only [Option.map_some, Option.bind_some, Seat.pile]
      cases hk : w.counters[seat.counter]? with
      | none =>
        rw [if_neg (not_lt_counters_shelves hk)]
        rfl
      | some counter =>
        rw [if_pos (lt_counters_shelves hk), Call.effect_pile]
        simp only [Option.bind_some, Option.map_some, shelves_setCounter, shelves_setStack]
        rfl
  | copy i j count =>
    simp only [act, Yard.act, pile?_shelves, Option.bind_eq_bind]
    cases w.seat? i with
    | none => rfl
    | some source =>
      cases w.seat? j with
      | none => rfl
      | some target =>
        simp only [Option.map_some, Option.bind_some, Seat.pile]
        split
        · rfl
        · rw [← Stack.copyOnto_pile, ← shelves_setStack]
          rfl
  | clearJournal i =>
    simp only [act, Yard.act, pile?_shelves, Option.bind_eq_bind]
    cases h : w.seat? i with
    | none => rfl
    | some seat =>
      have hs : (w.setStack i seat.stack.clearJournal).shelves = w.shelves := by
        rw [shelves_setStack, show seat.stack.clearJournal.slots = seat.stack.slots from rfl, ← shelves_setStack,
          setStack_self (seat?_eq_some_iff.mp h).1]
      simp only [Option.bind_some, Option.map_some, hs]
  | create k journal =>
    simp only [act, Yard.act, Option.bind_eq_bind]
    cases hk : w.counters[k]? with
    | none =>
      rw [if_neg (not_lt_counters_shelves hk)]
      rfl
    | some counter =>
      rw [if_pos (lt_counters_shelves hk)]
      simp [shelves, Seat.pile, Stack.new]
  | discard i =>
    simp only [act, Yard.act, pile?_shelves, Option.bind_eq_bind]
    cases w.seat? i with
    | none => rfl
    | some seat =>
      have hm : (w.seats.map Seat.pile).modify i (fun p => { p with live := false }) =
          (w.seats.modify i fun seat => { seat with live := false }).map Seat.pile :=
        modify_map Seat.pile w.seats i fun _ => rfl
      exact congrArg (fun piles => some (Reply.done, Yard.mk w.counters.length piles)) hm.symm
  | notify k notice =>
    simp only [act, Yard.act, Option.bind_eq_bind]
    cases hk : w.counters[k]? with
    | none =>
      rw [if_neg (not_lt_counters_shelves hk)]
      rfl
    | some counter =>
      rw [if_pos (lt_counters_shelves hk)]
      simp [shelves_setCounter]

/-- The same for a run. -/
theorem run_shelves (w : World) (actions : List Action) :
    (w.run actions).map (fun h => (h.turns.map Turn.reply, h.world.shelves)) = w.shelves.run actions := by
  induction actions generalizing w with
  | nil => rfl
  | cons a rest ih =>
    simp only [run, Yard.run, ← act_shelves, Option.bind_eq_bind]
    cases w.act a with
    | none => rfl
    | some turn =>
      simp only [Option.bind_some, Option.map_some, ← ih]
      cases turn.world.run rest <;> rfl

/-- Every run of a world answers what the same run answers on the piles of its items, and leaves the items that it
leaves there; and there is a run of the world exactly where there is one of the piles. -/
theorem run_items (w : World) (actions : List Action) :
    (w.run actions).map (fun h => (h.turns.map Turn.reply, h.world.items)) = w.items.run actions := by
  rw [items_eq, Yard.run_map Slot.item_hom, ← run_shelves, Option.map_map]
  congr 1
  funext h
  simp [items_eq]

end World

end OperandStack
