import OperandStack.Proofs.Counting
import OperandStack.Proofs.Refinement

/-!
# The life of a slot

A tagged cell remembers how it was made. `Yard.heard` says from the tags what a counter is to hear of an action: one
addition for each cell that a push or an insertion makes, one removal for each such cell that leaves, and nothing of a
copied cell, wherever it goes. The stacks have no tags, only the mark that a slot is owned; `notices_trace` proves that
the mark travels with the slot, so that in every run each counter hears just that, in that order.
-/

namespace OperandStack

/-- How a cell was made. -/
inductive Origin where
  | pushed
  | inserted
  | copied
  deriving DecidableEq, Repr

/-- An item and how the cell that holds it was made. -/
structure Tagged where
  item : Item
  origin : Origin

instance : Cell Tagged where
  item := Tagged.item
  pushed x := { item := x, origin := .pushed }
  inserted x := { item := x, origin := .inserted }
  copied cell := { cell with origin := .copied }

namespace Tagged

/-- The slot of a tagged cell: a copied one is shared, any other one is owned. -/
def slot (cell : Tagged) : Slot :=
  { item := cell.item, owned := cell.origin != .copied }

theorem slot_hom : Cell.Hom slot :=
  ⟨fun _ => rfl, fun _ => rfl, fun _ => rfl, fun _ => rfl⟩

/-- What a counter is to hear when a cell leaves. -/
def release (cell : Tagged) : List Notice :=
  match cell.origin with
  | .pushed | .inserted => [.removed cell.item]
  | .copied => []

theorem release_slot (cell : Tagged) : cell.slot.release = cell.release := by
  obtain ⟨item, origin⟩ := cell
  cases origin <;> rfl

end Tagged

namespace Pile

/-- What a counter is to hear of a removal. -/
def leaving (view : View) (index : Int64) (cells : List Tagged) : List Notice :=
  match take view index cells with
  | .ok (cell, _) => cell.release
  | .error _ => []

/-- What a counter is to hear of a call on a pile. -/
def notices (cells : List Tagged) : Call → List Notice
  | .push x => [.added x]
  | .insert index x =>
    match insert index (Cell.inserted x) cells with
    | .ok _ => [.added x]
    | .error _ => []
  | .pop | .tryPop => leaving .any 0 cells
  | .popAs view | .tryPopAs view => leaving view 0 cells
  | .remove index view | .tryRemove index view => leaving view index cells
  | .clear => cells.reverse.flatMap Tagged.release
  | .peek _ | .peekTop | .tryPeek _ | .peekQuiet _ | .reverse _ | .tryReverse _ => []

end Pile

namespace Yard

/-- What a counter is to hear of an action. -/
def heard (y : Yard Tagged) (k : Nat) : Action → List Notice
  | .call i c =>
    match y.pile? i with
    | some pile => if pile.counter = k then Pile.notices pile.cells c else []
    | none => []
  | .notify j notice => if j = k then [notice] else []
  | .copy .. | .clearJournal _ | .create .. | .discard _ => []

/-- What a counter is to hear of actions in order. -/
def trace (y : Yard Tagged) (k : Nat) : List Action → List Notice
  | [] => []
  | a :: rest =>
    match y.act a with
    | some (_, next) => y.heard k a ++ next.trace k rest
    | none => []

end Yard

namespace Call

theorem removal_notices (op : Journal.Op) (view : View) (index : Int64) (cells : List Tagged) :
    (removal op view index (cells.map Tagged.slot).reverse).notices = Pile.leaving view index cells := by
  unfold removal Pile.leaving
  rw [take_eq, List.reverse_reverse, Pile.take_map Tagged.slot_hom]
  cases Pile.take view index cells with
  | ok r => exact Tagged.release_slot r.1
  | error fault => rfl

theorem tryRemoval_notices (view : View) (index : Int64) (cells : List Tagged) :
    (tryRemoval view index (cells.map Tagged.slot).reverse).notices = Pile.leaving view index cells := by
  unfold tryRemoval Pile.leaving
  rw [take_eq, List.reverse_reverse, Pile.take_map Tagged.slot_hom]
  cases Pile.take view index cells with
  | ok r => exact Tagged.release_slot r.1
  | error fault => rfl

/-- A call gives the notices that the tags of its cells ask for. -/
theorem effect_notices (cells : List Tagged) (c : Call) :
    (c.effect (cells.map Tagged.slot).reverse).notices = Pile.notices cells c := by
  cases c with
  | push item => rfl
  | insert index item =>
    simp only [effect, Pile.notices]
    rw [place_eq, List.reverse_reverse, ← Tagged.slot_hom.inserted, Pile.insert_map]
    cases Pile.insert index (Cell.inserted item) cells <;> rfl
  | pop => exact removal_notices _ _ _ _
  | popAs view => exact removal_notices _ _ _ _
  | tryPop => exact tryRemoval_notices _ _ _
  | tryPopAs view => exact tryRemoval_notices _ _ _
  | remove index view => exact removal_notices _ _ _ _
  | tryRemove index view => exact tryRemoval_notices _ _ _
  | peek index =>
    simp only [effect, reading]
    split <;> rfl
  | peekTop =>
    simp only [effect, reading]
    split <;> rfl
  | tryPeek index =>
    simp only [effect]
    split <;> rfl
  | peekQuiet index =>
    simp only [effect]
    split <;> rfl
  | reverse count =>
    simp only [effect]
    split <;> rfl
  | tryReverse count =>
    simp only [effect]
    split <;> rfl
  | clear =>
    simp only [effect, Pile.notices]
    rw [← List.map_reverse, List.flatMap_map]
    congr 1
    funext cell
    exact Tagged.release_slot cell

end Call

namespace World

/-! ## One action -/

/-- The slots of a seat whose pile has tags. -/
theorem slots_of_pile {p : Pile Tagged} {seat : Seat} (h : p.map Tagged.slot = seat.pile) :
    seat.stack.slots = (p.cells.map Tagged.slot).reverse :=
  List.reverse_eq_iff.mp (congrArg Pile.cells h).symm

/-- The pile of a seat in use, if the tagged piles are those of the world. -/
theorem pile?_of_seat? {w : World} {y : Yard Tagged} (hy : y.map Tagged.slot = w.shelves) {i : Nat} {seat : Seat}
    (hs : w.seat? i = some seat) : ∃ p, y.pile? i = some p ∧ p.counter = seat.counter ∧
      seat.stack.slots = (p.cells.map Tagged.slot).reverse := by
  have h := Yard.pile?_map Tagged.slot y i
  rw [hy, pile?_shelves, hs, Option.map_some, eq_comm, Option.map_eq_some_iff] at h
  obtain ⟨p, hp, he⟩ := h
  exact ⟨p, hp, congrArg Pile.counter he, slots_of_pile he⟩

/-- What an action does to the piles of a world it does to the tagged piles. -/
theorem act_tagged {w : World} {y : Yard Tagged} (hy : y.map Tagged.slot = w.shelves) {a : Action} {t : Turn}
    (h : w.act a = some t) : ∃ next, y.act a = some (t.reply, next) ∧ next.map Tagged.slot = t.world.shelves := by
  have hm := Yard.act_map Tagged.slot_hom y a
  rw [hy, ← act_shelves, h, Option.map_some, eq_comm, Option.map_eq_some_iff] at hm
  obtain ⟨⟨reply, next⟩, hn, he⟩ := hm
  obtain ⟨rfl, hnext⟩ := Prod.mk.inj he
  exact ⟨next, hn, hnext⟩

/-- A counter hears of an action what the tags ask for. -/
theorem act_heard {w : World} {y : Yard Tagged} (hy : y.map Tagged.slot = w.shelves) {a : Action} {t : Turn}
    (h : w.act a = some t) {k : Nat} {c : Counter} (hk : w.counters[k]? = some c) :
    t.world.counters[k]? = some (Listener.receiveAll c (y.heard k a)).1 := by
  cases a with
  | call i call =>
    obtain ⟨seat, counter, hs, hc, rfl⟩ := act_call_iff.mp h
    obtain ⟨p, hp, hpk, hslots⟩ := pile?_of_seat? hy hs
    rw [getElem?_counters_setCounter (w := w.setStack i (seat.stack.call counter call).stack) hc]
    simp only [Yard.heard, hp, hpk]
    split
    · rename_i he
      rw [he, hk] at hc
      cases hc
      rw [Stack.call_listener, hslots, Call.effect_notices]
    · exact hk
  | copy i j count =>
    obtain ⟨source, target, -, -, -, rfl⟩ := act_copy_iff.mp h
    exact hk
  | clearJournal i =>
    obtain ⟨seat, -, rfl⟩ := act_clearJournal_iff.mp h
    exact hk
  | create j journal =>
    obtain ⟨-, rfl⟩ := act_create_iff.mp h
    exact hk
  | discard i =>
    obtain ⟨-, rfl⟩ := act_discard_iff.mp h
    exact hk
  | notify j notice =>
    obtain ⟨counter, hc, rfl⟩ := act_notify_iff.mp h
    rw [getElem?_counters_setCounter hc]
    simp only [Yard.heard]
    split
    · rename_i he
      rw [he, hk] at hc
      cases hc
      rfl
    · exact hk

/-- The number of shared slots is the number of copied cells. -/
theorem sharedCount_eq {w : World} {y : Yard Tagged} (hy : y.map Tagged.slot = w.shelves) {i : Nat} {seat : Seat}
    (hs : w.seats[i]? = some seat) : ∃ p, y.piles[i]? = some p ∧
      seat.stack.sharedCount = p.cells.countP fun cell => cell.origin == .copied := by
  have h : (y.map Tagged.slot).piles[i]? = w.shelves.piles[i]? := by rw [hy]
  simp only [Yard.map, shelves, List.getElem?_map, hs, Option.map_some, Option.map_eq_some_iff] at h
  obtain ⟨p, hp, he⟩ := h
  refine ⟨p, hp, ?_⟩
  rw [Stack.sharedCount, slots_of_pile he, List.countP_reverse, List.countP_map]
  congr 1
  funext cell
  obtain ⟨item, origin⟩ := cell
  cases origin <;> rfl

/-! ## Runs -/

/-- A run of a world whose piles have tags is a run of the tagged piles, and each counter hears what these ask for. -/
theorem run_tagged {w : World} {y : Yard Tagged} (hy : y.map Tagged.slot = w.shelves) {actions : List Action}
    {h : History} (hr : w.run actions = some h) :
    ∃ last, y.run actions = some (h.turns.map Turn.reply, last) ∧ last.map Tagged.slot = h.world.shelves ∧
      ∀ k c, w.counters[k]? = some c →
        h.world.counters[k]? = some (Listener.receiveAll c (y.trace k actions)).1 := by
  induction actions generalizing w y h with
  | nil =>
    cases hr
    exact ⟨y, rfl, hy, fun k c hk => hk⟩
  | cons a rest ih =>
    obtain ⟨turn, history, ht, hr', rfl⟩ := run_cons_iff.mp hr
    obtain ⟨next, hn, hnext⟩ := act_tagged hy ht
    obtain ⟨last, hl, hlast, hheard⟩ := ih hnext hr'
    refine ⟨last, ?_, hlast, fun k c hk => ?_⟩
    · simp only [Yard.run, hn, Option.bind_eq_bind, Option.bind_some, hl, List.map_cons]
    · rw [Yard.trace, hn, Listener.receiveAll_append]
      exact hheard k _ (act_heard hy ht hk)

/-- In every run from no stacks on, tagging each slot with how it was made is a run of tagged piles with the same
answers and the same slots; every counter, whatever it does with its notices, hears the trace that the tags ask for, a
recording one has it in its record; and the shared slots of a stack are its copied cells, as many as it says. -/
theorem notices_trace (counters : List Counter) (actions : List Action) (h : History)
    (hr : (start counters).run actions = some h) :
    ∃ last : Yard Tagged, (Yard.bare counters.length).run actions = some (h.turns.map Turn.reply, last) ∧
      last.map Tagged.slot = h.world.shelves ∧
      (∀ (k : Nat) (c : Counter), counters[k]? = some c →
        h.world.counters[k]? = some (Listener.receiveAll c ((Yard.bare counters.length).trace k actions)).1) ∧
      (∀ (k : Nat) (heard : List Notice), counters[k]? = some (.recording heard) →
        h.world.counters[k]? = some (.recording (heard ++ (Yard.bare counters.length).trace k actions))) ∧
      ∀ (i : Nat) (seat : Seat), h.world.seats[i]? = some seat → ∃ p : Pile Tagged, last.piles[i]? = some p ∧
        seat.stack.sharedCount = p.cells.countP fun cell => cell.origin == .copied := by
  have hy : (Yard.bare counters.length : Yard Tagged).map Tagged.slot = (start counters).shelves := rfl
  obtain ⟨last, hl, hlast, hheard⟩ := run_tagged hy hr
  refine ⟨last, hl, hlast, hheard, fun k heard hk => ?_, fun i seat hs => sharedCount_eq hlast hs⟩
  have hrec := hheard k _ hk
  rwa [Listener.receiveAll_recording] at hrec

/-- Two items, one pushed and one inserted below it, are copied to another stack and turned over there with a pushed
one; one of the copies is removed and the other copied back before both stacks are cleared. -/
def copiedThereAndBack : List Action :=
  [.create 0 true, .create 1 true, .call 0 (.push ⟨0, .null⟩), .call 0 (.insert 1 ⟨1, .boolean true⟩), .copy 0 1 none,
    .call 1 (.push ⟨2, .integer 7⟩), .call 1 (.reverse 3), .call 1 (.remove 0 (.only .boolean)), .copy 1 0 (some 1),
    .call 0 .clear, .call 1 .clear]

theorem notices_trace_copiedThereAndBack :
    ∃ h : History, (start [.recording [], .recording []]).run copiedThereAndBack = some h ∧
      h.world.counters[0]? = some (.recording [.added ⟨0, .null⟩, .added ⟨1, .boolean true⟩,
        .removed ⟨1, .boolean true⟩, .removed ⟨0, .null⟩]) ∧
      h.world.counters[1]? = some (.recording [.added ⟨2, .integer 7⟩, .removed ⟨2, .integer 7⟩]) := by
  have hsome : ((start [.recording [], .recording []]).run copiedThereAndBack).isSome = true := rfl
  obtain ⟨h, hr⟩ := Option.isSome_iff_exists.mp hsome
  obtain ⟨last, -, -, -, hrec, -⟩ := notices_trace _ _ h hr
  have hfirst : (Yard.bare 2).trace 0 copiedThereAndBack =
      [.added ⟨0, .null⟩, .added ⟨1, .boolean true⟩, .removed ⟨1, .boolean true⟩, .removed ⟨0, .null⟩] := rfl
  have hsecond : (Yard.bare 2).trace 1 copiedThereAndBack = [.added ⟨2, .integer 7⟩, .removed ⟨2, .integer 7⟩] := rfl
  refine ⟨h, hr, ?_, ?_⟩
  · rw [hrec 0 [] rfl, List.nil_append, ← hfirst]
    rfl
  · rw [hrec 1 [] rfl, List.nil_append, ← hsecond]
    rfl

end World

end OperandStack
