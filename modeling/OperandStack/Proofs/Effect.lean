import Mathlib.Data.List.Perm.Basic
import OperandStack.Stack.Call
import OperandStack.Stack.Copy

/-!
# What a call may do to the slots

The fifteen calls change the slots in five ways only (`Change`), and each way fixes what the counter hears of it.
`effect_change` is the one place where the calls are taken apart for this; from it follows how the items in owned slots
change (`Change.owned_perm`), which is all that an account of references needs to know about a call. What a call does
to the journal is one equation (`Stack.recorded_eq`).
-/

namespace OperandStack

/-- The ways in which a call may change slots, with the notices that go with each. -/
inductive Change (slots : List Slot) : List Notice → List Slot → Prop where
  | kept : Change slots [] slots
  | placed (n : Nat) (item : Item) (hn : n ≤ slots.length) : Change slots [.added item] (slots.insertIdx n { item })
  | taken (n : Nat) (hn : n < slots.length) : Change slots slots[n].release (slots.eraseIdx n)
  | turned (n : Nat) : Change slots [] (slots.take n ++ (slots.drop n).reverse)
  | emptied : Change slots (slots.flatMap Slot.release) []

/-- The items in the owned slots among some, the bottom first. -/
def Slot.ownedItems (slots : List Slot) : List Item :=
  (slots.filter Slot.owned).map Slot.item

/-- The events that counters report. -/
def Event.ofCounter : Event → Bool
  | strayRemoval _ | ceilingCrossed .. => true
  | _ => false

namespace Call

/-! ## The parts of calls that can fail -/

/-- A slot that can be taken is one of the slots, and the others stay. -/
theorem take_eq_ok {view : View} {index : Int64} {slots rest : List Slot} {slot : Slot}
    (h : take view index slots = .ok (slot, rest)) :
    ∃ n, ∃ hn : n < slots.length, slot = slots[n] ∧ rest = slots.eraseIdx n := by
  simp only [take, bind, Except.bind] at h
  split at h
  · cases h
  · rename_i position _
    split at h
    · cases h
      exact ⟨position, position.isLt, rfl, rfl⟩
    · cases h

/-- An insertion that succeeds puts an owned slot between two neighbours or at an end. -/
theorem place_eq_ok {index : Int64} {item : Item} {slots after : List Slot} (h : place index item slots = .ok after) :
    ∃ n, n ≤ slots.length ∧ after = slots.insertIdx n { item } := by
  simp only [place, Position.insertion, bind, Except.bind] at h
  split at h
  · cases h
  · rename_i position hp
    split at hp
    · cases hp
    · cases hp
      cases h
      exact ⟨_, Nat.sub_le _ _, rfl⟩

/-- A reversal that succeeds turns over the slots from some position on. -/
theorem turn_eq_ok {count : Int64} {slots after : List Slot} (h : turn count slots = .ok after) :
    ∃ n, after = slots.take n ++ (slots.drop n).reverse := by
  simp only [turn, bind, Except.bind] at h
  split at h
  · cases h
  · cases h
    exact ⟨_, rfl⟩

/-! ## The effects -/

/-- A removal takes a slot or keeps all, whichever form it has. -/
theorem removal_change (op : Journal.Op) (view : View) (index : Int64) (slots : List Slot) :
    Change slots (removal op view index slots).notices (removal op view index slots).slots := by
  unfold removal
  split
  · rename_i slot rest h
    obtain ⟨n, hn, rfl, rfl⟩ := take_eq_ok h
    exact .taken n hn
  · exact .kept

theorem tryRemoval_change (view : View) (index : Int64) (slots : List Slot) :
    Change slots (tryRemoval view index slots).notices (tryRemoval view index slots).slots := by
  unfold tryRemoval
  split
  · rename_i slot rest h
    obtain ⟨n, hn, rfl, rfl⟩ := take_eq_ok h
    exact .taken n hn
  · exact .kept

/-- A read keeps the slots. -/
theorem reading_change (index : Int64) (slots : List Slot) :
    Change slots (reading index slots).notices (reading index slots).slots := by
  unfold reading
  split <;> exact .kept

/-- Every call changes the slots in one of the five ways. -/
theorem effect_change (slots : List Slot) (c : Call) :
    Change slots (c.effect slots).notices (c.effect slots).slots := by
  cases c with
  | push item =>
    have h := Change.placed slots.length item (Nat.le_refl slots.length)
    rwa [List.insertIdx_length_self] at h
  | insert index item =>
    simp only [effect]
    split
    · rename_i after h
      obtain ⟨n, hn, rfl⟩ := place_eq_ok h
      exact .placed n item hn
    · exact .kept
  | pop => exact removal_change _ _ _ _
  | popAs view => exact removal_change _ _ _ _
  | tryPop => exact tryRemoval_change _ _ _
  | tryPopAs view => exact tryRemoval_change _ _ _
  | remove index view => exact removal_change _ _ _ _
  | tryRemove index view => exact tryRemoval_change _ _ _
  | peek index => exact reading_change _ _
  | peekTop => exact reading_change _ _
  | tryPeek index =>
    simp only [effect]
    split <;> exact .kept
  | peekQuiet index =>
    simp only [effect]
    split <;> exact .kept
  | reverse count =>
    simp only [effect]
    split
    · rename_i after h
      obtain ⟨n, rfl⟩ := turn_eq_ok h
      exact .turned n
    · exact .kept
  | tryReverse count =>
    simp only [effect]
    split
    · rename_i after h
      obtain ⟨n, rfl⟩ := turn_eq_ok h
      exact .turned n
    · exact .kept
  | clear => exact .emptied

/-- What a call reports of itself is no event of a counter. -/
theorem event_not_ofCounter {slots : List Slot} {c : Call} {e : Event} (h : (c.effect slots).event = some e) :
    e.ofCounter = false := by
  cases c with
  | push item => cases h; rfl
  | clear => cases h; rfl
  | _ =>
    simp only [effect, removal, tryRemoval, reading, taken, refused, declined] at h
    split at h <;> cases h <;> rfl

end Call

/-! ## Journals -/

namespace Journal

/-- A journal with more records at its end, if it takes any. -/
def extended (j : Journal) (records : List Record) : Journal :=
  { j with records := j.records ++ if j.enabled then records else [] }

@[simp]
theorem extended_nil (j : Journal) : j.extended [] = j := by
  rw [extended, ite_self, List.append_nil]

@[simp]
theorem extended_extended (j : Journal) (first second : List Record) :
    (j.extended first).extended second = j.extended (first ++ second) := by
  obtain ⟨records, enabled⟩ := j
  cases enabled <;> simp [extended]

/-- A journal that is off stays as it is. -/
theorem extended_of_disabled {j : Journal} (h : j.enabled = false) (records : List Record) : j.extended records = j := by
  rw [extended, if_neg (by simp [h]), List.append_nil]

/-- A record that a journal takes is one more record. -/
theorem record_eq (j : Journal) (r : Record) : j.record r = j.extended [r] := by
  rw [record, extended]
  split
  · rfl
  · rw [List.append_nil]

end Journal

namespace Stack

/-- A call extends the journal of its stack by its record, if it leaves one. -/
theorem recorded_eq (s : Stack) (c : Call) : s.recorded c = s.journal.extended c.record.toList := by
  rw [recorded]
  cases c.record with
  | none => exact s.journal.extended_nil.symm
  | some r => exact s.journal.record_eq r

/-! ## Copies -/

/-- A copy puts the copied slots on top of the target, no slots if there are none to copy. -/
theorem copyOnto_slots (source : Stack) (count : Option UInt64) (target : Stack) :
    (source.copyOnto count target).1.slots = target.slots ++ source.copies (source.copyCount count) := by
  simp only [copyOnto]
  split
  · rename_i h
    simp [h, copies, depth]
  · rfl

/-- No journal records a copy. -/
theorem copyOnto_journal (source : Stack) (count : Option UInt64) (target : Stack) :
    (source.copyOnto count target).1.journal = target.journal := by
  simp only [copyOnto]
  split <;> rfl

/-- A copy reports nothing but itself. -/
theorem copyOnto_event_ne_strayRemoval (source : Stack) (count : Option UInt64) (target : Stack) (item : Item) :
    (source.copyOnto count target).2 ≠ some (.strayRemoval item) := by
  simp only [copyOnto]
  split <;> simp

/-! ## Calls with a listener -/

variable {κ : Type} [Listener κ]

/-- The listener of a call hears the notices of its effect. -/
theorem call_listener (s : Stack) (k : κ) (c : Call) :
    (s.call k c).listener = (Listener.receiveAll k (c.effect s.slots).notices).1 := rfl

/-- The listener reports before the call does. -/
theorem call_events (s : Stack) (k : κ) (c : Call) :
    (s.call k c).events = (Listener.receiveAll k (c.effect s.slots).notices).2 ++ (c.effect s.slots).event.toList := rfl

end Stack

/-! ## The items in owned slots -/

namespace Slot

@[simp]
theorem ownedItems_append (a b : List Slot) : ownedItems (a ++ b) = ownedItems a ++ ownedItems b := by
  simp [ownedItems]

/-- An owned slot is the first of the owned ones, a shared slot is passed over. -/
theorem ownedItems_cons (s : Slot) (rest : List Slot) :
    ownedItems (s :: rest) = if s.owned then s.item :: ownedItems rest else ownedItems rest := by
  unfold ownedItems
  rw [List.filter_cons]
  split <;> rfl

theorem ownedItems_perm {a b : List Slot} (h : a.Perm b) : (ownedItems a).Perm (ownedItems b) :=
  (h.filter _).map _

/-- The slots that a copy makes are all shared. -/
theorem ownedItems_copies (s : Stack) (n : Nat) : ownedItems (s.copies n) = [] := by
  have h : (s.copies n).filter Slot.owned = [] := by
    rw [List.filter_eq_nil_iff]
    intro slot hs
    obtain ⟨_, _, rfl⟩ := List.mem_map.mp hs
    simp
  rw [ownedItems, h, List.map_nil]

/-- Releasing a slot removes its item if the slot is owned. -/
theorem release_eq (s : Slot) : s.release = (ownedItems [s]).map .removed := by
  rw [ownedItems_cons, release]
  split <;> rfl

/-- Releasing slots removes the items of the owned ones in their order. -/
theorem flatMap_release (slots : List Slot) : slots.flatMap release = (ownedItems slots).map .removed := by
  induction slots with
  | nil => rfl
  | cons s rest ih =>
    rw [List.flatMap_cons, ih, release_eq, ← List.map_append, ← ownedItems_append, List.singleton_append]

end Slot

/-- What a change does to the slots: an owned one comes and its item is announced, or some go and are released. -/
theorem Change.slots_perm {slots after : List Slot} {notices : List Notice} (h : Change slots notices after) :
    (∃ item, notices = [.added item] ∧ after.Perm ({ item } :: slots)) ∨
      ∃ gone, notices = gone.flatMap Slot.release ∧ slots.Perm (gone ++ after) := by
  cases h with
  | kept => exact Or.inr ⟨[], rfl, List.Perm.refl _⟩
  | placed n item hn => exact Or.inl ⟨item, rfl, List.perm_insertIdx _ slots hn⟩
  | taken n hn =>
    refine Or.inr ⟨[slots[n]], ?_, (List.getElem_cons_eraseIdx_perm hn).symm⟩
    rw [List.flatMap_cons, List.flatMap_nil, List.append_nil]
  | turned n =>
    refine Or.inr ⟨[], rfl, ?_⟩
    have hp := List.Perm.append_left (slots.take n) (List.reverse_perm (slots.drop n))
    rw [List.take_append_drop] at hp
    exact hp.symm
  | emptied => exact Or.inr ⟨slots, rfl, by rw [List.append_nil]⟩

/-- What a change does to the items in owned slots: one comes and is announced, or some go and are announced. -/
theorem Change.owned_perm {slots after : List Slot} {notices : List Notice} (h : Change slots notices after) :
    (∃ item, notices = [.added item] ∧ (Slot.ownedItems after).Perm (item :: Slot.ownedItems slots)) ∨
      ∃ items, notices = items.map .removed ∧ (Slot.ownedItems slots).Perm (items ++ Slot.ownedItems after) := by
  rcases h.slots_perm with ⟨item, hn, hp⟩ | ⟨gone, hn, hp⟩
  · have howned := Slot.ownedItems_perm hp
    rw [Slot.ownedItems_cons, if_pos rfl] at howned
    exact Or.inl ⟨item, hn, howned⟩
  · have howned := Slot.ownedItems_perm hp
    rw [Slot.ownedItems_append] at howned
    exact Or.inr ⟨Slot.ownedItems gone, hn.trans (Slot.flatMap_release gone), howned⟩

end OperandStack
