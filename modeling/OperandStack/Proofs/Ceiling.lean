import OperandStack.Proofs.Failure
import OperandStack.Proofs.Placement
import OperandStack.Proofs.Refinement

/-!
# The ceiling on references

The ceiling is checked after a line and not inside it. A line that makes the main stack deeper adds one item at the end
of what it does (`Command.Grows`, `Machine.execute_of_grows`); any other line never has more references than before it,
not even on the way (`Machine.execute_falls`), because a compound push of some items lets go of as many references before
it adds one. So the check misses nothing: before the line that exceeds the ceiling there are as many references as it
allows, after it there is one more, and the highest count of any other run is below it (`Machine.Under.step_cases`).
-/

namespace OperandStack

/-! ## Tallies -/

namespace Tally

/-- One tally is left of the other by removals at most: it counts no more references and never did. -/
structure Falls (t after : Tally) : Prop where
  references_le : after.references ≤ t.references
  peak : after.peak = t.peak
  limit : after.limit = t.limit

theorem Falls.refl (t : Tally) : t.Falls t :=
  ⟨Nat.le_refl _, rfl, rfl⟩

theorem Falls.trans {t between after : Tally} (h : t.Falls between) (h' : between.Falls after) : t.Falls after :=
  ⟨h'.references_le.trans h.references_le, h'.peak.trans h.peak, h'.limit.trans h.limit⟩

theorem falls_remove (t : Tally) (item : Item) : t.Falls (t.remove item).1 := by
  simp only [remove]
  split
  · exact ⟨Nat.le_refl _, rfl, rfl⟩
  · exact ⟨Nat.sub_le _ _, rfl, rfl⟩

theorem falls_receiveAll (t : Tally) (items : List Item) : t.Falls (Listener.receiveAll t (items.map .removed)).1 := by
  induction items generalizing t with
  | nil => exact Falls.refl t
  | cons item rest ih =>
    rw [List.map_cons, Listener.receiveAll_cons]
    exact (falls_remove t item).trans (ih _)

end Tally

/-! ## Calls -/

namespace Position

variable (depth : Nat) (index : Int64) (n limit : Nat)

theorem read_ne_overLimit : read depth index ≠ .error (.overLimit n limit) := by
  unfold read
  split <;> simp

theorem removal_ne_overLimit : removal depth index ≠ .error (.overLimit n limit) := by
  unfold removal
  split
  · simp
  · split <;> simp

theorem insertion_ne_overLimit : insertion depth index ≠ .error (.overLimit n limit) := by
  unfold insertion
  split <;> simp

theorem reversal_ne_overLimit : reversal depth index ≠ .error (.overLimit n limit) := by
  unfold reversal
  split <;> simp

end Position

namespace Call

variable (n limit : Nat)

theorem take_ne_overLimit (view : View) (index : Int64) (slots : List Slot) :
    take view index slots ≠ .error (.overLimit n limit) := by
  have hposition := Position.removal_ne_overLimit slots.length index n limit
  unfold take
  cases hp : Position.removal slots.length index with
  | error f =>
    rw [hp] at hposition
    intro h
    cases h
    exact hposition rfl
  | ok position =>
    simp only [bind, Except.bind]
    split <;> simp

theorem look_ne_overLimit (index : Int64) (slots : List Slot) : look index slots ≠ .error (.overLimit n limit) := by
  have hposition := Position.read_ne_overLimit slots.length index n limit
  unfold look
  cases hp : Position.read slots.length index with
  | error f =>
    rw [hp] at hposition
    intro h
    cases h
    exact hposition rfl
  | ok position =>
    intro h
    cases h

theorem place_ne_overLimit (index : Int64) (item : Item) (slots : List Slot) :
    place index item slots ≠ .error (.overLimit n limit) := by
  have hposition := Position.insertion_ne_overLimit slots.length index n limit
  unfold place
  cases hp : Position.insertion slots.length index with
  | error f =>
    rw [hp] at hposition
    intro h
    cases h
    exact hposition rfl
  | ok position =>
    intro h
    cases h

theorem turn_ne_overLimit (count : Int64) (slots : List Slot) : turn count slots ≠ .error (.overLimit n limit) := by
  have hposition := Position.reversal_ne_overLimit slots.length count n limit
  unfold turn
  cases hp : Position.reversal slots.length count with
  | error f =>
    rw [hp] at hposition
    intro h
    cases h
    exact hposition rfl
  | ok position =>
    intro h
    cases h

theorem removal_reply_ne_overLimit (op : Journal.Op) (view : View) (index : Int64) (slots : List Slot) :
    (removal op view index slots).reply ≠ .fault (.overLimit n limit) := by
  unfold removal
  split
  · intro h
    cases h
  · rename_i f hf
    intro h
    cases h
    exact take_ne_overLimit n limit view index slots hf

/-- No call answers that there are too many references. -/
theorem reply_ne_overLimit (slots : List Slot) (c : Call) :
    (c.effect slots).reply ≠ .fault (.overLimit n limit) := by
  have hread : ∀ index, (reading index slots).reply ≠ .fault (.overLimit n limit) := by
    intro index
    unfold reading
    split
    · intro h
      cases h
    · rename_i f hf
      intro h
      cases h
      exact look_ne_overLimit n limit index slots hf
  cases c with
  | insert index item =>
    simp only [effect]
    split
    · intro h
      cases h
    · rename_i f hf
      intro h
      cases h
      exact place_ne_overLimit n limit index item slots hf
  | pop => exact removal_reply_ne_overLimit n limit _ _ _ _
  | popAs view => exact removal_reply_ne_overLimit n limit _ _ _ _
  | remove index view => exact removal_reply_ne_overLimit n limit _ _ _ _
  | peek index => exact hread index
  | peekTop => exact hread 0
  | peekQuiet index =>
    simp only [effect]
    split
    · intro h
      cases h
    · rename_i f hf
      intro h
      cases h
      exact look_ne_overLimit n limit index slots hf
  | reverse count =>
    simp only [effect]
    split
    · intro h
      cases h
    · rename_i f hf
      intro h
      cases h
      exact turn_ne_overLimit n limit count slots hf
  | push item =>
    intro h
    cases h
  | clear =>
    intro h
    cases h
  | _ =>
    simp only [effect, tryRemoval]
    split <;>
      · intro h
        cases h

/-- A call that brings no item gives notice of removals only. -/
theorem notices_of_item?_eq_none {c : Call} (hc : c.item? = none) (slots : List Slot) :
    ∃ items : List Item, (c.effect slots).notices = items.map .removed := by
  rcases (effect_change slots c).slots_perm with ⟨item, hn, -⟩ | ⟨gone, hn, -⟩
  · have hitem := item?_of_notices_eq hn
    rw [hc] at hitem
    cases hitem
  · exact ⟨Slot.ownedItems gone, hn.trans (Slot.flatMap_release gone)⟩

/-- The slots after an insertion at an index from `0` to the depth, read from the top. -/
theorem effect_insert_of_le {index : Int64} {slots : List Slot} (h : 0 ≤ index.toInt ∧ index.toInt ≤ slots.length)
    (item : Item) : (effect slots (.insert index item)).reply = .done ∧
      (effect slots (.insert index item)).notices = [.added item] ∧
      (effect slots (.insert index item)).slots.reverse =
        slots.reverse.take index.toInt.toNat ++ { item } :: slots.reverse.drop index.toInt.toNat := by
  have hr : 0 ≤ index.toInt ∧ index.toInt ≤ slots.reverse.length := by rwa [List.length_reverse]
  have hplace : place index item slots = .ok
      (slots.reverse.take index.toInt.toNat ++ { item } :: slots.reverse.drop index.toInt.toNat).reverse := by
    rw [place_eq, Pile.insert, if_pos hr]
    rfl
  simp only [effect, hplace, List.reverse_reverse, and_self]

/-- An insertion at any other index fails. -/
theorem effect_insert_of_not_le {index : Int64} {slots : List Slot}
    (h : ¬(0 ≤ index.toInt ∧ index.toInt ≤ slots.length)) (item : Item) :
    (effect slots (.insert index item)).reply.Failed := by
  have hr : ¬(0 ≤ index.toInt ∧ index.toInt ≤ slots.reverse.length) := by rwa [List.length_reverse]
  have hplace : place index item slots = .error (.outOfRange index slots.reverse.length) := by
    rw [place_eq, Pile.insert, if_neg hr]
    rfl
  simp only [effect, hplace]
  trivial

end Call

/-! ## Lines -/

/-- A command that makes a stack deeper, with the place from the top and the value of the item that it adds: a push of a
literal, an insertion at an index that the depth allows, a compound push of no items. -/
inductive Command.Grows (depth : Nat) : Command → Nat → Value Item → Prop where
  | push (literal : Literal) : Grows depth (.push literal) 0 literal.value
  | insert (index : Int64) (literal : Literal) : 0 ≤ index.toInt → index.toInt ≤ depth →
      Grows depth (.insert index literal) index.toInt.toNat literal.value
  | array : Grows depth (.pushArray 0) 0 (.array [])
  | struct : Grows depth (.pushStruct 0) 0 (.struct [])

namespace Machine

/-- One machine is the other with one more item, at a place from the top, and counted. -/
structure Grown (m after : Machine) (place : Nat) (item : Item) : Prop where
  stack : after.main.fromTop = m.main.fromTop.take place ++ item :: m.main.fromTop.drop place
  target : after.target = m.target
  tally : after.tally = (m.tally.add item).1
  observations : after.observations = m.observations

/-- A push puts its item on top. -/
theorem grown_push (m : Machine) (supply : Nat → Nat) (value : Value Item) :
    Grown m ((m.create supply value).2.change (.push ⟨supply m.created, value⟩)).2 0 ⟨supply m.created, value⟩ := by
  rw [change_eq]
  refine ⟨?_, rfl, rfl, rfl⟩
  change ((m.main.slots ++ [_]).map Slot.item).reverse = _
  rw [List.map_append, List.reverse_append]
  rfl

/-- A compound push of no items is a push. -/
theorem grown_wrapped_zero (m : Machine) (supply : Nat → Nat) (compound : List Item → Value Item) :
    Grown m (m.wrapped supply 0 compound) 0 ⟨supply m.created, compound []⟩ := by
  have hnone : m.main.items.drop (m.main.depth - 0) = [] :=
    List.drop_of_length_le (by simp [Stack.items, Stack.depth])
  have hpush := grown_push m supply (compound [])
  rw [change_eq] at hpush
  rw [wrapped, hnone]
  exact hpush

/-- An insertion puts its item at its index. -/
theorem grown_insert {m : Machine} {index : Int64} (h0 : 0 ≤ index.toInt) (hd : index.toInt ≤ m.main.depth)
    (supply : Nat → Nat) (value : Value Item) :
    ((m.create supply value).2.change (.insert index ⟨supply m.created, value⟩)).1 = .ok () ∧
      Grown m ((m.create supply value).2.change (.insert index ⟨supply m.created, value⟩)).2 index.toInt.toNat
        ⟨supply m.created, value⟩ := by
  obtain ⟨hreply, hnotices, hslots⟩ := Call.effect_insert_of_le ⟨h0, hd⟩ ⟨supply m.created, value⟩
  rw [change_eq]
  refine ⟨?_, ?_, rfl, ?_, rfl⟩
  · change (Call.effect m.main.slots _).reply.outcome = _
    rw [hreply]
    rfl
  · change ((Call.effect m.main.slots _).slots.map Slot.item).reverse = _
    rw [← List.map_reverse, hslots, List.map_append, List.map_cons, List.map_take, List.map_drop, List.map_reverse]
    rfl
  · change (Listener.receiveAll m.tally (Call.effect m.main.slots _).notices).1 = _
    rw [hnotices]
    rfl

/-- A command that makes the main stack deeper passes and adds one item. -/
theorem execute_of_grows {m : Machine} {line : Line} {place : Nat} {value : Value Item}
    (h : line.command.Grows m.main.depth place value) (supply : Nat → Nat) :
    ∃ after, m.execute supply line = (.ok (), after) ∧ m.Grown after place ⟨supply m.created, value⟩ := by
  obtain ⟨number, command⟩ := line
  cases h with
  | push literal => exact ⟨_, rfl, grown_push m supply literal.value⟩
  | insert index literal h0 hd =>
    obtain ⟨hok, hgrown⟩ := grown_insert h0 hd supply literal.value
    exact ⟨_, Prod.ext hok rfl, hgrown⟩
  | array => exact ⟨_, wrap_of_le (Nat.zero_le _) supply .array, grown_wrapped_zero m supply .array⟩
  | struct => exact ⟨_, wrap_of_le (Nat.zero_le _) supply .struct, grown_wrapped_zero m supply .struct⟩

/-- The announcement of the line makes no difference to that. -/
theorem announced_of_grows {m : Machine} {line : Line} {place : Nat} {value : Value Item}
    (h : line.command.Grows m.main.depth place value) (supply : Nat → Nat) :
    ∃ after, (m.announced line).execute supply line = (.ok (), after) ∧
      m.Grown after place ⟨supply m.created, value⟩ := by
  obtain ⟨after, he, hstack, htarget, htally, hobservations⟩ := execute_of_grows (m := m.announced line) h supply
  exact ⟨after, he, hstack, htarget, htally, hobservations⟩

theorem falls_call (m : Machine) {c : Call} (hc : c.item? = none) : m.tally.Falls (m.call c).2.tally := by
  obtain ⟨items, hn⟩ := Call.notices_of_item?_eq_none hc m.main.slots
  change m.tally.Falls (Listener.receiveAll m.tally (Call.effect m.main.slots c).notices).1
  rw [hn]
  exact Tally.falls_receiveAll m.tally items

theorem falls_change (m : Machine) {c : Call} (hc : c.item? = none) : m.tally.Falls (m.change c).2.tally := by
  rw [change_eq]
  exact falls_call m hc

theorem falls_observe (m : Machine) (line : Line) {c : Call} (hc : c.item? = none) :
    m.tally.Falls (m.observe line c).2.tally := by
  have hcall := falls_call m hc
  rw [observe_eq]
  cases (m.call c).1.shown? <;> exact hcall

theorem falls_popped (m : Machine) (n : Nat) : m.tally.Falls (m.popped n).tally := by
  induction n generalizing m with
  | zero => exact Tally.Falls.refl _
  | succ n ih => exact (falls_call m rfl).trans (ih _)

/-- A machine within the ceiling, as it is after every line that passed. -/
structure Under (m : Machine) (limit : Nat) : Prop where
  held : Held m.main m.target m.tally
  limit_eq : m.tally.limit = limit
  references_le : m.tally.references ≤ limit
  references_le_peak : m.tally.references ≤ m.tally.peak
  peak_le : m.tally.peak ≤ limit

/-- A compound push of some items has fewer references on the way than before it, and no more after it. -/
theorem falls_wrap {m : Machine} {limit : Nat} (h : m.Under limit) (supply : Nat → Nat) {size : UInt64}
    (hsize : size ≠ 0) (compound : List Item → Value Item) :
    m.tally.Falls (m.wrap supply size compound).2.tally := by
  have hpositive : size.toNat ≠ 0 := by
    intro he
    exact hsize (UInt64.toNat_inj.mp he)
  by_cases hd : m.main.depth < size.toNat
  · rw [wrap_of_lt hd]
    exact Tally.Falls.refl _
  · have hle := Nat.not_lt.mp hd
    have hpopped := falls_popped m size.toNat
    have hheld := (popped_moves m size.toNat).held h.held
    have hdepth : (m.popped size.toNat).main.depth = m.main.depth - size.toNat := by
      rw [Stack.depth, popped_slots hle, List.length_take]
      exact Nat.min_eq_left (Nat.sub_le _ _)
    have hbefore := h.held.references_eq
    have hbetween := hheld.references_eq
    have hpeak := h.references_le_peak
    rw [wrap_of_le hle]
    refine ⟨?_, ?_, hpopped.limit⟩
    · change (m.popped size.toNat).tally.references + 1 ≤ m.tally.references
      omega
    · change max (m.popped size.toNat).tally.peak ((m.popped size.toNat).tally.references + 1) = m.tally.peak
      rw [hpopped.peak]
      omega

/-- A command that does not make the main stack deeper adds no reference that was not there. -/
theorem execute_falls {m : Machine} {limit : Nat} (h : m.Under limit) (supply : Nat → Nat) {line : Line}
    (hg : ¬∃ place value, line.command.Grows m.main.depth place value) :
    m.tally.Falls (m.execute supply line).2.tally := by
  obtain ⟨number, command⟩ := line
  cases command with
  | push literal => exact absurd ⟨_, _, .push literal⟩ hg
  | pushArray size =>
    have hsize : size ≠ 0 := by
      rintro rfl
      exact hg ⟨_, _, .array⟩
    exact falls_wrap h supply hsize .array
  | pushStruct size =>
    have hsize : size ≠ 0 := by
      rintro rfl
      exact hg ⟨_, _, .struct⟩
    exact falls_wrap h supply hsize .struct
  | pop view => exact falls_observe m _ rfl
  | tryPop view => exact falls_observe m _ rfl
  | peek index => exact falls_observe m _ rfl
  | peekQuiet index => exact falls_observe m _ rfl
  | insert index literal =>
    have hindex : ¬(0 ≤ index.toInt ∧ index.toInt ≤ m.main.slots.length) := by
      rintro ⟨h0, hd⟩
      exact hg ⟨_, _, .insert index literal h0 hd⟩
    have hfailed := Call.effect_insert_of_not_le hindex (m.create supply literal.value).1
    have hsame := unchanged_call (m := (m.create supply literal.value).2) (c := .insert index _) hfailed
    have htally : (m.execute supply ⟨number, .insert index literal⟩).2.tally = m.tally := by
      simp only [execute, change_eq]
      exact hsame.tally
    rw [htally]
    exact Tally.Falls.refl _
  | remove index view => exact falls_observe m _ rfl
  | reverse count => exact falls_change m rfl
  | clear => exact falls_change m rfl
  | copy count => exact Tally.Falls.refl _

section

variable (n limit : Nat)

theorem call_ne_overLimit (m : Machine) (c : Call) : (m.call c).1.outcome ≠ .error (.overLimit n limit) := by
  have hreply : (m.call c).1 ≠ .fault (.overLimit n limit) := Call.reply_ne_overLimit n limit m.main.slots c
  cases hr : (m.call c).1 with
  | fault f =>
    rw [hr] at hreply
    intro h
    cases h
    exact hreply rfl
  | _ =>
    intro h
    cases h

theorem change_ne_overLimit (m : Machine) (c : Call) : (m.change c).1 ≠ .error (.overLimit n limit) := by
  rw [change_eq]
  exact call_ne_overLimit n limit m c

theorem observe_ne_overLimit (m : Machine) (line : Line) (c : Call) :
    (m.observe line c).1 ≠ .error (.overLimit n limit) := by
  rw [observe_eq]
  exact call_ne_overLimit n limit m c

theorem wrap_ne_overLimit (m : Machine) (supply : Nat → Nat) (size : UInt64) (compound : List Item → Value Item) :
    (m.wrap supply size compound).1 ≠ .error (.overLimit n limit) := by
  by_cases hd : m.main.depth < size.toNat
  · rw [wrap_of_lt hd]
    intro h
    cases h
  · rw [wrap_of_le (Nat.not_lt.mp hd)]
    intro h
    cases h

/-- No command fails for too many references: only the check after it does. -/
theorem execute_ne_overLimit (m : Machine) (supply : Nat → Nat) (line : Line) :
    (m.execute supply line).1 ≠ .error (.overLimit n limit) := by
  obtain ⟨number, command⟩ := line
  cases command with
  | push literal => exact change_ne_overLimit n limit _ _
  | pushArray size => exact wrap_ne_overLimit n limit m supply size .array
  | pushStruct size => exact wrap_ne_overLimit n limit m supply size .struct
  | pop view => exact observe_ne_overLimit n limit m _ _
  | tryPop view => exact observe_ne_overLimit n limit m _ _
  | peek index => exact observe_ne_overLimit n limit m _ _
  | peekQuiet index => exact observe_ne_overLimit n limit m _ _
  | insert index literal => exact change_ne_overLimit n limit _ _
  | remove index view => exact observe_ne_overLimit n limit m _ _
  | reverse count => exact change_ne_overLimit n limit m _
  | clear => exact change_ne_overLimit n limit m _
  | copy count =>
    intro h
    cases h

end

/-! ## The check -/

theorem Under.of_falls {m after : Machine} {limit : Nat} (h : m.Under limit)
    (hheld : Held after.main after.target after.tally) (hf : m.tally.Falls after.tally) : after.Under limit := by
  have hreferences := hf.references_le
  refine ⟨hheld, hf.limit.trans h.limit_eq, hreferences.trans h.references_le, ?_, hf.peak.trans_le h.peak_le⟩
  rw [hf.peak]
  exact hreferences.trans h.references_le_peak

theorem Grown.figures {m after : Machine} {place : Nat} {item : Item} (h : m.Grown after place item) :
    after.tally.references = m.tally.references + 1 ∧
      after.tally.peak = max m.tally.peak (m.tally.references + 1) ∧ after.tally.limit = m.tally.limit := by
  rw [h.tally]
  exact ⟨rfl, rfl, rfl⟩

section

variable {m : Machine} {limit : Nat} (h : m.Under limit) (supply : Nat → Nat) {line : Line}
include h

/-- A line that adds an item to as many references as are allowed exceeds the ceiling by one. -/
theorem Under.step_of_full {place : Nat} {value : Value Item} (hg : line.command.Grows m.main.depth place value)
    (hfull : m.tally.references = limit) : ∃ after,
      m.step supply line = (.error (.overLimit (limit + 1) limit), after) ∧
        m.Grown after place ⟨supply m.created, value⟩ ∧ after.tally.references = limit + 1 ∧
        after.tally.peak = limit + 1 := by
  obtain ⟨after, he, hgrown⟩ := announced_of_grows hg supply
  obtain ⟨hreferences, hpeak, hlimit⟩ := hgrown.figures
  rw [hfull] at hreferences hpeak
  rw [h.limit_eq] at hlimit
  rw [Nat.max_eq_right (h.peak_le.trans (Nat.le_succ limit))] at hpeak
  have hs := step_of_ok he
  rw [hreferences, hlimit, if_pos (Nat.lt_succ_self limit)] at hs
  exact ⟨_, hs, ⟨hgrown.stack, hgrown.target, hgrown.tally, hgrown.observations⟩, hreferences, hpeak⟩

/-- A line that adds an item to fewer references passes. -/
theorem Under.step_of_room {place : Nat} {value : Value Item} (hg : line.command.Grows m.main.depth place value)
    (hroom : m.tally.references ≠ limit) : ∃ after, m.step supply line = (.ok (), after) ∧ after.Under limit := by
  obtain ⟨after, he, hgrown⟩ := announced_of_grows hg supply
  obtain ⟨hreferences, hpeak, hlimit⟩ := hgrown.figures
  have hle := h.references_le
  have hpeak_le := h.peak_le
  have hlimit_eq := h.limit_eq
  have hs := step_of_ok he
  rw [if_neg (by omega)] at hs
  have hheld := (step_moves m supply line).held h.held
  rw [hs] at hheld
  exact ⟨after, hs, hheld, by omega, by omega, by omega, by omega⟩

/-- A line that adds no item stays within the ceiling, whether it passes or fails. -/
theorem Under.step_of_not_grows (hg : ¬∃ place value, line.command.Grows m.main.depth place value) :
    (∀ n limit', (m.step supply line).1 ≠ .error (.overLimit n limit')) ∧ (m.step supply line).2.Under limit := by
  have hannounced : (m.announced line).Under limit :=
    ⟨h.held, h.limit_eq, h.references_le, h.references_le_peak, h.peak_le⟩
  have hfalls : m.tally.Falls ((m.announced line).execute supply line).2.tally := execute_falls hannounced supply hg
  have hne := fun n limit' => execute_ne_overLimit n limit' (m.announced line) supply line
  have hheld := (step_moves m supply line).held h.held
  rcases he : (m.announced line).execute supply line with ⟨result, after⟩
  rw [he] at hfalls hne
  cases result with
  | error f =>
    rw [step_of_error he] at hheld ⊢
    refine ⟨?_, h.of_falls hheld hfalls⟩
    intro n limit' hover
    cases hover
    exact hne n limit' rfl
  | ok _ =>
    have hroom : ¬after.tally.limit < after.tally.references := by
      have hreferences : after.tally.references ≤ m.tally.references := hfalls.references_le
      have hlimit : after.tally.limit = m.tally.limit := hfalls.limit
      rw [hlimit, h.limit_eq, Nat.not_lt]
      exact hreferences.trans h.references_le
    have hs := step_of_ok he
    rw [if_neg hroom] at hs
    rw [hs] at hheld ⊢
    refine ⟨?_, h.of_falls hheld hfalls⟩
    intro n limit' hover
    cases hover

end

/-- From within the ceiling a line exceeds it by one, where it adds an item to as many references as are allowed, or it
stays within the ceiling. -/
theorem Under.step_cases {m : Machine} {limit : Nat} (h : m.Under limit) (supply : Nat → Nat) (line : Line) :
    (∃ place value after, line.command.Grows m.main.depth place value ∧ m.tally.references = limit ∧
        m.step supply line = (.error (.overLimit (limit + 1) limit), after) ∧
        m.Grown after place ⟨supply m.created, value⟩ ∧ after.tally.references = limit + 1 ∧
        after.tally.peak = limit + 1) ∨
      ¬((∃ place value, line.command.Grows m.main.depth place value) ∧ m.tally.references = limit) ∧
        (∀ n limit', (m.step supply line).1 ≠ .error (.overLimit n limit')) ∧ (m.step supply line).2.Under limit := by
  by_cases hg : ∃ place value, line.command.Grows m.main.depth place value
  · by_cases hfull : m.tally.references = limit
    · obtain ⟨place, value, hg⟩ := hg
      obtain ⟨after, hs, hafter⟩ := h.step_of_full supply hg hfull
      exact Or.inl ⟨place, value, after, hg, hfull, hs, hafter⟩
    · obtain ⟨place, value, hg'⟩ := hg
      obtain ⟨after, hs, hunder⟩ := h.step_of_room supply hg' hfull
      refine Or.inr ⟨fun hboth => hfull hboth.2, ?_⟩
      rw [hs]
      refine ⟨?_, hunder⟩
      intro n limit' hover
      cases hover
  · exact Or.inr ⟨fun hboth => hg hboth.1, h.step_of_not_grows supply hg⟩

/-- A run that does not stop for too many references ends within the ceiling. -/
theorem Under.run {m : Machine} {limit : Nat} (h : m.Under limit) {supply : Nat → Nat} {lines : List Line}
    (hne : ∀ line n limit', (m.run supply lines).stop ≠ some (line, .overLimit n limit')) :
    (m.run supply lines).machine.Under limit := by
  induction lines generalizing m with
  | nil => exact h
  | cons line rest ih =>
    rcases h.step_cases supply line with ⟨_, _, after, _, _, hs, -⟩ | ⟨-, -, hunder⟩
    · rw [run_cons_error rest hs] at hne
      exact absurd rfl (hne _ _ _)
    · rcases hs : m.step supply line with ⟨result, after⟩
      rw [hs] at hunder
      cases result with
      | error f =>
        rw [run_cons_error rest hs]
        exact hunder
      | ok _ =>
        rw [run_cons_ok rest hs] at hne ⊢
        exact ih hunder hne

theorem under_start (s : Settings) : (start s).Under s.limit :=
  ⟨held_start s, rfl, Nat.zero_le _, Nat.le_refl _, Nat.zero_le _⟩

end Machine

/-- A run that has not stopped is within the ceiling. -/
theorem under_runWith {s : Settings} {supply : Nat → Nat} {lines : List Line}
    (h : (runWith s supply lines).stop = none) : (runWith s supply lines).machine.Under s.limit := by
  refine (Machine.under_start s).run ?_
  intro line n limit hstop
  have hnone : (runWith s supply lines).stop = some (line, .overLimit n limit) := hstop
  rw [h] at hnone
  cases hnone

/-- What the report shows of a run that a line has stopped for too many references: one more than the limit, now and at
the highest, a fault that names both numbers, and the item where the line put it, with all else as it was before the
line. -/
structure Exceeded (s : Settings) (supply : Nat → Nat) (lines : List Line) (line : Line) : Prop where
  references : (runWith s supply lines).report.references.references = s.limit + 1
  peak : (runWith s supply lines).report.references.peak = s.limit + 1
  fault : (runWith s supply lines).report.fault = some {
    line := line.number
    command := line.command.text
    error := "stack references ".toList ++ Decimal.ofNat (s.limit + 1) ++ " exceed limit ".toList ++
      Decimal.ofNat s.limit }
  effect : ∃ before rest place value, lines = before ++ line :: rest ∧
    (runWith s supply lines).report.executed = before.length ∧
    line.command.Grows (runWith s supply before).machine.main.depth place value ∧
    (runWith s supply lines).report.stack = (runWith s supply before).report.stack.take place ++
      ⟨supply (runWith s supply before).machine.created, value⟩ :: (runWith s supply before).report.stack.drop place ∧
    (runWith s supply lines).report.target = (runWith s supply before).report.target ∧
    (runWith s supply lines).report.observations = (runWith s supply before).report.observations

/-- In every run of a script, as long as no line has failed there are no more references than the limit allows. A line
stops the run for too many of them exactly when it adds an item, as a push of a literal, a successful insertion or a
compound push of no items, to as many as the limit allows, and then it exceeds the limit by one. In any other run the
highest number of references is within the limit. -/
theorem references_within_limit (s : Settings) (supply : Nat → Nat) (lines : List Line) :
    (∀ before rest, lines = before ++ rest → (runWith s supply before).stop = none →
        (runWith s supply before).report.references.references ≤ s.limit) ∧
      (∀ before line rest, lines = before ++ line :: rest →
        ((runWith s supply lines).executed = before.length ∧
            (∃ n limit, (runWith s supply lines).stop = some (line, .overLimit n limit)) ↔
          (runWith s supply before).stop = none ∧
            (∃ place value, line.command.Grows (runWith s supply before).machine.main.depth place value) ∧
            (runWith s supply before).report.references.references = s.limit)) ∧
      (∀ line n limit, (runWith s supply lines).stop = some (line, .overLimit n limit) →
        n = s.limit + 1 ∧ limit = s.limit ∧ Exceeded s supply lines line) ∧
      ((∀ line n limit, (runWith s supply lines).stop ≠ some (line, .overLimit n limit)) →
        (runWith s supply lines).report.references.peak ≤ s.limit) := by
  refine ⟨?_, ?_, ?_, ?_⟩
  · intro before rest _ hbefore
    exact (under_runWith hbefore).references_le
  · rintro before line rest rfl
    constructor
    · rintro ⟨hexecuted, n, limit, hstop⟩
      obtain ⟨before', rest', after, hl, hbefore, hstep, hrun⟩ := Machine.run_stopped_iff.mp hstop
      have hlines : runWith s supply (before ++ line :: rest) = _ := hrun
      rw [hlines] at hexecuted
      obtain ⟨rfl, -⟩ := List.append_inj hl hexecuted.symm
      refine ⟨hbefore, ?_⟩
      rcases (under_runWith hbefore).step_cases supply line with ⟨place, value, _, hg, hfull, -⟩ | ⟨-, hne, -⟩
      · exact ⟨⟨place, value, hg⟩, hfull⟩
      · exact absurd (congrArg Prod.fst hstep) (hne n limit)
    · rintro ⟨hbefore, ⟨place, value, hg⟩, hfull⟩
      obtain ⟨after, hs, -⟩ := (under_runWith hbefore).step_of_full supply hg hfull
      have hlines : runWith s supply (before ++ line :: rest) = _ := Machine.run_append_error rest hbefore hs
      rw [hlines]
      exact ⟨rfl, _, _, rfl⟩
  · intro line n limit hstop
    obtain ⟨before, rest, after, hl, hbefore, hstep, hrun⟩ := Machine.run_stopped_iff.mp hstop
    have hlines : runWith s supply lines = _ := hrun
    rcases (under_runWith hbefore).step_cases supply line with
      ⟨place, value, after', hg, -, hs, hgrown, hreferences, hpeak⟩ | ⟨-, hne, -⟩
    · have hsame := hstep.symm.trans hs
      cases hsame
      refine ⟨rfl, rfl, ?_⟩
      constructor
      · rw [hlines]
        exact hreferences
      · rw [hlines]
        exact hpeak
      · rw [hlines]
        rfl
      · rw [hlines]
        exact ⟨before, rest, place, value, hl, rfl, hg, hgrown.stack, congrArg Stack.fromTop hgrown.target,
          hgrown.observations⟩
    · exact absurd (congrArg Prod.fst hstep) (hne n limit)
  · intro hne
    exact ((Machine.under_start s).run hne).peak_le

/-- Two items where one may live: the second is inserted at the bottom, and stays there. -/
def crowdedLines : List Line :=
  [⟨1, .push .null⟩, ⟨2, .peek 0⟩, ⟨3, .insert 1 (.boolean true)⟩, ⟨4, .clear⟩]

theorem references_within_limit_crowded :
    (runWith { limit := 1 } id crowdedLines).stop = some (⟨3, .insert 1 (.boolean true)⟩, .overLimit 2 1) ∧
      (runWith { limit := 1 } id crowdedLines).report.references.peak = 2 ∧
      (runWith { limit := 1 } id (crowdedLines.take 2)).report.references.peak ≤ 1 ∧
      (runWith { limit := 1 } id crowdedLines).report.stack = [⟨0, .null⟩, ⟨1, .boolean true⟩] := by
  have hstop : (runWith { limit := 1 } id crowdedLines).stop =
      some (⟨3, .insert 1 (.boolean true)⟩, .overLimit 2 1) := rfl
  obtain ⟨-, -, hexceeded⟩ := (references_within_limit { limit := 1 } id crowdedLines).2.2.1 _ _ _ hstop
  have hpassed : ∀ line n limit,
      (runWith { limit := 1 } id (crowdedLines.take 2)).stop ≠ some (line, .overLimit n limit) := by
    rintro line n limit ⟨⟩
  exact ⟨hstop, hexceeded.peak, (references_within_limit { limit := 1 } id (crowdedLines.take 2)).2.2.2 hpassed, rfl⟩

end OperandStack
