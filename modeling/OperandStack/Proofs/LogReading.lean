import Mathlib.Algebra.Ring.Nat
import Mathlib.Data.List.DropRight
import OperandStack.Proofs.Failure
import OperandStack.Proofs.Placement
import OperandStack.Proofs.Standing
import OperandStack.Proofs.Words

/-!
# What a log tells

A log is read by the messages and the fields of its events alone. From these come a depth of the main stack, two depths
of the target, and the numbers of additions and of removals (`Event.Account`). The lemmas of `Event.Account` say how one
event changes what is told. Every call is reported in one of four ways (`Call.effect_reported`), so that what is told
stays right when a call on owned slots is reported (`Event.Account.effect`) and when a copy is
(`Event.Account.copyOnto`). A call that fails and a reversal leave no trace (`Stack.events_of_failed`).
-/

namespace OperandStack

namespace Event

/-! ## Reading a log -/

/-- The number that an event has in a field. -/
def figure? (field : Text) (e : Event) : Option Nat :=
  (e.fields.lookup field).bind Decimal.nat?

/-- The events with one of some messages, in order. -/
def saying (messages : List Text) (log : List Event) : List Event :=
  log.filter fun e => e.message ∈ messages

/-- The events after the last one with a message. -/
def since (message : Text) (log : List Event) : List Event :=
  log.rtakeWhile fun e => e.message ≠ message

/-- The number that the last of some events has in a field, and 0 where there is no event. -/
def latest? (field : Text) (events : List Event) : Option Nat :=
  events.getLast?.elim (some 0) (figure? field)

/-- The sum of the numbers that events have in a field. -/
def total (field : Text) (events : List Event) : Nat :=
  (events.filterMap (figure? field)).sum

section

variable {messages : List Text} {message word field : Text} {log : List Event} {e : Event}

theorem figure?_of_lookup {n : Nat} (h : e.fields.lookup field = some (Decimal.ofNat n)) :
    e.figure? field = some n := by
  rw [figure?, h]
  exact Decimal.nat?_ofNat n

theorem saying_concat (he : e.message = word) (h : word ∈ messages) :
    saying messages (log ++ [e]) = saying messages log ++ [e] := by
  rw [saying, List.filter_append, List.filter_cons_of_pos (by simpa [he] using h)]
  rfl

theorem saying_concat_of_notMem (he : e.message = word) (h : word ∉ messages) :
    saying messages (log ++ [e]) = saying messages log := by
  rw [saying, List.filter_append, List.filter_cons_of_neg (by simpa [he] using h), List.filter_nil, List.append_nil]
  rfl

theorem since_concat (he : e.message = word) (h : word ≠ message) :
    since message (log ++ [e]) = since message log ++ [e] := by
  rw [since, List.rtakeWhile_concat, if_pos (by simpa [he] using h)]
  rfl

theorem since_concat_self (he : e.message = word) : since word (log ++ [e]) = [] := by
  rw [since, List.rtakeWhile_concat, if_neg (by simp [he])]

theorem latest?_concat (field : Text) (events : List Event) (e : Event) :
    latest? field (events ++ [e]) = e.figure? field := by
  rw [latest?, List.getLast?_concat]
  rfl

theorem total_concat {n : Nat} (h : e.figure? field = some n) (events : List Event) :
    total field (events ++ [e]) = total field events + n := by
  rw [total, List.filterMap_append, List.sum_append, List.filterMap_cons_some h]
  rfl

end

/-- The messages of the events that tell of changes. -/
def changeWords : List Text :=
  ["push".toList, "insert".toList, "remove".toList, "clear".toList, "copy_to".toList]

/-- An event of another level has another message. -/
theorem message_notMem_changeWords {e : Event} (he : e.level ≠ .trace) : e.message ∉ changeWords := by
  cases e with
  | pushed | inserted | removed | cleared | copied => exact absurd rfl he
  | failed | failedPeek => exact (by decide : "stack operation failed".toList ∉ changeWords)
  | strayRemoval => exact (by decide : "remove for untracked item ignored".toList ∉ changeWords)
  | ceilingCrossed => exact (by decide : "stack references exceed limit".toList ∉ changeWords)
  | executing => exact (by decide : "execute".toList ∉ changeWords)
  | stopped => exact (by decide : "script faulted".toList ∉ changeWords)

/-- What a log tells: the depth of the main stack by the last item that came or went since it was cleared, the depth of
the target by the last copy and by all copies together, the additions by the items that came, and the removals by those
that went one by one and those that were cleared. -/
structure Account (log : List Event) (depth targetDepth adds removes : Nat) : Prop where
  latest : latest? "depth".toList
    (saying ["push".toList, "insert".toList, "remove".toList] (since "clear".toList log)) = some depth
  latestCopy : latest? "target_depth".toList (saying ["copy_to".toList] log) = some targetDepth
  copied : total "count".toList (saying ["copy_to".toList] log) = targetDepth
  placed : (saying ["push".toList, "insert".toList] log).length = adds
  released : (saying ["remove".toList] log).length + total "released".toList (saying ["clear".toList] log) = removes

namespace Account

theorem nil : Account [] 0 0 0 0 :=
  ⟨rfl, rfl, rfl, rfl, rfl⟩

variable {log : List Event} {depth targetDepth adds removes : Nat} (h : Account log depth targetDepth adds removes)
include h

/-- An event of another level changes nothing of that. -/
theorem quiet {e : Event} (he : e.level ≠ .trace) : Account (log ++ [e]) depth targetDepth adds removes := by
  have hnotMem := message_notMem_changeWords he
  have hsaying : ∀ {messages log}, (∀ word ∈ messages, word ∈ changeWords) →
      saying messages (log ++ [e]) = saying messages log :=
    fun hsub => saying_concat_of_notMem rfl fun hmem => hnotMem (hsub _ hmem)
  have hclear : e.message ≠ "clear".toList := fun heq => hnotMem (heq ▸ by decide)
  constructor
  · rw [since_concat rfl hclear, hsaying (by decide), h.latest]
  · rw [hsaying (by decide), h.latestCopy]
  · rw [hsaying (by decide), h.copied]
  · rw [hsaying (by decide), h.placed]
  · rw [hsaying (by decide), hsaying (by decide), h.released]

theorem quiets {events : List Event} (he : ∀ e ∈ events, e.level ≠ .trace) :
    Account (log ++ events) depth targetDepth adds removes := by
  induction events generalizing log with
  | nil => rwa [List.append_nil]
  | cons e rest ih =>
    rw [List.append_cons]
    exact ih (h.quiet (he e List.mem_cons_self)) fun e' hmem => he e' (List.mem_cons_of_mem e hmem)

/-- An item that is placed is one more addition, and its event names the depth. -/
theorem place {e : Event} {after : Nat} (he : e.message ∈ ["push".toList, "insert".toList])
    (hafter : e.figure? "depth".toList = some after) :
    Account (log ++ [e]) after targetDepth (adds + 1) removes := by
  have hwords : ∀ word ∈ ["push".toList, "insert".toList],
      word ∈ ["push".toList, "insert".toList, "remove".toList] ∧ word ≠ "clear".toList ∧ word ∉ ["copy_to".toList] ∧
        word ∉ ["remove".toList] ∧ word ∉ ["clear".toList] := by
    decide
  obtain ⟨hdepth, hclear, hcopy, hremove, hclears⟩ := hwords _ he
  constructor
  · rw [since_concat rfl hclear, saying_concat rfl hdepth, latest?_concat, hafter]
  · rw [saying_concat_of_notMem rfl hcopy, h.latestCopy]
  · rw [saying_concat_of_notMem rfl hcopy, h.copied]
  · rw [saying_concat rfl he, List.length_append, h.placed]
    rfl
  · rw [saying_concat_of_notMem rfl hremove, saying_concat_of_notMem rfl hclears, h.released]

/-- An item that is taken is one more removal, and its event names the depth. -/
theorem take (item : Item) (index : Int64) (after : Nat) :
    Account (log ++ [.removed item index after]) after targetDepth adds (removes + 1) := by
  have he : (Event.removed item index after).message = "remove".toList := rfl
  constructor
  · rw [since_concat he (by decide), saying_concat he (by decide), latest?_concat]
    exact figure?_of_lookup rfl
  · rw [saying_concat_of_notMem he (by decide), h.latestCopy]
  · rw [saying_concat_of_notMem he (by decide), h.copied]
  · rw [saying_concat_of_notMem he (by decide), h.placed]
  · rw [saying_concat he (by decide), saying_concat_of_notMem he (by decide), List.length_append, ← h.released,
      List.length_singleton, Nat.add_right_comm]

/-- A clear names the removals it stands for, and nothing is known of the depth since. -/
theorem empty (n : Nat) : Account (log ++ [.cleared n]) 0 targetDepth adds (removes + n) := by
  have he : (Event.cleared n).message = "clear".toList := rfl
  constructor
  · rw [since_concat_self he]
    rfl
  · rw [saying_concat_of_notMem he (by decide), h.latestCopy]
  · rw [saying_concat_of_notMem he (by decide), h.copied]
  · rw [saying_concat_of_notMem he (by decide), h.placed]
  · have hn : (Event.cleared n).figure? "released".toList = some n := figure?_of_lookup rfl
    rw [saying_concat_of_notMem he (by decide), saying_concat he (by decide), total_concat hn, ← h.released,
      Nat.add_assoc]

/-- A copy names the number of items and the depth that the target has then. -/
theorem copy (n : Nat) : Account (log ++ [.copied n (targetDepth + n)]) depth (targetDepth + n) adds removes := by
  have he : (Event.copied n (targetDepth + n)).message = "copy_to".toList := rfl
  constructor
  · rw [since_concat he (by decide), saying_concat_of_notMem he (by decide), h.latest]
  · rw [saying_concat he (by decide), latest?_concat]
    exact figure?_of_lookup rfl
  · have hn : (Event.copied n (targetDepth + n)).figure? "count".toList = some n := figure?_of_lookup rfl
    rw [saying_concat he (by decide), total_concat hn, h.copied]
  · rw [saying_concat_of_notMem he (by decide), h.placed]
  · rw [saying_concat_of_notMem he (by decide), saying_concat_of_notMem he (by decide), h.released]

end Account
end Event

/-! ## Calls -/

/-- A copy takes no more items than there are. -/
theorem Stack.copyCount_le (s : Stack) (count : Option UInt64) : s.copyCount count ≤ s.depth := by
  cases count with
  | none => exact Nat.le_refl _
  | some n => exact Nat.min_le_right _ _

/-- How the effect of a call on slots is reported. The event of an item that is placed or taken names the depth after it
and that of a clear the depth before it; an effect that keeps the depth leaves no event at the level of traces. -/
inductive Effect.Reported (slots : List Slot) (e : Effect) : Prop where
  | kept : (∀ event ∈ e.event, event.level ≠ .trace) → e.slots.length = slots.length → e.notices = [] → Reported slots e
  | placed (event : Event) (item : Item) : e.event = some event → event.message ∈ ["push".toList, "insert".toList] →
    event.figure? "depth".toList = some e.slots.length → e.notices = [.added item] → ¬e.reply.Failed → Reported slots e
  | taken (slot : Slot) (index : Int64) : slot ∈ slots → e.event = some (.removed slot.item index e.slots.length) →
    e.notices = slot.release → ¬e.reply.Failed → Reported slots e
  | emptied : e.event = some (.cleared slots.length) → e.slots = [] → e.notices = slots.flatMap Slot.release →
    ¬e.reply.Failed → Reported slots e

namespace Call

theorem removal_reported (op : Journal.Op) (view : View) (index : Int64) (slots : List Slot) :
    (removal op view index slots).Reported slots := by
  unfold removal
  split
  · rename_i slot rest h
    obtain ⟨n, hn, rfl, rfl⟩ := take_eq_ok h
    exact .taken slots[n] index (List.getElem_mem hn) rfl rfl id
  · exact .kept (by rintro _ ⟨⟩ ⟨⟩) rfl rfl

theorem tryRemoval_reported (view : View) (index : Int64) (slots : List Slot) :
    (tryRemoval view index slots).Reported slots := by
  unfold tryRemoval
  split
  · rename_i slot rest h
    obtain ⟨n, hn, rfl, rfl⟩ := take_eq_ok h
    exact .taken slots[n] index (List.getElem_mem hn) rfl rfl id
  · exact .kept (by rintro _ ⟨⟩) rfl rfl

theorem reading_reported (index : Int64) (slots : List Slot) : (reading index slots).Reported slots := by
  unfold reading
  split
  · exact .kept (by rintro _ ⟨⟩) rfl rfl
  · exact .kept (by rintro _ ⟨⟩ ⟨⟩) rfl rfl

theorem length_turn {count : Int64} {slots after : List Slot} (h : turn count slots = .ok after) :
    after.length = slots.length := by
  obtain ⟨n, rfl⟩ := turn_eq_ok h
  rw [List.length_append, List.length_reverse, ← List.length_append, List.take_append_drop]

/-- Every call is reported in one of these ways. -/
theorem effect_reported (slots : List Slot) (c : Call) : (c.effect slots).Reported slots := by
  cases c with
  | push item =>
    refine .placed _ item rfl List.mem_cons_self ?_ rfl id
    exact (Event.figure?_of_lookup rfl).trans (congrArg some List.length_append.symm)
  | insert index item =>
    simp only [effect]
    split
    · rename_i after h
      obtain ⟨n, hn, rfl⟩ := place_eq_ok h
      refine .placed _ item rfl (List.mem_cons_of_mem _ List.mem_cons_self) ?_ rfl id
      exact (Event.figure?_of_lookup rfl).trans (congrArg some (List.length_insertIdx_of_le_length hn _).symm)
    · exact .kept (by rintro _ ⟨⟩ ⟨⟩) rfl rfl
  | pop => exact removal_reported _ _ _ _
  | popAs view => exact removal_reported _ _ _ _
  | tryPop => exact tryRemoval_reported _ _ _
  | tryPopAs view => exact tryRemoval_reported _ _ _
  | remove index view => exact removal_reported _ _ _ _
  | tryRemove index view => exact tryRemoval_reported _ _ _
  | peek index => exact reading_reported _ _
  | peekTop => exact reading_reported _ _
  | tryPeek index =>
    simp only [effect]
    split <;> exact .kept (by rintro _ ⟨⟩) rfl rfl
  | peekQuiet index =>
    simp only [effect]
    split <;> exact .kept (by rintro _ ⟨⟩) rfl rfl
  | reverse count =>
    simp only [effect]
    split
    · rename_i after h
      exact .kept (by rintro _ ⟨⟩) (length_turn h) rfl
    · exact .kept (by rintro _ ⟨⟩ ⟨⟩) rfl rfl
  | tryReverse count =>
    simp only [effect]
    split
    · rename_i after h
      exact .kept (by rintro _ ⟨⟩) (length_turn h) rfl
    · exact .kept (by rintro _ ⟨⟩) rfl rfl
  | clear => exact .emptied rfl rfl rfl id

end Call

/-- A call that fails reports nothing at the level of traces, and its listener hears nothing. -/
theorem Effect.Reported.of_failed {slots : List Slot} {e : Effect} (h : e.Reported slots) (hfailed : e.reply.Failed) :
    (∀ event ∈ e.event, event.level ≠ .trace) ∧ e.notices = [] := by
  cases h with
  | kept hevent _ hnotices => exact ⟨hevent, hnotices⟩
  | placed _ _ _ _ _ _ hreply => exact absurd hfailed hreply
  | taken _ _ _ _ _ hreply => exact absurd hfailed hreply
  | emptied _ _ _ hreply => exact absurd hfailed hreply

/-- Nor does a reversal, whether or not it fails. -/
theorem Call.effect_turning {c : Call} (hc : ∃ count, c = .reverse count ∨ c = .tryReverse count) (slots : List Slot) :
    (∀ event ∈ (c.effect slots).event, event.level ≠ .trace) ∧ (c.effect slots).notices = [] := by
  obtain ⟨count, rfl | rfl⟩ := hc
  · simp only [effect]
    split
    · exact ⟨by rintro _ ⟨⟩, rfl⟩
    · exact ⟨by rintro _ ⟨⟩ ⟨⟩, rfl⟩
  · simp only [effect]
    split <;> exact ⟨by rintro _ ⟨⟩, rfl⟩

/-- A call that fails and a reversal emit nothing at the level of traces, whoever listens. -/
theorem Stack.events_of_failed {κ : Type} [Listener κ] {s : Stack} {k : κ} {c : Call}
    (h : (s.call k c).reply.Failed ∨ ∃ count, c = .reverse count ∨ c = .tryReverse count) :
    ∀ e ∈ (s.call k c).events, e.level ≠ .trace := by
  obtain ⟨hevent, hnotices⟩ :
      (∀ event ∈ (c.effect s.slots).event, event.level ≠ .trace) ∧ (c.effect s.slots).notices = [] := by
    rcases h with hfailed | hturning
    · exact (Call.effect_reported s.slots c).of_failed hfailed
    · exact Call.effect_turning hturning s.slots
  intro e he
  rw [Stack.call_events, hnotices, Listener.receiveAll_nil, List.nil_append, Option.mem_toList] at he
  exact hevent e he

/-- A tally traces nothing. -/
theorem Tally.level_ne_trace {t : Tally} {notices : List Notice} {e : Event}
    (he : e ∈ (Listener.receiveAll t notices).2) : e.level ≠ .trace := by
  have hheard : e ∈ (Listener.receiveAll (Counter.tracking t) notices).2 := by
    rwa [Listener.receiveAll_tracking]
  have hcounter : e.ofCounter = true := Listener.ofCounter_of_mem hheard
  cases e with
  | strayRemoval | ceilingCrossed => rintro ⟨⟩
  | _ => cases hcounter

/-- What a log tells stays right when a call on slots that are all owned is reported in it. -/
theorem Event.Account.effect {log : List Event} {slots : List Slot} {targetDepth adds removes : Nat}
    (h : Account log slots.length targetDepth adds removes) (howned : ∀ slot ∈ slots, slot.owned = true) (c : Call) :
    Account (log ++ (c.effect slots).event.toList) (c.effect slots).slots.length targetDepth
      (adds + (c.effect slots).notices.countP fun n => !n.isRemoval)
      (removes + (c.effect slots).notices.countP Notice.isRemoval) := by
  cases Call.effect_reported slots c with
  | kept hevent hlength hnotices =>
    rw [hlength, hnotices]
    exact h.quiets fun e he => hevent e (Option.mem_toList.mp he)
  | placed event item hevent hmessage hdepth hnotices =>
    rw [hevent, hnotices]
    exact h.place hmessage hdepth
  | taken slot index hslot hevent hnotices =>
    rw [hevent, hnotices, Slot.release, if_pos (howned slot hslot)]
    exact h.take slot.item index _
  | emptied hevent hslots hnotices =>
    have hitems : slots.flatMap Slot.release = (slots.map Slot.item).map .removed := by
      rw [Slot.flatMap_release, Slot.ownedItems_of_owned howned]
    have hremovals : ((slots.map Slot.item).map Notice.removed).countP Notice.isRemoval = slots.length := by
      rw [List.countP_eq_length.mpr (by simp [Notice.isRemoval]), List.length_map, List.length_map]
    have hadditions : (((slots.map Slot.item).map Notice.removed).countP fun n => !n.isRemoval) = 0 :=
      List.countP_eq_zero.mpr (by simp [Notice.isRemoval])
    rw [hevent, hnotices, hslots, hitems, hremovals, hadditions]
    exact h.empty slots.length

/-- And when a copy is reported in it. -/
theorem Event.Account.copyOnto {log : List Event} {source target : Stack} {adds removes : Nat}
    (h : Account log source.depth target.depth adds removes) (count : Option UInt64) :
    Account (log ++ (source.copyOnto count target).2.toList) source.depth (source.copyOnto count target).1.depth adds
      removes := by
  have hlength : (target.slots ++ source.copies (source.copyCount count)).length =
      target.depth + source.copyCount count := by
    rw [List.length_append, Stack.copies, List.length_map, List.length_drop]
    exact congrArg _ (Nat.sub_sub_self (source.copyCount_le count))
  rw [Stack.copyOnto]
  split
  · rwa [Option.toList_none, List.append_nil]
  · simp only [Stack.depth, hlength, Option.toList_some]
    exact h.copy _

end OperandStack
