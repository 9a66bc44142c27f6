import OperandStack.Proofs.Counting
import OperandStack.Proofs.Effect
import OperandStack.Proofs.Run

/-!
# The account of references

Several stacks notify one counter, and an item may stand in many slots, owned and shared. A tracking counter that hears
of nothing but its stacks is at every time exact for the items in their owned slots (`Accounted`), discarded stacks
included. One action keeps it so (`Accounted.act`), hence every run does (`references_eq_owned_slots`).
-/

namespace OperandStack

/-- The items in the owned slots of a seat, seen from a counter: none if the seat notifies another one. -/
def Seat.ownedItems (seat : Seat) (k : Nat) : List Item :=
  if seat.counter = k then Slot.ownedItems seat.stack.slots else []

namespace World

/-- The items in the owned slots of all stacks attached to a counter. A discarded stack counts with its slots as it
left them. -/
def ownedItems (w : World) (k : Nat) : List Item :=
  w.seats.flatMap fun seat => seat.ownedItems k

/-- What the figures of a tally say about the owned slots of the stacks attached to it. -/
structure Account (w : World) (k : Nat) (t : Tally) : Prop where
  each : ∀ x, t.referencesTo x = (w.ownedItems k).countP x.same
  references : t.stats.references = (w.ownedItems k).length
  trackedItems : t.stats.trackedItems = ((w.ownedItems k).map Item.id).toFinset.card
  adds : t.stats.adds = t.stats.references + t.stats.removes

/-- Every tracking counter is exact for the items in the owned slots of its stacks. -/
def Accounted (w : World) : Prop :=
  ∀ (k : Nat) (t : Tally), w.counters[k]? = some (.tracking t) → t.Exact (w.ownedItems k)

end World

/-- A counter that has heard nothing. -/
def Counter.New : Counter → Prop
  | .tracking t => t = .new t.limit
  | .silent => True
  | .recording heard => heard = []

/-! ## Notices without effect on an account -/

namespace Listener

/-- A counter that is no tally never becomes one, and reports no stray removal. -/
theorem not_tracking_of_not_tracking {c : Counter} (hc : ∀ t, c ≠ .tracking t) (notices : List Notice) :
    (∀ t, (receiveAll c notices).1 ≠ .tracking t) ∧ ∀ x, .strayRemoval x ∉ (receiveAll c notices).2 := by
  induction notices generalizing c with
  | nil => exact ⟨hc, by simp⟩
  | cons n rest ih =>
    rw [receiveAll_cons]
    cases c with
    | tracking t => exact absurd rfl (hc t)
    | silent => simpa [receive, Counter.receive] using ih (c := .silent) (by simp)
    | recording heard => simpa [receive, Counter.receive] using ih (c := .recording (heard ++ [n])) (by simp)

end Listener

/-- A tally that is exact for the owned items among some slots, and others, is so after it has heard of a change of the
slots, and it hears of no removal that it would have to ignore. -/
theorem Change.exact {slots after : List Slot} {notices : List Notice} (h : Change slots notices after) {t : Tally}
    {others : List Item} (ht : t.Exact (Slot.ownedItems slots ++ others)) :
    (Listener.receiveAll t notices).1.Exact (Slot.ownedItems after ++ others) ∧
      ∀ x, Event.strayRemoval x ∉ (Listener.receiveAll t notices).2 := by
  rcases h.owned_perm with ⟨item, rfl, hp⟩ | ⟨items, rfl, hp⟩
  · refine ⟨(ht.add item).perm (hp.append_right others).symm, fun x hx => ?_⟩
    simp only [Listener.receiveAll_cons, Listener.receiveAll_nil, List.append_nil, Option.mem_toList] at hx
    exact Tally.add_event_ne_strayRemoval t item x hx
  · have hall := hp.append_right others
    rw [List.append_assoc] at hall
    obtain ⟨hexact, hquiet⟩ := Listener.receiveAll_removed (ht.perm hall)
    exact ⟨hexact, by simp [hquiet]⟩

namespace World

/-! ## Owned items after a change of one stack -/

/-- The owned items of a world are those of one seat, with those of the other seats before and after them. -/
theorem ownedItems_setStack {w : World} {i : Nat} {seat : Seat} (hi : w.seats[i]? = some seat) (k : Nat) :
    ∃ before after, ∀ s, (w.setStack i s).ownedItems k =
      before ++ Seat.ownedItems { seat with stack := s } k ++ after := by
  obtain ⟨hlt, rfl⟩ := List.getElem?_eq_some_iff.mp hi
  refine ⟨(w.seats.take i).flatMap fun seat => seat.ownedItems k,
    (w.seats.drop (i + 1)).flatMap fun seat => seat.ownedItems k, fun s => ?_⟩
  simp only [ownedItems, setStack, List.modify_eq_take_cons_drop hlt, List.flatMap_append, List.flatMap_cons,
    List.append_assoc]

/-- A change of a stack is no change for a counter that it does not notify. -/
theorem ownedItems_setStack_of_ne {w : World} {i k : Nat} {seat : Seat} (hi : w.seats[i]? = some seat)
    (hk : seat.counter ≠ k) (s : Stack) : (w.setStack i s).ownedItems k = w.ownedItems k := by
  obtain ⟨before, after, h⟩ := ownedItems_setStack hi k
  have hself := h seat.stack
  rw [setStack_self hi] at hself
  rw [h, hself]
  simp [Seat.ownedItems, hk]

/-- For its own counter a stack adds its owned items to those of the other stacks. -/
theorem ownedItems_setStack_others {w : World} {i : Nat} {seat : Seat} (hi : w.seats[i]? = some seat) :
    ∃ others, ∀ s, ((w.setStack i s).ownedItems seat.counter).Perm (Slot.ownedItems s.slots ++ others) := by
  obtain ⟨before, after, h⟩ := ownedItems_setStack hi seat.counter
  refine ⟨before ++ after, fun s => ?_⟩
  rw [h, Seat.ownedItems, if_pos rfl, List.append_assoc]
  exact List.perm_append_comm_assoc before (Slot.ownedItems s.slots) after

/-! ## One action -/

/-- A tally that is exact before a change of one of its stacks is exact after it has heard of the change, and it hears
of no removal that it would have to ignore. -/
theorem exact_of_change {w : World} {i : Nat} {seat : Seat} (hi : w.seats[i]? = some seat) {t : Tally}
    (ht : t.Exact (w.ownedItems seat.counter)) {s : Stack} {notices : List Notice}
    (hc : Change seat.stack.slots notices s.slots) :
    (Listener.receiveAll t notices).1.Exact ((w.setStack i s).ownedItems seat.counter) ∧
      ∀ x, Event.strayRemoval x ∉ (Listener.receiveAll t notices).2 := by
  obtain ⟨others, hothers⟩ := ownedItems_setStack_others hi
  have hself := hothers seat.stack
  rw [setStack_self hi] at hself
  obtain ⟨hexact, hquiet⟩ := hc.exact (ht.perm hself)
  exact ⟨hexact.perm (hothers s).symm, hquiet⟩

/-- The same for any counter: if it is a tally before, it is one that is exact after. -/
theorem exact_of_change_of_counter {w : World} {i : Nat} {seat : Seat} (hi : w.seats[i]? = some seat)
    {counter : Counter} (hk : ∀ t, counter = .tracking t → t.Exact (w.ownedItems seat.counter)) {s : Stack}
    {notices : List Notice} (hc : Change seat.stack.slots notices s.slots) :
    (∀ t, (Listener.receiveAll counter notices).1 = .tracking t →
        t.Exact ((w.setStack i s).ownedItems seat.counter)) ∧
      ∀ x, Event.strayRemoval x ∉ (Listener.receiveAll counter notices).2 := by
  by_cases htracking : ∃ t₀, counter = .tracking t₀
  · obtain ⟨t₀, rfl⟩ := htracking
    obtain ⟨hexact, hquiet⟩ := exact_of_change hi (hk t₀ rfl) hc
    rw [Listener.receiveAll_tracking]
    refine ⟨fun t ht => ?_, hquiet⟩
    cases ht
    exact hexact
  · have hnot : ∀ t, counter ≠ .tracking t := fun t e => htracking ⟨t, e⟩
    obtain ⟨hstill, hquiet⟩ := Listener.not_tracking_of_not_tracking hnot notices
    exact ⟨fun t ht => absurd ht (hstill t), hquiet⟩

/-- A stack that takes the place of another with the same owned items changes no account. -/
theorem Accounted.setStack {w : World} (hw : w.Accounted) {i : Nat} {seat : Seat} (hi : w.seats[i]? = some seat)
    {s : Stack} (hs : Slot.ownedItems s.slots = Slot.ownedItems seat.stack.slots) : (w.setStack i s).Accounted := by
  intro k t hk
  by_cases hc : seat.counter = k
  · subst hc
    obtain ⟨others, hothers⟩ := ownedItems_setStack_others hi
    have hself := hothers seat.stack
    rw [setStack_self hi, ← hs] at hself
    exact (hw _ t hk).perm (hself.trans (hothers s).symm)
  · rw [ownedItems_setStack_of_ne hi hc]
    exact hw k t hk

/-- A call keeps the accounts, and its counter hears of no removal that it would have to ignore. -/
theorem Accounted.call {w : World} (hw : w.Accounted) {i : Nat} {seat : Seat} (hi : w.seats[i]? = some seat)
    {counter : Counter} (hk : w.counters[seat.counter]? = some counter) (c : Call) :
    ((w.setStack i (seat.stack.call counter c).stack).setCounter seat.counter
        (seat.stack.call counter c).listener).Accounted ∧
      ∀ x, Event.strayRemoval x ∉ (seat.stack.call counter c).events := by
  have hexact : ∀ t, counter = .tracking t → t.Exact (w.ownedItems seat.counter) := fun t e => hw _ t (e ▸ hk)
  obtain ⟨hown, hquiet⟩ := exact_of_change_of_counter hi hexact (s := (seat.stack.call counter c).stack)
    (Call.effect_change seat.stack.slots c)
  refine ⟨fun k t ht => ?_, fun x hx => ?_⟩
  · rw [getElem?_counters_setCounter (w := w.setStack i (seat.stack.call counter c).stack) hk] at ht
    split at ht
    · rename_i h
      subst h
      exact hown t (Option.some.inj ht)
    · rename_i h
      -- Another counter than the stack's own keeps its tally, and its stacks keep their slots.
      have hsame := ownedItems_setStack_of_ne hi h (seat.stack.call counter c).stack
      exact hsame.symm ▸ hw k t ht
  · rw [Stack.call_events] at hx
    rcases List.mem_append.mp hx with hx | hx
    · exact hquiet x hx
    · cases Call.event_not_ofCounter (Option.mem_toList.mp hx)

/-- An action that is no direct notice keeps the accounts, and no counter ignores a removal on its behalf. -/
theorem Accounted.act {w : World} (hw : w.Accounted) {a : Action} (ha : ∀ k n, a ≠ .notify k n) {t : Turn}
    (h : w.act a = some t) : t.world.Accounted ∧ ∀ x, Event.strayRemoval x ∉ t.events := by
  cases a with
  | call i c =>
    obtain ⟨seat, counter, hs, hk, rfl⟩ := act_call_iff.mp h
    exact hw.call (seat?_eq_some_iff.mp hs).1 hk c
  | copy i j count =>
    obtain ⟨source, target, -, ht, -, rfl⟩ := act_copy_iff.mp h
    refine ⟨hw.setStack (seat?_eq_some_iff.mp ht).1 ?_, fun x hx => ?_⟩
    · rw [Stack.copyOnto_slots, Slot.ownedItems_append, Slot.ownedItems_copies, List.append_nil]
    · exact Stack.copyOnto_event_ne_strayRemoval _ _ _ x (Option.mem_toList.mp hx)
  | clearJournal i =>
    obtain ⟨seat, hs, rfl⟩ := act_clearJournal_iff.mp h
    exact ⟨hw.setStack (seat?_eq_some_iff.mp hs).1 rfl, by simp⟩
  | create k journal =>
    obtain ⟨-, rfl⟩ := act_create_iff.mp h
    refine ⟨fun k' t' ht' => ?_, by simp⟩
    have hnew : ({ stack := .new journal, counter := k } : Seat).ownedItems k' = [] := ite_self []
    simpa [ownedItems, hnew] using hw k' t' ht'
  | discard i =>
    obtain ⟨⟨seat, hs⟩, rfl⟩ := act_discard_iff.mp h
    refine ⟨fun k' t' ht' => ?_, by simp⟩
    obtain ⟨hlt, -⟩ := List.getElem?_eq_some_iff.mp (seat?_eq_some_iff.mp hs).1
    have hsame : (w.seats.modify i fun seat => { seat with live := false }).flatMap (·.ownedItems k') =
        w.ownedItems k' := by
      rw [List.modify_eq_take_cons_drop hlt, ownedItems]
      conv_rhs => rw [← List.take_append_drop i w.seats, List.drop_eq_getElem_cons hlt]
      simp only [List.flatMap_append, List.flatMap_cons]
      rfl
    have he := hw k' t' ht'
    rwa [← hsame] at he
  | notify k n => exact absurd rfl (ha k n)

/-- A tally stays a tally. -/
theorem act_tracking {w : World} {a : Action} {t : Turn} (h : w.act a = some t) {k : Nat}
    (hk : ∃ t₀, w.counters[k]? = some (.tracking t₀)) : ∃ t₁, t.world.counters[k]? = some (.tracking t₁) := by
  obtain ⟨t₀, hk⟩ := hk
  cases a with
  | call i c =>
    obtain ⟨seat, counter, -, hc, rfl⟩ := act_call_iff.mp h
    rw [getElem?_counters_setCounter (w := w.setStack i (seat.stack.call counter c).stack) hc]
    split
    · rename_i he
      rw [he, hk] at hc
      cases hc
      rw [Stack.call_listener, Listener.receiveAll_tracking]
      exact ⟨_, rfl⟩
    · exact ⟨t₀, hk⟩
  | copy i j count =>
    obtain ⟨source, target, -, -, -, rfl⟩ := act_copy_iff.mp h
    exact ⟨t₀, hk⟩
  | clearJournal i =>
    obtain ⟨seat, -, rfl⟩ := act_clearJournal_iff.mp h
    exact ⟨t₀, hk⟩
  | create k' journal =>
    obtain ⟨-, rfl⟩ := act_create_iff.mp h
    exact ⟨t₀, hk⟩
  | discard i =>
    obtain ⟨-, rfl⟩ := act_discard_iff.mp h
    exact ⟨t₀, hk⟩
  | notify k' n =>
    obtain ⟨counter, hc, rfl⟩ := act_notify_iff.mp h
    rw [getElem?_counters_setCounter hc]
    split
    · rename_i he
      rw [he, hk] at hc
      cases hc
      exact ⟨_, rfl⟩
    · exact ⟨t₀, hk⟩

/-! ## Runs -/

/-- A tally stays a tally to the end of the run. -/
theorem run_tracking {w : World} {actions : List Action} {h : History} (hr : w.run actions = some h) {k : Nat}
    (hk : ∃ t₀, w.counters[k]? = some (.tracking t₀)) : ∃ t, h.world.counters[k]? = some (.tracking t) :=
  run_keeps (I := fun w => ∃ t, w.counters[k]? = some (.tracking t)) (fun hw ht => act_tracking ht hw) hr hk

/-- Every run without direct notices keeps the accounts. -/
theorem Accounted.run {w : World} (hw : w.Accounted) {actions : List Action}
    (ha : ∀ a ∈ actions, ∀ k n, a ≠ .notify k n) {h : History} (hr : w.run actions = some h) : h.world.Accounted :=
  (run_invariant (fun ha hw => Accounted.act hw ha) hr ha hw).1

/-- Before the first action every account is empty, and exact. -/
theorem accounted_start {counters : List Counter} (hnew : ∀ c ∈ counters, c.New) : (start counters).Accounted := by
  intro k t hk
  have ht : t = .new t.limit := hnew _ (List.mem_of_getElem? hk)
  rw [ht]
  exact Tally.Exact.new t.limit

/-- The figures of an exact tally, read as the reports show them. -/
theorem account_of_exact {w : World} {k : Nat} {t : Tally} (h : t.Exact (w.ownedItems k)) : w.Account k t :=
  ⟨h.referencesTo_eq, h.references, h.counts.length_eq, h.adds⟩

/-- After every run on new counters in which no counter is notified directly, every tally says exactly what stands in
the owned slots of its stacks, with each discarded stack as it was discarded; and on the way no tally was told of a
removal that it had to ignore. -/
theorem references_eq_owned_slots (counters : List Counter) (hnew : ∀ c ∈ counters, c.New) (actions : List Action)
    (hdirect : ∀ k n, Action.notify k n ∉ actions) (h : History) (hr : (start counters).run actions = some h) :
    (∀ (k : Nat) (t₀ : Tally), counters[k]? = some (.tracking t₀) →
        ∃ t, h.world.counters[k]? = some (.tracking t) ∧ h.world.Account k t) ∧
      (∀ turn ∈ h.turns, ∀ x, Event.strayRemoval x ∉ turn.events) ∧
      ∀ before after h₀, actions = before ++ after → (start counters).run before = some h₀ →
        ∀ (i : Nat) (seat : Seat), h₀.world.seats[i]? = some seat → seat.live = false →
          h.world.seats[i]? = some seat := by
  have hall : ∀ a ∈ actions, ∀ k n, a ≠ .notify k n := fun a ha k n e => hdirect k n (e ▸ ha)
  obtain ⟨hexact, hquiet⟩ := run_invariant (fun ha hw => Accounted.act hw ha) hr hall (accounted_start hnew)
  refine ⟨fun k t₀ hk => ?_, hquiet, ?_⟩
  · obtain ⟨t, ht⟩ := run_tracking hr ⟨t₀, hk⟩
    exact ⟨t, ht, account_of_exact (hexact k t ht)⟩
  · rintro before after h₀ rfl hr₀ i seat hi hl
    obtain ⟨h₁, h₂, hr₁, hr₂, rfl⟩ := run_append_iff.mp hr
    rw [hr₀] at hr₁
    cases hr₁
    exact run_discarded hr₂ hi hl

/-- Two stacks on one tally: an item twice on the first, copied onto the second, the top of which is popped before the
first is discarded. -/
def copiedAndDiscarded : List Action :=
  [.create 0 true, .create 0 false, .call 0 (.push ⟨0, .null⟩), .call 0 (.push ⟨0, .null⟩), .copy 0 1 none,
    .call 1 (.insert 1 ⟨1, .boolean true⟩), .call 1 .pop, .discard 0]

theorem references_eq_owned_slots_copiedAndDiscarded :
    (∀ c ∈ [Counter.tracking (.new 1)], c.New) ∧ (∀ k n, Action.notify k n ∉ copiedAndDiscarded) ∧
      ∃ h : History, (start [.tracking (.new 1)]).run copiedAndDiscarded = some h ∧
        ∃ t, h.world.counters[0]? = some (.tracking t) ∧ h.world.Account 0 t := by
  have hnew : ∀ c ∈ [Counter.tracking (.new 1)], c.New := by simp [Counter.New, Tally.new]
  have hdirect : ∀ k n, Action.notify k n ∉ copiedAndDiscarded := by simp [copiedAndDiscarded]
  exact ⟨hnew, hdirect, _, rfl, (references_eq_owned_slots _ hnew _ hdirect _ rfl).1 0 _ rfl⟩

end World

end OperandStack
