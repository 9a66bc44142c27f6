import Mathlib.Algebra.BigOperators.Group.Finset.Piecewise
import OperandStack.Proofs.Alone
import OperandStack.Proofs.LifeCycle

/-!
# The order of actions on different stacks

Stacks that share a counter meet only there. A tally that hears of nothing but its stacks ignores no removal, so its
figures follow from the slots and from the number of removals, and that is a sum over the stacks (`World.removals`):
neither depends on how the actions on different stacks are interleaved (`interleavings_agree`). What is left to the
order is how high the count rose on the way, and the warnings about it.
-/

namespace OperandStack

/-- Actions that are each on one stack, and that keep to a plan for every stack: those on a stack are the planned ones
in the planned order. -/
structure Interleaves (plan : Nat → List Action) (actions : List Action) : Prop where
  each : ∀ a ∈ actions, ∃ i, a.seat? = some i
  own : ∀ i, Action.own i actions = plan i

theorem Interleaves.not_notify {plan : Nat → List Action} {actions : List Action} (h : Interleaves plan actions) :
    ∀ a ∈ actions, ∀ k n, a ≠ .notify k n := by
  intro a ha
  obtain ⟨i, hi⟩ := h.each a ha
  exact Action.not_notify hi

/-- Two tallies that differ at most in their peak and in the order of their entries. -/
structure Tally.Agree (t t' : Tally) : Prop where
  limit : t'.limit = t.limit
  stats : t'.stats = { t.stats with peak := t'.peak }
  referencesTo : ∀ x, t'.referencesTo x = t.referencesTo x
  overLimit : t'.overLimit = t.overLimit
  check : t'.check = t.check

/-! ## What a tally counts of actions on stacks -/

/-- Whether a notice is about an item that leaves. -/
def Notice.isRemoval : Notice → Bool
  | added _ => false
  | removed _ => true

namespace Seat

/-- The removals that actions on a stack have a counter hear: none if the stack notifies another one. -/
def removals (seat : Seat) (k : Nat) (actions : List Action) : Nat :=
  if seat.counter = k then ((seat.deeds actions).flatMap Deed.notices).countP Notice.isRemoval else 0

theorem removals_cons (seat : Seat) (k : Nat) (a : Action) (rest : List Action) :
    seat.removals k (a :: rest) =
      (if seat.counter = k then (seat.deed a).notices.countP Notice.isRemoval else 0) +
        (seat.deed a).seat.removals k rest := by
  rw [removals, removals, deed_counter, deeds, List.flatMap_cons, List.countP_append]
  split <;> rfl

end Seat

namespace Tally

theorem removes_receive (t : Tally) (n : Notice) :
    (t.receive n).1.removes = t.removes + if n.isRemoval then 1 else 0 := by
  cases n with
  | added item => rfl
  | removed item =>
    simp only [receive, remove]
    split <;> rfl

/-- The flag goes up with the addition that crosses the limit and down with the removal that comes back to it. -/
theorem overLimit_receive {t : Tally} (ht : t.overLimit = decide (t.limit < t.references)) (n : Notice) :
    (t.receive n).1.limit = t.limit ∧
      (t.receive n).1.overLimit = decide ((t.receive n).1.limit < (t.receive n).1.references) := by
  cases n with
  | added item =>
    refine ⟨rfl, ?_⟩
    change (t.overLimit || (decide (t.limit < t.references + 1) && !t.overLimit)) = decide (t.limit < t.references + 1)
    by_cases hover : t.limit < t.references
    · have hnext : t.limit < t.references + 1 := by omega
      simp [ht, hover, hnext]
    · simp [ht, hover]
  | removed item =>
    cases hl : t.counts.lookup item.id with
    | none =>
      simp only [receive, remove, hl]
      exact ⟨trivial, ht⟩
    | some count =>
      simp only [receive, remove, hl]
      refine ⟨trivial, ?_⟩
      change (t.overLimit && decide (t.limit < t.references - 1)) = decide (t.limit < t.references - 1)
      by_cases hback : t.limit < t.references - 1
      · have hover : t.limit < t.references := by omega
        simp [ht, hback, hover]
      · simp [hback]

end Tally

namespace Listener

/-- A tally counts the removals that it hears of, those that it ignores too. -/
theorem removes_receiveAll (t : Tally) (notices : List Notice) :
    (receiveAll t notices).1.removes = t.removes + notices.countP Notice.isRemoval := by
  induction notices generalizing t with
  | nil => rfl
  | cons n rest ih =>
    have hfirst : (receive t n).1.removes = t.removes + if n.isRemoval then 1 else 0 := Tally.removes_receive t n
    rw [receiveAll_cons, ih, List.countP_cons, hfirst]
    omega

/-- A tally keeps its limit, and its flag stays set exactly while there are more references than the limit allows. -/
theorem overLimit_receiveAll {t : Tally} (ht : t.overLimit = decide (t.limit < t.references)) (notices : List Notice) :
    (receiveAll t notices).1.limit = t.limit ∧ (receiveAll t notices).1.overLimit =
      decide ((receiveAll t notices).1.limit < (receiveAll t notices).1.references) := by
  induction notices generalizing t with
  | nil => exact ⟨rfl, ht⟩
  | cons n rest ih =>
    obtain ⟨hlimit, hflag⟩ := Tally.overLimit_receive ht n
    obtain ⟨hlimit', hflag'⟩ := ih hflag
    exact ⟨hlimit'.trans hlimit, hflag'⟩

end Listener

namespace World

variable {w : World} {actions : List Action} {h : History}

/-! ## Removals, stack by stack -/

/-- The removals that a counter hears of from actions on stacks, as a sum over the stacks. -/
def removals (w : World) (k : Nat) (actions : List Action) : Nat :=
  ∑ i ∈ Finset.range w.seats.length, (w.seats[i]?).elim 0 fun seat => seat.removals k (Action.own i actions)

/-- An action on a stack adds its own removals to the sum. -/
theorem removals_cons {a : Action} {i : Nat} {seat : Seat} {t : Turn} (ha : a.seat? = some i)
    (hs : w.seats[i]? = some seat) (hp : w.Performed i (seat.deed a) t) (k : Nat) (rest : List Action) :
    w.removals k (a :: rest) =
      (if seat.counter = k then (seat.deed a).notices.countP Notice.isRemoval else 0) + t.world.removals k rest := by
  have heach : ∀ j, ((w.seats[j]?).elim 0 fun s => s.removals k (Action.own j (a :: rest))) =
      (if j = i then if seat.counter = k then (seat.deed a).notices.countP Notice.isRemoval else 0 else 0) +
        (t.world.seats[j]?).elim 0 fun s => s.removals k (Action.own j rest) := by
    intro j
    rw [hp.seats]
    by_cases hj : j = i
    · subst hj
      rw [if_pos rfl, if_pos rfl, hs, Action.own_cons_self ha]
      exact seat.removals_cons k a _
    · rw [if_neg hj, if_neg hj, Action.own_cons_of_ne ha hj, Nat.zero_add]
  have hi : i ∈ Finset.range w.seats.length := Finset.mem_range.mpr (List.getElem?_eq_some_iff.mp hs).1
  simp only [removals, heach, Finset.sum_add_distrib, hp.length, Finset.sum_ite_eq', if_pos hi]

/-- A tally that hears of actions on stacks counts the sum of their removals. -/
theorem run_removes (hl : ∀ a ∈ actions, ∃ i, a.seat? = some i) (hr : w.run actions = some h) {k : Nat} {t : Tally}
    (hk : w.counters[k]? = some (.tracking t)) :
    ∃ t', h.world.counters[k]? = some (.tracking t') ∧ t'.removes = t.removes + w.removals k actions := by
  induction actions generalizing w h t with
  | nil =>
    cases hr
    have hnone : ∀ i : Nat, ((w.seats[i]?).elim 0 fun seat : Seat => seat.removals k []) = 0 := by
      intro i
      cases w.seats[i]? with
      | none => rfl
      | some seat => exact ite_self 0
    refine ⟨t, hk, ?_⟩
    simp only [removals, Action.own, List.filter_nil, hnone, Finset.sum_const_zero, Nat.add_zero]
  | cons a rest ih =>
    obtain ⟨i, ha⟩ := hl a List.mem_cons_self
    obtain ⟨turn, history, ht, hr', rfl⟩ := run_cons_iff.mp hr
    obtain ⟨seat, hs, hp⟩ := act_performed ha ht
    have hnext := hp.counters k _ hk
    rw [Seat.deed_counter] at hnext
    have hrest : ∀ b ∈ rest, ∃ i, b.seat? = some i := fun b hb => hl b (List.mem_cons_of_mem a hb)
    rw [removals_cons ha (seat?_eq_some_iff.mp hs).1 hp]
    by_cases hown : seat.counter = k
    · rw [if_pos hown, Listener.receiveAll_tracking] at hnext
      obtain ⟨t', ht', hremoves⟩ := ih hrest hr' hnext
      refine ⟨t', ht', ?_⟩
      rw [if_pos hown, hremoves, Listener.removes_receiveAll, Nat.add_assoc]
    · rw [if_neg hown] at hnext
      obtain ⟨t', ht', hremoves⟩ := ih hrest hr' hnext
      refine ⟨t', ht', ?_⟩
      rw [if_neg hown, Nat.zero_add, hremoves]

/-! ## Any two interleavings -/

/-- A tally that started new has kept its limit, and its flag is set exactly while it is above the limit. -/
theorem run_overLimit {counters : List Counter} (hnew : ∀ c ∈ counters, c.New)
    (hr : (start counters).run actions = some h) {k : Nat} {t₀ t : Tally} (hk₀ : counters[k]? = some (.tracking t₀))
    (hk : h.world.counters[k]? = some (.tracking t)) :
    t.limit = t₀.limit ∧ t.overLimit = decide (t.limit < t.references) := by
  have hy : (Yard.bare counters.length : Yard Tagged).map Tagged.slot = (start counters).shelves := rfl
  obtain ⟨-, -, -, hheard⟩ := run_tagged hy hr
  have ht := hheard k _ hk₀
  rw [hk, Listener.receiveAll_tracking] at ht
  cases ht
  have hstart : t₀.overLimit = decide (t₀.limit < t₀.references) := by
    have h₀ : t₀ = .new t₀.limit := hnew _ (List.mem_of_getElem? hk₀)
    rw [h₀]
    rfl
  exact Listener.overLimit_receiveAll hstart _

/-- Two tallies that are exact for the same items agree if they have the same limit, heard of as many removals and set
their flags alike. -/
theorem agree_of_exact {t t' : Tally} {items : List Item} (ht : t.Exact items) (ht' : t'.Exact items)
    (hlimit : t'.limit = t.limit) (hremoves : t'.removes = t.removes)
    (hflag : t.overLimit = decide (t.limit < t.references))
    (hflag' : t'.overLimit = decide (t'.limit < t'.references)) : t.Agree t' := by
  have hreferences : t'.references = t.references := ht'.references.trans ht.references.symm
  have hadds : t'.adds = t.adds := by rw [ht'.adds, ht.adds, hreferences, hremoves]
  have htracked : t'.counts.length = t.counts.length := ht'.counts.length_eq.trans ht.counts.length_eq.symm
  refine ⟨hlimit, ?_, fun x => ?_, ?_, ?_⟩
  · simp only [Tally.stats, hreferences, hadds, hremoves, htracked]
  · exact (ht'.counts.of_eq x.id).trans (ht.counts.of_eq x.id).symm
  · rw [hflag', hflag, hlimit, hreferences]
  · rw [Tally.check, Tally.check, hlimit, hreferences]

/-- What the tally `k` says at the end of an interleaving, in figures that do not depend on its order. -/
theorem tally_after {counters : List Counter} (hnew : ∀ c ∈ counters, c.New) {before : List Action} {h₀ : History}
    (hr₀ : (start counters).run before = some h₀) (hexact : h₀.world.Accounted) {plan : Nat → List Action}
    (hplan : Interleaves plan actions) (hr : h₀.world.run actions = some h) {k : Nat} {t₀ t : Tally}
    (hk : counters[k]? = some (.tracking t₀)) (ht : h₀.world.counters[k]? = some (.tracking t)) :
    ∃ t', h.world.counters[k]? = some (.tracking t') ∧ t'.Exact (h.world.ownedItems k) ∧ t'.limit = t₀.limit ∧
      t'.overLimit = decide (t'.limit < t'.references) ∧ t'.removes = t.removes + h₀.world.removals k actions := by
  obtain ⟨t', ht', hremoves⟩ := run_removes hplan.each hr ht
  have hrun := run_append_iff.mpr ⟨h₀, h, hr₀, hr, rfl⟩
  obtain ⟨hlimit, hflag⟩ := run_overLimit hnew hrun hk ht'
  exact ⟨t', ht', hexact.run hplan.not_notify hr k t' ht', hlimit, hflag, hremoves⟩

/-- After any run on new counters in which no counter is notified directly, let every stack have a plan of actions on
itself. If one interleaving of the plans can be run, every other can; each stack is answered the same, warnings left
out, and ends with the same slots and journal, and each tally ends with the same figures but for its peak. -/
theorem interleavings_agree (counters : List Counter) (hnew : ∀ c ∈ counters, c.New) (before : List Action)
    (hdirect : ∀ k n, Action.notify k n ∉ before) (h₀ : History) (hr₀ : (start counters).run before = some h₀)
    (plan : Nat → List Action) (xs ys : List Action) (hx : Interleaves plan xs) (hy : Interleaves plan ys)
    (h₁ : History) (hr₁ : h₀.world.run xs = some h₁) :
    ∃ h₂, h₀.world.run ys = some h₂ ∧ (∀ i, Turn.answers i ys h₂.turns = Turn.answers i xs h₁.turns) ∧
      h₂.world.seats = h₁.world.seats ∧
      ∀ (k : Nat) (t₀ : Tally), counters[k]? = some (.tracking t₀) →
        ∃ t₁ t₂, h₁.world.counters[k]? = some (.tracking t₁) ∧ h₂.world.counters[k]? = some (.tracking t₂) ∧
          t₁.Agree t₂ := by
  have hown : ∀ i, Action.own i ys = Action.own i xs := fun i => (hy.own i).trans (hx.own i).symm
  have hwired : h₀.world.Wired := run_keeps (fun hw ht => hw.act ht) hr₀ (wired_start counters)
  obtain ⟨h₂, hr₂⟩ : ∃ h₂, h₀.world.run ys = some h₂ := by
    rw [exists_run_iff hwired hy.each]
    intro i
    rw [hown]
    exact (exists_run_iff hwired hx.each).mp ⟨h₁, hr₁⟩ i
  have hexact : h₀.world.Accounted :=
    (accounted_start hnew).run (fun a ha k n e => hdirect k n (e ▸ ha)) hr₀
  have hseats : h₂.world.seats = h₁.world.seats := by
    apply List.ext_getElem?
    intro i
    rw [(run_at hexact hy.each hr₂ i).1, (run_at hexact hx.each hr₁ i).1, hown]
  refine ⟨h₂, hr₂, fun i => ?_, hseats, fun k t₀ hk => ?_⟩
  · rw [(run_at hexact hy.each hr₂ i).2, (run_at hexact hx.each hr₁ i).2, hown]
  · obtain ⟨t, ht⟩ := run_tracking hr₀ ⟨t₀, hk⟩
    obtain ⟨t₁, ht₁, hexact₁, hlimit₁, hflag₁, hremoves₁⟩ := tally_after hnew hr₀ hexact hx hr₁ hk ht
    obtain ⟨t₂, ht₂, hexact₂, hlimit₂, hflag₂, hremoves₂⟩ := tally_after hnew hr₀ hexact hy hr₂ hk ht
    have hremovals : h₀.world.removals k ys = h₀.world.removals k xs := by simp only [removals, hown]
    have hsame : h₂.world.ownedItems k = h₁.world.ownedItems k := by rw [ownedItems, ownedItems, hseats]
    rw [hsame] at hexact₂
    refine ⟨t₁, t₂, ht₁, ht₂, agree_of_exact hexact₁ hexact₂ ?_ ?_ hflag₁ hflag₂⟩
    · rw [hlimit₂, hlimit₁]
    · rw [hremoves₂, hremoves₁, hremovals]

/-- Two stacks on one tally, an item on the first of them. -/
def onFirst : List Action :=
  [.create 0 true, .create 0 true, .call 0 (.push ⟨0, .null⟩)]

/-- The item leaves the first stack before it comes to the second, so that its count is dropped and taken up again. -/
def popThenPush : List Action :=
  [.call 0 .pop, .call 1 (.push ⟨0, .null⟩)]

/-- The item is on both stacks for a while. -/
def pushThenPop : List Action :=
  [.call 1 (.push ⟨0, .null⟩), .call 0 .pop]

theorem interleavings_agree_handedOver :
    (∀ c ∈ [Counter.tracking (.new 1)], c.New) ∧ (∀ k n, Action.notify k n ∉ onFirst) ∧
      ∃ plan h₀ h₁ h₂, (start [.tracking (.new 1)]).run onFirst = some h₀ ∧ Interleaves plan popThenPush ∧
        Interleaves plan pushThenPop ∧ h₀.world.run popThenPush = some h₁ ∧ h₀.world.run pushThenPop = some h₂ ∧
        h₂.world.seats = h₁.world.seats ∧ ∃ t₁ t₂, h₁.world.counters[0]? = some (.tracking t₁) ∧
          h₂.world.counters[0]? = some (.tracking t₂) ∧ t₁.Agree t₂ ∧ t₁.peak = 1 ∧ t₂.peak = 2 := by
  have hnew : ∀ c ∈ [Counter.tracking (.new 1)], c.New := by simp [Counter.New, Tally.new]
  have hdirect : ∀ k n, Action.notify k n ∉ onFirst := by simp [onFirst]
  have hx : Interleaves (fun i => Action.own i popThenPush) popThenPush :=
    ⟨by simp [popThenPush, Action.seat?], fun _ => rfl⟩
  have hy : Interleaves (fun i => Action.own i popThenPush) pushThenPop := by
    refine ⟨by simp [pushThenPop, Action.seat?], fun i => ?_⟩
    rcases i with _ | _ | i
    · rfl
    · rfl
    · rfl
  obtain ⟨h₂, hr₂, -, hseats, hk⟩ := interleavings_agree _ hnew _ hdirect _ rfl _ _ _ hx hy _ rfl
  obtain ⟨t₁, t₂, ht₁, ht₂, hagree⟩ := hk 0 _ rfl
  refine ⟨hnew, hdirect, _, _, _, h₂, rfl, hx, hy, rfl, hr₂, hseats, t₁, t₂, ht₁, ht₂, hagree, ?_, ?_⟩
  · cases ht₁
    rfl
  · cases hr₂
    cases ht₂
    rfl

end World

end OperandStack
