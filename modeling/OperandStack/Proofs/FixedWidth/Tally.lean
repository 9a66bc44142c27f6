import OperandStack.Proofs.FixedWidth.Slots
import OperandStack.Proofs.Naming
import OperandStack.Proofs.Standing

/-!
# Tallies in words of 64 bits

A tally counts additions, removals, references and the entries of each identity in words. A tally that keeps to
identities has more additions than references, and more references than entries of any one identity, so that nothing
traps as long as the notices that it has heard are no more than a word can say (`FixedWidth.receive_eq`): the additions
and removals bound all that is added up, and no entry is zero, so that one can always be taken off.
-/

namespace OperandStack

namespace FixedWidth

/-! ## Tallies -/

/-- One more of an identity. -/
def raise (id : Nat) : Counts → Except Trap Counts
  | [] => do
    let n ← add 0 1
    .ok [(id, n.toNat)]
  | (key, n) :: rest =>
    if key = id then do
      let count ← word n
      let next ← add count 1
      .ok ((key, next.toNat) :: rest)
    else do
      let others ← raise id rest
      .ok ((key, n) :: others)

/-- One less of an identity, which leaves the list with its last count. -/
def lower (id : Nat) : Counts → Except Trap Counts
  | [] => .ok []
  | (key, n) :: rest =>
    if key = id then do
      let count ← word n
      let next ← sub count 1
      if next = 0 then .ok rest else .ok ((key, next.toNat) :: rest)
    else do
      let others ← lower id rest
      .ok ((key, n) :: others)

/-- An added item is counted; the first addition above the ceiling is reported. -/
def count (t : Tally) (item : Item) : Except Trap (Tally × Option Event) := do
  let received ← word t.adds
  let adds ← add received 1
  let counts ← raise item.id t.counts
  let before ← word t.references
  let references ← add before 1
  let crosses := decide (t.limit < references.toNat) && !t.overLimit
  .ok
    ({ t with
        references := references.toNat
        peak := if t.peak < references.toNat then references.toNat else t.peak
        adds := adds.toNat
        overLimit := t.overLimit || crosses
        counts },
      if crosses then some (.ceilingCrossed references.toNat t.limit) else none)

/-- A removed item is counted off; the removal of an item that has no count is reported and otherwise ignored. -/
def discount (t : Tally) (item : Item) : Except Trap (Tally × Option Event) := do
  let received ← word t.removes
  let removes ← add received 1
  match t.counts.lookup item.id with
  | none => .ok ({ t with removes := removes.toNat }, some (.strayRemoval item))
  | some _ =>
    let counts ← lower item.id t.counts
    let before ← word t.references
    let references := saturatingSub before 1
    .ok
      ({ t with
          references := references.toNat
          removes := removes.toNat
          overLimit := t.overLimit && decide (t.limit < references.toNat)
          counts },
        none)

/-- A tally after a notice, with the event it reports. -/
def receive (t : Tally) : Notice → Except Trap (Tally × Option Event)
  | .added item => count t item
  | .removed item => discount t item

theorem raise_eq {id : Nat} {counts : Counts} (h : ∀ entry ∈ counts, entry.2 + 1 < UInt64.size) :
    raise id counts = .ok (counts.raise id) := by
  induction counts with
  | nil => rfl
  | cons entry rest ih =>
    obtain ⟨key, n⟩ := entry
    have hn : n + 1 < UInt64.size := h (key, n) List.mem_cons_self
    rw [raise, Counts.raise]
    by_cases hkey : key = id
    · obtain ⟨w, next, hword, hadd, hexact⟩ := word_add_one_eq hn
      rw [if_pos hkey, if_pos hkey, hword]
      simp only [bind, Except.bind, hadd, hexact]
    · rw [if_neg hkey, if_neg hkey, ih fun entry hentry => h entry (List.mem_cons_of_mem _ hentry)]
      rfl

theorem lower_eq {id : Nat} {counts : Counts} (h : ∀ entry ∈ counts, 0 < entry.2 ∧ entry.2 < UInt64.size) :
    lower id counts = .ok (counts.lower id) := by
  induction counts with
  | nil => rfl
  | cons entry rest ih =>
    obtain ⟨key, n⟩ := entry
    obtain ⟨hpos, hn⟩ : 0 < n ∧ n < UInt64.size := h (key, n) List.mem_cons_self
    rw [lower, Counts.lower]
    by_cases hkey : key = id
    · obtain ⟨w, hword, hvalue⟩ := word_eq hn
      obtain ⟨next, hsub, hexact⟩ := sub_one_eq (hvalue ▸ hpos)
      have hiff : next = 0 ↔ n ≤ 1 := by
        rw [← UInt64.toNat_inj, hexact, hvalue]
        change n - 1 = 0 ↔ n ≤ 1
        omega
      rw [if_pos hkey, if_pos hkey, hword]
      simp only [bind, Except.bind, hsub, hiff, hexact, hvalue]
      split <;> rfl
    · rw [if_neg hkey, if_neg hkey, ih fun entry hentry => h entry (List.mem_cons_of_mem _ hentry)]
      rfl

end FixedWidth

/-- A tally that keeps to identities and has heard of as many additions as it has references, or more. -/
structure Tally.Sound (t : Tally) : Prop where
  keeps : ∃ ids, t.Keeps ids
  references_le : t.references ≤ t.adds

namespace Tally.Sound

variable {t : Tally} (h : t.Sound)
include h

/-- Each count is above zero and part of the references. -/
theorem entry {entry : Nat × Nat} (hentry : entry ∈ t.counts) : 0 < entry.2 ∧ entry.2 ≤ t.references := by
  obtain ⟨ids, hkeeps⟩ := h.keeps
  obtain ⟨key, n⟩ := entry
  refine ⟨hkeeps.pos_of_mem hentry, ?_⟩
  have hlookup := Counts.lookup_of_mem hkeeps.counts.nodup hentry
  rw [hkeeps.counts.lookup] at hlookup
  split at hlookup
  · cases hlookup
  · cases hlookup
    rw [hkeeps.references]
    exact List.count_le_length

theorem receive (n : Notice) : (t.receive n).1.Sound := by
  obtain ⟨ids, hkeeps⟩ := h.keeps
  refine ⟨⟨_, hkeeps.receive n⟩, ?_⟩
  have hreferences := h.references_le
  cases n with
  | added item => exact Nat.succ_le_succ hreferences
  | removed item =>
    simp only [Tally.receive, Tally.remove]
    split
    · exact hreferences
    · exact (Nat.sub_le _ _).trans hreferences

end Tally.Sound

/-- Whatever notices it has heard, a tally that started new is sound. -/
theorem Tally.sound_after (limit : Nat) (notices : List Notice) : (after limit notices).Sound :=
  ⟨⟨_, keeps_after limit notices⟩, Nat.le_of_add_right_le (references_add_heeded limit notices).le⟩

namespace FixedWidth

/-- A sound tally hears a notice without a trap, if all it has heard of then fits a word. -/
theorem receive_eq {t : Tally} (ht : t.Sound) {n : Notice}
    (hheard : (t.receive n).1.adds + (t.receive n).1.removes < UInt64.size) : receive t n = .ok (t.receive n) := by
  have hreferences := ht.references_le
  cases n with
  | added item =>
    have hfits : t.adds + 1 < UInt64.size := Nat.lt_of_le_of_lt (Nat.le_add_right _ _) hheard
    obtain ⟨received, adds, hword, hadds, hexact⟩ := word_add_one_eq hfits
    obtain ⟨before, references, hword', hadds', hexact'⟩ := word_add_one_eq (n := t.references) (by omega)
    have hcounts : raise item.id t.counts = .ok (t.counts.raise item.id) := by
      refine raise_eq fun entry hentry => ?_
      have hle := (ht.entry hentry).2
      omega
    have hpeak : (if t.peak < t.references + 1 then t.references + 1 else t.peak) = max t.peak (t.references + 1) := by
      split <;> omega
    simp only [receive, count, Tally.receive, Tally.add, bind, Except.bind, hword, hadds, hcounts, hword', hadds',
      hexact, hexact', hpeak]
  | removed item =>
    have hadds : (t.receive (.removed item)).1.adds = t.adds := t.adds_receive _
    have hremoves : (t.receive (.removed item)).1.removes = t.removes + 1 := t.removes_receive _
    rw [hadds, hremoves] at hheard
    obtain ⟨received, removes, hword, hsum, hexact⟩ := word_add_one_eq (n := t.removes) (by omega)
    obtain ⟨before, hword', hvalue⟩ := word_eq (n := t.references) (by omega)
    have hone : (1 : UInt64).toNat = 1 := rfl
    have hcounts : lower item.id t.counts = .ok (t.counts.lower item.id) := by
      refine lower_eq fun entry hentry => ?_
      have hbounds := ht.entry hentry
      omega
    simp only [receive, discount, Tally.receive, Tally.remove, bind, Except.bind, hword, hsum, hexact]
    cases t.counts.lookup item.id with
    | none => rfl
    | some n => simp only [hcounts, hword', toNat_saturatingSub, hvalue, hone]

/-! ## Listeners -/

/-- A receiver of notices that hears them in words of 64 bits. -/
class Hearer (κ : Type) where
  hear : κ → Notice → Except Trap (κ × Option Event)

instance : Hearer Tally where
  hear := receive

instance : Hearer Counter where
  hear
    | .tracking t, n => do
      let (t, event) ← receive t n
      .ok (.tracking t, event)
    | .silent, _ => .ok (.silent, none)
    | .recording heard, n => .ok (.recording (heard ++ [n]), none)

/-- A listener after notices in order, with the events it reports. -/
def receiveAll {κ : Type} [Hearer κ] (k : κ) : List Notice → Except Trap (κ × List Event)
  | [] => .ok (k, [])
  | n :: rest => do
    let (k, event) ← Hearer.hear k n
    let (k, events) ← receiveAll k rest
    .ok (k, event.toList ++ events)

/-- A call on a stack that notifies a listener. -/
def call {κ : Type} [Hearer κ] (s : Stack) (k : κ) (c : Call) : Except Trap (Step κ) := do
  let effect ← effect s.slots c
  let (listener, warnings) ← receiveAll k effect.notices
  .ok
    { reply := effect.reply
      stack := { slots := effect.slots, journal := s.recorded c }
      listener
      events := warnings ++ effect.event.toList }

/-- A sound tally hears notices without a trap, if all it has heard of in the end fits a word. -/
theorem receiveAll_tally {t : Tally} (ht : t.Sound) {notices : List Notice}
    (hheard : (Listener.receiveAll t notices).1.adds + (Listener.receiveAll t notices).1.removes < UInt64.size) :
    receiveAll t notices = .ok (Listener.receiveAll t notices) := by
  induction notices generalizing t with
  | nil => rfl
  | cons n rest ih =>
    have hlater := Tally.later_receiveAll (t.receive n).1 rest
    have hadds := hlater.adds_le
    have hremoves := hlater.removes_le
    rw [Listener.receiveAll_cons] at hheard
    have hfirst : receive t n = .ok (t.receive n) :=
      receive_eq ht (Nat.lt_of_le_of_lt (Nat.add_le_add hadds hremoves) hheard)
    have hrest := ih (ht.receive n) hheard
    rw [receiveAll]
    simp only [Hearer.hear, hfirst, hrest, bind, Except.bind]
    rfl

/-- A tracking counter does what its tally does. -/
theorem receiveAll_tracking (t : Tally) (notices : List Notice) :
    receiveAll (Counter.tracking t) notices = (receiveAll t notices).map fun r => (.tracking r.1, r.2) := by
  induction notices generalizing t with
  | nil => rfl
  | cons n rest ih =>
    simp only [receiveAll, Hearer.hear, bind, Except.bind]
    cases receive t n with
    | error trap => rfl
    | ok next =>
      simp only [ih]
      cases receiveAll next.1 rest <;> rfl

/-- A counter that is no tally counts nothing, so that nothing can trap. -/
theorem receiveAll_of_not_tracking {c : Counter} (hc : ∀ t, c ≠ .tracking t) (notices : List Notice) :
    receiveAll c notices = .ok (Listener.receiveAll c notices) := by
  induction notices generalizing c with
  | nil => rfl
  | cons n rest ih =>
    cases c with
    | tracking t => exact absurd rfl (hc t)
    | silent =>
      have hrest := ih (c := .silent) (by simp)
      simp only [receiveAll, Hearer.hear, bind, Except.bind, hrest]
      rfl
    | recording heard =>
      have hrest := ih (c := .recording (heard ++ [n])) (by simp)
      simp only [receiveAll, Hearer.hear, bind, Except.bind, hrest]
      rfl

/-- A counter hears notices without a trap, if it is no tally or a sound one for which they are not too many. -/
theorem receiveAll_counter {c : Counter} (hc : ∀ t, c = .tracking t → t.Sound) (notices : List Notice)
    (hheard : ∀ t, (Listener.receiveAll c notices).1 = .tracking t → t.adds + t.removes < UInt64.size) :
    receiveAll c notices = .ok (Listener.receiveAll c notices) := by
  by_cases htally : ∃ t, c = .tracking t
  · obtain ⟨t, rfl⟩ := htally
    rw [Listener.receiveAll_tracking] at hheard
    rw [receiveAll_tracking, receiveAll_tally (hc t rfl) (hheard _ rfl), Listener.receiveAll_tracking]
    rfl
  · exact receiveAll_of_not_tracking (fun t ht => htally ⟨t, ht⟩) notices

/-- A call traps no more than its listener does. -/
theorem call_eq {κ : Type} [Listener κ] [Hearer κ] {s : Stack} {k : κ} {c : Call}
    (hdepth : s.slots.length ≤ signedMax)
    (hheard : receiveAll k (c.effect s.slots).notices = .ok (Listener.receiveAll k (c.effect s.slots).notices)) :
    call s k c = .ok (s.call k c) := by
  rw [call, effect_eq hdepth]
  simp only [bind, Except.bind, hheard]
  rfl

end FixedWidth

end OperandStack
