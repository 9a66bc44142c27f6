import Mathlib.Algebra.BigOperators.Group.Finset.Basic
import Mathlib.Order.Bounds.Basic
import OperandStack.Proofs.Interleaving

/-!
# A tally as a multiset

Whatever notices a tally hears, in whatever order, it keeps to a list of identities: an addition puts one in, a removal
takes one of its own out if there is one, and is ignored otherwise (`Notice.stand`). One notice keeps it so
(`Tally.Keeps.receive`), and all figures of a tally are read off that list. What stands in it of one identity is the
count of that identity alone, up with each addition and down with each removal, never below zero (`Notice.level`); so
`Tally.reckons_after` states the figures by these counts.
-/

namespace OperandStack

namespace Notice

/-- The identity of the item that a notice is about. -/
def identity : Notice → Nat
  | added item | removed item => item.id

/-- A count after a notice: one more after an addition, one less after a removal, but never less than none. -/
def count (n : Nat) : Notice → Nat
  | added _ => n + 1
  | removed _ => n - 1

/-- How often notices leave an identity standing, counted over the notices about it alone. -/
def level (notices : List Notice) (id : Nat) : Nat :=
  (notices.filter fun n => n.identity == id).foldl count 0

/-- The identities that notices are about. -/
def mentioned (notices : List Notice) : Finset Nat :=
  (notices.map identity).toFinset

/-- The number of removals that find their identity standing. -/
def heeded (notices : List Notice) : Nat :=
  (List.range notices.length).countP fun i =>
    (notices[i]?).any fun n => n.isRemoval && decide (0 < level (notices.take i) n.identity)

/-- The identities that stand after a notice: one more, or without one of its own if there is one. -/
def stand (ids : List Nat) : Notice → List Nat
  | added item => item.id :: ids
  | removed item => ids.erase item.id

/-- The identities that notices leave standing. -/
def standing (notices : List Notice) : List Nat :=
  notices.foldl stand []

/-! ## One more notice -/

theorem level_concat (notices : List Notice) (n : Notice) (id : Nat) :
    level (notices ++ [n]) id = if n.identity = id then n.count (level notices id) else level notices id := by
  simp only [level, List.filter_append, List.foldl_append, List.filter_cons, List.filter_nil, beq_iff_eq]
  split <;> rfl

theorem standing_concat (notices : List Notice) (n : Notice) :
    standing (notices ++ [n]) = n.stand (standing notices) := by
  rw [standing, List.foldl_append]
  rfl

theorem heeded_concat (notices : List Notice) (n : Notice) :
    heeded (notices ++ [n]) =
      heeded notices + if n.isRemoval ∧ 0 < level notices n.identity then 1 else 0 := by
  rw [heeded, List.length_append, List.length_singleton, List.range_succ, List.countP_append]
  congr 1
  -- The new notice comes after all the others, so what they find is what they found without it.
  · refine List.countP_congr fun i hi => ?_
    rw [List.getElem?_append_left (List.mem_range.mp hi), List.take_append_of_le_length (List.mem_range.mp hi).le]
  · rw [List.countP_singleton, List.getElem?_append_right (Nat.le_refl _), Nat.sub_self, List.take_left']
    · simp
    · rfl

/-- What stands of an identity is its count. -/
theorem count_standing (notices : List Notice) (id : Nat) : (standing notices).count id = level notices id := by
  induction notices using List.reverseRecOn with
  | nil => rfl
  | append_singleton notices n ih =>
    rw [standing_concat, level_concat, ← ih]
    cases n with
    | added item =>
      rw [stand, List.count_cons]
      by_cases h : item.id = id <;> simp [identity, count, h]
    | removed item =>
      rw [stand]
      by_cases h : item.id = id
      · subst h
        rw [List.count_erase_self, identity, if_pos rfl, count]
      · rw [List.count_erase_of_ne (Ne.symm h), identity, if_neg h]

/-- Nothing stands that no notice is about. -/
theorem mem_mentioned_of_mem_standing {notices : List Notice} {id : Nat} (h : id ∈ standing notices) :
    id ∈ mentioned notices := by
  induction notices using List.reverseRecOn with
  | nil => exact absurd h List.not_mem_nil
  | append_singleton notices n ih =>
    rw [standing_concat] at h
    have hmentioned : id ∈ mentioned (notices ++ [n]) ↔ id ∈ mentioned notices ∨ id = n.identity := by
      simp [mentioned, or_comm]
    rw [hmentioned]
    cases n with
    | added item =>
      rcases List.mem_cons.mp h with rfl | h
      · exact Or.inr rfl
      · exact Or.inl (ih h)
    | removed item => exact Or.inl (ih (List.mem_of_mem_erase h))

/-- All that stands is counted by the sum of the counts. -/
theorem length_standing (notices : List Notice) :
    (standing notices).length = ∑ id ∈ mentioned notices, level notices id := by
  have hsubset : (standing notices).toFinset ⊆ mentioned notices := fun id hid =>
    mem_mentioned_of_mem_standing (List.mem_toFinset.mp hid)
  rw [← List.sum_toFinset_count_eq_length]
  simp only [count_standing]
  refine Finset.sum_subset hsubset fun id _ hid => ?_
  rw [← count_standing]
  exact List.count_eq_zero_of_not_mem fun hmem => hid (List.mem_toFinset.mpr hmem)

/-- The identities that stand are those with a count above zero. -/
theorem toFinset_standing (notices : List Notice) :
    (standing notices).toFinset = {id ∈ mentioned notices | 0 < level notices id} := by
  ext id
  rw [List.mem_toFinset, Finset.mem_filter, ← count_standing, List.count_pos_iff]
  exact ⟨fun h => ⟨mem_mentioned_of_mem_standing h, h⟩, And.right⟩

end Notice

/-- Where identities stand once, each is found with its own count. -/
theorem Counts.lookup_of_mem {counts : Counts} (hn : (counts.map Prod.fst).Nodup) {key n : Nat}
    (h : (key, n) ∈ counts) : counts.lookup key = some n := by
  induction counts with
  | nil => cases h
  | cons entry rest ih =>
    obtain ⟨k, m⟩ := entry
    rw [List.map_cons, List.nodup_cons] at hn
    rw [lookup_cons]
    rcases List.mem_cons.mp h with he | hmem
    · cases he
      rw [if_pos rfl]
    · have hne : key ≠ k := by
        rintro rfl
        exact hn.1 (List.mem_map.mpr ⟨_, hmem, rfl⟩)
      rw [if_neg hne, ih hn.2 hmem]

theorem Tally.adds_receive (t : Tally) (n : Notice) :
    (t.receive n).1.adds = t.adds + if n.isRemoval then 0 else 1 := by
  cases n with
  | added item => rfl
  | removed item =>
    simp only [receive, remove]
    split <;> rfl

/-- A tally counts the additions that it hears of. -/
theorem Listener.adds_receiveAll (t : Tally) (notices : List Notice) :
    (receiveAll t notices).1.adds = t.adds + notices.countP fun n => !n.isRemoval := by
  induction notices generalizing t with
  | nil => rfl
  | cons n rest ih =>
    have hfirst : (receive t n).1.adds = t.adds + if n.isRemoval then 0 else 1 := t.adds_receive n
    rw [receiveAll_cons, ih, List.countP_cons, hfirst]
    cases n.isRemoval <;> simp only [Bool.not_true, Bool.not_false, if_true, if_false, Bool.false_eq_true] <;> omega

namespace Tally

/-! ## What a tally keeps to -/

/-- A tally keeps to identities when it counts each of them as often as it stands among them, no other one, and in all
as many as there are. -/
structure Keeps (t : Tally) (ids : List Nat) : Prop where
  counts : t.counts.Exact ids
  references : t.references = ids.length

/-- A new tally after notices. -/
def after (limit : Nat) (notices : List Notice) : Tally :=
  (Listener.receiveAll (new limit) notices).1

theorem after_concat (limit : Nat) (notices : List Notice) (n : Notice) :
    after limit (notices ++ [n]) = ((after limit notices).receive n).1 := by
  rw [after, Listener.receiveAll_append]
  rfl

/-- A removal is ignored exactly when there is nothing to remove. -/
theorem remove_event_eq_iff (t : Tally) (x : Item) :
    (t.remove x).2 = some (.strayRemoval x) ↔ t.counts.lookup x.id = none := by
  rw [remove]
  cases t.counts.lookup x.id <;> simp

/-- A peak that is not below the references stays the highest of both. -/
theorem peak_receive {t : Tally} (h : t.references ≤ t.peak) (n : Notice) :
    (t.receive n).1.peak = max t.peak (t.receive n).1.references := by
  cases n with
  | added item => rfl
  | removed item =>
    simp only [receive, remove]
    split
    · exact (Nat.max_eq_left h).symm
    · exact (Nat.max_eq_left ((Nat.sub_le _ _).trans h)).symm

namespace Keeps

variable {t : Tally} {ids : List Nat} (h : t.Keeps ids)
include h

/-- An identity has a count exactly when it stands. -/
theorem lookup_eq_none_iff (id : Nat) : t.counts.lookup id = none ↔ ids.count id = 0 := by
  rw [h.counts.lookup]
  simp

/-- A notice is kept to: an addition puts its identity in, a removal takes one of its own out or is ignored. -/
theorem receive (n : Notice) : (t.receive n).1.Keeps (n.stand ids) := by
  cases n with
  | added item => exact ⟨h.counts.raise item.id, congrArg (· + 1) h.references⟩
  | removed item =>
    by_cases hstands : item.id ∈ ids
    · have hcount : ids.count item.id ≠ 0 := Nat.pos_iff_ne_zero.mp (List.count_pos_iff.mpr hstands)
      have hlookup : t.counts.lookup item.id = some (ids.count item.id) := by rw [h.counts.lookup, if_neg hcount]
      simp only [Tally.receive, Tally.remove, hlookup, Notice.stand]
      exact ⟨(h.counts.perm (List.perm_cons_erase hstands)).lower, by
        rw [List.length_erase_of_mem hstands, h.references]⟩
    · have hlookup : t.counts.lookup item.id = none :=
        (h.lookup_eq_none_iff _).mpr (List.count_eq_zero_of_not_mem hstands)
      simp only [Tally.receive, Tally.remove, hlookup, Notice.stand, List.erase_of_not_mem hstands]
      exact ⟨h.counts, h.references⟩

/-- No count is zero. -/
theorem pos_of_mem {key n : Nat} (hentry : (key, n) ∈ t.counts) : 0 < n := by
  have hlookup := Counts.lookup_of_mem h.counts.nodup hentry
  rw [h.counts.lookup] at hlookup
  split at hlookup
  · cases hlookup
  · rename_i hcount
    cases hlookup
    exact Nat.pos_of_ne_zero hcount

/-- While an identity is counted, there are references. -/
theorem references_pos {id : Nat} (hid : (t.counts.lookup id).isSome) : 0 < t.references := by
  have hcount : ids.count id ≠ 0 := by
    intro hzero
    rw [(h.lookup_eq_none_iff id).mpr hzero] at hid
    cases hid
  rw [h.references]
  exact (Nat.pos_of_ne_zero hcount).trans_le List.count_le_length

end Keeps

/-! ## New tallies after notices -/

variable (limit : Nat) (notices : List Notice)

theorem keeps_after : (after limit notices).Keeps (Notice.standing notices) := by
  induction notices using List.reverseRecOn with
  | nil => exact ⟨Counts.Exact.nil, rfl⟩
  | append_singleton notices n ih =>
    rw [after_concat, Notice.standing_concat]
    exact ih.receive n

/-- The references to an item are the count of its identity. -/
theorem referencesTo_after (x : Item) : (after limit notices).referencesTo x = Notice.level notices x.id := by
  rw [referencesTo, (keeps_after limit notices).counts.of_eq, Notice.count_standing]

theorem references_after :
    (after limit notices).references = ∑ id ∈ Notice.mentioned notices, Notice.level notices id :=
  (keeps_after limit notices).references.trans (Notice.length_standing notices)

theorem length_counts_after :
    (after limit notices).counts.length =
      ({id ∈ Notice.mentioned notices | 0 < Notice.level notices id} : Finset Nat).card := by
  rw [(keeps_after limit notices).counts.length_eq, Notice.toFinset_standing]

theorem removes_after : (after limit notices).removes = notices.countP Notice.isRemoval :=
  (Listener.removes_receiveAll (new limit) notices).trans (Nat.zero_add _)

theorem adds_after : (after limit notices).adds = notices.countP fun n => !n.isRemoval :=
  (Listener.adds_receiveAll (new limit) notices).trans (Nat.zero_add _)

/-- The items added so far are those referred to and those of the removals that were heeded. -/
theorem references_add_heeded :
    (after limit notices).references + Notice.heeded notices = (after limit notices).adds := by
  induction notices using List.reverseRecOn with
  | nil => rfl
  | append_singleton notices n ih =>
    have hkeeps := keeps_after limit notices
    rw [hkeeps.references] at ih
    rw [after_concat, (hkeeps.receive n).references, adds_receive, Notice.heeded_concat, ← ih]
    cases n with
    | added item =>
      simp only [Notice.stand, Notice.isRemoval, List.length_cons, Bool.false_eq_true, false_and, if_false]
      omega
    | removed item =>
      simp only [Notice.stand, Notice.isRemoval, Notice.identity, true_and, if_true, ← Notice.count_standing,
        List.count_pos_iff]
      by_cases hstands : item.id ∈ Notice.standing notices
      · have hpos := List.length_pos_of_mem hstands
        rw [if_pos hstands, List.length_erase_of_mem hstands]
        omega
      · rw [if_neg hstands, List.erase_of_not_mem hstands]
        rfl

/-- The peak is the highest number of references at any time so far. -/
theorem isGreatest_peak : IsGreatest {n | ∃ before, before <+: notices ∧ (after limit before).references = n}
    (after limit notices).peak := by
  induction notices using List.reverseRecOn with
  | nil =>
    refine ⟨⟨[], List.nil_prefix, rfl⟩, ?_⟩
    rintro n ⟨before, hbefore, rfl⟩
    rw [List.prefix_nil.mp hbefore]
    exact Nat.le_refl 0
  | append_singleton notices n ih =>
    have hnow : (after limit notices).references ≤ (after limit notices).peak :=
      ih.2 ⟨notices, List.prefix_refl _, rfl⟩
    have hpeak : (after limit (notices ++ [n])).peak =
        max (after limit notices).peak (after limit (notices ++ [n])).references := by
      rw [after_concat]
      exact peak_receive hnow n
    have hsplit : {m | ∃ before, before <+: notices ++ [n] ∧ (after limit before).references = m} =
        insert (after limit (notices ++ [n])).references
          {m | ∃ before, before <+: notices ∧ (after limit before).references = m} := by
      ext m
      simp only [List.prefix_concat_iff, Set.mem_ofPred_eq, Set.mem_insert_iff, or_and_right, exists_or, exists_eq_left]
      rw [eq_comm]
    rw [hpeak, hsplit, max_comm]
    exact ih.insert _

/-- What the figures of a tally say of notices, each identity counted by itself: up with an addition and down with a
removal, but never below zero. -/
structure Reckons (t : Tally) (limit : Nat) (notices : List Notice) : Prop where
  each : ∀ x, t.referencesTo x = Notice.level notices x.id
  references : t.stats.references = ∑ id ∈ Notice.mentioned notices, Notice.level notices id
  trackedItems : t.stats.trackedItems =
    ({id ∈ Notice.mentioned notices | 0 < Notice.level notices id} : Finset Nat).card
  peak : IsGreatest {n | ∃ before, before <+: notices ∧ (after limit before).stats.references = n} t.stats.peak
  adds : t.stats.adds = notices.countP fun n => !n.isRemoval
  removes : t.stats.removes = notices.countP Notice.isRemoval
  references_le : t.stats.references ≤ t.stats.adds
  heeded : t.stats.adds - t.stats.references = Notice.heeded notices
  ignored : ∀ x : Item, (t.receive (.removed x)).2 = some (.strayRemoval x) ↔ Notice.level notices x.id = 0
  unsaturated : ∀ x : Item, (t.counts.lookup x.id).isSome → 1 ≤ t.stats.references
  nodup : (t.counts.map Prod.fst).Nodup
  positive : ∀ id n, (id, n) ∈ t.counts → n ≠ 0

/-- Whatever notices a new tally hears, its figures are those of a multiset that ignores what it cannot remove: the
references to an item are the count of its identity, which no other notice has a say in, all references are the sum of
these counts, and the tracked items those with a count above zero; the peak is the highest number of references at any
time so far; additions and removals are all counted, and additions without references are the removals that were heeded.
A removal is reported as ignored exactly when the count of its identity is zero; any other finds a reference to take
away, so that subtracting it leaves no remainder below zero, and no count of zero is kept. -/
theorem reckons_after : (after limit notices).Reckons limit notices where
  each := referencesTo_after limit notices
  references := references_after limit notices
  trackedItems := length_counts_after limit notices
  peak := isGreatest_peak limit notices
  adds := adds_after limit notices
  removes := removes_after limit notices
  references_le := (Nat.le_add_right _ _).trans_eq (references_add_heeded limit notices)
  heeded := Nat.sub_eq_of_eq_add' (references_add_heeded limit notices).symm
  ignored x := by
    rw [← Notice.count_standing, ← (keeps_after limit notices).lookup_eq_none_iff]
    exact remove_event_eq_iff _ x
  unsaturated x hx := (keeps_after limit notices).references_pos hx
  nodup := (keeps_after limit notices).counts.nodup
  positive _ _ hentry := ((keeps_after limit notices).pos_of_mem hentry).ne'

end Tally

end OperandStack
