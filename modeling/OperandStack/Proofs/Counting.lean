import Mathlib.Data.Finset.Card
import OperandStack.Counter

/-!
# What a tally counts

A tally is exact for a list of items when it counts each identity as often as it occurs in the list, and nothing else.
Adding an item to an exact tally and removing one that it counts keep it exact (`Tally.Exact.add`,
`Tally.Exact.remove`); only a removal of an item that it does not count could be stray, and an exact tally sees none.
-/

namespace OperandStack

namespace Counts

/-! ## Looking up after a change -/

/-- The first entry is found by its identity, the others behind it. -/
theorem lookup_cons (k n key : Nat) (rest : Counts) :
    List.lookup key ((k, n) :: rest) = if key = k then some n else List.lookup key rest := by
  rw [List.lookup_cons]
  by_cases h : key = k
  · subst h
    simp
  · have hb : (key == k) = false := by simpa using h
    simp only [hb, if_neg h]

theorem of_cons (k n key : Nat) (rest : Counts) : of key ((k, n) :: rest) = if key = k then n else of key rest := by
  rw [of, lookup_cons]
  split <;> rfl

/-- Raising gives the identity one more and leaves the others. -/
theorem lookup_raise (id key : Nat) (counts : Counts) :
    (raise id counts).lookup key = if key = id then some (of id counts + 1) else counts.lookup key := by
  induction counts with
  | nil => exact lookup_cons id 1 key []
  | cons entry rest ih =>
    obtain ⟨k, n⟩ := entry
    by_cases hk : k = id
    · subst hk
      rw [raise, if_pos rfl, lookup_cons, lookup_cons, of_cons, if_pos rfl]
      split <;> rfl
    · rw [raise, if_neg hk, lookup_cons, lookup_cons, of_cons, if_neg (Ne.symm hk), ih]
      have hne : key = k → ¬key = id := fun h e => hk (h.symm.trans e)
      exact ite_ite_comm _ _ _ _ hne

/-- The identities after raising are those before and the raised one. -/
theorem mem_keys_raise {id key : Nat} {counts : Counts} :
    key ∈ (raise id counts).map Prod.fst ↔ key = id ∨ key ∈ counts.map Prod.fst := by
  induction counts with
  | nil => simp [raise]
  | cons entry rest ih =>
    obtain ⟨k, n⟩ := entry
    by_cases hk : k = id
    · subst hk
      simp [raise]
    · simp only [raise, if_neg hk, List.map_cons, List.mem_cons, ih]
      exact or_left_comm

/-- Raising keeps the identities apart. -/
theorem nodup_keys_raise {id : Nat} {counts : Counts} (h : (counts.map Prod.fst).Nodup) :
    ((raise id counts).map Prod.fst).Nodup := by
  induction counts with
  | nil => simp [raise]
  | cons entry rest ih =>
    obtain ⟨k, n⟩ := entry
    by_cases hk : k = id
    · simpa [raise, hk] using h
    · simp only [raise, if_neg hk, List.map_cons, List.nodup_cons] at h ⊢
      refine ⟨fun hm => ?_, ih h.2⟩
      rcases mem_keys_raise.mp hm with rfl | hm
      · exact hk rfl
      · exact h.1 hm

/-- Lowering takes no identity in. -/
theorem keys_lower_sublist (id : Nat) (counts : Counts) :
    ((lower id counts).map Prod.fst).Sublist (counts.map Prod.fst) := by
  induction counts with
  | nil => exact List.Sublist.refl _
  | cons entry rest ih =>
    obtain ⟨k, n⟩ := entry
    unfold lower
    split
    · split
      · exact List.sublist_cons_self k _
      · exact List.Sublist.refl _
    · exact ih.cons_cons k

/-- Where identities stand once, lowering gives the identity one less, or nothing after its last one, and leaves the
others. -/
theorem lookup_lower {counts : Counts} (hn : (counts.map Prod.fst).Nodup) (id key : Nat) :
    (lower id counts).lookup key =
      if key = id then if of id counts ≤ 1 then none else some (of id counts - 1) else counts.lookup key := by
  induction counts with
  | nil => simp [lower, of]
  | cons entry rest ih =>
    obtain ⟨k, n⟩ := entry
    rw [List.map_cons, List.nodup_cons] at hn
    by_cases hk : k = id
    · subst hk
      -- The entry may leave the list, so that the look-up goes on behind it: there is no second one.
      have hnone : rest.lookup k = none := by
        rw [List.lookup_eq_none_iff]
        intro p hp
        have hne : k ≠ p.1 := fun e => hn.1 (List.mem_map.mpr ⟨p, hp, e.symm⟩)
        simpa using hne
      rw [lower, if_pos rfl, of_cons, if_pos rfl, lookup_cons]
      by_cases h : key = k
      · subst h
        rw [if_pos rfl]
        split
        · exact hnone
        · rw [lookup_cons, if_pos rfl]
      · rw [if_neg h, if_neg h]
        split
        · rfl
        · rw [lookup_cons, if_neg h]
    · rw [lower, if_neg hk, lookup_cons, lookup_cons, of_cons, if_neg (Ne.symm hk), ih hn.2]
      have hne : key = k → ¬key = id := fun h e => hk (h.symm.trans e)
      exact ite_ite_comm _ _ _ _ hne

/-! ## Exact counts -/

/-- Counts are exact for a list of identities: each identity of the list stands once, with its number of occurrences,
and no other stands. -/
structure Exact (counts : Counts) (ids : List Nat) : Prop where
  nodup : (counts.map Prod.fst).Nodup
  lookup : ∀ id, counts.lookup id = if ids.count id = 0 then none else some (ids.count id)

namespace Exact

variable {counts : Counts} {ids : List Nat}

theorem nil : Exact [] [] :=
  ⟨by simp, by simp⟩

/-- Exact counts give the number of occurrences. -/
theorem of_eq (h : Exact counts ids) (id : Nat) : of id counts = ids.count id := by
  rw [of, h.lookup]
  split
  · simp_all
  · rfl

/-- The order of the identities does not matter. -/
theorem perm {ids' : List Nat} (h : Exact counts ids) (hp : ids.Perm ids') : Exact counts ids' :=
  ⟨h.nodup, fun id => by rw [← hp.count_eq id]; exact h.lookup id⟩

theorem raise (h : Exact counts ids) (id : Nat) : Exact (raise id counts) (id :: ids) := by
  refine ⟨nodup_keys_raise h.nodup, fun key => ?_⟩
  rw [lookup_raise, h.of_eq]
  by_cases hk : key = id
  · subst hk
    simp
  · rw [if_neg hk, h.lookup, List.count_cons_of_ne (Ne.symm hk)]

theorem lower {id : Nat} (h : Exact counts (id :: ids)) : Exact (lower id counts) ids := by
  refine ⟨h.nodup.sublist (keys_lower_sublist id counts), fun key => ?_⟩
  rw [lookup_lower h.nodup, h.of_eq]
  by_cases hk : key = id
  · subst hk
    rw [if_pos rfl, List.count_cons_self]
    by_cases h0 : ids.count key = 0
    · simp [h0]
    · rw [if_neg (by omega), if_neg h0, Nat.add_sub_cancel]
  · rw [if_neg hk, h.lookup, List.count_cons_of_ne (Ne.symm hk)]

/-- Exact counts hold exactly the identities of the list. -/
theorem mem_keys_iff (h : Exact counts ids) (id : Nat) : id ∈ counts.map Prod.fst ↔ id ∈ ids := by
  have hs : (counts.lookup id).isSome = true ↔ id ∈ counts.map Prod.fst := by
    rw [List.lookup_isSome_iff, List.mem_map]
    constructor
    · rintro ⟨p, hp, he⟩
      exact ⟨p, hp, (beq_iff_eq.mp he).symm⟩
    · rintro ⟨p, hp, he⟩
      exact ⟨p, hp, beq_iff_eq.mpr he.symm⟩
  rw [← hs, h.lookup, ← List.one_le_count_iff]
  split
  · simp_all
  · rename_i h0
    simpa using Nat.pos_of_ne_zero h0

/-- Exact counts have one entry for each identity of the list. -/
theorem length_eq (h : Exact counts ids) : counts.length = ids.toFinset.card := by
  have hset : (counts.map Prod.fst).toFinset = ids.toFinset := by
    ext id
    rw [List.mem_toFinset, List.mem_toFinset, h.mem_keys_iff]
  rw [← hset, List.toFinset_card_of_nodup h.nodup, List.length_map]

end Exact

end Counts

/-! ## Exact tallies -/

/-- The items that are the same as a given one are those with its identity. -/
theorem Item.countP_same (x : Item) (items : List Item) : items.countP x.same = (items.map Item.id).count x.id := by
  rw [List.count, List.countP_map]
  congr 1
  funext y
  exact Bool.beq_comm

namespace Tally

/-- A tally is exact for a list of items: it counts them by identity and in all, and the items added so far are those
and the removed ones. -/
structure Exact (t : Tally) (items : List Item) : Prop where
  counts : t.counts.Exact (items.map Item.id)
  references : t.references = items.length
  adds : t.adds = t.references + t.removes

namespace Exact

variable {t : Tally} {items : List Item}

/-- A new tally has counted nothing. -/
theorem new (limit : Nat) : (Tally.new limit).Exact [] :=
  ⟨Counts.Exact.nil, rfl, rfl⟩

theorem perm {items' : List Item} (h : t.Exact items) (hp : items.Perm items') : t.Exact items' :=
  ⟨h.counts.perm (hp.map _), h.references.trans hp.length_eq, h.adds⟩

/-- Adding an item keeps a tally exact. -/
theorem add (h : t.Exact items) (item : Item) : (t.add item).1.Exact (item :: items) := by
  refine ⟨h.counts.raise item.id, ?_, ?_⟩
  · simp [Tally.add, h.references]
  · have := h.adds
    simp only [Tally.add]
    omega

/-- Removing a counted item keeps a tally exact and is not reported. -/
theorem remove {item : Item} (h : t.Exact (item :: items)) :
    (t.remove item).1.Exact items ∧ (t.remove item).2 = none := by
  have hl : t.counts.lookup item.id = some ((items.map Item.id).count item.id + 1) := by
    rw [h.counts.lookup, List.map_cons, List.count_cons_self, if_neg (by omega)]
  have hr := h.references
  have ha := h.adds
  rw [List.length_cons] at hr
  simp only [Tally.remove, hl, and_true]
  refine ⟨h.counts.lower, ?_, ?_⟩
  · simp only [hr, Nat.add_sub_cancel]
  · simp only
    omega

/-- An exact tally counts the items that are the same as a given one. -/
theorem referencesTo_eq (h : t.Exact items) (x : Item) : t.referencesTo x = items.countP x.same := by
  rw [referencesTo, h.counts.of_eq, x.countP_same]

end Exact

/-- Adding never reports a stray removal. -/
theorem add_event_ne_strayRemoval (t : Tally) (item x : Item) : (t.add item).2 ≠ some (.strayRemoval x) := by
  simp only [add]
  split <;> simp

end Tally

/-! ## Notices in a row -/

namespace Listener

variable {κ : Type} [Listener κ]

@[simp]
theorem receiveAll_nil (k : κ) : receiveAll k [] = (k, []) := rfl

theorem receiveAll_cons (k : κ) (n : Notice) (rest : List Notice) :
    receiveAll k (n :: rest) =
      ((receiveAll (receive k n).1 rest).1, (receive k n).2.toList ++ (receiveAll (receive k n).1 rest).2) := rfl

/-- Notices in a row are the first ones and then the others. -/
theorem receiveAll_append (k : κ) (a b : List Notice) :
    receiveAll k (a ++ b) =
      ((receiveAll (receiveAll k a).1 b).1, (receiveAll k a).2 ++ (receiveAll (receiveAll k a).1 b).2) := by
  induction a generalizing k with
  | nil => rfl
  | cons n a ih => simp only [List.cons_append, receiveAll_cons, ih, List.append_assoc]

/-- A tracking counter does what its tally does. -/
theorem receiveAll_tracking (t : Tally) (notices : List Notice) :
    receiveAll (Counter.tracking t) notices = (.tracking (receiveAll t notices).1, (receiveAll t notices).2) := by
  induction notices generalizing t with
  | nil => rfl
  | cons n rest ih =>
    rw [receiveAll_cons, receiveAll_cons]
    exact congrArg (fun p : Counter × List Event => (p.1, (receive t n).2.toList ++ p.2)) (ih (receive t n).1)

/-- A recording counter puts what it hears at the end of its record. -/
theorem receiveAll_recording (heard notices : List Notice) :
    (receiveAll (Counter.recording heard) notices).1 = .recording (heard ++ notices) := by
  induction notices generalizing heard with
  | nil => simp [receiveAll_nil]
  | cons n rest ih =>
    rw [receiveAll_cons]
    have h := ih (heard ++ [n])
    rwa [List.append_assoc, List.singleton_append] at h

/-- A tally that counts some items and more stays exact for the others when the items are removed one by one, and
reports nothing. -/
theorem receiveAll_removed {t : Tally} {items others : List Item} (h : t.Exact (items ++ others)) :
    (receiveAll t (items.map .removed)).1.Exact others ∧ (receiveAll t (items.map .removed)).2 = [] := by
  induction items generalizing t with
  | nil => exact ⟨h, rfl⟩
  | cons item items ih =>
    obtain ⟨hstep, hquiet⟩ := Tally.Exact.remove h
    obtain ⟨hend, hnone⟩ := ih hstep
    refine ⟨hend, ?_⟩
    rw [List.map_cons, receiveAll_cons]
    simp only [receive, Tally.receive, hquiet] at hnone ⊢
    exact hnone

end Listener

end OperandStack
