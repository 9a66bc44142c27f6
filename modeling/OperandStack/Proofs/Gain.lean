import OperandStack.Proofs.Ceiling
import OperandStack.Proofs.Standing

/-!
# What a tally gains

Slots may leave with their items and the items come back in owned slots. A tally that counts the items that leave (it
covers them, `Tally.Covers`) then counts the shared ones among them more than before, and all others as before
(`Tally.returned`). The peak moves with what is gained alone: the references fall before they rise again.
-/

namespace OperandStack

/-! ## Items by identity -/

namespace Slot

/-- The items in the shared slots among some, in their order. -/
def sharedItems (slots : List Slot) : List Item :=
  (slots.filter fun slot => !slot.owned).map Slot.item

/-- Slots are shared or owned. -/
theorem items_perm (slots : List Slot) : (slots.map Slot.item).Perm (sharedItems slots ++ ownedItems slots) := by
  have hp := List.filter_append_perm Slot.owned slots
  have hitems := (hp.map Slot.item).symm
  rw [List.map_append] at hitems
  exact hitems.trans List.perm_append_comm

/-- Nothing is shared among slots exactly when each is owned. -/
theorem sharedItems_eq_nil_iff {slots : List Slot} : sharedItems slots = [] ↔ ∀ slot ∈ slots, slot.owned = true := by
  simp [sharedItems]

theorem length_sharedItems (slots : List Slot) :
    (sharedItems slots).length + (ownedItems slots).length = slots.length := by
  have hlength := (items_perm slots).length_eq
  rw [List.length_map, List.length_append] at hlength
  exact hlength.symm

end Slot

namespace Notice

/-- Removals leave the identities that are not those of the removed items. -/
theorem foldl_stand_removed (ids : List Nat) (items : List Item) :
    (items.map .removed).foldl stand ids = ids.diff (items.map Item.id) := by
  rw [List.diff_eq_foldl, List.foldl_map, List.foldl_map]
  rfl

/-- Additions put the identities of the added items before the others. -/
theorem foldl_stand_added (ids : List Nat) (items : List Item) :
    (items.map .added).foldl stand ids = (items.map Item.id).reverse ++ ids := by
  induction items generalizing ids with
  | nil => rfl
  | cons x rest ih => simp [stand, ih]

end Notice

namespace Tally

/-- A tally covers items when it counts each identity at least as often as it stands among them. -/
def Covers (t : Tally) (items : List Item) : Prop :=
  ∀ x, items.countP x.same ≤ t.referencesTo x

/-- A tally that covers the owned items among slots covers those among fewer slots. -/
theorem Covers.of_subperm {t : Tally} {slots fewer : List Slot} (h : t.Covers (Slot.ownedItems slots))
    (hfewer : fewer.Subperm slots) : t.Covers (Slot.ownedItems fewer) := by
  intro x
  have hle := hfewer.countP_le fun slot => x.same slot.item && slot.owned
  have hslots := h x
  simp only [Slot.ownedItems, List.countP_map, List.countP_filter, Function.comp_apply] at hslots ⊢
  exact hle.trans hslots

/-- What a tally counts more than another one, by identity and in all. Where that is nothing it also tracks as many
items and has the same flag. -/
structure Gain (t after : Tally) (more : List Item) : Prop where
  limit : after.limit = t.limit
  each : ∀ x, after.referencesTo x = t.referencesTo x + more.countP x.same
  references : after.stats.references = t.stats.references + more.length
  trackedItems : more = [] → after.stats.trackedItems = t.stats.trackedItems
  overLimit : more = [] → after.overLimit = t.overLimit

/-- All items are counted as before exactly when nothing is gained. -/
theorem Gain.each_eq_iff {t after : Tally} {more : List Item} (h : t.Gain after more) :
    (∀ x, after.referencesTo x = t.referencesTo x) ↔ more = [] := by
  constructor
  · intro hsame
    cases more with
    | nil => rfl
    | cons x rest =>
      have hmore := h.each x
      rw [hsame x, List.countP_cons_of_pos (by simp [Item.same])] at hmore
      omega
  · rintro rfl x
    exact h.each x

variable {t : Tally} {ids : List Nat}

/-! ## Counts -/

namespace Keeps

variable (h : t.Keeps ids)
include h

theorem receiveAll (notices : List Notice) :
    (Listener.receiveAll t notices).1.Keeps (notices.foldl Notice.stand ids) := by
  induction notices generalizing t ids with
  | nil => exact h
  | cons n rest ih => exact ih (h.receive n)

/-- The references to an item are as many as its identity stands. -/
theorem referencesTo_eq (x : Item) : t.referencesTo x = ids.count x.id :=
  h.counts.of_eq x.id

/-- A tally covers the items whose identities stand. -/
theorem perm_of_covers {items : List Item} (hcovers : t.Covers items) :
    (items.map Item.id ++ ids.diff (items.map Item.id)).Perm ids := by
  apply List.subperm_append_diff_self_of_count_le
  intro id hid
  obtain ⟨x, -, rfl⟩ := List.mem_map.mp hid
  rw [← x.countP_same, ← h.referencesTo_eq]
  exact hcovers x

/-- After notices that leave some identities standing more than before, a tally counts these more. -/
theorem gain (hflag : t.overLimit = decide (t.limit < t.references)) {notices : List Notice} {more : List Item}
    (hp : (notices.foldl Notice.stand ids).Perm (more.map Item.id ++ ids)) :
    t.Gain (Listener.receiveAll t notices).1 more := by
  have hafter := h.receiveAll notices
  obtain ⟨hlimit, hflag'⟩ := Listener.overLimit_receiveAll hflag notices
  have hreferences : (Listener.receiveAll t notices).1.references = t.references + more.length := by
    rw [hafter.references, hp.length_eq, List.length_append, List.length_map, h.references, Nat.add_comm]
  refine ⟨hlimit, fun x => ?_, hreferences, ?_, ?_⟩
  · rw [hafter.referencesTo_eq, hp.count_eq, List.count_append, h.referencesTo_eq, x.countP_same, Nat.add_comm]
  · rintro rfl
    have hcounts := (hafter.counts.perm hp).length_eq
    rw [List.map_nil, List.nil_append, ← h.counts.length_eq] at hcounts
    exact hcounts
  · rintro rfl
    rw [hflag', hlimit, hreferences, hflag]
    rfl

/-- An item that comes and leaves again leaves nothing. -/
theorem gain_of_visit (hflag : t.overLimit = decide (t.limit < t.references)) (x : Item) :
    t.Gain (Listener.receiveAll t [.added x, .removed x]).1 [] := by
  apply h.gain hflag
  change ((x.id :: ids).erase x.id).Perm ids
  rw [List.erase_cons_head]

end Keeps

/-! ## Peaks -/

/-- Additions alone raise the references one by one, and the peak to what they come to. -/
theorem peak_added (ht : t.references ≤ t.peak) (items : List Item) :
    (Listener.receiveAll t (items.map .added)).1.references = t.references + items.length ∧
      (Listener.receiveAll t (items.map .added)).1.peak = max t.peak (t.references + items.length) := by
  induction items generalizing t with
  | nil => exact ⟨rfl, (Nat.max_eq_left ht).symm⟩
  | cons x rest ih =>
    have hreferences : (t.add x).1.references = t.references + 1 := rfl
    have hpeak : (t.add x).1.peak = max t.peak (t.references + 1) := rfl
    obtain ⟨hreferences', hpeak'⟩ := ih (t := (t.add x).1) (by omega)
    rw [hreferences] at hreferences' hpeak'
    rw [hpeak] at hpeak'
    rw [List.length_cons]
    exact ⟨hreferences'.trans (by omega), hpeak'.trans (by omega)⟩

/-- Items that leave and items that come raise the peak to what the references come to in the end. -/
theorem peak_of_swap (ht : t.references ≤ t.peak) (gone come : List Item) :
    (Listener.receiveAll t (gone.map .removed ++ come.map .added)).1.peak =
      max t.peak (Listener.receiveAll t (gone.map .removed ++ come.map .added)).1.references := by
  have hfalls := falls_receiveAll t gone
  have hle := hfalls.references_le
  have hpeak := hfalls.peak
  rw [Listener.receiveAll_append]
  obtain ⟨hreferences', hpeak'⟩ := peak_added (t := (Listener.receiveAll t (gone.map .removed)).1) (by omega) come
  rw [hpeak', hreferences', hpeak]

/-- What a tally says after slots have left and their items have come back in owned slots: it has gained the shared ones
among them, and where there are none, all its figures are as before but those of additions and removals. -/
structure Returned (t after : Tally) (slots : List Slot) : Prop where
  gain : t.Gain after (Slot.sharedItems slots)
  adds : after.stats.adds = t.stats.adds + slots.length
  removes : after.stats.removes = t.stats.removes + (Slot.ownedItems slots).length
  peak : after.stats.peak = max t.stats.peak (t.stats.references + (Slot.sharedItems slots).length)
  owned : (∀ slot ∈ slots, slot.owned = true) → after.stats =
    { t.stats with adds := t.stats.adds + slots.length, removes := t.stats.removes + slots.length }

/-- Where only the removals that a tally covers reach it, the items of slots return to it so. -/
theorem returned (h : t.Keeps ids) (hflag : t.overLimit = decide (t.limit < t.references)) (ht : t.references ≤ t.peak)
    {slots : List Slot} (hcovers : t.Covers (Slot.ownedItems slots)) :
    t.Returned (Listener.receiveAll t (slots.flatMap Slot.release ++ (slots.map Slot.item).map .added)).1 slots := by
  rw [Slot.flatMap_release]
  generalize hnotices : (Slot.ownedItems slots).map Notice.removed ++ (slots.map Slot.item).map .added = notices
  have hgain : t.Gain (Listener.receiveAll t notices).1 (Slot.sharedItems slots) := by
    apply h.gain hflag
    rw [← hnotices, List.foldl_append, Notice.foldl_stand_removed, Notice.foldl_stand_added]
    -- The owned ones among the items that come fill the places of those that left.
    calc ((slots.map Slot.item).map Item.id).reverse ++ ids.diff ((Slot.ownedItems slots).map Item.id)
        _ |>.Perm ((slots.map Slot.item).map Item.id ++ ids.diff ((Slot.ownedItems slots).map Item.id)) :=
          (List.reverse_perm _).append_right _
        _ |>.Perm ((Slot.sharedItems slots ++ Slot.ownedItems slots).map Item.id ++
            ids.diff ((Slot.ownedItems slots).map Item.id)) := ((Slot.items_perm slots).map _).append_right _
        _ |>.Perm ((Slot.sharedItems slots).map Item.id ++ ids) := by
          rw [List.map_append, List.append_assoc]
          exact (h.perm_of_covers hcovers).append_left _
  have hadds : (Listener.receiveAll t notices).1.stats.adds = t.stats.adds + slots.length := by
    have hall := Listener.adds_receiveAll t notices
    simpa [stats, ← hnotices, List.countP_map, Function.comp_def, Notice.isRemoval] using hall
  have hremoves : (Listener.receiveAll t notices).1.stats.removes =
      t.stats.removes + (Slot.ownedItems slots).length := by
    have hall := Listener.removes_receiveAll t notices
    simpa [stats, ← hnotices, List.countP_map, Function.comp_def, Notice.isRemoval] using hall
  have hpeak : (Listener.receiveAll t notices).1.stats.peak =
      max t.stats.peak (t.stats.references + (Slot.sharedItems slots).length) := by
    rw [← hgain.references, ← hnotices]
    exact peak_of_swap ht (Slot.ownedItems slots) (slots.map Slot.item)
  refine ⟨hgain, hadds, hremoves, hpeak, ?_⟩
  intro howned
  have hshared := Slot.sharedItems_eq_nil_iff.mpr howned
  have hlength := Slot.length_sharedItems slots
  have hreferences := hgain.references
  rw [hshared, List.length_nil] at hlength hreferences hpeak
  have hsame : max t.stats.peak (t.stats.references + 0) = t.stats.peak := Nat.max_eq_left ht
  have hall : (Listener.receiveAll t notices).1.stats.removes = t.stats.removes + slots.length := by
    rw [hremoves, ← hlength, Nat.zero_add]
  simp only [stats, Stats.mk.injEq]
  exact ⟨hreferences, hpeak.trans hsame, hgain.trackedItems hshared, hadds, hall⟩

end Tally

end OperandStack
