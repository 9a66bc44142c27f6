import Mathlib.Data.List.Nodup
import OperandStack.Proofs.Accounting
import OperandStack.Proofs.Line

/-!
# Where the items of a script are

A script only ever owns slots of its main stack and only ever copies onto its target, so its tally is exact for the items
of the main stack (`Held`); this every call and every copy keeps. Together with all that they hold these items make a
forest. A line takes some trees away and plants one at most, whose root is the item it created and whose branches, if it
has any, are trees that it took away (`Machine.AddsNext`). So no identity stands in the forest twice, provided that no
line gives a new item an identity that stands there (`Fresh`).
-/

namespace OperandStack

/-! ## Forests -/

namespace Item

mutual

/-- The identities of an item and of all that it holds. -/
def identities : Item → List Nat
  | ⟨id, .array items⟩ => id :: forest items
  | ⟨id, .struct fields⟩ => id :: forest fields
  | ⟨id, .map entries⟩ => id :: entryForest entries
  | ⟨id, .null⟩ | ⟨id, .boolean _⟩ | ⟨id, .integer _⟩ | ⟨id, .byteString _⟩ | ⟨id, .buffer _⟩ | ⟨id, .pointer _⟩ => [id]

/-- The identities of some items and of all that they hold. -/
def forest : List Item → List Nat
  | [] => []
  | item :: rest => identities item ++ forest rest

/-- The identities of the keys and the values of a map and of all that they hold. -/
def entryForest : List (Item × Item) → List Nat
  | [] => []
  | (key, value) :: rest => identities key ++ identities value ++ entryForest rest

end

theorem forest_eq_flatMap (items : List Item) : forest items = items.flatMap identities := by
  induction items with
  | nil => rfl
  | cons item rest ih => rw [forest, ih, List.flatMap_cons]

theorem forest_append (a b : List Item) : forest (a ++ b) = forest a ++ forest b := by
  simp only [forest_eq_flatMap, List.flatMap_append]

theorem forest_perm {a b : List Item} (h : a.Perm b) : (forest a).Perm (forest b) := by
  rw [forest_eq_flatMap, forest_eq_flatMap]
  exact h.flatMap_right identities

/-- A literal holds no items. -/
theorem identities_literal (id : Nat) (literal : Literal) : identities ⟨id, literal.value⟩ = [id] := by
  cases literal <;> rfl

end Item

/-- The identities in the forest of a stack's items. -/
def Stack.identities (s : Stack) : List Nat :=
  Item.forest s.items

/-! ## The items that a call brings -/

namespace Call

/-- The item that a call asks to put on the stack. -/
def item? : Call → Option Item
  | .push x => some x
  | .insert _ x => some x
  | _ => none

theorem added_notMem_release (slot : Slot) (x : Item) : Notice.added x ∉ slot.release := by
  unfold Slot.release
  split <;> simp

theorem added_notMem_removal (op : Journal.Op) (view : View) (index : Int64) (slots : List Slot) (x : Item) :
    Notice.added x ∉ (removal op view index slots).notices := by
  unfold removal
  split
  · exact added_notMem_release _ x
  · exact List.not_mem_nil

theorem added_notMem_tryRemoval (view : View) (index : Int64) (slots : List Slot) (x : Item) :
    Notice.added x ∉ (tryRemoval view index slots).notices := by
  unfold tryRemoval
  split
  · exact added_notMem_release _ x
  · exact List.not_mem_nil

theorem added_notMem_reading (index : Int64) (slots : List Slot) (x : Item) :
    Notice.added x ∉ (reading index slots).notices := by
  unfold reading
  split <;> exact List.not_mem_nil

/-- The only item that a call announces is the one that it brings. -/
theorem item?_of_added {slots : List Slot} {c : Call} {x : Item} (h : Notice.added x ∈ (c.effect slots).notices) :
    c.item? = some x := by
  cases c with
  | push item =>
    cases List.mem_singleton.mp h
    rfl
  | insert index item =>
    simp only [effect] at h
    split at h
    · cases List.mem_singleton.mp h
      rfl
    · cases h
  | pop => exact absurd h (added_notMem_removal _ _ _ _ x)
  | popAs view => exact absurd h (added_notMem_removal _ _ _ _ x)
  | tryPop => exact absurd h (added_notMem_tryRemoval _ _ _ x)
  | tryPopAs view => exact absurd h (added_notMem_tryRemoval _ _ _ x)
  | remove index view => exact absurd h (added_notMem_removal _ _ _ _ x)
  | tryRemove index view => exact absurd h (added_notMem_tryRemoval _ _ _ x)
  | peek index => exact absurd h (added_notMem_reading _ _ x)
  | peekTop => exact absurd h (added_notMem_reading _ _ x)
  | tryPeek index =>
    simp only [effect] at h
    split at h <;> cases h
  | peekQuiet index =>
    simp only [effect] at h
    split at h <;> cases h
  | reverse count =>
    simp only [effect] at h
    split at h <;> cases h
  | tryReverse count =>
    simp only [effect] at h
    split at h <;> cases h
  | clear =>
    obtain ⟨slot, -, hx⟩ := List.mem_flatMap.mp h
    exact absurd hx (added_notMem_release slot x)

/-- A call that announces one item and no more brings that item. -/
theorem item?_of_notices_eq {slots : List Slot} {c : Call} {x : Item} (h : (c.effect slots).notices = [.added x]) :
    c.item? = some x :=
  item?_of_added (h ▸ List.mem_singleton_self (Notice.added x))

/-- After a call a stack holds some of the items that it held and of the one that the call brings. -/
theorem items_perm (slots : List Slot) (c : Call) : ∃ gone,
    (c.item?.toList ++ slots.map Slot.item).Perm (gone ++ (c.effect slots).slots.map Slot.item) := by
  rcases (effect_change slots c).slots_perm with ⟨item, hn, hp⟩ | ⟨gone, -, hp⟩
  · have hitem := item?_of_notices_eq hn
    refine ⟨[], ?_⟩
    rw [hitem]
    exact (hp.map Slot.item).symm
  · refine ⟨c.item?.toList ++ gone.map Slot.item, ?_⟩
    have hitems := (hp.map Slot.item).append_left c.item?.toList
    rwa [List.map_append, ← List.append_assoc] at hitems

end Call

/-! ## Owned and shared slots -/

/-- Every slot of the main stack is owned, every slot of the target is shared, and the tally is exact for the items of
the main stack. -/
structure Held (main target : Stack) (t : Tally) : Prop where
  owned : ∀ slot ∈ main.slots, slot.owned = true
  shared : ∀ slot ∈ target.slots, slot.owned = false
  exact : t.Exact main.items

/-- Where all slots are owned, the owned items are the items. -/
theorem Slot.ownedItems_of_owned {slots : List Slot} (h : ∀ slot ∈ slots, slot.owned = true) :
    ownedItems slots = slots.map Slot.item := by
  rw [ownedItems, List.filter_eq_self.mpr h]

namespace Held

variable {main target : Stack} {t : Tally}

theorem call (h : Held main target t) (c : Call) :
    Held (main.call t c).stack target (main.call t c).listener := by
  have hchange := Call.effect_change main.slots c
  have howned : ∀ slot ∈ (c.effect main.slots).slots, slot.owned = true := by
    intro slot hs
    rcases hchange.slots_perm with ⟨item, -, hp⟩ | ⟨gone, -, hp⟩
    · rcases List.mem_cons.mp (hp.mem_iff.mp hs) with rfl | hs
      · rfl
      · exact h.owned slot hs
    · exact h.owned slot (hp.mem_iff.mpr (List.mem_append_right gone hs))
  have hexact : t.Exact (Slot.ownedItems main.slots ++ []) := by
    rw [Slot.ownedItems_of_owned h.owned, List.append_nil]
    exact h.exact
  have hafter := (hchange.exact hexact).1
  rw [Slot.ownedItems_of_owned howned, List.append_nil] at hafter
  exact ⟨howned, h.shared, hafter⟩

theorem copy (h : Held main target t) (count : Option UInt64) : Held main (main.copyOnto count target).1 t := by
  refine ⟨h.owned, ?_, h.exact⟩
  intro slot hs
  rw [Stack.copyOnto_slots] at hs
  rcases List.mem_append.mp hs with hs | hs
  · exact h.shared slot hs
  · obtain ⟨source, -, rfl⟩ := List.mem_map.mp hs
    rfl

/-- The number of references is the depth of the main stack. -/
theorem references_eq (h : Held main target t) : t.references = main.depth := by
  rw [h.exact.references, Stack.items, List.length_map]
  rfl

end Held

namespace Machine

/-- What moves keep of a machine whose slots are so. -/
theorem Moves.held {m after : Machine} (h : m.Moves after) (hm : Held m.main m.target m.tally) :
    Held after.main after.target after.tally :=
  h.keeps (fun c hi => hi.call c) (fun count hi => hi.copy count) hm

theorem held_start (s : Settings) : Held (start s).main (start s).target (start s).tally :=
  ⟨by simp [start, Stack.new], by simp [start, Stack.new], Tally.Exact.new s.limit⟩

/-! ## The forest after a line -/

/-- What a line may do to the forest of the main stack: if it creates no item, take identities away; if it creates one,
also add its identity. -/
def AddsNext (supply : Nat → Nat) (m after : Machine) : Prop :=
  ∃ gone, after.created = m.created ∧ m.main.identities.Perm (gone ++ after.main.identities) ∨
    after.created = m.created + 1 ∧ (supply m.created :: m.main.identities).Perm (gone ++ after.main.identities)

/-- A call that brings no item takes identities away. -/
theorem addsNext_call {m : Machine} (supply : Nat → Nat) {c : Call} (hc : c.item? = none) :
    AddsNext supply m (m.call c).2 := by
  obtain ⟨gone, hp⟩ := Call.items_perm m.main.slots c
  rw [hc] at hp
  have hforest := Item.forest_perm hp
  rw [Item.forest_append gone] at hforest
  exact ⟨Item.forest gone, Or.inl ⟨rfl, hforest⟩⟩

theorem addsNext_change {m : Machine} (supply : Nat → Nat) {c : Call} (hc : c.item? = none) :
    AddsNext supply m (m.change c).2 := by
  rw [change_eq]
  exact addsNext_call supply hc

theorem addsNext_observe {m : Machine} (supply : Nat → Nat) (line : Line) {c : Call} (hc : c.item? = none) :
    AddsNext supply m (m.observe line c).2 := by
  have hcall := addsNext_call (m := m) supply hc
  rw [observe_eq]
  cases (m.call c).1.shown? <;> exact hcall

/-- A call that brings a literal that was just created adds the identity of its item at most. -/
theorem addsNext_literal {m : Machine} (supply : Nat → Nat) (literal : Literal) {c : Call}
    (hc : c.item? = some (m.create supply literal.value).1) :
    AddsNext supply m ((m.create supply literal.value).2.change c).2 := by
  obtain ⟨gone, hp⟩ := Call.items_perm m.main.slots c
  rw [hc] at hp
  have hforest := Item.forest_perm hp
  rw [Item.forest_append, Item.forest_append gone] at hforest
  have hone : Item.forest [(m.create supply literal.value).1] = [supply m.created] := by
    rw [Item.forest_eq_flatMap, List.flatMap_singleton]
    exact Item.identities_literal _ literal
  rw [Option.toList_some, hone] at hforest
  rw [change_eq]
  exact ⟨Item.forest gone, Or.inr ⟨rfl, hforest⟩⟩

/-- A compound push gathers the top of the forest under one new root. -/
theorem addsNext_wrapped {m : Machine} (supply : Nat → Nat) {n : Nat} (hn : n ≤ m.main.depth)
    {compound : List Item → Value Item}
    (hcompound : ∀ id items, Item.identities ⟨id, compound items⟩ = id :: Item.forest items) :
    AddsNext supply m (m.wrapped supply n compound) := by
  refine ⟨[], Or.inr ⟨rfl, ?_⟩⟩
  -- What lies below stays, and the new item stands on top of it.
  have hitems : (m.wrapped supply n compound).main.items = m.main.items.take (m.main.depth - n) ++
      [⟨supply m.created, compound (m.main.items.drop (m.main.depth - n))⟩] := by
    change ((m.popped n).main.slots ++ [_]).map Slot.item = _
    rw [List.map_append, popped_slots hn, List.map_take]
    rfl
  have hsplit : m.main.identities = Item.forest (m.main.items.take (m.main.depth - n)) ++
      Item.forest (m.main.items.drop (m.main.depth - n)) := by
    rw [← Item.forest_append, List.take_append_drop]
    rfl
  have hnew : ∀ item : Item, Item.forest [item] = item.identities := by
    intro item
    rw [Item.forest_eq_flatMap, List.flatMap_singleton]
  have hafter : (m.wrapped supply n compound).main.identities =
      Item.forest (m.main.items.take (m.main.depth - n)) ++
        supply m.created :: Item.forest (m.main.items.drop (m.main.depth - n)) := by
    rw [Stack.identities, hitems, Item.forest_append, hnew, hcompound]
  rw [List.nil_append, hafter, hsplit]
  exact List.perm_middle.symm

theorem addsNext_wrap (m : Machine) (supply : Nat → Nat) (size : UInt64) {compound : List Item → Value Item}
    (hcompound : ∀ id items, Item.identities ⟨id, compound items⟩ = id :: Item.forest items) :
    AddsNext supply m (m.wrap supply size compound).2 := by
  by_cases hd : m.main.depth < size.toNat
  · rw [wrap_of_lt hd]
    exact ⟨[], Or.inl ⟨rfl, List.Perm.refl _⟩⟩
  · rw [wrap_of_le (Nat.not_lt.mp hd)]
    exact addsNext_wrapped supply (Nat.not_lt.mp hd) hcompound

theorem addsNext_execute (m : Machine) (supply : Nat → Nat) (line : Line) :
    AddsNext supply m (m.execute supply line).2 := by
  obtain ⟨number, command⟩ := line
  cases command with
  | push literal => exact addsNext_literal supply literal rfl
  | pushArray size => exact addsNext_wrap m supply size fun _ _ => rfl
  | pushStruct size => exact addsNext_wrap m supply size fun _ _ => rfl
  | pop view => exact addsNext_observe supply _ rfl
  | tryPop view => exact addsNext_observe supply _ rfl
  | peek index => exact addsNext_observe supply _ rfl
  | peekQuiet index => exact addsNext_observe supply _ rfl
  | insert index literal => exact addsNext_literal supply literal (c := .insert index _) rfl
  | remove index view => exact addsNext_observe supply _ rfl
  | reverse count => exact addsNext_change supply rfl
  | clear => exact addsNext_change supply rfl
  | copy count => exact ⟨[], Or.inl ⟨rfl, List.Perm.refl _⟩⟩

/-- A line adds to the forest of the main stack at most the next identity. -/
theorem addsNext_step (m : Machine) (supply : Nat → Nat) (line : Line) : AddsNext supply m (m.step supply line).2 :=
  step_keeps (P := AddsNext supply m) (fun _ h => h) (addsNext_execute (m.announced line) supply line)

/-! ## The forest along a run -/

/-- All identities that were given out so far, each once, are those in the forest and others. -/
def Given (supply : Nat → Nat) (m : Machine) : Prop :=
  ∃ gone, ((List.range m.created).map supply).Perm (gone ++ m.main.identities)

theorem AddsNext.given {supply : Nat → Nat} {m after : Machine} (h : AddsNext supply m after) (hm : m.Given supply) :
    after.Given supply := by
  obtain ⟨old, hold⟩ := hm
  obtain ⟨gone, ⟨hcreated, hp⟩ | ⟨hcreated, hp⟩⟩ := h
  · refine ⟨old ++ gone, ?_⟩
    rw [hcreated, List.append_assoc]
    exact hold.trans (hp.append_left old)
  · refine ⟨old ++ gone, ?_⟩
    rw [hcreated, List.range_succ, List.map_append, List.append_assoc]
    calc (List.range m.created).map supply ++ [supply m.created]
        _ |>.Perm (supply m.created :: (List.range m.created).map supply) := List.perm_append_singleton _ _
        _ |>.Perm (supply m.created :: (old ++ m.main.identities)) := hold.cons _
        _ |>.Perm (old ++ supply m.created :: m.main.identities) := List.perm_middle.symm
        _ |>.Perm (old ++ (gone ++ after.main.identities)) := hp.append_left old

/-- A line that gives a new item an identity that does not stand in the forest keeps the identities there apart. -/
theorem AddsNext.nodup {supply : Nat → Nat} {m after : Machine} (h : AddsNext supply m after)
    (hm : m.main.identities.Nodup)
    (hfresh : after.created ≠ m.created → supply m.created ∉ m.main.identities) : after.main.identities.Nodup := by
  obtain ⟨gone, ⟨-, hp⟩ | ⟨hcreated, hp⟩⟩ := h
  · exact (hp.nodup_iff.mp hm).of_append_right
  · have hnew : supply m.created ∉ m.main.identities := hfresh (by omega)
    exact (hp.nodup_iff.mp (List.nodup_cons.mpr ⟨hnew, hm⟩)).of_append_right

/-- One more line is run if the lines before it passed. -/
theorem run_concat (m : Machine) (supply : Nat → Nat) (before : List Line) (line : Line) :
    (m.run supply (before ++ [line])).machine = if (m.run supply before).stop = none then
      ((m.run supply before).machine.step supply line).2 else (m.run supply before).machine := by
  rw [run_append]
  split
  · rcases hs : (m.run supply before).machine.step supply line with ⟨result, after⟩
    cases result with
    | error f => rw [run_cons_error [] hs]
    | ok _ =>
      rw [run_cons_ok [] hs]
      rfl
  · rfl

end Machine

/-! ## Runs -/

/-- A supply is fresh for a run when no line gives a new item an identity that stands in the forest of the main stack
before the line. What stands there no more may be given out again. -/
def Fresh (s : Settings) (supply : Nat → Nat) (lines : List Line) : Prop :=
  ∀ before line rest, lines = before ++ line :: rest →
    (runWith s supply (before ++ [line])).machine.created ≠ (runWith s supply before).machine.created →
    supply (runWith s supply before).machine.created ∉ (runWith s supply before).machine.main.identities

theorem runWith_concat (s : Settings) (supply : Nat → Nat) (before : List Line) (line : Line) :
    (runWith s supply (before ++ [line])).machine = if (runWith s supply before).stop = none then
      ((runWith s supply before).machine.step supply line).2 else (runWith s supply before).machine :=
  Machine.run_concat _ _ _ _

/-- After every run the identities in the forest were given out, each once. -/
theorem given_runWith (s : Settings) (supply : Nat → Nat) (lines : List Line) :
    (runWith s supply lines).machine.Given supply := by
  induction lines using List.reverseRecOn with
  | nil => exact ⟨[], List.Perm.refl _⟩
  | append_singleton before line ih =>
    rw [runWith_concat]
    split
    · exact (Machine.addsNext_step _ supply line).given ih
    · exact ih

/-- A supply that never gives out an identity twice is fresh for every run. -/
theorem fresh_of_injective (s : Settings) {supply : Nat → Nat} (h : Function.Injective supply) (lines : List Line) :
    Fresh s supply lines := by
  intro before line rest _ _ hmem
  obtain ⟨gone, hp⟩ := given_runWith s supply before
  have hgiven := hp.mem_iff.mpr (List.mem_append_right gone hmem)
  obtain ⟨n, hn, he⟩ := List.mem_map.mp hgiven
  rw [h he, List.mem_range] at hn
  exact Nat.lt_irrefl _ hn

/-- With a fresh supply the identities in the forest are apart after every line. -/
theorem identities_nodup {s : Settings} {supply : Nat → Nat} {lines : List Line} (hfresh : Fresh s supply lines)
    {before rest : List Line} (hl : lines = before ++ rest) :
    (runWith s supply before).machine.main.identities.Nodup := by
  induction before using List.reverseRecOn generalizing rest with
  | nil => exact List.nodup_nil
  | append_singleton before line ih =>
    rw [List.append_assoc, List.singleton_append] at hl
    have hbefore := ih hl
    have hnext := hfresh before line rest hl
    rw [runWith_concat] at hnext ⊢
    split
    · rename_i hstop
      rw [if_pos hstop] at hnext
      exact (Machine.addsNext_step _ supply line).nodup hbefore hnext
    · exact hbefore

theorem held_runWith (s : Settings) (supply : Nat → Nat) (lines : List Line) :
    Held (runWith s supply lines).machine.main (runWith s supply lines).machine.target
      (runWith s supply lines).machine.tally :=
  (Machine.run_moves _ supply lines).held (Machine.held_start s)

/-- Where the items of a machine are, and what its tally says of them. -/
structure Machine.Placed (m : Machine) : Prop where
  owned : ∀ slot ∈ m.main.slots, slot.owned = true
  shared : ∀ slot ∈ m.target.slots, slot.owned = false
  nodup : m.main.identities.Nodup
  references : m.tally.stats.references = m.main.depth
  trackedItems : m.tally.stats.trackedItems = m.main.depth
  removes_le : m.tally.stats.removes ≤ m.tally.stats.adds
  adds_sub_removes : m.tally.stats.adds - m.tally.stats.removes = m.main.depth

/-- The identities of a list of items are among those in its forest, in order. -/
theorem Item.ids_sublist_forest (items : List Item) : (items.map Item.id).Sublist (forest items) := by
  induction items with
  | nil => exact List.Sublist.refl _
  | cons item rest ih =>
    have hroot : [item.id].Sublist (identities item) := by
      obtain ⟨id, value⟩ := item
      cases value <;> exact List.singleton_sublist.mpr List.mem_cons_self
    exact hroot.append ih

/-- Slots that are held as a script holds them, with the identities in the forest apart. -/
theorem Machine.placed_of_held {m : Machine} (h : Held m.main m.target m.tally) (hn : m.main.identities.Nodup) :
    m.Placed := by
  have hreferences : m.tally.stats.references = m.main.depth := h.references_eq
  have hadds : m.tally.stats.adds = m.tally.stats.references + m.tally.stats.removes := h.exact.adds
  have htracked : m.tally.stats.trackedItems = m.main.depth := by
    have hids : (m.main.items.map Item.id).Nodup := hn.sublist (Item.ids_sublist_forest _)
    have hlength : m.tally.counts.length = _ := h.exact.counts.length_eq
    rw [List.toFinset_card_of_nodup hids, List.length_map, Stack.items, List.length_map] at hlength
    exact hlength
  exact ⟨h.owned, h.shared, hn, hreferences, htracked, by omega, by omega⟩

/-- After every line of every run of a script the slots of the main stack are owned and those of the target shared, no
identity stands twice in the forest of the main stack, and the tally says of references, of tracked items and of
additions without removals that they are as many as the main stack is deep: with any supply that is fresh for the run,
and so with the identities in the order of creation. -/
theorem placed_after_every_line (s : Settings) (lines : List Line) :
    (∀ supply, Fresh s supply lines → ∀ before rest, lines = before ++ rest →
      (runWith s supply before).machine.Placed) ∧
      ∀ before rest, lines = before ++ rest → (runLines s before).machine.Placed := by
  have hplaced : ∀ supply, Fresh s supply lines → ∀ before rest, lines = before ++ rest →
      (runWith s supply before).machine.Placed := by
    intro supply hfresh before rest hl
    exact Machine.placed_of_held (held_runWith s supply before) (identities_nodup hfresh hl)
  exact ⟨hplaced, hplaced id (fresh_of_injective s Function.injective_id lines)⟩

/-- An item that is popped, another with its identity, and an array around that one. -/
def reusingLines : List Line :=
  [⟨1, .push .null⟩, ⟨2, .pop .any⟩, ⟨3, .push (.boolean true)⟩, ⟨4, .pushArray 1⟩]

theorem placed_after_every_line_reusing : Fresh {} (· - 1) reusingLines ∧
    (runWith {} (· - 1) reusingLines).machine.main.items = [⟨1, .array [⟨0, .boolean true⟩]⟩] ∧
      (runWith {} (· - 1) reusingLines).machine.Placed := by
  have hfresh : Fresh {} (· - 1) reusingLines := by
    intro before line rest hl hcreated
    rcases before with _ | ⟨l₁, _ | ⟨l₂, _ | ⟨l₃, _ | ⟨l₄, before⟩⟩⟩⟩
    · cases hl
      exact List.not_mem_nil
    · cases hl
      exact absurd rfl hcreated
    · cases hl
      exact List.not_mem_nil
    · cases hl
      decide
    · simp [reusingLines] at hl
  exact ⟨hfresh, rfl, (placed_after_every_line {} reusingLines).1 _ hfresh reusingLines [] rfl⟩

end OperandStack
