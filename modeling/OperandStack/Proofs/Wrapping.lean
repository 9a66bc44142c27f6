import OperandStack.Proofs.Placement

/-!
# Compound pushes

A compound push puts the top items of the main stack, in the order in which they lay, into one new item on top of those
below them (`Machine.Gathers`), and whatever the target holds stays there. So the items that hold no others, read from
the bottom up and from left to right through all that holds them, are the same items in the same order after any number
of compound pushes, whether these pass or fail (`Machine.leaves_run`).
-/

namespace OperandStack

/-! ## Leaves -/

namespace Item

mutual

/-- The items without parts in an item, from left to right: the item itself if it is one. -/
def leaves : Item → List Item
  | ⟨_, .array items⟩ => allLeaves items
  | ⟨_, .struct fields⟩ => allLeaves fields
  | ⟨_, .map entries⟩ => entryLeaves entries
  | item => [item]

/-- The items without parts in some items. -/
def allLeaves : List Item → List Item
  | [] => []
  | item :: rest => leaves item ++ allLeaves rest

/-- The items without parts in the entries of a map, each key before its value. -/
def entryLeaves : List (Item × Item) → List Item
  | [] => []
  | (key, value) :: rest => leaves key ++ leaves value ++ entryLeaves rest

end

theorem allLeaves_append (a b : List Item) : allLeaves (a ++ b) = allLeaves a ++ allLeaves b := by
  induction a with
  | nil => rfl
  | cons item rest ih => rw [List.cons_append, allLeaves, allLeaves, ih, List.append_assoc]

end Item

/-- The items without parts on a stack, from the bottom up. -/
def Stack.leaves (s : Stack) : List Item :=
  Item.allLeaves s.items

/-- How many items a compound push gathers, and into what. -/
def Command.compound? : Command → Option (UInt64 × (List Item → Value Item))
  | pushArray size => some (size, .array)
  | pushStruct size => some (size, .struct)
  | _ => none

/-- Arrays and structs have the leaves of their items. -/
theorem Command.leaves_compound {c : Command} {size : UInt64} {compound : List Item → Value Item}
    (h : c.compound? = some (size, compound)) (id : Nat) (items : List Item) :
    Item.leaves ⟨id, compound items⟩ = Item.allLeaves items := by
  cases c with
  | pushArray n =>
    cases h
    rfl
  | pushStruct n =>
    cases h
    rfl
  | _ => cases h

namespace Machine

/-! ## One compound push -/

/-- A machine whose top items have been gathered into one new item: the slots below are as they were, the item holds the
very items that lay above them, in their order, for each of those a reference is gone while the new one counts, and no
other item was created. -/
structure Gathers (supply : Nat → Nat) (n : Nat) (compound : List Item → Value Item) (m after : Machine) : Prop where
  slots : after.main.slots = m.main.slots.take (m.main.depth - n) ++
    [{ item := ⟨supply m.created, compound (m.main.items.drop (m.main.depth - n))⟩ }]
  target : after.target = m.target
  references : (after.tally.references : Int) = m.tally.references + (1 - n)
  created : after.created = m.created + 1

/-- The command of a compound push is carried out by one definition for both kinds. -/
theorem execute_compound (m : Machine) (supply : Nat → Nat) {line : Line} {size : UInt64}
    {compound : List Item → Value Item} (h : line.command.compound? = some (size, compound)) :
    m.execute supply line = m.wrap supply size compound := by
  obtain ⟨number, command⟩ := line
  cases command with
  | pushArray n =>
    cases h
    rfl
  | pushStruct n =>
    cases h
    rfl
  | _ => cases h

/-- The slots after a compound push of as many items as there are at most. -/
theorem wrapped_slots {m : Machine} {n : Nat} (hn : n ≤ m.main.depth) (supply : Nat → Nat)
    (compound : List Item → Value Item) :
    (m.wrapped supply n compound).main.slots = m.main.slots.take (m.main.depth - n) ++
      [{ item := ⟨supply m.created, compound (m.main.items.drop (m.main.depth - n))⟩ }] := by
  change (m.popped n).main.slots ++ [_] = _
  rw [popped_slots hn]

/-- A compound push of a machine whose tally is exact moves the references as it moves the slots. -/
theorem gathers_wrapped {m : Machine} (hheld : Held m.main m.target m.tally) {size : UInt64}
    (hn : size.toNat ≤ m.main.depth) (supply : Nat → Nat) (compound : List Item → Value Item) :
    m.Gathers supply size.toNat compound (m.wrapped supply size.toNat compound) := by
  have hslots := wrapped_slots hn supply compound
  refine ⟨hslots, (popped_frame m size.toNat).1, ?_, rfl⟩
  have hmoves : m.Moves (m.wrapped supply size.toNat compound) := by
    have hwrap := wrap_moves m supply size compound
    rwa [wrap_of_le hn] at hwrap
  -- Before and after it there are as many references as slots.
  have hbelow : m.main.depth - size.toNat ≤ m.main.slots.length := Nat.sub_le _ _
  have hdepth : (m.wrapped supply size.toNat compound).main.depth = m.main.depth - size.toNat + 1 := by
    rw [Stack.depth, hslots, List.length_append, List.length_take_of_le hbelow, List.length_singleton]
  rw [(hmoves.held hheld).references_eq, hheld.references_eq, hdepth]
  omega

/-- A line with a compound push of as many items as there are at most gathers them, and fails only by the check of the
ceiling. -/
theorem step_gathers {m : Machine} (hheld : Held m.main m.target m.tally) (supply : Nat → Nat) {line : Line}
    {size : UInt64} {compound : List Item → Value Item} (h : line.command.compound? = some (size, compound))
    (hn : size.toNat ≤ m.main.depth) :
    m.Gathers supply size.toNat compound (m.step supply line).2 ∧
      (m.step supply line).1 = (m.step supply line).2.tally.check := by
  have hexecute : (m.announced line).execute supply line =
      (.ok (), (m.announced line).wrapped supply size.toNat compound) := by
    rw [execute_compound _ _ h]
    exact wrap_of_le (m := m.announced line) hn supply compound
  obtain ⟨hslots, htarget, hreferences, hcreated⟩ := gathers_wrapped (m := m.announced line) hheld hn supply compound
  rw [step_of_ok hexecute]
  split
  · rename_i hover
    exact ⟨⟨hslots, htarget, hreferences, hcreated⟩, (if_pos hover).symm⟩
  · rename_i hunder
    exact ⟨⟨hslots, htarget, hreferences, hcreated⟩, (if_neg hunder).symm⟩

/-! ## Leaves along a run -/

/-- Gathering items keeps their leaves. -/
theorem leaves_wrapped {m : Machine} {n : Nat} (hn : n ≤ m.main.depth) (supply : Nat → Nat)
    {compound : List Item → Value Item}
    (hcompound : ∀ id items, Item.leaves ⟨id, compound items⟩ = Item.allLeaves items) :
    (m.wrapped supply n compound).main.leaves = m.main.leaves := by
  have hitems : (m.wrapped supply n compound).main.items = m.main.items.take (m.main.depth - n) ++
      [⟨supply m.created, compound (m.main.items.drop (m.main.depth - n))⟩] := by
    rw [Stack.items, wrapped_slots hn, List.map_append, List.map_take]
    rfl
  rw [Stack.leaves, hitems, Item.allLeaves_append, Item.allLeaves, hcompound, Item.allLeaves, List.append_nil,
    ← Item.allLeaves_append, List.take_append_drop]
  rfl

theorem leaves_wrap (m : Machine) (supply : Nat → Nat) (size : UInt64) {compound : List Item → Value Item}
    (hcompound : ∀ id items, Item.leaves ⟨id, compound items⟩ = Item.allLeaves items) :
    (m.wrap supply size compound).2.main.leaves = m.main.leaves := by
  by_cases hd : m.main.depth < size.toNat
  · rw [wrap_of_lt hd]
  · rw [wrap_of_le (Nat.not_lt.mp hd)]
    exact leaves_wrapped (Nat.not_lt.mp hd) supply hcompound

/-- A line with a compound push keeps the leaves of the main stack, however it ends. -/
theorem leaves_step (m : Machine) (supply : Nat → Nat) {line : Line} (h : line.command.compound?.isSome) :
    (m.step supply line).2.main.leaves = m.main.leaves := by
  obtain ⟨⟨size, compound⟩, hc⟩ := Option.isSome_iff_exists.mp h
  refine step_keeps (P := fun after => after.main.leaves = m.main.leaves) (fun _ h => h) ?_
  rw [execute_compound _ _ hc]
  exact leaves_wrap (m.announced line) supply size (Command.leaves_compound hc)

/-- Compound pushes in a row keep them. -/
theorem leaves_run (m : Machine) (supply : Nat → Nat) {lines : List Line}
    (h : ∀ line ∈ lines, line.command.compound?.isSome) :
    (m.run supply lines).machine.main.leaves = m.main.leaves := by
  refine run_keeps (P := fun after => after.main.leaves = m.main.leaves) ?_ rfl
  intro line hline between hbetween
  exact (leaves_step between supply (h line hline)).trans hbetween

end Machine

/-! ## Runs -/

/-- A line that creates an item after lines that passed gives it an identity that does not stand in the forest. -/
theorem Fresh.next_notMem {s : Settings} {supply : Nat → Nat} {before : List Line} {line : Line}
    (hfresh : Fresh s supply (before ++ [line])) (hbefore : (runWith s supply before).stop = none)
    (hcreated : ((runWith s supply before).machine.step supply line).2.created ≠
      (runWith s supply before).machine.created) :
    supply (runWith s supply before).machine.created ∉ (runWith s supply before).machine.main.identities := by
  refine hfresh before line [] rfl ?_
  rw [runWith_concat, if_pos hbefore]
  exact hcreated

/-- In every state of a run a compound push of as many items as there are at most gathers them in one new item and fails
only by the check of the ceiling; with a supply that is fresh for the run the identity of that item stands nowhere in
the forest. And no compound pushes in a row, on whatever machine and however they end, change the leaves of the main
stack. -/
theorem compound_pushes_keep_leaves :
    (∀ (s : Settings) (supply : Nat → Nat) (before : List Line) (m : Machine),
      (runWith s supply before).machine = m → ∀ (line : Line) (size : UInt64) (compound : List Item → Value Item),
        line.command.compound? = some (size, compound) → size.toNat ≤ m.main.depth →
          m.Gathers supply size.toNat compound (m.step supply line).2 ∧
          (m.step supply line).1 = (m.step supply line).2.tally.check ∧
          (Fresh s supply (before ++ [line]) → (runWith s supply before).stop = none →
            supply m.created ∉ m.main.identities)) ∧
    ∀ (m : Machine) (supply : Nat → Nat) (lines : List Line), (∀ line ∈ lines, line.command.compound?.isSome) →
      (m.run supply lines).machine.main.leaves = m.main.leaves := by
  refine ⟨?_, fun m supply lines h => m.leaves_run supply h⟩
  rintro s supply before m rfl line size compound hc hn
  obtain ⟨hgathers, hcheck⟩ := Machine.step_gathers (held_runWith s supply before) supply hc hn
  refine ⟨hgathers, hcheck, fun hfresh hbefore => hfresh.next_notMem hbefore ?_⟩
  rw [hgathers.created]
  exact Nat.succ_ne_self _

/-- Two items of which the upper stands in an array. -/
def nestedLines : List Line :=
  [⟨1, .push (.integer 5)⟩, ⟨2, .push .null⟩, ⟨3, .pushArray 1⟩]

theorem compound_pushes_keep_leaves_nested :
    (runLines {} nestedLines).machine.Gathers id 2 .struct
        ((runLines {} nestedLines).machine.step id ⟨4, .pushStruct 2⟩).2 ∧
      ((runLines {} nestedLines).machine.step id ⟨4, .pushStruct 2⟩).2.main.items =
        [⟨3, .struct [⟨0, .integer 5⟩, ⟨2, .array [⟨1, .null⟩]⟩]⟩] ∧
      3 ∉ (runLines {} nestedLines).machine.main.identities ∧
      ((runLines {} nestedLines).machine.run id [⟨4, .pushStruct 2⟩, ⟨5, .pushArray 0⟩, ⟨6, .pushArray 9⟩]).stop =
        some (⟨6, .pushArray 9⟩, .underflow 8 2) ∧
      ((runLines {} nestedLines).machine.run id
          [⟨4, .pushStruct 2⟩, ⟨5, .pushArray 0⟩, ⟨6, .pushArray 9⟩]).machine.main.leaves =
        [⟨0, .integer 5⟩, ⟨1, .null⟩] := by
  have hrow : ∀ line ∈ [(⟨4, .pushStruct 2⟩ : Line), ⟨5, .pushArray 0⟩, ⟨6, .pushArray 9⟩],
      line.command.compound?.isSome := by decide
  have hleaves := compound_pushes_keep_leaves.2 (runLines {} nestedLines).machine id _ hrow
  obtain ⟨hgathers, -, hnew⟩ := compound_pushes_keep_leaves.1 {} id nestedLines _ rfl ⟨4, .pushStruct 2⟩ 2 .struct rfl
    (by decide)
  exact ⟨hgathers, rfl, hnew (fresh_of_injective {} Function.injective_id _) rfl, rfl, hleaves.trans rfl⟩

end OperandStack
