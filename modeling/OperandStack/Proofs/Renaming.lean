import OperandStack.Proofs.Naming
import OperandStack.Proofs.Translation

/-!
# Independence of identities

A tally keeps its counts by identity, and that is the only use of an identity. A renaming of the items that sends
different identities to different ones takes counts to counts (`Counts.raise_rename`, `Counts.lower_rename`), and since no
call asks an item for more than its kind, it takes every run to a run (`Renaming.translation`). What a script leaves to
be read does not depend on the supply of identities at all, as long as the supply is fresh.
-/

namespace OperandStack

/-! ## Counts -/

namespace Counts

/-- Counts of renamed identities. -/
def rename (f : Nat → Nat) (counts : Counts) : Counts :=
  counts.map (Prod.map f id)

variable {f : Nat → Nat} (hf : Function.Injective f) (id : Nat)
include hf

theorem lookup_rename (counts : Counts) : (counts.rename f).lookup (f id) = counts.lookup id := by
  induction counts with
  | nil => rfl
  | cons entry rest ih =>
    obtain ⟨key, n⟩ := entry
    have hrest : ((rename f rest).lookup (f id)) = rest.lookup id := ih
    change List.lookup (f id) ((f key, n) :: rename f rest) = List.lookup id ((key, n) :: rest)
    simp only [lookup_cons, hf.eq_iff, hrest]

theorem raise_rename (counts : Counts) : (counts.rename f).raise (f id) = (counts.raise id).rename f := by
  induction counts with
  | nil => rfl
  | cons entry rest ih =>
    obtain ⟨key, n⟩ := entry
    change raise (f id) ((f key, n) :: rename f rest) = _
    by_cases hkey : key = id
    · rw [raise, raise, if_pos (congrArg f hkey), if_pos hkey]
      rfl
    · rw [raise, raise, if_neg fun h => hkey (hf h), if_neg hkey, ih]
      rfl

theorem lower_rename (counts : Counts) : (counts.rename f).lower (f id) = (counts.lower id).rename f := by
  induction counts with
  | nil => rfl
  | cons entry rest ih =>
    obtain ⟨key, n⟩ := entry
    change lower (f id) ((f key, n) :: rename f rest) = _
    by_cases hkey : key = id
    · rw [lower, lower, if_pos (congrArg f hkey), if_pos hkey]
      split <;> rfl
    · rw [lower, lower, if_neg fun h => hkey (hf h), if_neg hkey, ih]
      rfl

end Counts

/-! ## Renamings -/

/-- A renaming of items: another identity for each identity, and for each item an item of the same kind with the other
identity. -/
structure Renaming where
  item : Item → Item
  name : Nat → Nat
  injective : Function.Injective name
  item_id : ∀ x, (item x).id = name x.id
  item_kind : ∀ x, (item x).kind = x.kind

namespace Renaming

/-- Other identities for all items, those inside others too. -/
def ofInjective {f : Nat → Nat} (hf : Function.Injective f) : Renaming where
  item := Item.rename f
  name := f
  injective := hf
  item_id := Item.id_rename f
  item_kind := Item.kind_rename f

variable (f : Renaming)

/-- A tally of the renamed items. -/
def tally (t : Tally) : Tally :=
  { t with counts := t.counts.rename f.name }

/-- A counter of the renamed items. -/
def counter : Counter → Counter
  | .tracking t => .tracking (f.tally t)
  | .silent => .silent
  | .recording heard => .recording (heard.map (Notice.map f.item))

/-- A tally that hears of a renamed item counts what it counts of the item. -/
theorem receive_tally (t : Tally) (n : Notice) : (f.tally t).receive (n.map f.item) =
    (f.tally (t.receive n).1, (t.receive n).2.map (Event.map f.item)) := by
  cases n with
  | added x =>
    have hcounts : (f.tally t).counts.raise (f.item x).id = (t.counts.raise x.id).rename f.name := by
      rw [f.item_id]
      exact Counts.raise_rename f.injective x.id t.counts
    -- Whether the limit is crossed does not depend on the item.
    have hevent : ((f.tally t).add (f.item x)).2 = (t.add x).2.map (Event.map f.item) := by
      change (if (decide (t.limit < t.references + 1) && !t.overLimit) = true then _ else _) = _
      simp only [Tally.add]
      split <;> rfl
    refine Prod.ext ?_ hevent
    simp only [Notice.map, Tally.receive, Tally.add, hcounts]
    rfl
  | removed x =>
    simp only [Notice.map, Tally.receive, Tally.remove, tally, f.item_id, Counts.lookup_rename f.injective,
      Counts.lower_rename f.injective]
    cases t.counts.lookup x.id <;> rfl

theorem receive_counter (k : Counter) (n : Notice) : (f.counter k).receive (n.map f.item) =
    (f.counter (k.receive n).1, (k.receive n).2.map (Event.map f.item)) := by
  cases k with
  | tracking t =>
    simp only [counter, Counter.receive, f.receive_tally]
  | silent => rfl
  | recording heard =>
    simp only [counter, Counter.receive, List.map_append, List.map_singleton, Option.map_none]

theorem receiveAll_counter (k : Counter) (notices : List Notice) :
    Listener.receiveAll (f.counter k) (notices.map (Notice.map f.item)) =
      (f.counter (Listener.receiveAll k notices).1, (Listener.receiveAll k notices).2.map (Event.map f.item)) := by
  induction notices generalizing k with
  | nil => rfl
  | cons n rest ih =>
    have hreceive : Listener.receive (f.counter k) (n.map f.item) =
        (f.counter (Listener.receive k n).1, (Listener.receive k n).2.map (Event.map f.item)) := f.receive_counter k n
    rw [List.map_cons, Listener.receiveAll_cons, Listener.receiveAll_cons, hreceive, ih, List.map_append]
    cases (Listener.receive k n).2 <;> rfl

/-- A call with a renamed item on a renamed stack is the renamed call. -/
theorem call_map (s : Stack) (k : Counter) (c : Call) : (s.map f.item).call (f.counter k) (c.map f.item) =
    { reply := (s.call k c).reply.map f.item
      stack := (s.call k c).stack.map f.item
      listener := f.counter (s.call k c).listener
      events := (s.call k c).events.map (Event.map f.item) } := by
  have hrecorded : (s.map f.item).recorded (c.map f.item) = s.recorded c := by
    simp only [Stack.recorded, Call.record_map]
    rfl
  have heffect : (c.map f.item).effect (s.map f.item).slots = (c.effect s.slots).map f.item :=
    Call.effect_map f.item_kind s.slots c
  simp only [Stack.call, heffect, hrecorded, Effect.map, f.receiveAll_counter, List.map_append]
  cases (c.effect s.slots).event <;> rfl

/-- Everything that a world does goes along with a renaming. -/
def translation : Translation where
  item := f.item
  stack := Stack.map f.item
  counter := f.counter
  switch on := on
  stack_new _ := rfl
  stack_clearJournal _ := rfl
  call := f.call_map
  copyOnto := Stack.copyOnto_map f.item
  receive := f.receive_counter

/-! ## Renamed worlds -/

/-- One world is the other with its items renamed: its slots hold the renamed items and are owned as before, its tallies
count for a renamed item what they counted for the item, and all figures, checks and journals are the same. -/
structure Follows (w w' : World) : Prop where
  length : w'.seats.length = w.seats.length
  seats : ∀ (i : Nat) seat, w.seats[i]? = some seat → ∃ seat', w'.seats[i]? = some seat' ∧
    seat'.counter = seat.counter ∧ seat'.live = seat.live ∧
    seat'.stack.slots = seat.stack.slots.map (Slot.map f.item) ∧
    seat'.stack.sharedCount = seat.stack.sharedCount ∧ seat'.stack.journal = seat.stack.journal
  tallies : ∀ (k : Nat) t, w.counters[k]? = some (.tracking t) → ∃ t', w'.counters[k]? = some (.tracking t') ∧
    t'.stats = t.stats ∧ t'.check = t.check ∧ ∀ x, t'.referencesTo (f.item x) = t.referencesTo x

theorem stats_tally (t : Tally) : (f.tally t).stats = t.stats := by
  simp only [Tally.stats, tally, Counts.rename, List.length_map]

theorem referencesTo_tally (t : Tally) (x : Item) : (f.tally t).referencesTo (f.item x) = t.referencesTo x := by
  simp only [Tally.referencesTo, Counts.of, tally, f.item_id, Counts.lookup_rename f.injective]

theorem sharedCount_map (s : Stack) : (s.map f.item).sharedCount = s.sharedCount := by
  simp only [Stack.sharedCount, Stack.map, List.countP_map]
  rfl

theorem follows_world (w : World) : f.Follows w (f.translation.world w) := by
  refine ⟨List.length_map _, ?_, ?_⟩
  · intro i seat hi
    have hseat : (f.translation.world w).seats[i]? = some (f.translation.seat seat) := by
      rw [Translation.world, List.getElem?_map, hi]
      rfl
    exact ⟨_, hseat, rfl, rfl, rfl, f.sharedCount_map seat.stack, rfl⟩
  · intro k t hk
    have htally : (f.translation.world w).counters[k]? = some (.tracking (f.tally t)) := by
      rw [Translation.getElem?_counters_world, hk]
      rfl
    exact ⟨_, htally, f.stats_tally t, rfl, f.referencesTo_tally t⟩

/-- A renaming leaves a new counter as it is. -/
theorem counter_of_new {c : Counter} (hc : c.New) : f.counter c = c := by
  cases c with
  | tracking t =>
    have ht : t = .new t.limit := hc
    rw [ht]
    rfl
  | silent => rfl
  | recording heard =>
    have hheard : heard = [] := hc
    rw [hheard]
    rfl

theorem world_start {counters : List Counter} (hnew : ∀ c ∈ counters, c.New) :
    f.translation.world (.start counters) = .start counters := by
  have hcounters : counters.map f.counter = counters := by
    rw [List.map_congr_left fun c hc => f.counter_of_new (hnew c hc), List.map_id']
  exact congrArg World.start hcounters

end Renaming

/-! ## Independence -/

/-- Nothing depends on which identities items have. Run with renamed items, actions on any stacks and counters are
possible where they were, and leave the replies, the events and the worlds that they left, renamed. Run with any fresh
supply of identities, a script leaves one report, but for the names of the items in it, and one text and one document. -/
theorem identities_immaterial :
    (∀ (f : Renaming) (counters : List Counter), (∀ c ∈ counters, c.New) →
        f.translation.world (.start counters) = .start counters) ∧
      (∀ (f : Renaming) (w : World), f.Follows w (f.translation.world w) ∧ ∀ actions : List Action,
        (f.translation.world w).run (actions.map f.translation.action) = (w.run actions).map f.translation.history) ∧
      ∀ (s : Settings) (lines : List Line) (supply supply' : Nat → Nat), Fresh s supply lines →
        Fresh s supply' lines →
        Report.Same supply supply' (runWith s supply lines).report (runWith s supply' lines).report ∧
          (runWith s supply' lines).report.text = (runWith s supply lines).report.text ∧
          (runWith s supply' lines).report.document = (runWith s supply lines).report.document := by
  refine ⟨?_, ?_, ?_⟩
  · intro f counters hnew
    exact f.world_start hnew
  · intro f w
    exact ⟨f.follows_world w, f.translation.run_world w⟩
  · intro s lines supply supply' hfresh hfresh'
    have hsame : Report.Same supply supply' (runWith s supply lines).report (runWith s supply' lines).report :=
      ⟨(runLines s lines).report, report_of_fresh hfresh, report_of_fresh hfresh'⟩
    exact ⟨hsame, hsame.text_eq, hsame.document_eq⟩

/-- Two stacks that share a counter, one item pushed twice and copied, a notice of another item, and a pop that fails. -/
def lentTwice : List Action :=
  [.create 0 true, .create 0 false, .call 0 (.push ⟨3, .null⟩), .call 0 (.push ⟨3, .null⟩), .copy 0 1 none,
    .notify 0 (.added ⟨4, .pointer 0⟩), .call 0 (.popAs .compound)]

/-- Identities that are all greater by seven. -/
def shifted : Renaming :=
  .ofInjective (add_left_injective 7)

/-- Two items, and an array around them. -/
def gatheredLines : List Line :=
  [⟨1, .push .null⟩, ⟨2, .push (.boolean true)⟩, ⟨3, .pushArray 2⟩, ⟨4, .copy none⟩]

theorem identities_immaterial_shifted :
    ((World.start [.tracking (.new 1)]).run lentTwice).isSome = true ∧
      (World.start [.tracking (.new 1)]).run (lentTwice.map shifted.translation.action) =
        ((World.start [.tracking (.new 1)]).run lentTwice).map shifted.translation.history ∧
      (runWith {} (· + 7) gatheredLines).report.stack = [⟨9, .array [⟨7, .null⟩, ⟨8, .boolean true⟩]⟩] ∧
      (runWith {} (· + 7) gatheredLines).report.text = (runWith {} id gatheredLines).report.text := by
  have hnew : ∀ c ∈ [Counter.tracking (.new 1)], c.New := by
    intro c hc
    rw [List.mem_singleton.mp hc]
    exact rfl
  have hstart := identities_immaterial.1 shifted _ hnew
  have hrun := (identities_immaterial.2.1 shifted (.start [.tracking (.new 1)])).2 lentTwice
  rw [hstart] at hrun
  have hfresh : Fresh {} id gatheredLines := fresh_of_injective {} Function.injective_id gatheredLines
  have hfresh' : Fresh {} (· + 7) gatheredLines := fresh_of_injective {} (add_left_injective 7) gatheredLines
  exact ⟨rfl, hrun, rfl, (identities_immaterial.2.2 {} gatheredLines _ _ hfresh hfresh').2.1⟩

end OperandStack
