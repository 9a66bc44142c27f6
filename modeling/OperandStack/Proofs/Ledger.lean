import Mathlib.Data.List.DropRight
import OperandStack.Proofs.Composition

/-!
# What journals say

What a call enters in a journal depends on the call alone (`Call.entries`); what a line enters depends on its command
and on the depth of the main stack before it (`Command.entries`). A journal that is on takes these records at its end,
one that is off takes none (`Journal.extended`). So what the journal of a stack says at the end of a run can be read off
the actions of the run (`Action.ledger`), and what the journal of a script says off the lines that it reached
(`Script.ledger`), whatever came of them.
-/

namespace OperandStack

/-! ## What a journal names last -/

namespace Journal

/-- A journal that was empty has no records but those that it was given. -/
theorem mem_of_mem_extended {on : Bool} {records : List Record} {r : Record}
    (h : r ∈ ((empty on).extended records).records) : r ∈ records := by
  cases on with
  | true => exact h
  | false => cases h

/-- A journal whose records all name an operation names none as its last exactly when it has no record. -/
theorem lastOp_eq_none_iff {j : Journal} (h : ∀ r ∈ j.records, r.op ≠ .none) : j.lastOp = .none ↔ j.records = [] := by
  constructor
  · intro hlast
    rcases List.eq_nil_or_concat' j.records with hnil | ⟨before, r, hr⟩
    · exact hnil
    · have hop : j.lastOp = r.op := by rw [lastOp, hr, List.getLast?_concat]
      exact absurd (hop.symm.trans hlast) (h r (hr ▸ List.mem_concat_self))
  · intro hnil
    rw [lastOp, hnil]
    rfl

end Journal

/-! ## Calls -/

namespace Call

/-- The records of a call. Reading quietly leaves none; any other call leaves one. -/
def entries : Call → List Journal.Record
  | push _ => [{ op := .push }]
  | insert index _ => [{ op := .insert, index := some index }]
  | pop => [{ op := .pop }]
  | popAs _ => [{ op := .pop }]
  | tryPop => [{ op := .remove, index := some 0 }]
  | tryPopAs _ => [{ op := .remove, index := some 0 }]
  | remove index _ => [{ op := .remove, index := some index }]
  | tryRemove index _ => [{ op := .remove, index := some index }]
  | peek index => [{ op := .peek, index := some index }]
  | tryPeek index => [{ op := .peek, index := some index }]
  | peekTop => [{ op := .peek, index := some 0 }]
  | peekQuiet _ => []
  | reverse count => [{ op := .reverse, index := some count }]
  | tryReverse count => [{ op := .reverse, index := some count }]
  | clear => [{ op := .clear }]

theorem toList_record (c : Call) : c.record.toList = c.entries := by
  cases c <;> rfl

theorem op_ne_none {c : Call} {r : Journal.Record} (h : r ∈ c.entries) : r.op ≠ .none := by
  cases c with
  | peekQuiet index => cases h
  | _ =>
    cases List.mem_singleton.mp h
    exact nofun

end Call

/-- A call extends the journal of its stack by its records. -/
theorem Stack.recorded_eq_entries (s : Stack) (c : Call) : s.recorded c = s.journal.extended c.entries := by
  rw [s.recorded_eq, c.toList_record]

/-! ## Actions -/

namespace Action

/-- The records that an action enters in the journal of a stack: those of a call on it. -/
def entries (i : Nat) : Action → List Journal.Record
  | call j c => if j = i then c.entries else []
  | copy .. | clearJournal _ | create .. | discard _ | notify .. => []

/-- Whether an action clears the journal of a stack. -/
def clears (i : Nat) : Action → Bool
  | clearJournal j => j == i
  | call .. | copy .. | create .. | discard _ | notify .. => false

/-- The records of the calls on a stack since its journal was last cleared, in the order of the calls. -/
def ledger (i : Nat) (actions : List Action) : List Journal.Record :=
  (actions.rtakeWhile fun a => !a.clears i).flatMap (entries i)

/-- Whether the journal of a new stack is on. -/
def switch? : Action → Option Bool
  | create _ journal => some journal
  | call .. | copy .. | clearJournal _ | discard _ | notify .. => none

/-- The journal of a stack after an action. -/
def entered (i : Nat) (a : Action) (j : Journal) : Journal :=
  if a.clears i then j.clear else j.extended (a.entries i)

theorem ledger_concat (i : Nat) (actions : List Action) (a : Action) :
    ledger i (actions ++ [a]) = if a.clears i then [] else ledger i actions ++ a.entries i := by
  rw [ledger, List.rtakeWhile_concat]
  cases a.clears i with
  | true => rfl
  | false => simp [ledger]

/-- One more action does to a journal what it does to a ledger. -/
theorem entered_ledger (i : Nat) (actions : List Action) (a : Action) (on : Bool) :
    a.entered i ((Journal.empty on).extended (ledger i actions)) =
      (Journal.empty on).extended (ledger i (actions ++ [a])) := by
  rw [entered, ledger_concat]
  split
  · rw [Journal.extended_nil]
    rfl
  · rw [Journal.extended_extended]

/-- An action that neither clears a journal nor enters anything in it leaves it as it is. -/
theorem entered_eq_self {i : Nat} {a : Action} (hclears : a.clears i = false) (hentries : a.entries i = [])
    (j : Journal) : a.entered i j = j := by
  simp [entered, hclears, hentries]

theorem op_ne_none {i : Nat} {a : Action} {r : Journal.Record} (h : r ∈ a.entries i) : r.op ≠ .none := by
  cases a with
  | call j c =>
    simp only [entries] at h
    split at h
    · exact Call.op_ne_none h
    · cases h
  | _ => cases h

theorem op_ne_none_of_mem_ledger {i : Nat} {actions : List Action} {r : Journal.Record} (h : r ∈ ledger i actions) :
    r.op ≠ .none := by
  obtain ⟨a, -, hr⟩ := List.mem_flatMap.mp h
  exact op_ne_none hr

end Action

namespace World

/-- The journals of the stacks of a world, each at the place of its stack. -/
def journals (w : World) : List Journal :=
  w.seats.map fun seat => seat.stack.journal

@[simp]
theorem length_journals (w : World) : w.journals.length = w.seats.length :=
  List.length_map _

/-- The journals after an action that puts another stack on a seat. -/
theorem journals_setStack {w : World} {i : Nat} {seat : Seat} (hi : w.seats[i]? = some seat) {s : Stack} {a : Action}
    (hs : s.journal = a.entered i seat.stack.journal)
    (hothers : ∀ j, i ≠ j → a.clears j = false ∧ a.entries j = []) :
    (w.setStack i s).journals = w.journals.mapIdx fun j => a.entered j := by
  apply List.ext_getElem?
  intro j
  simp only [journals, List.getElem?_map, List.getElem?_mapIdx, getElem?_seats_setStack]
  by_cases hj : i = j
  · subst hj
    simp [hi, hs]
  · obtain ⟨hclears, hentries⟩ := hothers j hj
    rw [if_neg hj]
    cases w.seats[j]? with
    | none => rfl
    | some other => exact congrArg some (Action.entered_eq_self hclears hentries _).symm

/-- An action that neither clears nor enters anything leaves all journals as they are. -/
theorem mapIdx_entered {a : Action} (ha : ∀ i, a.clears i = false ∧ a.entries i = []) (journals : List Journal) :
    journals.mapIdx (fun i => a.entered i) = journals := by
  apply List.ext_getElem?
  intro i
  obtain ⟨hclears, hentries⟩ := ha i
  rw [List.getElem?_mapIdx]
  cases journals[i]? with
  | none => rfl
  | some j => exact congrArg some (Action.entered_eq_self hclears hentries j)

/-- An action enters its records in the journals that there are, and a new stack has an empty journal. -/
theorem act_journals {w : World} {a : Action} {t : Turn} (h : w.act a = some t) :
    t.world.journals = w.journals.mapIdx (fun i => a.entered i) ++ a.switch?.toList.map .empty := by
  cases a with
  | call i c =>
    obtain ⟨seat, counter, hs, -, rfl⟩ := act_call_iff.mp h
    obtain ⟨hi, -⟩ := seat?_eq_some_iff.mp hs
    have hcall : (seat.stack.call counter c).stack.journal = (Action.call i c).entered i seat.stack.journal := by
      change seat.stack.recorded c = _
      simp [Stack.recorded_eq_entries, Action.entered, Action.clears, Action.entries]
    refine Eq.trans (journals_setStack hi hcall ?_) (List.append_nil _).symm
    intro j hj
    exact ⟨rfl, if_neg hj⟩
  | copy i j count =>
    obtain ⟨source, target, -, ht, -, rfl⟩ := act_copy_iff.mp h
    obtain ⟨hj, -⟩ := seat?_eq_some_iff.mp ht
    have hcopy : (source.stack.copyOnto count target.stack).1.journal =
        (Action.copy i j count).entered j target.stack.journal := by
      rw [Stack.copyOnto_journal, Action.entered_eq_self rfl rfl]
    exact (journals_setStack hj hcopy fun _ _ => ⟨rfl, rfl⟩).trans (List.append_nil _).symm
  | clearJournal i =>
    obtain ⟨seat, hs, rfl⟩ := act_clearJournal_iff.mp h
    obtain ⟨hi, -⟩ := seat?_eq_some_iff.mp hs
    have hclear : seat.stack.clearJournal.journal = (Action.clearJournal i).entered i seat.stack.journal := by
      simp [Action.entered, Action.clears, Stack.clearJournal]
    refine Eq.trans (journals_setStack hi hclear ?_) (List.append_nil _).symm
    intro j hj
    exact ⟨beq_false_of_ne hj, rfl⟩
  | create k on =>
    obtain ⟨-, rfl⟩ := act_create_iff.mp h
    rw [mapIdx_entered fun _ => ⟨rfl, rfl⟩]
    exact List.map_append
  | discard i =>
    obtain ⟨-, rfl⟩ := act_discard_iff.mp h
    rw [mapIdx_entered fun _ => ⟨rfl, rfl⟩]
    refine Eq.trans ?_ (List.append_nil _).symm
    apply List.ext_getElem?
    intro j
    simp only [journals, List.getElem?_map, List.getElem?_modify]
    split <;> cases w.seats[j]? <;> rfl
  | notify k n =>
    obtain ⟨counter, -, rfl⟩ := act_notify_iff.mp h
    rw [mapIdx_entered fun _ => ⟨rfl, rfl⟩]
    exact (List.append_nil _).symm

/-- An action enters nothing where there is no stack. -/
theorem entries_of_act {w : World} {a : Action} {t : Turn} (h : w.act a = some t) {i : Nat}
    (hi : w.seats.length ≤ i) : a.entries i = [] := by
  cases a with
  | call j c =>
    obtain ⟨seat, counter, hs, -, -⟩ := act_call_iff.mp h
    obtain ⟨hj, -⟩ := seat?_eq_some_iff.mp hs
    have hlt := (List.getElem?_eq_some_iff.mp hj).1
    exact if_neg (by omega)
  | _ => rfl

/-- After a run every journal says what was entered since it was cleared, and nothing was entered where there is no
stack. -/
theorem run_journals {counters : List Counter} {actions : List Action} {h : History}
    (hr : (start counters).run actions = some h) :
    h.world.journals = (actions.filterMap Action.switch?).mapIdx (fun i on =>
        (Journal.empty on).extended (Action.ledger i actions)) ∧
      ∀ i, h.world.seats.length ≤ i → Action.ledger i actions = [] := by
  -- The last action is taken off, since it is the last clearing that counts.
  induction actions using List.reverseRecOn generalizing h with
  | nil =>
    cases hr
    exact ⟨rfl, fun _ _ => rfl⟩
  | append_singleton actions a ih =>
    obtain ⟨before, after, hbefore, hafter, rfl⟩ := run_append_iff.mp hr
    obtain ⟨turn, _, hact, hnil, rfl⟩ := run_cons_iff.mp hafter
    cases hnil
    obtain ⟨hjournals, hnone⟩ := ih hbefore
    have hnone' : ∀ i, before.world.seats.length ≤ i → Action.ledger i (actions ++ [a]) = [] := by
      intro i hi
      rw [Action.ledger_concat, hnone i hi, entries_of_act hact hi, List.append_nil, ite_self]
    have hlength : (actions.filterMap Action.switch?).length = before.world.seats.length := by
      rw [← length_journals, hjournals, List.length_mapIdx]
    have hnew : a.switch?.toList.mapIdx (fun i on => (Journal.empty on).extended
        (Action.ledger (i + (actions.filterMap Action.switch?).length) (actions ++ [a]))) =
          a.switch?.toList.map .empty := by
      cases a.switch? with
      | none => rfl
      | some on =>
        have hempty := hnone' (0 + (actions.filterMap Action.switch?).length) (by omega)
        simp only [Option.toList_some, List.mapIdx_singleton, List.map_singleton, hempty, Journal.extended_nil]
    have hafter := act_journals hact
    constructor
    · change turn.world.journals = _
      have hswitches : (actions ++ [a]).filterMap Action.switch? =
          actions.filterMap Action.switch? ++ a.switch?.toList := by
        rw [List.filterMap_append]
        cases a <;> rfl
      rw [hafter, hjournals, List.mapIdx_mapIdx, hswitches, List.mapIdx_append, hnew]
      simp only [Function.comp_def, Action.entered_ledger]
    · intro i hi
      apply hnone'
      have hle := congrArg List.length hafter
      simp only [length_journals, List.length_append, List.length_mapIdx, List.length_map] at hle
      change turn.world.seats.length ≤ i at hi
      omega

/-- After a run an operation is named as the last of every journal that has a record, and of no other. -/
theorem run_lastOp {counters : List Counter} {actions : List Action} {h : History}
    (hr : (start counters).run actions = some h) {seat : Seat} (hseat : seat ∈ h.world.seats) :
    seat.stack.journal.lastOp = .none ↔ seat.stack.journal.records = [] := by
  obtain ⟨hjournals, -⟩ := run_journals hr
  have hmem : seat.stack.journal ∈ h.world.journals := List.mem_map_of_mem hseat
  rw [hjournals] at hmem
  obtain ⟨i, hi, hjournal⟩ := List.mem_mapIdx.mp hmem
  apply Journal.lastOp_eq_none_iff
  intro r hr
  rw [← hjournal] at hr
  exact Action.op_ne_none_of_mem_ledger (Journal.mem_of_mem_extended hr)

end World

/-! ## Lines -/

/-- The records that a command enters in the journal of the main stack, given how deep that is before it. A compound
push of more items than there are enters none; any other enters a pop for each item and then its push. -/
def Command.entries (depth : Nat) : Command → List Journal.Record
  | push _ => [{ op := .push }]
  | pushArray size | pushStruct size =>
    if size.toNat ≤ depth then List.replicate size.toNat { op := .pop } ++ [{ op := .push }] else []
  | pop _ => [{ op := .pop }]
  | tryPop _ => [{ op := .remove, index := some 0 }]
  | peek index => [{ op := .peek, index := some index }]
  | peekQuiet _ => []
  | insert index _ => [{ op := .insert, index := some index }]
  | remove index _ => [{ op := .remove, index := some index }]
  | reverse count => [{ op := .reverse, index := some count }]
  | clear => [{ op := .clear }]
  | copy _ => []

namespace Machine

theorem journal_call (m : Machine) (c : Call) : (m.call c).2.main.journal = m.main.journal.extended c.entries :=
  m.main.recorded_eq_entries c

theorem journal_change (m : Machine) (c : Call) : (m.change c).2.main.journal = m.main.journal.extended c.entries := by
  rw [change_eq]
  exact m.journal_call c

theorem journal_observe (m : Machine) (line : Line) (c : Call) :
    (m.observe line c).2.main.journal = m.main.journal.extended c.entries := by
  have hcall := m.journal_call c
  rw [observe_eq]
  cases (m.call c).1.shown? <;> exact hcall

/-- Pops in a row enter one record each. -/
theorem journal_popped (m : Machine) (n : Nat) :
    (m.popped n).main.journal = m.main.journal.extended (List.replicate n { op := .pop }) := by
  induction n generalizing m with
  | zero => exact m.main.journal.extended_nil.symm
  | succ n ih => rw [popped, ih, journal_call, Journal.extended_extended, List.replicate_succ, Call.entries,
      List.singleton_append]

/-- A compound push enters its pops and its push, or nothing at all. -/
theorem journal_wrap (m : Machine) (supply : Nat → Nat) (size : UInt64) (compound : List Item → Value Item) :
    (m.wrap supply size compound).2.main.journal = m.main.journal.extended
      (if size.toNat ≤ m.main.depth then List.replicate size.toNat { op := .pop } ++ [{ op := .push }] else []) := by
  by_cases hd : size.toNat ≤ m.main.depth
  · rw [if_pos hd, wrap_of_le hd, wrapped, journal_call, journal_popped, Journal.extended_extended]
    rfl
  · rw [if_neg hd, wrap_of_lt (Nat.not_le.mp hd), Journal.extended_nil]

/-- A command enters its records. -/
theorem journal_execute (m : Machine) (supply : Nat → Nat) (line : Line) :
    (m.execute supply line).2.main.journal = m.main.journal.extended (line.command.entries m.main.depth) := by
  obtain ⟨number, command⟩ := line
  cases command with
  | push literal => exact journal_change _ _
  | pushArray size => exact m.journal_wrap supply size .array
  | pushStruct size => exact m.journal_wrap supply size .struct
  | pop view => exact m.journal_observe _ (.popAs view)
  | tryPop view => exact m.journal_observe _ (.tryPopAs view)
  | peek index => exact m.journal_observe _ (.peek index)
  | peekQuiet index => exact m.journal_observe _ (.peekQuiet index)
  | insert index literal => exact journal_change _ (.insert index _)
  | remove index view => exact m.journal_observe _ (.remove index view)
  | reverse count => exact m.journal_change (.reverse count)
  | clear => exact m.journal_change .clear
  | copy count => exact m.main.journal.extended_nil.symm

/-- A line enters the records of its command, whether it passes or fails. -/
theorem journal_step (m : Machine) (supply : Nat → Nat) (line : Line) :
    (m.step supply line).2.main.journal = m.main.journal.extended (line.command.entries m.main.depth) := by
  obtain ⟨log, hstep⟩ := m.step_eq supply line
  rw [hstep]
  exact (m.announced line).journal_execute supply line

end Machine

/-! ## Scripts -/

/-- How many of the lines a run reached: without a fault all, and otherwise those that it executed and the one at
fault. -/
def Report.reached (r : Report) (lines : List Line) : Nat :=
  match r.fault with
  | none => lines.length
  | some _ => r.executed + 1

namespace Script

/-- The records that the first lines of a script enter, each line by itself, given how deep the main stack is after the
lines before it. -/
def entries (s : Settings) (supply : Nat → Nat) (lines : List Line) (n : Nat) : List Journal.Record :=
  (lines.take n).zipIdx.flatMap fun p =>
    p.1.command.entries (runWith s supply (lines.take p.2)).report.stack.length

/-- The records that the lines of a script enter up to the one at fault, if there is one. -/
def ledger (s : Settings) (supply : Nat → Nat) (lines : List Line) : List Journal.Record :=
  entries s supply lines ((runWith s supply lines).report.reached lines)

variable {s : Settings} {supply : Nat → Nat}

/-- What the first lines enter does not depend on those after them. -/
theorem entries_append_of_le {first : List Line} {n : Nat} (hn : n ≤ first.length) (second : List Line) :
    entries s supply (first ++ second) n = entries s supply first n := by
  rw [entries, entries, List.take_append_of_le_length hn]
  apply List.flatMap_congr
  rintro ⟨line, i⟩ hmem
  have hi := (List.mem_zipIdx hmem).2.1
  rw [List.length_take] at hi
  rw [List.take_append_of_le_length (by omega)]

/-- One more line enters the records of its command. -/
theorem entries_concat (lines : List Line) (line : Line) :
    entries s supply (lines ++ [line]) (lines.length + 1) = entries s supply lines lines.length ++
      line.command.entries (runWith s supply lines).report.stack.length := by
  have hfirst : entries s supply (lines ++ [line]) lines.length = entries s supply lines lines.length :=
    entries_append_of_le (Nat.le_refl _) [line]
  rw [← hfirst, entries, entries, List.take_of_length_le (by simp), List.take_left, List.zipIdx_append,
    List.flatMap_append]
  simp

end Script

theorem Ending.length_stack (e : Ending) : e.report.stack.length = e.machine.main.depth := by
  simp [Ending.report, Stack.fromTop, Stack.items, Stack.depth]

section

variable {s : Settings} {supply : Nat → Nat} {lines : List Line}

/-- A run that passes reaches all its lines. -/
theorem reached_of_passed (h : (runWith s supply lines).stop = none) :
    (runWith s supply lines).report.reached lines = lines.length := by
  rw [Report.reached, (Ending.fault_eq_none_iff _).mpr h]

/-- After a run that passes, one more line is reached, whether it passes or fails. -/
theorem reached_concat (h : (runWith s supply lines).stop = none) (line : Line) :
    (runWith s supply (lines ++ [line])).report.reached (lines ++ [line]) = lines.length + 1 := by
  rw [runWith_append, if_pos h]
  rcases hs : (runWith s supply lines).machine.step supply line with ⟨result, after⟩
  cases result with
  | error f =>
    rw [Machine.run_cons_error [] hs]
    rfl
  | ok _ =>
    rw [Machine.run_cons_ok [] hs]
    exact List.length_append

/-- After a run that stopped, no more lines are reached, nor were there fewer than it reached. -/
theorem reached_of_stopped (h : (runWith s supply lines).stop ≠ none) (second : List Line) :
    (runWith s supply lines).report.reached (lines ++ second) = (runWith s supply lines).report.reached lines ∧
      (runWith s supply lines).report.reached lines ≤ lines.length := by
  obtain ⟨⟨line, f⟩, hstop⟩ := Option.ne_none_iff_exists'.mp h
  obtain ⟨before, rest, after, hlines, -, -, hrun⟩ := Machine.run_stopped_iff.mp hstop
  have hended : runWith s supply lines = _ := hrun
  rw [hended, hlines]
  refine ⟨rfl, ?_⟩
  change before.length + 1 ≤ (before ++ line :: rest).length
  rw [List.length_append, List.length_cons]
  omega

/-- After a run the journal of the main stack says what the lines entered that it reached. -/
theorem journal_runWith_eq (s : Settings) (supply : Nat → Nat) (lines : List Line) :
    (runWith s supply lines).machine.main.journal =
      (Journal.empty s.journal).extended (Script.ledger s supply lines) := by
  induction lines using List.reverseRecOn with
  | nil => exact (Journal.extended_nil _).symm
  | append_singleton lines line ih =>
    rw [Script.ledger]
    by_cases hstop : (runWith s supply lines).stop = none
    · rw [reached_concat hstop, Script.entries_concat, ← Journal.extended_extended, ← reached_of_passed hstop]
      rw [Script.ledger] at ih
      rw [← ih, runWith_concat, if_pos hstop, Machine.journal_step, Ending.length_stack]
    · obtain ⟨hreached, hle⟩ := reached_of_stopped hstop [line]
      rw [runWith_append_of_stopped hstop, hreached, Script.entries_append_of_le hle]
      exact ih

end

/-- After every run each stack has its journal on or off, as it was created. A journal that is on holds exactly the
records of the calls on its stack since it was last cleared, in their order and whatever they were answered; one that is
off holds none; and no operation is named as the last exactly where there is no record. After every script the journal
of its report holds, if it is on, exactly the records of the lines up to the one at fault, if there is one. -/
theorem journals_faithful :
    (∀ (counters : List Counter) (actions : List Action) (h : History), (World.start counters).run actions = some h →
      (h.world.seats.map fun seat => seat.stack.journal) =
          (actions.filterMap Action.switch?).mapIdx (fun i on =>
            { records := if on then Action.ledger i actions else [], enabled := on }) ∧
        ∀ seat ∈ h.world.seats, seat.stack.journal.lastOp = .none ↔ seat.stack.journal.records = []) ∧
      ∀ (s : Settings) (supply : Nat → Nat) (lines : List Line),
        (runWith s supply lines).report.journal = if s.journal then Script.ledger s supply lines else [] := by
  refine ⟨?_, ?_⟩
  · intro counters actions h hr
    exact ⟨(World.run_journals hr).1, fun _ hseat => World.run_lastOp hr hseat⟩
  · intro s supply lines
    change (runWith s supply lines).machine.main.journal.records = _
    rw [journal_runWith_eq]
    rfl

/-- Two stacks, the second without a journal: a push and a copy, then, after the first journal is cleared, a removal
that fails, a quiet read, and a pop that asks for an item of another kind. -/
def auditedActions : List Action :=
  [.create 0 true, .call 0 (.push ⟨0, .null⟩), .create 0 false, .copy 0 1 none, .call 1 .pop, .clearJournal 0,
    .call 0 (.remove 1 .any), .call 0 (.peekQuiet 0), .call 0 (.tryPopAs .compound)]

/-- An item in an array, a copy, an array for which there are too few items, and a line that is not reached. -/
def auditedLines : List Line :=
  [⟨1, .push .null⟩, ⟨2, .pushArray 1⟩, ⟨3, .copy none⟩, ⟨4, .reverse 1⟩, ⟨5, .pushStruct 2⟩, ⟨6, .clear⟩]

theorem journals_faithful_audited :
    (∃ h : History, (World.start [.tracking (.new 0)]).run auditedActions = some h ∧
        (h.world.seats.map fun seat => seat.stack.journal) =
          [⟨[{ op := .remove, index := some 1 }, { op := .remove, index := some 0 }], true⟩, ⟨[], false⟩] ∧
        ∀ seat ∈ h.world.seats, seat.stack.journal.lastOp = .none ↔ seat.stack.journal.records = []) ∧
      (runWith {} id auditedLines).report.journal =
        [{ op := .push }, { op := .pop }, { op := .push }, { op := .reverse, index := some 1 }] := by
  obtain ⟨hjournals, hlast⟩ := journals_faithful.1 [.tracking (.new 0)] auditedActions _ rfl
  exact ⟨⟨_, rfl, hjournals, hlast⟩, journals_faithful.2 {} id auditedLines⟩

end OperandStack
