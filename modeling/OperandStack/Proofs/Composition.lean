import OperandStack.Proofs.Echo
import OperandStack.Proofs.Naming

/-!
# Scripts one after the other

A run goes through lines that pass, one after the other (`Machine.Passes`), up to the first that fails. What a line
leaves goes on from what it found: observations, records and copies are added at the end, and no total falls
(`Machine.Extends`). So a script with more lines at its end leaves what the script leaves if that stopped, and otherwise
goes on from there.
-/

namespace OperandStack

/-- A record comes after those that a journal has. -/
theorem Stack.records_prefix_recorded (s : Stack) (c : Call) : s.journal.records <+: (s.recorded c).records := by
  rw [s.recorded_eq]
  exact List.prefix_append _ _

namespace Machine

/-! ## What stays along a run -/

/-- One machine has gone on from the other: what was observed, recorded and copied stands as it stood, and more may have
come after it; no total and no peak of the tally is smaller. -/
structure Extends (m after : Machine) : Prop where
  observations : m.observations <+: after.observations
  journal : m.main.journal.records <+: after.main.journal.records
  target : m.target.slots <+: after.target.slots
  tally : m.tally.Later after.tally

theorem Extends.refl (m : Machine) : m.Extends m :=
  ⟨List.prefix_refl _, List.prefix_refl _, List.prefix_refl _, Tally.Later.refl _⟩

theorem Extends.trans {m between after : Machine} (h : m.Extends between) (h' : between.Extends after) :
    m.Extends after :=
  ⟨h.observations.trans h'.observations, h.journal.trans h'.journal, h.target.trans h'.target, h.tally.trans h'.tally⟩

/-- No call and no copy takes a record back. -/
theorem Moves.journal_prefix {m after : Machine} (h : m.Moves after) :
    m.main.journal.records <+: after.main.journal.records := by
  refine h.keeps (I := fun main _ _ => m.main.journal.records <+: main.journal.records) ?_ ?_ (List.prefix_refl _)
  · intro main target tally c hi
    exact hi.trans (main.records_prefix_recorded c)
  · intro main target tally count hi
    exact hi

/-- Copies are put on top of the target, and nothing else happens to it. -/
theorem Moves.target_prefix {m after : Machine} (h : m.Moves after) : m.target.slots <+: after.target.slots := by
  refine h.keeps (I := fun _ target _ => m.target.slots <+: target.slots) ?_ ?_ (List.prefix_refl _)
  · intro main target tally c hi
    exact hi
  · intro main target tally count hi
    rw [Stack.copyOnto_slots]
    exact hi.trans (List.prefix_append _ _)

theorem step_extends (m : Machine) (supply : Nat → Nat) (line : Line) : m.Extends (m.step supply line).2 := by
  have hmoves := step_moves m supply line
  refine ⟨?_, hmoves.journal_prefix, hmoves.target_prefix, hmoves.later⟩
  rcases step_notes m supply line with hsame | ⟨-, result, hnoted⟩
  · rw [hsame]
  · rw [hnoted]
    exact List.prefix_append _ _

theorem run_extends (m : Machine) (supply : Nat → Nat) (lines : List Line) :
    m.Extends (m.run supply lines).machine :=
  run_keeps (P := m.Extends) (fun line _ between h => h.trans (step_extends between supply line)) (Extends.refl m)

/-! ## Lines that pass -/

/-- Lines that passed one after the other: the command of each did all that it does, once, on what the line before it
left, and the check let it pass. -/
inductive Passes (supply : Nat → Nat) : Machine → List Line → Machine → Prop where
  | nil (m : Machine) : Passes supply m [] m
  | cons {m after last : Machine} {line : Line} {rest : List Line} :
      (m.announced line).execute supply line = (.ok (), after) → after.tally.check = .ok () →
      Passes supply after rest last → Passes supply m (line :: rest) last

/-- A line that passes leaves what its command left, checked. -/
theorem execute_of_step_ok {m after : Machine} {supply : Nat → Nat} {line : Line}
    (h : m.step supply line = (.ok (), after)) :
    (m.announced line).execute supply line = (.ok (), after) ∧ after.tally.check = .ok () := by
  rcases he : (m.announced line).execute supply line with ⟨result, left⟩
  cases result with
  | error f =>
    rw [step_of_error he] at h
    cases h
  | ok _ =>
    rw [step_of_ok he] at h
    split at h
    · cases h
    · rename_i hlimit
      cases h
      exact ⟨rfl, (Tally.check_eq_ok_iff _).mpr (Nat.not_lt.mp hlimit)⟩

/-- All lines of a run that no line stops have passed. -/
theorem passes_of_passed {m : Machine} {supply : Nat → Nat} {lines : List Line} (h : (m.run supply lines).stop = none) :
    Passes supply m lines (m.run supply lines).machine := by
  induction lines generalizing m with
  | nil => exact .nil m
  | cons line rest ih =>
    obtain ⟨after, hs, hrest⟩ := passed_cons_iff.mp h
    obtain ⟨he, hcheck⟩ := execute_of_step_ok hs
    rw [run_cons_ok rest hs]
    exact .cons he hcheck (ih hrest)

/-- A run executes all lines exactly when none stops it. -/
theorem executed_eq_length_iff {m : Machine} {supply : Nat → Nat} {lines : List Line} :
    (m.run supply lines).executed = lines.length ↔ (m.run supply lines).stop = none := by
  constructor
  · intro h
    cases hstop : (m.run supply lines).stop with
    | none => rfl
    | some stop =>
      obtain ⟨before, rest, after, hl, -, -, hrun⟩ := run_stopped_iff.mp hstop
      rw [hrun, hl, List.length_append, List.length_cons] at h
      change before.length = before.length + (rest.length + 1) at h
      omega
  · exact executed_of_passed

end Machine

/-! ## Reports -/

/-- A report has a fault exactly when a line stopped the run. -/
theorem Ending.fault_eq_none_iff (e : Ending) : e.report.fault = none ↔ e.stop = none := by
  simp only [Ending.report, Option.map_eq_none_iff]

/-- A supply that is fresh for a script is fresh for its first lines. -/
theorem Fresh.of_append {s : Settings} {supply : Nat → Nat} {first second : List Line}
    (h : Fresh s supply (first ++ second)) : Fresh s supply first := by
  intro before line rest hl
  refine h before line (rest ++ second) ?_
  rw [hl, List.append_assoc, List.cons_append]

/-- One report goes on from the other, up to the identities that two supplies give to the items: what was observed and
recorded comes first, what was copied lies at the bottom of the target, and no total and no peak is smaller. -/
structure Report.Extends (supply supply' : Nat → Nat) (r r' : Report) : Prop where
  observations : r.observations <+: r'.observations
  journal : r.journal <+: r'.journal
  target : ∃ earlier later : List Item, r.target.reverse = earlier.map (Item.rename supply) ∧
    r'.target.reverse = (earlier ++ later).map (Item.rename supply')
  adds_le : r.references.adds ≤ r'.references.adds
  removes_le : r.references.removes ≤ r'.references.removes
  peak_le : r.references.peak ≤ r'.references.peak

/-- Where one numbered machine has gone on from another, the report of the one goes on from the report of the other. -/
theorem Report.extends_of_named {supply supply' : Nat → Nat} {numbered numbered' : Machine} {e e' : Ending}
    (h : Machine.Named supply numbered e.machine) (h' : Machine.Named supply' numbered' e'.machine)
    (hjournal : e.machine.main.journal = numbered.main.journal)
    (hjournal' : e'.machine.main.journal = numbered'.main.journal) (hextends : numbered.Extends numbered') :
    Report.Extends supply supply' e.report e'.report := by
  have hreverse : ∀ stack : Stack, stack.fromTop.reverse = stack.items := fun stack => List.reverse_reverse _
  obtain ⟨later, hlater⟩ := hextends.target
  constructor
  · change e.machine.observations <+: e'.machine.observations
    rw [h.observations, h'.observations]
    exact hextends.observations
  · change e.machine.main.journal.records <+: e'.machine.main.journal.records
    rw [hjournal, hjournal']
    exact hextends.journal
  · refine ⟨numbered.target.items, later.map Slot.item, ?_, ?_⟩
    · exact (hreverse _).trans h.items_target
    · have hitems : numbered'.target.items = numbered.target.items ++ later.map Slot.item := by
        rw [Stack.items, Stack.items, ← hlater, List.map_append]
      rw [← hitems]
      exact (hreverse _).trans h'.items_target
  · change e.machine.tally.adds ≤ e'.machine.tally.adds
    rw [h.adds, h'.adds]
    exact hextends.tally.adds_le
  · change e.machine.tally.removes ≤ e'.machine.tally.removes
    rw [h.removes, h'.removes]
    exact hextends.tally.removes_le
  · change e.machine.tally.peak ≤ e'.machine.tally.peak
    rw [h.peak, h'.peak]
    exact hextends.tally.peak_le

section

variable {s : Settings} {supply : Nat → Nat} {first : List Line}

theorem runWith_append (s : Settings) (supply : Nat → Nat) (first second : List Line) :
    runWith s supply (first ++ second) =
      if (runWith s supply first).stop = none then
        { (runWith s supply first).machine.run supply second with
          executed := first.length + ((runWith s supply first).machine.run supply second).executed }
      else runWith s supply first :=
  Machine.run_append _ _ _ _

/-- A script that stopped stops at the same line when there are more. -/
theorem runWith_append_of_stopped (h : (runWith s supply first).stop ≠ none) (second : List Line) :
    runWith s supply (first ++ second) = runWith s supply first := by
  rw [runWith_append, if_neg h]

/-- Whether or not a script stopped, more lines go on from what it left. -/
theorem runWith_append_extends (s : Settings) (supply : Nat → Nat) (first second : List Line) :
    (runWith s supply first).machine.Extends (runWith s supply (first ++ second)).machine := by
  rw [runWith_append]
  split
  · exact Machine.run_extends _ supply second
  · exact Machine.Extends.refl _

/-- All lines of a script that passed are executed when there are more. -/
theorem length_le_executed_append (h : (runWith s supply first).stop = none) (second : List Line) :
    first.length ≤ (runWith s supply (first ++ second)).executed := by
  rw [runWith_append, if_pos h]
  exact Nat.le_add_right _ _

end

/-- Scripts compose. If a script stops, more lines at its end change nothing in its report, up to identities. If it does
not, the report of the longer script goes on from its report, and all its lines are executed. Every run without a fault
executes all lines; any other stops at the line after those executed, and its fault names that line and its command. Each
line before it has done all that it does, once. -/
theorem scripts_compose :
    (∀ (s : Settings) (first second : List Line) (supply supply' : Nat → Nat), Fresh s supply first →
        Fresh s supply' (first ++ second) → (runWith s supply first).report.fault ≠ none →
        Report.Same supply supply' (runWith s supply first).report (runWith s supply' (first ++ second)).report) ∧
      (∀ (s : Settings) (first second : List Line) (supply supply' : Nat → Nat),
        (runWith s supply first).report.fault = none →
        Report.Extends supply supply' (runWith s supply first).report (runWith s supply' (first ++ second)).report ∧
          first.length ≤ (runWith s supply' (first ++ second)).report.executed) ∧
      ∀ (s : Settings) (supply : Nat → Nat) (lines : List Line),
        ((runWith s supply lines).report.fault = none ↔ (runWith s supply lines).report.executed = lines.length) ∧
        ((runWith s supply lines).report.fault = none →
          Machine.Passes supply (.start s) lines (runWith s supply lines).machine) ∧
        ∀ stop, (runWith s supply lines).report.fault = some stop → ∃ before line rest last fault,
          lines = before ++ line :: rest ∧ (runWith s supply lines).report.executed = before.length ∧
          stop = { line := line.number, command := line.command.text, error := fault.message } ∧
          Machine.Passes supply (.start s) before last ∧
          last.step supply line = (.error fault, (runWith s supply lines).machine) := by
  refine ⟨?_, ?_, ?_⟩
  · intro s first second supply supply' hfresh hfresh' hfault
    obtain ⟨-, hstop, -⟩ := named_runWith (s := s) rfl supply first
    obtain ⟨-, hstop', -⟩ := named_runWith (s := s) rfl supply' first
    have hstopped : (runWith s supply' first).stop ≠ none := by
      rw [hstop', ← hstop]
      exact fun hnone => hfault ((Ending.fault_eq_none_iff _).mpr hnone)
    rw [runWith_append_of_stopped hstopped]
    exact ⟨(runLines s first).report, report_of_fresh hfresh, report_of_fresh hfresh'.of_append⟩
  · intro s first second supply supply' hfault
    have hpassed := (Ending.fault_eq_none_iff _).mp hfault
    obtain ⟨-, hstop, hnamed⟩ := named_runWith (s := s) rfl supply first
    obtain ⟨-, hstop', -⟩ := named_runWith (s := s) rfl supply' first
    obtain ⟨-, -, hnamed'⟩ := named_runWith (s := s) rfl supply' (first ++ second)
    constructor
    · exact Report.extends_of_named hnamed hnamed' (journal_runWith s supply first)
        (journal_runWith s supply' (first ++ second)) (runWith_append_extends s id first second)
    · exact length_le_executed_append (hstop'.trans (hstop.symm.trans hpassed)) second
  · intro s supply lines
    refine ⟨(Ending.fault_eq_none_iff _).trans Machine.executed_eq_length_iff.symm, ?_, ?_⟩
    · intro hfault
      exact Machine.passes_of_passed ((Ending.fault_eq_none_iff _).mp hfault)
    · intro stop hfault
      obtain ⟨⟨line, fault⟩, hstop, rfl⟩ := Option.map_eq_some_iff.mp hfault
      obtain ⟨before, rest, after, hl, hbefore, hs, hrun⟩ := Machine.run_stopped_iff.mp hstop
      have hlines : runWith s supply lines = _ := hrun
      refine ⟨before, line, rest, _, fault, hl, ?_, rfl, Machine.passes_of_passed hbefore, ?_⟩
      · rw [hlines]
        rfl
      · rw [hlines]
        exact hs

/-- A copy of an item, and a pop that asks for an item of another kind. -/
def mistakenLines : List Line :=
  [⟨1, .push .null⟩, ⟨2, .copy none⟩, ⟨3, .pop .compound⟩]

theorem scripts_compose_mistaken :
    (runWith {} id mistakenLines).report.fault ≠ none ∧
      Report.Same id (· + 7) (runWith {} id mistakenLines).report
        (runWith {} (· + 7) (mistakenLines ++ [⟨4, .clear⟩])).report ∧
      (runWith {} id (mistakenLines.take 2)).report.fault = none ∧
      Report.Extends id (· + 7) (runWith {} id (mistakenLines.take 2)).report
        (runWith {} (· + 7) (mistakenLines.take 2 ++ [⟨4, .copy none⟩])).report ∧
      (runWith {} (· + 7) (mistakenLines.take 2 ++ [⟨4, .copy none⟩])).report.target =
        [⟨7, .null⟩, ⟨7, .null⟩] := by
  have hfault : (runWith {} id mistakenLines).report.fault ≠ none := by
    intro h
    cases h
  have hfresh : Fresh {} id mistakenLines := fresh_of_injective {} Function.injective_id _
  have hfresh' : Fresh {} (· + 7) (mistakenLines ++ [⟨4, .clear⟩]) := fresh_of_injective {} (add_left_injective 7) _
  exact ⟨hfault, scripts_compose.1 {} mistakenLines [⟨4, .clear⟩] _ _ hfresh hfresh' hfault, rfl,
    (scripts_compose.2.1 {} (mistakenLines.take 2) [⟨4, .copy none⟩] id (· + 7) rfl).1, rfl⟩

end OperandStack
