import OperandStack.Proofs.Line
import OperandStack.Proofs.RoundTrip

/-!
# What a report echoes

A report names the lines it speaks of by their numbers and repeats their commands. A line leaves one observation at most,
and none if it writes down a literal (`Machine.step_notes`), so all that a report echoes are written forms of lines that
ran (`Machine.mem_observations_run`, `Machine.mem_of_stop_run`). The echo beside an observation is therefore always read
back; the echo beside a fault may be one that is refused (`Script.written_denotes`).
-/

namespace OperandStack

namespace Machine

/-- What a line may do to the observations: nothing, or add one of itself if it has no literal. -/
def Notes (line : Line) (m after : Machine) : Prop :=
  after.observations = m.observations ∨ line.command.literal? = none ∧ ∃ result, after.observations =
    m.observations ++ [{ line := line.number, command := line.command.text, result }]

theorem observations_call (m : Machine) (c : Call) : (m.call c).2.observations = m.observations := rfl

theorem observations_change (m : Machine) (c : Call) : (m.change c).2.observations = m.observations := by
  rw [change_eq]
  exact observations_call m c

/-- An observed call adds an observation of the line or none. -/
theorem observe_notes (m : Machine) {line : Line} (hl : line.command.literal? = none) (c : Call) :
    Notes line m (m.observe line c).2 := by
  rw [observe_eq]
  cases (m.call c).1.shown? with
  | none => exact Or.inl rfl
  | some result => exact Or.inr ⟨hl, result, rfl⟩

theorem observations_wrap (m : Machine) (supply : Nat → Nat) (size : UInt64) (compound : List Item → Value Item) :
    (m.wrap supply size compound).2.observations = m.observations := by
  by_cases h : m.main.depth < size.toNat
  · rw [wrap_of_lt h]
  · obtain ⟨-, -, hpops⟩ := popped_frame m size.toNat
    rw [wrap_of_le (Nat.not_lt.mp h)]
    exact hpops

/-- A command leaves the observations alone, or it has no literal and is a call that is observed. -/
theorem execute_observations (m : Machine) (supply : Nat → Nat) (line : Line) :
    (m.execute supply line).2.observations = m.observations ∨
      line.command.literal? = none ∧ ∃ c, m.execute supply line = m.observe line c := by
  obtain ⟨number, command⟩ := line
  cases command with
  | push literal => exact Or.inl (observations_change _ _)
  | pushArray size => exact Or.inl (observations_wrap _ _ _ _)
  | pushStruct size => exact Or.inl (observations_wrap _ _ _ _)
  | pop view => exact Or.inr ⟨rfl, .popAs view, rfl⟩
  | tryPop view => exact Or.inr ⟨rfl, .tryPopAs view, rfl⟩
  | peek index => exact Or.inr ⟨rfl, .peek index, rfl⟩
  | peekQuiet index => exact Or.inr ⟨rfl, .peekQuiet index, rfl⟩
  | insert index literal => exact Or.inl (observations_change _ _)
  | remove index view => exact Or.inr ⟨rfl, .remove index view, rfl⟩
  | reverse count => exact Or.inl (observations_change _ _)
  | clear => exact Or.inl (observations_change _ _)
  | copy count => exact Or.inl rfl

/-- A command adds an observation of its line or none. -/
theorem execute_notes (m : Machine) (supply : Nat → Nat) (line : Line) : Notes line m (m.execute supply line).2 := by
  rcases execute_observations m supply line with hsame | ⟨hl, c, hobserve⟩
  · exact Or.inl hsame
  · rw [hobserve]
    exact observe_notes m hl c

/-- A line adds an observation of itself or none. -/
theorem step_notes (m : Machine) (supply : Nat → Nat) (line : Line) : Notes line m (m.step supply line).2 :=
  step_keeps (P := Notes line m) (fun _ hnotes => hnotes) (execute_notes (m.announced line) supply line)

/-- An observation that a line may have added names the line, which then has no literal. -/
theorem Notes.mem {line : Line} {m after : Machine} (h : Notes line m after) {o : Observation}
    (ho : o ∈ after.observations) : o ∈ m.observations ∨
      o.line = line.number ∧ o.command = line.command.text ∧ line.command.literal? = none := by
  rcases h with hsame | ⟨hl, result, hmore⟩
  · rw [hsame] at ho
    exact Or.inl ho
  · rw [hmore] at ho
    rcases List.mem_append.mp ho with ho | ho
    · exact Or.inl ho
    · rw [List.mem_singleton.mp ho]
      exact Or.inr ⟨rfl, rfl, hl⟩

/-- The observations of a run are those before it and some of its lines, which have no literals. -/
theorem mem_observations_run {m : Machine} {supply : Nat → Nat} {lines : List Line} {o : Observation}
    (h : o ∈ (m.run supply lines).machine.observations) : o ∈ m.observations ∨ ∃ line ∈ lines,
      o.line = line.number ∧ o.command = line.command.text ∧ line.command.literal? = none := by
  refine run_keeps (P := fun after => o ∈ after.observations → o ∈ m.observations ∨ ∃ line ∈ lines,
    o.line = line.number ∧ o.command = line.command.text ∧ line.command.literal? = none) ?_ Or.inl h
  intro line hline between hbetween ho
  rcases (step_notes between supply line).mem ho with ho | hnamed
  · exact hbetween ho
  · exact Or.inr ⟨line, hline, hnamed⟩

/-- A run stops at one of its lines. -/
theorem mem_of_stop_run {m : Machine} {supply : Nat → Nat} {lines : List Line} {line : Line} {f : Fault}
    (h : (m.run supply lines).stop = some (line, f)) : line ∈ lines := by
  obtain ⟨before, rest, after, rfl, -⟩ := run_stopped_iff.mp h
  exact List.mem_append_cons_self

end Machine

namespace Script

/-- Lines, those read from any source among them, are read back from their written forms with their commands in order
and the numbers from 1 on, exactly when no command has an empty byte string; otherwise the written forms are refused at
the first that has one. In the report of a run of the lines the echo beside an observation is always read as the command
that was observed, the echo beside a fault as the command that stopped the run exactly when this has no empty byte
string. -/
theorem written_denotes (lines : List Line) :
    (read (written lines) = .ok (renumbered 1 lines) ↔ ∀ line ∈ lines, ¬line.command.HasEmptyBytes) ∧
      (∀ before line after, lines = before ++ line :: after → (∀ other ∈ before, ¬other.command.HasEmptyBytes) →
        line.command.HasEmptyBytes → read (written lines) =
          .error { line := before.length + 1, cause := .notLiteral ["bytes".toList] }) ∧
      ∀ s : Settings,
        (∀ o ∈ (runLines s lines).report.observations, ∃ line ∈ lines, o.line = line.number ∧
          o.command = line.command.text ∧ read o.command = .ok [{ number := 1, command := line.command }]) ∧
        ∀ stop, (runLines s lines).report.fault = some stop → ∃ line ∈ lines, stop.line = line.number ∧
          stop.command = line.command.text ∧
          (read stop.command = .ok [{ number := 1, command := line.command }] ↔ ¬line.command.HasEmptyBytes) := by
  refine ⟨read_written_eq_ok_iff lines, ?_, fun s => ⟨fun o ho => ?_, fun stop hstop => ?_⟩⟩
  · rintro before line after rfl hb hl
    rw [read_written, readFrom_texts_refused 1 hb hl, Nat.add_comm]
  · rcases Machine.mem_observations_run ho with ho | ⟨line, hl, hnumber, htext, hliteral⟩
    · cases ho
    · have hclean : ¬line.command.HasEmptyBytes := by
        intro he
        rw [Command.HasEmptyBytes, hliteral] at he
        cases he
      refine ⟨line, hl, hnumber, htext, ?_⟩
      rw [htext]
      exact (read_text_eq_ok_iff line.command).mpr hclean
  · obtain ⟨⟨line, fault⟩, hs, rfl⟩ := Option.map_eq_some_iff.mp hstop
    exact ⟨line, Machine.mem_of_stop_run hs, rfl, rfl, read_text_eq_ok_iff line.command⟩

/-- A script that pushes no bytes is accepted, and refused once it is written down. -/
theorem written_emptyBytes_refused :
    read "push bytes 0x".toList = .ok [{ number := 1, command := .push (.bytes []) }] ∧
      written [{ number := 1, command := .push (.bytes []) }] = "push bytes ".toList ∧
      read "push bytes ".toList = .error { line := 1, cause := .notLiteral ["bytes".toList] } := by
  decide

end Script

end OperandStack
