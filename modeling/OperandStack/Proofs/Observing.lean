import OperandStack.Proofs.Ceiling
import OperandStack.Proofs.Echo
import OperandStack.Proofs.Seam

/-!
# Which lines are observed

A line that passes leaves an observation exactly when its command reads the stack (`Machine.headings_execute`), since a
reading call either fails or has something to show. A line that fails leaves none, not even if it fails by the check of
the ceiling, which comes after the command: a line that exceeds the ceiling adds an item and so reads nothing
(`Machine.Under.observations_of_error`). The observations of a run are therefore those of its reading lines that passed,
in their order (`observations_complete`).
-/

namespace OperandStack

/-- Whether a command reads the stack. -/
def Command.reads (c : Command) : Bool :=
  match c.operation with
  | .pop | .trypop | .peek | .peekq | .remove => true
  | .push | .insert | .reverse | .clear | .copy => false

/-- What an observation repeats of a line. -/
def Line.heading (line : Line) : Nat × Text :=
  (line.number, line.command.text)

/-- The line that an observation names. -/
def Observation.heading (o : Observation) : Nat × Text :=
  (o.line, o.command)

/-! ## Calls that read -/

/-- A reply that has something to show unless it is a fault. -/
def Reply.Telling (reply : Reply) : Prop :=
  reply.outcome = .ok () → ∃ result, reply.shown? = some result

namespace Call

theorem telling_item (x : Item) : (Reply.item x).Telling := fun _ => ⟨x.text, rfl⟩

theorem telling_fault (f : Fault) : (Reply.fault f).Telling := nofun

theorem telling_removal (op : Journal.Op) (view : View) (index : Int64) (slots : List Slot) :
    (removal op view index slots).reply.Telling := by
  unfold removal
  split
  · exact telling_item _
  · exact telling_fault _

theorem telling_tryRemoval (view : View) (index : Int64) (slots : List Slot) :
    (tryRemoval view index slots).reply.Telling := by
  unfold tryRemoval
  split
  · exact telling_item _
  · exact fun _ => ⟨_, rfl⟩

theorem telling_reading (index : Int64) (slots : List Slot) : (reading index slots).reply.Telling := by
  unfold reading
  split
  · exact telling_item _
  · exact telling_fault _

theorem telling_peekQuiet (index : Int64) (slots : List Slot) : (effect slots (.peekQuiet index)).reply.Telling := by
  simp only [effect]
  split
  · exact telling_item _
  · exact telling_fault _

end Call

/-! ## Lines -/

namespace Machine

/-- An observed call that passes is noted once. -/
theorem headings_observe {m after : Machine} {line : Line} {c : Call}
    (hc : (c.effect m.main.slots).reply.Telling) (h : m.observe line c = (.ok (), after)) :
    after.observations.map Observation.heading = m.observations.map Observation.heading ++ [line.heading] := by
  rw [observe_eq] at h
  obtain ⟨hok, rfl⟩ := Prod.mk.inj h
  obtain ⟨result, hresult⟩ := hc hok
  have hshown : (m.call c).1.shown? = some result := hresult
  simp only [hshown, note, observations_call, List.map_append]
  rfl

/-- A command that passes is noted once if it reads the stack, and not at all otherwise. -/
theorem headings_execute {m after : Machine} {supply : Nat → Nat} {line : Line}
    (h : m.execute supply line = (.ok (), after)) : after.observations.map Observation.heading =
      m.observations.map Observation.heading ++ if line.command.reads then [line.heading] else [] := by
  have hquiet : (m.execute supply line).2.observations = m.observations →
      after.observations.map Observation.heading = m.observations.map Observation.heading ++ [] := by
    intro hsame
    rw [h] at hsame
    rw [List.append_nil]
    exact congrArg _ hsame
  obtain ⟨number, command⟩ := line
  cases command with
  | push literal => exact hquiet (observations_change _ _)
  | pushArray size => exact hquiet (observations_wrap _ _ _ _)
  | pushStruct size => exact hquiet (observations_wrap _ _ _ _)
  | pop view => exact headings_observe (c := .popAs view) (Call.telling_removal _ _ _ _) h
  | tryPop view => exact headings_observe (c := .tryPopAs view) (Call.telling_tryRemoval _ _ _) h
  | peek index => exact headings_observe (c := .peek index) (Call.telling_reading _ _) h
  | peekQuiet index => exact headings_observe (Call.telling_peekQuiet _ _) h
  | insert index literal => exact hquiet (observations_change _ _)
  | remove index view => exact headings_observe (c := .remove index view) (Call.telling_removal _ _ _ _) h
  | reverse count => exact hquiet (observations_change _ _)
  | clear => exact hquiet (observations_change _ _)
  | copy count => exact hquiet rfl

/-- A line that passes is noted once if its command reads the stack, and not at all otherwise. -/
theorem headings_step {m after : Machine} {supply : Nat → Nat} {line : Line}
    (h : m.step supply line = (.ok (), after)) : after.observations.map Observation.heading =
      m.observations.map Observation.heading ++ if line.command.reads then [line.heading] else [] := by
  rcases he : (m.announced line).execute supply line with ⟨result, last⟩
  cases result with
  | error f =>
    rw [step_of_error he] at h
    cases h
  | ok _ =>
    rw [step_of_ok he] at h
    split at h
    · cases h
    · obtain ⟨-, rfl⟩ := Prod.mk.inj h
      exact headings_execute (m := m.announced line) he

/-- A line that fails from within the ceiling leaves no observation. -/
theorem Under.observations_of_error {m after : Machine} {limit : Nat} (hm : m.Under limit) {supply : Nat → Nat}
    {line : Line} {f : Fault} (h : m.step supply line = (.error f, after)) : after.observations = m.observations := by
  rcases hm.step_cases supply line with ⟨place, value, last, -, -, hs, hgrown, -⟩ | ⟨-, hne, -⟩
  · obtain ⟨-, rfl⟩ := Prod.mk.inj (h.symm.trans hs)
    exact hgrown.observations
  · rw [h] at hne
    exact (step_of_fault h fun n limit' hf => hne n limit' (congrArg Except.error hf)).observations

/-- The observations of a run are those before it and one for each line that passed and reads the stack, in order. -/
theorem Under.headings_run {m : Machine} {limit : Nat} (hm : m.Under limit) (supply : Nat → Nat) (lines : List Line) :
    (m.run supply lines).machine.observations.map Observation.heading = m.observations.map Observation.heading ++
      ((lines.take (m.run supply lines).executed).filter (·.command.reads)).map Line.heading := by
  induction lines generalizing m with
  | nil => exact (List.append_nil _).symm
  | cons line rest ih =>
    rcases hs : m.step supply line with ⟨result, after⟩
    cases result with
    | error f =>
      rw [run_cons_error rest hs, hm.observations_of_error hs]
      exact (List.append_nil _).symm
    | ok _ =>
      have hafter : after.Under limit := by
        rcases hm.step_cases supply line with ⟨place, value, last, -, -, hfull, -⟩ | ⟨-, -, hunder⟩
        · rw [hs] at hfull
          cases hfull
        · rwa [hs] at hunder
      rw [run_cons_ok rest hs, ih hafter, headings_step hs, List.take_succ_cons, List.filter_cons]
      cases line.command.reads <;> simp

end Machine

/-! ## Runs -/

/-- What a script lets a run observe is in order and complete: there is one observation for each line that passed and
reads the stack, with the number and the command of that line, and the numbers increase. The line that stops the run,
whatever stops it, comes after all of them. -/
theorem observations_complete {source : Text} {lines : List Line} (h : Script.read source = .ok lines) (s : Settings)
    (supply : Nat → Nat) :
    (runWith s supply lines).report.observations.map Observation.heading =
        ((lines.take (runWith s supply lines).report.executed).filter (·.command.reads)).map Line.heading ∧
      ((runWith s supply lines).report.observations.map Observation.line).Pairwise (· < ·) ∧
      ∀ stop, (runWith s supply lines).report.fault = some stop →
        ∀ o ∈ (runWith s supply lines).report.observations, o.line < stop.line := by
  have hnumbers : (lines.map Line.number).Pairwise (· < ·) := (Script.readFrom_numbers h).2
  have hheadings : (runWith s supply lines).report.observations.map Observation.heading =
      ((lines.take (runWith s supply lines).report.executed).filter (·.command.reads)).map Line.heading :=
    (Machine.under_start s).headings_run supply lines
  have hobserved : (runWith s supply lines).report.observations.map Observation.line =
      ((lines.take (runWith s supply lines).report.executed).filter (·.command.reads)).map Line.number := by
    have hfirst := congrArg (List.map Prod.fst) hheadings
    rwa [List.map_map, List.map_map] at hfirst
  have hsublist : (((lines.take (runWith s supply lines).report.executed).filter (·.command.reads)).map
      Line.number).Sublist ((lines.take (runWith s supply lines).report.executed).map Line.number) :=
    List.filter_sublist.map _
  refine ⟨hheadings, ?_, ?_⟩
  · rw [hobserved]
    exact hnumbers.sublist (hsublist.trans ((List.take_sublist _ _).map _))
  · intro stop hstop o ho
    obtain ⟨⟨line, f⟩, hline, rfl⟩ := Option.map_eq_some_iff.mp hstop
    obtain ⟨before, rest, after, rfl, -, -, hrun⟩ := Machine.run_stopped_iff.mp hline
    have hexecuted : (runWith s supply (before ++ line :: rest)).report.executed = before.length :=
      congrArg Ending.executed hrun
    rw [hexecuted, List.take_left] at hsublist
    -- the lines that passed stand before the one that stopped the run
    have hmem : o.line ∈ before.map Line.number := by
      refine hsublist.subset ?_
      rw [hexecuted, List.take_left] at hobserved
      exact hobserved ▸ List.mem_map_of_mem ho
    rw [List.map_append, List.map_cons] at hnumbers
    exact (List.pairwise_append.mp hnumbers).2.2 _ hmem _ List.mem_cons_self

/-- Lines that push an item, look at it, take it, and then pop from an empty stack. -/
def emptiedLines : List Line :=
  [⟨1, .push (.integer 7)⟩, ⟨2, .peek 0⟩, ⟨4, .tryPop .any⟩, ⟨5, .pop .any⟩, ⟨6, .peekQuiet 0⟩]

/-- Two of them are observed before the pop fails. -/
theorem observations_complete_emptied :
    Script.read "push int 7\npeek 0\n# nothing\ntrypop any\npop any\npeekq 0".toList = .ok emptiedLines ∧
      (runWith {} id emptiedLines).report.observations.map Observation.heading =
        [(2, "peek 0".toList), (4, "trypop any".toList)] ∧
      ∃ stop, (runWith {} id emptiedLines).report.fault = some stop ∧ stop.line = 5 ∧
        ∀ o ∈ (runWith {} id emptiedLines).report.observations, o.line < stop.line := by
  have hread :
      Script.read "push int 7\npeek 0\n# nothing\ntrypop any\npop any\npeekq 0".toList = .ok emptiedLines := rfl
  obtain ⟨hcomplete, -, hbefore⟩ := observations_complete hread {} id
  exact ⟨hread, hcomplete.trans rfl, _, rfl, rfl, hbefore _ rfl⟩

end OperandStack
