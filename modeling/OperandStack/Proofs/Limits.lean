import OperandStack.Proofs.Composition

/-!
# Lower and higher limits

Under two limits a script does the same, line by line, until a line leaves more references than the lower limit allows.
Under the lower limit that line is the last; what it leaves is what it leaves under any limit above
(`named_of_exceeded`). Whether there is such a line shows in the peak of the run under the higher limit, since a peak
that was once reached stays (`peak_of_exceeded`).
-/

namespace OperandStack

/-- The settings with another limit. -/
def Settings.withLimit (s : Settings) (limit : Nat) : Settings :=
  { s with limit }

/-! ## The line that the check stops -/

section

variable {s s' : Settings} {supply : Nat → Nat} {before lines : List Line} {line : Line}

/-- A script that passes also does so without its last lines. -/
theorem passed_of_append {first second : List Line} (h : (runWith s supply (first ++ second)).stop = none) :
    (runWith s supply first).stop = none := by
  by_contra hstopped
  rw [runWith_append_of_stopped hstopped] at h
  exact hstopped h

/-- A script that passes still does with one more line that passes. -/
theorem passed_concat (h : (runWith s supply before).stop = none)
    (hline : ((runWith s supply before).machine.step supply line).1 = .ok ()) :
    (runWith s supply (before ++ [line])).stop = none := by
  rcases hs : (runWith s supply before).machine.step supply line with ⟨result, after⟩
  rw [hs] at hline
  obtain rfl : result = .ok () := hline
  rw [runWith_append, if_pos h, Machine.run_cons_ok [] hs]
  rfl

/-- The check stops a script at a line that leaves one reference more than the limit allows, after lines that passed. -/
theorem stopped_by_check {n limit : Nat} (h : (runLines s lines).stop = some (line, .overLimit n limit)) :
    (n = s.limit + 1 ∧ limit = s.limit) ∧ ∃ before rest, lines = before ++ line :: rest ∧
      (runLines s before).stop = none ∧ (runLines s lines).executed = before.length ∧
      (runLines s before).machine.step id line =
        (.error (.overLimit (s.limit + 1) s.limit), (runLines s lines).machine) ∧
      (runLines s lines).machine.tally.references = s.limit + 1 ∧
      (runLines s lines).machine.tally.peak = s.limit + 1 := by
  obtain ⟨before, rest, after, hl, hbefore, hs, hrun⟩ := Machine.run_stopped_iff.mp h
  have hlines : runLines s lines = _ := hrun
  rcases (under_runWith hbefore).step_cases id line with ⟨_, _, after', -, -, hs', -, hreferences, hpeak⟩ | ⟨-, hne, -⟩
  · cases hs.symm.trans hs'
    rw [hlines]
    exact ⟨⟨rfl, rfl⟩, before, rest, hl, hbefore, rfl, hs, hreferences, hpeak⟩
  · exact absurd (congrArg Prod.fst hs) (hne n limit)

/-- Lines that pass under one limit do the same under another that is not lower. -/
theorem named_of_passed (hlimit : s.limit ≤ s'.limit) (h : (runLines s before).stop = none) (supply : Nat → Nat) :
    (runWith s' supply before).stop = none ∧
      Machine.Named supply (runLines s before).machine (runWith s' supply before).machine :=
  (Machine.named_start supply s s').run_of_passed hlimit h

/-- The line that the check stops leaves what it leaves under any limit that is not lower. -/
theorem named_of_exceeded (hlimit : s.limit ≤ s'.limit) (h : (runLines s before).stop = none) {f : Fault}
    (hs : (runLines s before).machine.step id line = (.error f, (runLines s lines).machine)) (supply : Nat → Nat) :
    Machine.Named supply (runLines s lines).machine (runWith s' supply (before ++ [line])).machine := by
  obtain ⟨hpassed, hnamed⟩ := named_of_passed hlimit h supply
  have hnext := hnamed.step line
  rw [hs] at hnext
  rw [runWith_concat, if_pos hpassed]
  exact hnext

/-- A peak that was once above the limit stays above it. -/
theorem peak_of_exceeded (hlimit : s.limit ≤ s'.limit) (h : (runLines s before).stop = none) {f : Fault}
    (hs : (runLines s before).machine.step id line = (.error f, (runLines s lines).machine))
    (hpeak : (runLines s lines).machine.tally.peak = s.limit + 1) (supply : Nat → Nat) (rest : List Line) :
    s.limit < (runWith s' supply (before ++ line :: rest)).report.references.peak := by
  have hnamed := named_of_exceeded hlimit h hs supply
  have hextends := runWith_append_extends s' supply (before ++ [line]) rest
  rw [List.append_assoc, List.singleton_append] at hextends
  have hle := hextends.tally.peak_le
  rw [hnamed.peak, hpeak] at hle
  exact hle

/-- A script that the check does not stop does the same under a limit that is not lower, and stays within the lower. -/
theorem named_of_not_exceeded (hlimit : s.limit ≤ s'.limit)
    (hne : ∀ line n limit, (runLines s lines).stop ≠ some (line, .overLimit n limit)) (supply : Nat → Nat) :
    (runWith s' supply lines).executed = (runLines s lines).executed ∧
      (runWith s' supply lines).stop = (runLines s lines).stop ∧
      Machine.Named supply (runLines s lines).machine (runWith s' supply lines).machine ∧
      (runWith s' supply lines).report.references.peak ≤ s.limit := by
  obtain ⟨hexecuted, hstop, hnamed⟩ := (Machine.named_start supply s s').run hlimit (Or.inr hne)
  refine ⟨hexecuted, hstop, hnamed, ?_⟩
  exact hnamed.peak.trans_le ((Machine.under_start s).run hne).peak_le

end

/-! ## The first line above a limit -/

/-- Under a limit, a script comes to a line, after others that pass, that is the first to leave more references than a
lower limit allows, and passes. -/
structure FirstAbove (low : Nat) (s : Settings) (supply : Nat → Nat) (before : List Line) (line : Line) : Prop where
  within : ∀ earlier later, before = earlier ++ later → (runWith s supply earlier).report.references.references ≤ low
  above : low < (runWith s supply (before ++ [line])).report.references.references
  passes : (runWith s supply (before ++ [line])).report.fault = none

/-- The line that the check stops is the first above its limit under any higher limit. -/
theorem firstAbove_of_exceeded {s s' : Settings} {before lines : List Line} {line : Line} {n limit : Nat}
    (hlimit : s.limit < s'.limit) (h : (runLines s before).stop = none)
    (hs : (runLines s before).machine.step id line = (.error (.overLimit n limit), (runLines s lines).machine))
    (hreferences : (runLines s lines).machine.tally.references = s.limit + 1) (supply : Nat → Nat) :
    FirstAbove s.limit s' supply before line := by
  constructor
  · rintro earlier later rfl
    have hearlier : (runLines s earlier).stop = none := passed_of_append h
    obtain ⟨-, hnamed⟩ := named_of_passed hlimit.le hearlier supply
    exact hnamed.references.trans_le (under_runWith hearlier).references_le
  · have hnamed := named_of_exceeded hlimit.le h hs supply
    have hlive : (runWith s' supply (before ++ [line])).report.references.references = s.limit + 1 :=
      hnamed.references.trans hreferences
    rw [hlive]
    exact Nat.lt_succ_self _
  · obtain ⟨hpassed, hnamed⟩ := named_of_passed hlimit.le h supply
    refine (Ending.fault_eq_none_iff _).mpr (passed_concat hpassed ?_)
    refine hnamed.step_of_exceeded (congrArg Prod.fst hs) ?_
    have hkept : (runWith s' supply before).machine.tally.limit = s'.limit :=
      (Machine.run_moves _ supply before).later.limit
    rw [hs, hkept, hreferences]
    exact hlimit

/-! ## Reports under two limits -/

section

variable {s s' : Settings} {supply supply' : Nat → Nat} {before lines : List Line} {line : Line}

/-- Whatever the supply, the fault of a script that the check stops names the line and the limit it goes beyond. -/
theorem fault_of_exceeded {n limit : Nat} (h : (runLines s lines).stop = some (line, .overLimit n limit))
    (supply : Nat → Nat) :
    (runWith s supply lines).report.fault = some {
      line := line.number
      command := line.command.text
      error := (Fault.overLimit (s.limit + 1) s.limit).message } := by
  obtain ⟨⟨rfl, rfl⟩, -⟩ := stopped_by_check h
  obtain ⟨-, hstop, -⟩ := named_runWith (s := s) rfl supply lines
  simp only [Ending.report, hstop, h, Option.map_some]

/-- The report of a script that the check stops is, but for the fault, that of the lines up to the last under a limit that
is not lower. -/
theorem same_of_exceeded (hlimit : s.limit ≤ s'.limit) (hjournal : s'.journal = s.journal)
    (h : (runLines s before).stop = none) {f : Fault}
    (hs : (runLines s before).machine.step id line = (.error f, (runLines s lines).machine))
    (hlength : (runLines s lines).executed = before.length) (hfresh : Fresh s supply lines)
    (hfresh' : Fresh s' supply' (before ++ [line])) :
    Report.Same supply supply' (runWith s supply lines).report
      { (runWith s' supply' (before ++ [line])).report with
        executed := before.length
        fault := (runWith s supply lines).report.fault } := by
  have hnamed := named_of_exceeded hlimit h hs supply'
  have hreport := report_of_fresh hfresh
  refine ⟨(runLines s lines).report, hreport, ?_⟩
  rw [report_of_named hjournal hnamed hfresh', hreport, ← hlength]
  rfl

/-- The report of a script that the check does not stop is the same under a limit that is not lower. -/
theorem same_of_not_exceeded (hlimit : s.limit ≤ s'.limit) (hjournal : s'.journal = s.journal)
    (hne : ∀ line n limit, (runLines s lines).stop ≠ some (line, .overLimit n limit)) (hfresh : Fresh s supply lines)
    (hfresh' : Fresh s' supply' lines) :
    Report.Same supply supply' (runWith s supply lines).report (runWith s' supply' lines).report := by
  obtain ⟨hexecuted, hstop, hnamed, -⟩ := named_of_not_exceeded hlimit hne supply'
  have hfault : (runWith s' supply' lines).report.fault = (runLines s lines).report.fault := by
    simp only [Ending.report, hstop]
  refine ⟨(runLines s lines).report, report_of_fresh hfresh, ?_⟩
  rw [report_of_named hjournal hnamed hfresh', hexecuted, hfault]
  rfl

end

/-! ## Two limits -/

/-- A lower limit only ever stops a script earlier. Under the lower of two limits no more lines are executed. As long as
the references never rise above it, the reports are the same, up to identities. Otherwise the lower limit stops the
script at the first line that leaves more references than it allows, under any higher limit, and the report is, up to
identities and but for the fault, that of the lines up to this one under any higher limit. -/
theorem limits_monotone (s : Settings) (low high : Nat) (hle : low ≤ high) (lines : List Line)
    (supply supply' : Nat → Nat) :
    (runWith (s.withLimit low) supply lines).report.executed ≤
        (runWith (s.withLimit high) supply' lines).report.executed ∧
      ((runWith (s.withLimit high) supply' lines).report.references.peak ≤ low →
        Fresh (s.withLimit low) supply lines → Fresh (s.withLimit high) supply' lines →
        Report.Same supply supply' (runWith (s.withLimit low) supply lines).report
          (runWith (s.withLimit high) supply' lines).report) ∧
      (low < (runWith (s.withLimit high) supply' lines).report.references.peak →
        ∃ before line rest, lines = before ++ line :: rest ∧
          (runWith (s.withLimit low) supply lines).report.executed = before.length ∧
          (runWith (s.withLimit low) supply lines).report.fault = some {
            line := line.number
            command := line.command.text
            error := (Fault.overLimit (low + 1) low).message } ∧
          ∀ higher named, low < higher → FirstAbove low (s.withLimit higher) named before line ∧
            (Fresh (s.withLimit low) supply lines → Fresh (s.withLimit higher) named (before ++ [line]) →
              Report.Same supply named (runWith (s.withLimit low) supply lines).report
                { (runWith (s.withLimit higher) named (before ++ [line])).report with
                  executed := before.length
                  fault := (runWith (s.withLimit low) supply lines).report.fault })) := by
  have hjournal : ∀ limit, (s.withLimit limit).journal = (s.withLimit low).journal := fun _ => rfl
  have hlimit : (s.withLimit low).limit ≤ (s.withLimit high).limit := hle
  obtain ⟨hexecuted, -, -⟩ := named_runWith (s := s.withLimit low) rfl supply lines
  by_cases hexceeded : ∃ line n limit, (runLines (s.withLimit low) lines).stop = some (line, .overLimit n limit)
  · obtain ⟨line, n, limit, hover⟩ := hexceeded
    obtain ⟨-, before, rest, hl, hbefore, hlength, hs, hreferences, hpeak⟩ := stopped_by_check hover
    refine ⟨?_, ?_, ?_⟩
    · have hpassed := (named_of_passed hlimit hbefore supply').1
      have hlength' := length_le_executed_append hpassed (line :: rest)
      rw [← hl] at hlength'
      exact (hexecuted.trans hlength).trans_le hlength'
    · intro hwithin
      have habove := peak_of_exceeded hlimit hbefore hs hpeak supply' rest
      rw [← hl] at habove
      exact absurd habove (Nat.not_lt.mpr hwithin)
    · intro _
      refine ⟨before, line, rest, hl, hexecuted.trans hlength, fault_of_exceeded hover supply, ?_⟩
      intro higher named hhigher
      have hlimit' : (s.withLimit low).limit < (s.withLimit higher).limit := hhigher
      refine ⟨firstAbove_of_exceeded hlimit' hbefore hs hreferences named, ?_⟩
      intro hfresh hfresh'
      exact same_of_exceeded hlimit'.le (hjournal higher) hbefore hs hlength hfresh hfresh'
  · have hne : ∀ line n limit, (runLines (s.withLimit low) lines).stop ≠ some (line, .overLimit n limit) :=
      fun line n limit hover => hexceeded ⟨line, n, limit, hover⟩
    obtain ⟨hexecuted', -, -, hpeak⟩ := named_of_not_exceeded hlimit hne supply'
    refine ⟨(hexecuted.trans hexecuted'.symm).le, ?_, ?_⟩
    · intro _ hfresh hfresh'
      exact same_of_not_exceeded hlimit (hjournal high) hne hfresh hfresh'
    · intro habove
      exact absurd habove (Nat.not_lt.mpr hpeak)

/-- Two items that live at the same time, between the second line and the fourth. -/
def squeezedLines : List Line :=
  [⟨1, .push .null⟩, ⟨2, .push (.boolean true)⟩, ⟨3, .copy none⟩, ⟨4, .clear⟩]

theorem limits_monotone_squeezed :
    (1 < (runWith (.withLimit {} 3) id squeezedLines).report.references.peak ∧
        ∃ before line rest, squeezedLines = before ++ line :: rest ∧
          (runWith (.withLimit {} 1) (· + 7) squeezedLines).report.executed = before.length ∧
          FirstAbove 1 (.withLimit {} 5) id before line ∧
          Report.Same (· + 7) id (runWith (.withLimit {} 1) (· + 7) squeezedLines).report
            { (runWith (.withLimit {} 5) id (before ++ [line])).report with
              executed := before.length
              fault := (runWith (.withLimit {} 1) (· + 7) squeezedLines).report.fault }) ∧
      (runWith (.withLimit {} 3) id squeezedLines).report.references.peak ≤ 2 ∧
      Report.Same (· + 7) id (runWith (.withLimit {} 2) (· + 7) squeezedLines).report
        (runWith (.withLimit {} 3) id squeezedLines).report := by
  have hfresh : ∀ (limit : Nat) (lines : List Line), Fresh (.withLimit {} limit) (· + 7) lines :=
    fun limit => fresh_of_injective (.withLimit {} limit) (add_left_injective 7)
  have hfresh' : ∀ (limit : Nat) (lines : List Line), Fresh (.withLimit {} limit) id lines :=
    fun limit => fresh_of_injective (.withLimit {} limit) Function.injective_id
  have hpeak : 1 < (runWith (.withLimit {} 3) id squeezedLines).report.references.peak := by decide
  have hpeak' : (runWith (.withLimit {} 3) id squeezedLines).report.references.peak ≤ 2 := by decide
  obtain ⟨before, line, rest, hl, hexecuted, -, hfirst⟩ :=
    (limits_monotone {} 1 3 (by decide) squeezedLines (· + 7) id).2.2 hpeak
  obtain ⟨habove, hsame⟩ := hfirst 5 id (by decide)
  have hsame' := (limits_monotone {} 2 3 (by decide) squeezedLines (· + 7) id).2.1 hpeak' (hfresh 2 _) (hfresh' 3 _)
  exact ⟨⟨hpeak, before, line, rest, hl, hexecuted, habove, hsame (hfresh 1 _) (hfresh' 5 _)⟩, hpeak', hsame'⟩

end OperandStack
