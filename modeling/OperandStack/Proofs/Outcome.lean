import OperandStack.Cli.Outcome
import OperandStack.Proofs.Muting
import OperandStack.Proofs.Refusal

/-!
# What the program leaves

A request to run a script ends in one of two ways. Where a path leads to a script, the script is run and its report goes
to the output, whether or not the run met a fault (`Place.outcome_of_script`). Anywhere else one message goes to the
error stream and nothing to the output (`Place.outcome_of_no_script`). `Place.answers` puts together what this means for
the exit code and the two streams, and what the two flags have a say in: the one in the form of a report, the other in
what a report says of the journal.

A message is one line with one exception. A path that cannot be read is named as it is, with the line feeds in it.
-/

namespace OperandStack

namespace Text

/-- A text that is one line with its end. -/
def IsLine (t : Text) : Prop :=
  ∃ body, t = line body ∧ newline ∉ body

theorem isLine_line {t : Text} : (line t).IsLine ↔ newline ∉ t := by
  constructor
  · rintro ⟨body, hbody, hnewline⟩
    rwa [List.append_cancel_right hbody]
  · intro h
    exact ⟨t, rfl, h⟩

end Text

/-! ## Reading a path -/

namespace Place

/-- The reasons that a step along a path gives are in one line. -/
theorem newline_notMem_of_enter {p : Place} {name : Text} {reason : ReadError} (h : p.enter name = .error reason) :
    Text.newline ∉ reason.message := by
  unfold enter at h
  split at h
  · cases h
    decide
  · split at h
    · cases h
    · split at h
      · cases h
      · split at h
        · cases h
        · cases h
          decide

theorem newline_notMem_of_walk {p : Place} {names : List Text} {reason : ReadError}
    (h : names.foldlM enter p = .error reason) : Text.newline ∉ reason.message := by
  induction names generalizing p with
  | nil => cases h
  | cons name rest ih =>
    rw [List.foldlM_cons] at h
    cases hstep : p.enter name with
    | error e =>
      rw [hstep] at h
      cases h
      exact newline_notMem_of_enter hstep
    | ok next =>
      rw [hstep] at h
      exact ih h

/-- The reasons that a directory tree gives are in one line. -/
theorem newline_notMem_of_read {p : Place} {path : Text} {reason : ReadError} (h : p.read path = .error reason) :
    Text.newline ∉ reason.message := by
  unfold read at h
  cases hfind : p.find path with
  | error e =>
    rw [hfind] at h
    cases h
    by_cases hempty : path.isEmpty
    · simp only [find, hempty, if_true] at hfind
      cases hfind
      decide
    · simp only [find, hempty, Bool.false_eq_true, if_false] at hfind
      exact newline_notMem_of_walk hfind
  | ok place =>
    rw [hfind] at h
    rcases place with ⟨here, above⟩
    cases here with
    | file content => cases h
    | directory entries =>
      cases h
      decide

/-- At a path there is a file with the form of a text in UTF-8. -/
def HoldsText (p : Place) (path source : Text) : Prop :=
  p.read path = .ok (String.ofList source).toUTF8

/-- At a path there is a script, which has these lines. -/
def HoldsScript (p : Place) (path : Text) (lines : List Line) : Prop :=
  ∃ source, p.HoldsText path source ∧ Script.read source = .ok lines

/-- What cannot be read is no script. -/
theorem not_holdsScript_of_error {p : Place} {path : Text} {reason : ReadError} (h : p.read path = .error reason)
    (lines : List Line) : ¬p.HoldsScript path lines := by
  rintro ⟨source, htext, -⟩
  rw [HoldsText, h] at htext
  cases htext

/-- What the program leaves when it is asked in a place to run the script at a path. -/
def outcome (p : Place) (e : Environment) (path : Text) (json noJournal : Bool) : Outcome :=
  (Request.run path json noJournal).outcome e (p.read path)

end Place

/-! ## Ways to end -/

namespace Place

variable {p : Place} {path : Text}

/-- Where there is a text that is no script, its refusal is the message. -/
theorem outcome_of_refusal {source : Text} {refusal : ScriptError} (htext : p.HoldsText path source)
    (hread : Script.read source = .error refusal) (e : Environment) (json noJournal : Bool) :
    p.outcome e path json noJournal = .failure refusal.message := by
  unfold outcome Request.outcome Outcome.ofScript
  rw [htext]
  simp only [Text.ofBytes?_eq_some_iff.mpr rfl, hread]

/-- Where there is a script, its run is reported. -/
theorem outcome_of_script {lines : List Line} (h : p.HoldsScript path lines) (e : Environment) (json noJournal : Bool) :
    p.outcome e path json noJournal = .ofReport json (runLines (Outcome.settings e noJournal) lines).report := by
  obtain ⟨source, htext, hread⟩ := h
  unfold outcome Request.outcome Outcome.ofScript
  rw [htext]
  simp only [Text.ofBytes?_eq_some_iff.mpr rfl, hread]

/-- Where there is no text, the path is named with the reason. -/
theorem outcome_of_no_text (h : ∀ source, ¬p.HoldsText path source) :
    ∃ reason : ReadError, Text.newline ∉ reason.message ∧
      ∀ e json noJournal, p.outcome e path json noJournal = .unreadable path reason := by
  cases hread : p.read path with
  | error reason =>
    refine ⟨reason, newline_notMem_of_read hread, fun e json noJournal => ?_⟩
    unfold outcome
    rw [hread]
    rfl
  | ok bytes =>
    have hbytes : Text.ofBytes? bytes = none := by
      refine Option.eq_none_iff_forall_ne_some.mpr fun source hsource => h source ?_
      rw [HoldsText, hread, Text.ofBytes?_eq_some_iff.mp hsource]
    refine ⟨.notText, by decide, fun e json noJournal => ?_⟩
    unfold outcome Request.outcome Outcome.ofScript
    rw [hread]
    simp only [hbytes]

/-- Where there is no script, nothing is run, whatever else is asked for: there is one message. It is in one line but
for the line feeds of a path that gives no text. -/
theorem outcome_of_no_script (h : ∀ lines, ¬p.HoldsScript path lines) :
    ∃ message, (∀ e json noJournal, p.outcome e path json noJournal = .failure message) ∧
      (Text.newline ∉ message ↔ Text.newline ∉ path ∨ ∃ source, p.HoldsText path source) := by
  by_cases htext : ∃ source, p.HoldsText path source
  · obtain ⟨source, hsource⟩ := htext
    cases hread : Script.read source with
    | ok lines => exact absurd ⟨source, hsource, hread⟩ (h lines)
    | error refusal =>
      refine ⟨refusal.message, fun e json noJournal => ?_, ?_⟩
      · exact outcome_of_refusal hsource hread e json noJournal
      · exact iff_of_true (Script.plain_message hread).newline_notMem (Or.inr ⟨source, hsource⟩)
  · obtain ⟨reason, hreason, houtcome⟩ := outcome_of_no_text (not_exists.mp htext)
    refine ⟨_, houtcome, ?_⟩
    have hfixed : Text.newline ∉ "failed to read ".toList ∧ Text.newline ∉ ": ".toList := by decide
    simp only [List.mem_append, hfixed.1, hfixed.2, hreason, htext, or_false, false_or]

/-- Either the script at a path is run, or there is one message. -/
theorem outcome_cases (p : Place) (path : Text) :
    (∃ lines, p.HoldsScript path lines ∧ ∀ e json noJournal, p.outcome e path json noJournal =
        .ofReport json (runLines (Outcome.settings e noJournal) lines).report) ∨
      ∃ message, ∀ e json noJournal, p.outcome e path json noJournal = .failure message := by
  by_cases hscript : ∃ lines, p.HoldsScript path lines
  · obtain ⟨lines, hlines⟩ := hscript
    exact Or.inl ⟨lines, hlines, outcome_of_script hlines⟩
  · obtain ⟨message, hmessage, -⟩ := outcome_of_no_script (not_exists.mp hscript)
    exact Or.inr ⟨message, hmessage⟩

end Place

namespace Outcome

/-- The exit code after a run says whether a line stopped it. -/
theorem exit_ofReport (json : Bool) (ending : Ending) :
    (ofReport json ending.report).exit = if ending.stop.isSome then 1 else 0 := by
  simp only [ofReport, Ending.report, Option.isSome_map]

end Outcome

/-! ## Reports without journals -/

namespace Report

/-- A report with its journal off. -/
def withoutJournal (r : Report) : Report :=
  { r with journalEnabled := false, journal := [] }

/-- The text of a report says something about the journal in one place, and switched off is all that it says there with
the journal off. -/
theorem text_journal (r : Report) : ∃ before after : Text,
    r.text = before ++ r.journalLines.flatMap Text.line ++ after ∧
      r.withoutJournal.text = before ++ Text.line "journal: disabled".toList ++ after := by
  refine ⟨(r.observations.map Observation.text ++ ["stack (top first): ".toList ++ itemsText r.stack] ++
      (if r.target.isEmpty then [] else ["target (top first): ".toList ++ itemsText r.target]) ++
      [referencesText r.references]).flatMap Text.line,
    (r.fault.toList.map Stop.text).flatMap Text.line, ?_, ?_⟩
  · simp only [text, textLines, List.flatMap_append]
  · simp only [text, textLines, withoutJournal, journalLines, Bool.false_eq_true, if_false, List.flatMap_append,
      List.flatMap_singleton]
    rfl

/-- The document of a report has two fields about the journal, next to each other. -/
theorem document_journal (r : Report) : ∃ before after : List (Text × Json),
    r.document = .object (before ++ [("journal_enabled".toList, .bool r.journalEnabled),
        ("journal".toList, .list (r.journal.map Journal.Record.document))] ++ after) ∧
      r.withoutJournal.document = .object (before ++ [("journal_enabled".toList, .bool false),
        ("journal".toList, .list [])] ++ after) :=
  ⟨[_, _, _, _], [_, _], rfl, rfl⟩

end Report

/-- With journals off a run leaves its report with the journal off. -/
theorem report_withoutJournal (s : Settings) (lines : List Line) :
    (runLines s.withoutJournal lines).report = (runLines s lines).report.withoutJournal := by
  have hlimit : s.withoutJournal.limit = s.limit := rfl
  have hfresh : ∀ s : Settings, Fresh s id lines := fun s => fresh_of_injective s Function.injective_id lines
  have hself : (runLines s lines).report = (runLines s lines).report.rename id := report_of_fresh (hfresh s)
  obtain ⟨hexecuted, hstop, hnamed⟩ := named_runWith hlimit id lines
  have hfault : (runWith s.withoutJournal id lines).report.fault = (runLines s lines).report.fault := by
    simp only [Ending.report, hstop]
  have hreport := hnamed.report (nodup_runLines s lines) (nodup_runWith (hfresh s.withoutJournal))
  rw [← hself, hexecuted, hfault, journal_withoutJournal s id lines] at hreport
  exact hreport

/-! ## End to end -/

namespace Place

/-- What the program leaves in a place when it is asked to run what is at a path. -/
structure Answers (p : Place) (e : Environment) (path : Text) : Prop where
  /-- It succeeds exactly where there is a script and no line of it stops the run. -/
  succeeds : ∀ json noJournal, (p.outcome e path json noJournal).exit = 0 ↔
    ∃ lines, p.HoldsScript path lines ∧ (runLines (Outcome.settings e noJournal) lines).stop = none
  /-- It fails in one way only. -/
  fails : ∀ json noJournal, (p.outcome e path json noJournal).exit ≠ 0 →
    (p.outcome e path json noJournal).exit = 1
  /-- Without a script it says so, in one line but for the line feeds in the name of a path that gives no text. -/
  refused : (∀ lines, ¬p.HoldsScript path lines) → ∀ json noJournal,
    (p.outcome e path json noJournal).stdout = [] ∧
      "Error: ".toList <+: (p.outcome e path json noJournal).stderr ∧
      ((p.outcome e path json noJournal).stderr.IsLine ↔
        Text.newline ∉ path ∨ ∃ source, p.HoldsText path source)
  /-- With a script it shows the whole report, and nothing else, whether or not a line stopped the run. -/
  shown : ∀ lines, p.HoldsScript path lines → ∀ noJournal,
    (∀ json, (p.outcome e path json noJournal).stderr = []) ∧
      (p.outcome e path false noJournal).stdout = (runLines (Outcome.settings e noJournal) lines).report.text ∧
      (p.outcome e path true noJournal).stdout =
        Text.line (runLines (Outcome.settings e noJournal) lines).report.document.pretty
  /-- The form of the report is all that the one flag changes. -/
  form : ∀ noJournal, (p.outcome e path true noJournal).exit = (p.outcome e path false noJournal).exit ∧
    (p.outcome e path true noJournal).stderr = (p.outcome e path false noJournal).stderr
  /-- The other flag changes neither the exit code nor the error stream. -/
  journal : ∀ json, (p.outcome e path json true).exit = (p.outcome e path json false).exit ∧
    (p.outcome e path json true).stderr = (p.outcome e path json false).stderr
  /-- In the text of the report it changes the lines about the journal. -/
  journal_text : ∀ lines, p.HoldsScript path lines → ∃ before after : Text,
    (p.outcome e path false false).stdout =
        before ++ (runLines (.ofEnvironment e) lines).report.journalLines.flatMap Text.line ++ after ∧
      (p.outcome e path false true).stdout = before ++ Text.line "journal: disabled".toList ++ after
  /-- In the document it changes the two fields about the journal. -/
  journal_document : ∀ lines, p.HoldsScript path lines → ∃ before after : List (Text × Json),
    (p.outcome e path true false).stdout = Text.line (Json.pretty (.object (before ++
        [("journal_enabled".toList, .bool (runLines (.ofEnvironment e) lines).report.journalEnabled),
          ("journal".toList, .list ((runLines (.ofEnvironment e) lines).report.journal.map Journal.Record.document))] ++
        after))) ∧
      (p.outcome e path true true).stdout = Text.line (Json.pretty (.object (before ++
        [("journal_enabled".toList, .bool false), ("journal".toList, .list [])] ++ after)))

/-- What the program leaves, for everything that a path may lead to, every environment and both flags. -/
theorem answers (p : Place) (e : Environment) (path : Text) : p.Answers e path where
  succeeds json noJournal := by
    constructor
    · intro hexit
      rcases outcome_cases p path with ⟨lines, hlines, hrun⟩ | ⟨message, hmessage⟩
      · rw [hrun, Outcome.exit_ofReport] at hexit
        refine ⟨lines, hlines, Option.not_isSome_iff_eq_none.mp fun hstop => ?_⟩
        rw [hstop] at hexit
        cases hexit
      · rw [hmessage] at hexit
        cases hexit
    · rintro ⟨lines, hlines, hstop⟩
      rw [outcome_of_script hlines, Outcome.exit_ofReport, hstop]
      rfl
  fails json noJournal hexit := by
    rcases outcome_cases p path with ⟨lines, -, hrun⟩ | ⟨message, hmessage⟩
    · rw [hrun, Outcome.exit_ofReport] at hexit ⊢
      by_cases hstop : (runLines (Outcome.settings e noJournal) lines).stop.isSome
      · rw [if_pos hstop]
      · exact absurd (if_neg hstop) hexit
    · rw [hmessage]
      rfl
  refused hnone json noJournal := by
    obtain ⟨message, hmessage, hline⟩ := outcome_of_no_script hnone
    have hlead : Text.newline ∉ "Error: ".toList := by decide
    rw [hmessage, ← hline]
    refine ⟨rfl, ?_, ?_⟩
    · exact (List.prefix_append _ _).trans (List.prefix_append _ _)
    · rw [Outcome.failure, Text.isLine_line, List.mem_append, not_or]
      exact and_iff_right hlead
  shown lines hlines noJournal := by
    simp only [outcome_of_script hlines]
    exact ⟨fun _ => rfl, rfl, rfl⟩
  form noJournal := by
    rcases outcome_cases p path with ⟨lines, -, hrun⟩ | ⟨message, hmessage⟩
    · rw [hrun, hrun]
      exact ⟨rfl, rfl⟩
    · rw [hmessage, hmessage]
      exact ⟨rfl, rfl⟩
  journal json := by
    rcases outcome_cases p path with ⟨lines, -, hrun⟩ | ⟨message, hmessage⟩
    · have hsettings : Outcome.settings e true = (Outcome.settings e false).withoutJournal := rfl
      rw [hrun, hrun, hsettings, report_withoutJournal]
      exact ⟨rfl, rfl⟩
    · rw [hmessage, hmessage]
      exact ⟨rfl, rfl⟩
  journal_text lines hlines := by
    obtain ⟨before, after, hon, hoff⟩ := (runLines (.ofEnvironment e) lines).report.text_journal
    refine ⟨before, after, ?_, ?_⟩
    · rw [outcome_of_script hlines]
      exact hon
    · rw [outcome_of_script hlines, Outcome.settings, if_pos rfl, report_withoutJournal]
      exact hoff
  journal_document lines hlines := by
    obtain ⟨before, after, hon, hoff⟩ := (runLines (.ofEnvironment e) lines).report.document_journal
    refine ⟨before, after, ?_, ?_⟩
    · rw [outcome_of_script hlines, ← hon]
      rfl
    · rw [outcome_of_script hlines, Outcome.settings, if_pos rfl, report_withoutJournal, ← hoff]
      rfl

/-- A script that pops more than it has pushed. -/
def exhausting : List Line :=
  [⟨1, .push (.integer 7)⟩, ⟨2, .pop .any⟩, ⟨3, .pop .any⟩]

/-- A place with that script under one name. -/
def desk : Place :=
  { here := .directory [("s".toList, .file (String.ofList "push int 7\npop\npop".toList).toUTF8)] }

/-- The script is stopped at its last line, and its report is shown all the same; a name that nothing has is answered in
one line. -/
theorem answers_desk :
    (desk.HoldsScript "s".toList exhausting ∧ (desk.outcome {} "s".toList true true).exit = 1 ∧
        (desk.outcome {} "s".toList true true).stderr = [] ∧
        (desk.outcome {} "s".toList true true).stdout =
          Text.line (runLines { journal := false } exhausting).report.document.pretty) ∧
      (∀ lines, ¬desk.HoldsScript "t".toList lines) ∧ (desk.outcome {} "t".toList true true).stdout = [] ∧
      (desk.outcome {} "t".toList true true).stderr.IsLine := by
  have hscript : desk.HoldsScript "s".toList exhausting := ⟨_, rfl, rfl⟩
  have hexit : (desk.outcome {} "s".toList true true).exit = 1 := by
    rw [outcome_of_script hscript, Outcome.exit_ofReport]
    rfl
  have hmissing : desk.read "t".toList = .error .missing := rfl
  have hnone := not_holdsScript_of_error hmissing
  obtain ⟨hstderr, -, hstdout⟩ := (answers desk {} "s".toList).shown exhausting hscript true
  obtain ⟨hempty, -, hline⟩ := (answers desk {} "t".toList).refused hnone true true
  refine ⟨⟨hscript, hexit, hstderr true, hstdout⟩, hnone, hempty, hline.mpr (Or.inl ?_)⟩
  decide

/-- A file that is missing under a name of two lines is not answered in one line. -/
theorem missing_under_broken_name :
    (∀ lines, ¬HoldsScript { here := .directory [] } "a\nb".toList lines) ∧
      (outcome { here := .directory [] } {} "a\nb".toList false false).stdout = [] ∧
      ¬(outcome { here := .directory [] } {} "a\nb".toList false false).stderr.IsLine := by
  have hmissing : read { here := .directory [] } "a\nb".toList = .error .missing := rfl
  have houtcome : outcome { here := .directory [] } {} "a\nb".toList false false =
      .unreadable "a\nb".toList .missing := rfl
  refine ⟨not_holdsScript_of_error hmissing, rfl, ?_⟩
  rw [houtcome, Outcome.unreadable, Outcome.failure, Text.isLine_line]
  decide

end Place

end OperandStack
