import OperandStack.Proofs.Echo
import OperandStack.Proofs.Ledger
import OperandStack.Proofs.Seam
import OperandStack.Proofs.Wording

/-!
# Reports as text are read in one way

A report as text is a row of lines of seven kinds, and no line of one kind begins like those of another
(`Report.Part.ofLine?_lead_append`), so the lines of each kind are told from the whole (`Report.filter_textLines`). If
commands, results and faults are written as the library writes them (`Report.Legible`), no line breaks in two
(`Report.Legible.lines_text`) and each is that of one thing, so two reports have the same text exactly when they look
alike (`Report.text_eq_iff`, `Report.looksLike_iff`). The report of every run is such (`legible_runWith`).
-/

namespace OperandStack

namespace Text

/-! ## Lines -/

/-- The lines of some texts with their ends are the texts, and nothing behind the last end. -/
theorem lines_flatMap_line {ts : List Text} (h : ∀ t ∈ ts, newline ∉ t) : lines (ts.flatMap line) = ts ++ [[]] := by
  induction ts with
  | nil => rfl
  | cons t ts ih =>
    have hrest := ih fun u hu => h u (List.mem_cons_of_mem t hu)
    rw [List.flatMap_cons, line, List.append_assoc, List.singleton_append, lines_append_newline,
      lines_of_notMem (h t List.mem_cons_self), hrest]
    rfl

end Text

namespace Report

/-! ## The lines of a report -/

/-- The kinds of lines of a report, in the order in which they come. -/
inductive Part where
  | observation
  | stack
  | target
  | references
  | journal
  | record
  | fault
  deriving DecidableEq, Repr

namespace Part

/-- Every kind, once. -/
def all : List Part :=
  [observation, stack, target, references, journal, record, fault]

/-- What the lines of a kind begin with. -/
def lead : Part → Text
  | observation => "line ".toList
  | stack => "stack (top first): ".toList
  | target => "target (top first): ".toList
  | references => "references: ".toList
  | journal => "journal".toList
  | record => "  ".toList
  | fault => "fault at line ".toList

/-- The kind of a line, told by what it begins with. -/
def ofLine? (t : Text) : Option Part :=
  all.find? fun p => p.lead.isPrefixOf t

/-- No line of one kind begins like those of another. -/
theorem ofLine?_lead_append (p : Part) (t : Text) : ofLine? (p.lead ++ t) = some p := by
  cases p <;> rfl

end Part

/-- The lines of a kind. -/
def linesOf (r : Report) : Part → List Text
  | .observation => r.observations.map Observation.text
  | .stack => ["stack (top first): ".toList ++ itemsText r.stack]
  | .target => if r.target.isEmpty then [] else ["target (top first): ".toList ++ itemsText r.target]
  | .references => [referencesText r.references]
  | .journal =>
    [if r.journalEnabled then "journal (".toList ++ Decimal.ofNat r.journal.length ++ " records):".toList
      else "journal: disabled".toList]
  | .record => if r.journalEnabled then r.journal.map fun record => "  ".toList ++ record.text else []
  | .fault => r.fault.toList.map Stop.text

/-- How many lines there are of a kind. -/
def lineCount (r : Report) : Part → Nat
  | .observation => r.observations.length
  | .stack | .references | .journal => 1
  | .target => if r.target.isEmpty then 0 else 1
  | .record => if r.journalEnabled then r.journal.length else 0
  | .fault => if r.fault.isSome then 1 else 0

theorem length_linesOf (r : Report) (p : Part) : (r.linesOf p).length = r.lineCount p := by
  cases p with
  | observation => exact List.length_map _
  | stack | references | journal => rfl
  | target =>
    rw [linesOf, lineCount]
    split <;> rfl
  | record =>
    rw [linesOf, lineCount]
    split
    · exact List.length_map _
    · rfl
  | fault =>
    rw [linesOf, lineCount, List.length_map]
    cases r.fault <;> rfl

/-- A report is its lines of each kind in turn. -/
theorem textLines_eq (r : Report) : r.textLines = Part.all.flatMap r.linesOf := by
  have hjournal : r.journalLines = r.linesOf .journal ++ r.linesOf .record := by
    rw [journalLines, linesOf, linesOf]
    split <;> rfl
  rw [textLines, hjournal]
  simp only [Part.all, List.flatMap_cons, List.flatMap_nil, List.append_nil, List.append_assoc]
  rfl

theorem exists_lead_append {r : Report} {p : Part} {t : Text} (h : t ∈ r.linesOf p) : ∃ rest, t = p.lead ++ rest := by
  cases p with
  | observation =>
    obtain ⟨o, -, rfl⟩ := List.mem_map.mp h
    exact ⟨_, o.text_eq⟩
  | stack => exact ⟨_, List.mem_singleton.mp h⟩
  | target =>
    rw [linesOf] at h
    split at h
    · cases h
    · exact ⟨_, List.mem_singleton.mp h⟩
  | references => exact ⟨_, (List.mem_singleton.mp h).trans (referencesText_eq _)⟩
  | journal =>
    rw [linesOf, List.mem_singleton] at h
    split at h
    · refine ⟨' ' :: '(' :: (Decimal.ofNat r.journal.length ++ " records):".toList), ?_⟩
      rw [h, List.append_assoc]
      rfl
    · exact ⟨": disabled".toList, h⟩
  | record =>
    rw [linesOf] at h
    split at h
    · obtain ⟨record, -, rfl⟩ := List.mem_map.mp h
      exact ⟨_, rfl⟩
    · cases h
  | fault =>
    obtain ⟨stop, -, rfl⟩ := List.mem_map.mp h
    exact ⟨_, stop.text_eq⟩

theorem ofLine?_of_mem {r : Report} {p : Part} {t : Text} (h : t ∈ r.linesOf p) : Part.ofLine? t = some p := by
  obtain ⟨rest, rfl⟩ := exists_lead_append h
  exact Part.ofLine?_lead_append p rest

/-- The lines of a kind are those that begin like it. -/
theorem filter_textLines (r : Report) (p : Part) :
    r.textLines.filter (fun t => Part.ofLine? t = some p) = r.linesOf p := by
  have hpart : ∀ q, (r.linesOf q).filter (fun t => Part.ofLine? t = some p) = if q = p then r.linesOf p else [] := by
    intro q
    split
    · rename_i hq
      subst hq
      exact List.filter_eq_self.mpr fun t ht => decide_eq_true (ofLine?_of_mem ht)
    · rename_i hq
      refine List.filter_eq_nil_iff.mpr fun t ht => ?_
      rw [ofLine?_of_mem ht]
      simpa using hq
  rw [textLines_eq, List.filter_flatMap]
  simp only [hpart]
  cases p <;> simp [Part.all]

/-- The kinds of the lines of a report. -/
theorem map_ofLine?_textLines (r : Report) :
    r.textLines.map Part.ofLine? = Part.all.flatMap fun p => List.replicate (r.lineCount p) (some p) := by
  rw [textLines_eq, List.map_flatMap]
  refine List.flatMap_congr fun p _ => ?_
  rw [← length_linesOf]
  exact List.map_eq_replicate_iff.mpr fun t ht => ofLine?_of_mem ht

/-! ## Reports of printable lines -/

/-- A report whose commands, results and faults are written as the library writes them, and whose journal says nothing
when it is off. -/
structure Legible (r : Report) : Prop where
  observations : ∀ o ∈ r.observations, o.command.Over Command.marks ∧ o.result.Over Item.marks
  fault : ∀ stop ∈ r.fault, stop.command.Over Command.marks ∧ stop.error.Over Fault.marks
  journal : r.journalEnabled = false → r.journal = []

theorem printable_itemsText (items : List Item) : (itemsText items).Printable := by
  have hitems : ∀ t ∈ items.map Item.text, t.Printable := by
    intro t ht
    obtain ⟨x, -, rfl⟩ := List.mem_map.mp ht
    exact x.over_text.printable (by decide)
  have hbody : Text.Printable (List.intercalate ", ".toList (items.map Item.text)) :=
    Text.printable_intercalate (by decide) hitems
  exact (Text.Printable.append (by decide) hbody).append (by decide)

namespace Legible

variable {r : Report} (h : r.Legible)
include h

theorem printable {p : Part} {t : Text} (ht : t ∈ r.linesOf p) : t.Printable := by
  cases p with
  | observation =>
    obtain ⟨o, ho, rfl⟩ := List.mem_map.mp ht
    obtain ⟨hcommand, hresult⟩ := h.observations o ho
    have hline : Text.Printable ("line ".toList ++ Decimal.ofNat o.line ++ ": ".toList) :=
      Text.Printable.number (by decide) _ (by decide)
    have harrow : Text.Printable " -> ".toList := by decide
    exact ((hline.append (hcommand.printable (by decide))).append harrow).append (hresult.printable (by decide))
  | stack =>
    rw [List.mem_singleton.mp ht]
    exact Text.Printable.append (by decide) (printable_itemsText _)
  | target =>
    rw [linesOf] at ht
    split at ht
    · cases ht
    · rw [List.mem_singleton.mp ht]
      exact Text.Printable.append (by decide) (printable_itemsText _)
  | references =>
    rw [List.mem_singleton.mp ht]
    have hlive := Text.Printable.number (a := "references: ".toList) (b := " live, peak ".toList) (by decide)
      r.references.references (by decide)
    have hpeak := hlive.number (b := ", ".toList) r.references.peak (by decide)
    have hadds := hpeak.number (b := " adds, ".toList) r.references.adds (by decide)
    exact hadds.number r.references.removes (by decide)
  | journal =>
    rw [linesOf, List.mem_singleton] at ht
    split at ht
    · rw [ht]
      exact Text.Printable.number (by decide) _ (by decide)
    · rw [ht]
      decide
  | record =>
    rw [linesOf] at ht
    split at ht
    · obtain ⟨record, -, rfl⟩ := List.mem_map.mp ht
      exact Text.Printable.append (by decide) (record.over_text.printable (by decide))
    · cases ht
  | fault =>
    obtain ⟨stop, hstop, rfl⟩ := List.mem_map.mp ht
    obtain ⟨hcommand, herror⟩ := h.fault stop (Option.mem_toList.mp hstop)
    have hline : Text.Printable ("fault at line ".toList ++ Decimal.ofNat stop.line ++ " (".toList) :=
      Text.Printable.number (by decide) _ (by decide)
    have hcolon : Text.Printable "): ".toList := by decide
    exact ((hline.append (hcommand.printable (by decide))).append hcolon).append (herror.printable (by decide))

/-- The lines of the text of a report are its lines, and nothing behind the last. -/
theorem lines_text : Text.lines r.text = r.textLines ++ [[]] := by
  refine Text.lines_flatMap_line fun t ht => ?_
  rw [textLines_eq] at ht
  obtain ⟨p, -, hp⟩ := List.mem_flatMap.mp ht
  exact (h.printable hp).newline_notMem

theorem printable_text : ∀ c ∈ r.text, c = Text.newline ∨ ' ' ≤ c ∧ c ≤ '~' := by
  intro c hc
  obtain ⟨t, ht, hct⟩ := List.mem_flatMap.mp hc
  rw [textLines_eq] at ht
  obtain ⟨p, -, hp⟩ := List.mem_flatMap.mp ht
  rcases List.mem_append.mp hct with hct | hct
  · exact .inr (h.printable hp c hct)
  · exact .inl (List.mem_singleton.mp hct)

end Legible

/-- Two such reports have the same text exactly when they have the same lines of every kind. -/
theorem text_eq_iff {r r' : Report} (h : r.Legible) (h' : r'.Legible) :
    r.text = r'.text ↔ ∀ p, r.linesOf p = r'.linesOf p := by
  constructor
  · intro htext p
    have hlines : r.textLines ++ [[]] = r'.textLines ++ [[]] := by rw [← h.lines_text, htext, h'.lines_text]
    rw [← filter_textLines, List.append_cancel_right hlines, filter_textLines]
  · intro hparts
    have hfun : r.linesOf = r'.linesOf := funext hparts
    rw [text, textLines_eq, hfun, ← textLines_eq]
    rfl

/-! ## What a text shows -/

/-- What two reports show alike as text: of an item its line, of the tally all figures but the number of tracked items,
and all else as it is. -/
structure LooksLike (r r' : Report) : Prop where
  observations : r.observations = r'.observations
  stack : r.stack.map Item.text = r'.stack.map Item.text
  target : r.target.map Item.text = r'.target.map Item.text
  references : r.references.references = r'.references.references
  peak : r.references.peak = r'.references.peak
  adds : r.references.adds = r'.references.adds
  removes : r.references.removes = r'.references.removes
  journalEnabled : r.journalEnabled = r'.journalEnabled
  journal : r.journal = r'.journal
  fault : r.fault = r'.fault

/-- Lists of lines are those of the same things where the line of each thing is its own. -/
theorem map_inj_of_mem {α : Type} {write : α → Text} {xs ys : List α}
    (hinj : ∀ x ∈ xs, ∀ y ∈ ys, write x = write y → x = y) (h : xs.map write = ys.map write) : xs = ys := by
  induction xs generalizing ys with
  | nil => exact (List.map_eq_nil_iff.mp h.symm).symm
  | cons x xs ih =>
    cases ys with
    | nil => cases h
    | cons y ys =>
      obtain ⟨hhead, htail⟩ := List.cons.inj h
      have hxs := ih (fun a ha b hb => hinj a (List.mem_cons_of_mem x ha) b (List.mem_cons_of_mem y hb)) htail
      rw [hinj x List.mem_cons_self y List.mem_cons_self hhead, hxs]

theorem linesOf_target_inj {r r' : Report} (h : r.linesOf .target = r'.linesOf .target) :
    r.target.map Item.text = r'.target.map Item.text := by
  simp only [linesOf] at h
  split at h <;> split at h
  · rename_i hr hr'
    rw [List.isEmpty_iff.mp hr, List.isEmpty_iff.mp hr']
  · cases h
  · cases h
  · exact itemsText_inj (List.append_cancel_left (List.cons.inj h).1)

theorem linesOf_journal_inj {r r' : Report} (h : r.linesOf .journal = r'.linesOf .journal) :
    r.journalEnabled = r'.journalEnabled := by
  have hdiffer : ∀ t : Text, "journal (".toList ++ t ≠ "journal: disabled".toList := by
    intro t ht
    have hmark : some ' ' = some ':' := congrArg (fun u : Text => u[7]?) ht
    cases hmark
  simp only [linesOf, List.append_assoc, List.cons.injEq, and_true] at h
  split at h <;> split at h
  · simp_all
  · exact absurd h (hdiffer _)
  · exact absurd h.symm (hdiffer _)
  · simp_all

theorem linesOf_record_inj {r r' : Report} (h : r.Legible) (h' : r'.Legible)
    (henabled : r.journalEnabled = r'.journalEnabled) (hlines : r.linesOf .record = r'.linesOf .record) :
    r.journal = r'.journal := by
  cases hr : r.journalEnabled with
  | false => rw [h.journal hr, h'.journal (henabled ▸ hr)]
  | true =>
    have hr' : r'.journalEnabled = true := henabled ▸ hr
    rw [linesOf, linesOf, if_pos hr, if_pos hr'] at hlines
    exact map_inj_of_mem (fun _ _ _ _ heq => Journal.Record.text_injective (List.append_cancel_left heq)) hlines

theorem linesOf_fault_inj {r r' : Report} (h : r.Legible) (h' : r'.Legible)
    (hlines : r.linesOf .fault = r'.linesOf .fault) : r.fault = r'.fault := by
  have hlist : r.fault.toList = r'.fault.toList :=
    map_inj_of_mem (fun s hs s' hs' =>
      Stop.text_inj (h.fault s (Option.mem_toList.mp hs)).1 (h'.fault s' (Option.mem_toList.mp hs')).1) hlines
  rw [← Option.head?_toList (o := r.fault), hlist, Option.head?_toList]

/-- The lines of every kind show what the reports look like, and nothing else. -/
theorem looksLike_iff {r r' : Report} (h : r.Legible) (h' : r'.Legible) :
    (∀ p, r.linesOf p = r'.linesOf p) ↔ r.LooksLike r' := by
  constructor
  · intro hlines
    obtain ⟨hreferences, hpeak, hadds, hremoves⟩ := referencesText_inj (List.cons.inj (hlines .references)).1
    have henabled := linesOf_journal_inj (hlines .journal)
    exact {
      observations := map_inj_of_mem (fun o ho o' ho' =>
        Observation.text_inj (h.observations o ho).1 (h'.observations o' ho').1) (hlines .observation)
      stack := itemsText_inj (List.append_cancel_left (List.cons.inj (hlines .stack)).1)
      target := linesOf_target_inj (hlines .target)
      references := hreferences
      peak := hpeak
      adds := hadds
      removes := hremoves
      journalEnabled := henabled
      journal := linesOf_record_inj h h' henabled (hlines .record)
      fault := linesOf_fault_inj h h' (hlines .fault) }
  · intro hlike p
    have hempty : r.target.isEmpty = r'.target.isEmpty := by
      rw [← List.isEmpty_map (f := Item.text), hlike.target, List.isEmpty_map]
    cases p with
    | observation => rw [linesOf, linesOf, hlike.observations]
    | stack => rw [linesOf, linesOf, itemsText, itemsText, hlike.stack]
    | target => rw [linesOf, linesOf, itemsText, itemsText, hlike.target, hempty]
    | references =>
      rw [linesOf, linesOf, referencesText_eq, referencesText_eq, hlike.references, hlike.peak, hlike.adds,
        hlike.removes]
    | journal => rw [linesOf, linesOf, hlike.journalEnabled, hlike.journal]
    | record => rw [linesOf, linesOf, hlike.journalEnabled, hlike.journal]
    | fault => rw [linesOf, linesOf, hlike.fault]

end Report

/-! ## Runs -/

/-- What an observation shows is an item or the lack of one. -/
theorem Reply.over_shown {reply : Reply} {result : Text} (h : reply.shown? = some result) : result.Over Item.marks := by
  cases reply with
  | item x =>
    cases h
    exact x.over_text
  | missing =>
    cases h
    decide
  | _ => cases h

namespace Machine

/-- A machine whose observations are written as the library writes them. -/
def Legible (m : Machine) : Prop :=
  ∀ o ∈ m.observations, o.command.Over Command.marks ∧ o.result.Over Item.marks

theorem Legible.of_same {m after : Machine} (h : m.Legible) (hsame : after.observations = m.observations) :
    after.Legible := by
  rw [Legible, hsame]
  exact h

variable {m : Machine} (h : m.Legible)
include h

theorem legible_observe (line : Line) (c : Call) : (m.observe line c).2.Legible := by
  rw [observe_eq]
  cases hshown : (m.call c).1.shown? with
  | none => exact h.of_same rfl
  | some result =>
    intro o ho
    rcases List.mem_append.mp ho with ho | ho
    · exact h o ho
    · rw [List.mem_singleton.mp ho]
      exact ⟨line.command.over_text, Reply.over_shown hshown⟩

theorem legible_execute (supply : Nat → Nat) (line : Line) : (m.execute supply line).2.Legible := by
  rcases execute_observations m supply line with hsame | ⟨-, c, hobserve⟩
  · exact h.of_same hsame
  · rw [hobserve]
    exact legible_observe h line c

theorem legible_step (supply : Nat → Nat) (line : Line) : (m.step supply line).2.Legible := by
  have hannounced : (m.announced line).Legible := h.of_same rfl
  exact step_keeps (fun _ hafter => hafter.of_same rfl) (legible_execute hannounced supply line)

theorem legible_run (supply : Nat → Nat) (lines : List Line) : (m.run supply lines).machine.Legible :=
  run_keeps (fun line _ _ hbetween => legible_step hbetween supply line) h

end Machine

/-- The report of a run is legible. -/
theorem legible_runWith (s : Settings) (supply : Nat → Nat) (lines : List Line) :
    (runWith s supply lines).report.Legible where
  observations := Machine.legible_run (m := Machine.start s) (by rintro _ ⟨⟩) supply lines
  fault stop hstop := by
    obtain ⟨⟨line, f⟩, -, rfl⟩ := Option.map_eq_some_iff.mp hstop
    exact ⟨line.command.over_text, f.over_message⟩
  journal hoff := by
    have hjournal := journal_runWith_eq s supply lines
    have hs : s.journal = false := (enabled_runWith s supply lines).symm.trans hoff
    rw [Journal.extended_of_disabled hs] at hjournal
    exact congrArg Journal.records hjournal

/-- The text of a report tells all that it shows, whatever lines were run under whatever settings. It is made of line
feeds and printable characters of ASCII. Its lines are those of the observations, one of the stack, one of the target if
there is anything on it, one of the references, one of the journal, those of its records if it is on, and one of the
fault if there is one; what a line begins with tells which of these it is. And two runs have the same text exactly when
their reports look alike. -/
theorem reports_legible (s : Settings) (supply : Nat → Nat) (lines : List Line) :
    (∀ c ∈ (runWith s supply lines).report.text, c = Text.newline ∨ ' ' ≤ c ∧ c ≤ '~') ∧
      (Text.lines (runWith s supply lines).report.text).map Report.Part.ofLine? =
        (Report.Part.all.flatMap fun p =>
          List.replicate ((runWith s supply lines).report.lineCount p) (some p)) ++ [none] ∧
      ∀ s' supply' lines', (runWith s supply lines).report.text = (runWith s' supply' lines').report.text ↔
        (runWith s supply lines).report.LooksLike (runWith s' supply' lines').report := by
  have hlegible := legible_runWith s supply lines
  refine ⟨hlegible.printable_text, ?_, ?_⟩
  · rw [hlegible.lines_text, List.map_append, Report.map_ofLine?_textLines]
    rfl
  · intro s' supply' lines'
    have hlegible' := legible_runWith s' supply' lines'
    rw [Report.text_eq_iff hlegible hlegible', Report.looksLike_iff hlegible hlegible']

end OperandStack
