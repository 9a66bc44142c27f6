import OperandStack.Item.Document
import OperandStack.Run.Machine

/-!
# Reports

What a run leaves to be read: its stacks with the top first, the figures of the tally, the journal of the main stack,
the observations and the fault. A report is written as lines of text or as a document.
-/

namespace OperandStack

/-- The line that stopped a run and the wording of its fault. -/
structure Stop where
  line : Nat
  command : Text
  error : Text
  deriving DecidableEq, Repr

/-- The result of a run. -/
structure Report where
  executed : Nat
  stack : List Item
  target : List Item
  references : Stats
  journalEnabled : Bool
  journal : List Journal.Record
  observations : List Observation
  fault : Option Stop

namespace Ending

/-- The report of a run that has ended. -/
def report (e : Ending) : Report :=
  { executed := e.executed
    stack := e.machine.main.fromTop
    target := e.machine.target.fromTop
    references := e.machine.tally.stats
    journalEnabled := e.machine.main.journal.enabled
    journal := e.machine.main.journal.records
    observations := e.machine.observations
    fault := e.stop.map fun (line, fault) =>
      { line := line.number, command := line.command.text, error := fault.message } }

end Ending

/-- The end of a run of lines under settings, its items numbered in the order of their creation. -/
def runLines (s : Settings) (lines : List Line) : Ending :=
  (Machine.start s).run id lines

/-! ## Text -/

namespace Observation

/-- An observation in one line. -/
def text (o : Observation) : Text :=
  "line ".toList ++ Decimal.ofNat o.line ++ ": ".toList ++ o.command ++ " -> ".toList ++ o.result

/-- The document of an observation. -/
def document (o : Observation) : Json :=
  .object [("line".toList, .nat o.line), ("command".toList, .text o.command), ("result".toList, .text o.result)]

end Observation

namespace Stop

/-- A fault in one line. -/
def text (s : Stop) : Text :=
  "fault at line ".toList ++ Decimal.ofNat s.line ++ " (".toList ++ s.command ++ "): ".toList ++ s.error

/-- The document of a fault. -/
def document (s : Stop) : Json :=
  .object [("line".toList, .nat s.line), ("command".toList, .text s.command), ("error".toList, .text s.error)]

end Stop

namespace Report

/-- Items in one line. -/
def itemsText (items : List Item) : Text :=
  Text.bracketed (items.map Item.text)

/-- The figures of the tally in one line. -/
def referencesText (s : Stats) : Text :=
  "references: ".toList ++ Decimal.ofNat s.references ++ " live, peak ".toList ++ Decimal.ofNat s.peak ++ ", ".toList ++
    Decimal.ofNat s.adds ++ " adds, ".toList ++ Decimal.ofNat s.removes ++ " removes".toList

/-- The lines about the journal: its records behind two spaces each, or that it is off. -/
def journalLines (r : Report) : List Text :=
  if r.journalEnabled then
    ("journal (".toList ++ Decimal.ofNat r.journal.length ++ " records):".toList) ::
      r.journal.map fun record => "  ".toList ++ record.text
  else ["journal: disabled".toList]

/-- The lines of a report. The target has a line only if something was copied onto it. -/
def textLines (r : Report) : List Text :=
  r.observations.map Observation.text ++
    ["stack (top first): ".toList ++ itemsText r.stack] ++
    (if r.target.isEmpty then [] else ["target (top first): ".toList ++ itemsText r.target]) ++
    [referencesText r.references] ++
    r.journalLines ++
    r.fault.toList.map Stop.text

/-- A report as text, each line with its end. -/
def text (r : Report) : Text :=
  r.textLines.flatMap Text.line

/-! ## Document -/

/-- The document of a report. -/
def document (r : Report) : Json :=
  .object
    [("executed".toList, .nat r.executed),
      ("stack".toList, .list (Item.documents r.stack)),
      ("target".toList, .list (Item.documents r.target)),
      ("references".toList, r.references.document),
      ("journal_enabled".toList, .bool r.journalEnabled),
      ("journal".toList, .list (r.journal.map Journal.Record.document)),
      ("observations".toList, .list (r.observations.map Observation.document)),
      ("fault".toList, .optional (r.fault.map Stop.document))]

end Report

end OperandStack
