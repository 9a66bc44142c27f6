import OperandStack.Json

/-!
# The journal of a stack

The record of the calls made on one stack, oldest first: which operation was called and with which index, whatever came
of it. A journal that is switched off takes no record. Nothing else depends on a journal.
-/

namespace OperandStack

namespace Journal

/-- The operation of a record. `none` is what an empty journal names as its last operation, and no stack records `none`
or `set`. -/
inductive Op where
  | none
  | clear
  | insert
  | peek
  | pop
  | push
  | remove
  | reverse
  | set
  deriving DecidableEq, Repr

namespace Op

/-- The name of an operation in a document. -/
def name : Op → Text
  | none => "None".toList
  | clear => "Clear".toList
  | insert => "Insert".toList
  | peek => "Peek".toList
  | pop => "Pop".toList
  | push => "Push".toList
  | remove => "Remove".toList
  | reverse => "Reverse".toList
  | set => "Set".toList

/-- The name of an operation in running text, in capitals. -/
def title (op : Op) : Text :=
  op.name.map Char.toUpper

end Op

/-- One call: its operation and its index, if it takes one. -/
structure Record where
  op : Op
  index : Option Int64 := .none
  deriving DecidableEq, Repr

namespace Record

/-- A record in one line. -/
def text (r : Record) : Text :=
  match r.index with
  | .none => r.op.title
  | .some i => r.op.title ++ " ".toList ++ Decimal.ofInt i.toInt

/-- The document of a record. -/
def document (r : Record) : Json :=
  .object [("kind".toList, .text r.op.name), ("index".toList, .optional (r.index.map fun i => .number i.toInt))]

end Record

end Journal

/-- The records of a journal, oldest first, and whether it takes any. -/
structure Journal where
  records : List Journal.Record := []
  enabled : Bool := true
  deriving DecidableEq, Repr

namespace Journal

/-- An empty journal. -/
def empty (enabled : Bool) : Journal :=
  { enabled }

/-- A journal that is switched on takes a record at its end; one that is switched off stays as it is. -/
def record (j : Journal) (r : Record) : Journal :=
  if j.enabled then { j with records := j.records ++ [r] } else j

/-- A journal without its records. -/
def clear (j : Journal) : Journal :=
  { j with records := [] }

/-- The operation of the latest record, `none` for an empty journal. -/
def lastOp (j : Journal) : Op :=
  match j.records.getLast? with
  | .none => .none
  | .some r => r.op

/-- The document of a journal lists its records. -/
def document (j : Journal) : Json :=
  .list (j.records.map Record.document)

end Journal

end OperandStack
