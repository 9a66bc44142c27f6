import OperandStack.Text.Blank
import OperandStack.Text.Decimal

/-!
# Settings

Whether journals are on, and how many references may live. Each is read from its own variable of the environment; a
variable that is not set, or whose bytes are not valid UTF-8, leaves its setting as it is by default, and so does a
limit that is no positive number below 2^64.
-/

namespace OperandStack

/-- The references that may live where nothing else is set. -/
def defaultLimit : Nat :=
  2048

/-- The settings of a run. -/
structure Settings where
  journal : Bool := true
  limit : Nat := defaultLimit
  deriving DecidableEq, Repr

/-- The bytes of the two variables, where they are set. -/
structure Environment where
  journal : Option ByteArray := none
  limit : Option ByteArray := none

namespace Settings

/-- The words that switch journals off, in lower case. -/
def offWords : List Text :=
  ["0".toList, "false".toList, "off".toList]

/-- A value switches journals off when, without the blanks around it and in lower case, it is one of the words. No
character beyond ASCII has a letter of these words for its lower case. -/
def isOff (value : Text) : Bool :=
  offWords.contains (value.trim.map Char.toLower)

/-- The limit that a value sets: a positive number, with an optional plus sign and blanks around it. -/
def limit? (value : Text) : Option Nat :=
  ((Decimal.unsigned? value.trim).map UInt64.toNat).filter (0 < ·)

/-- The settings of an environment. -/
def ofEnvironment (e : Environment) : Settings :=
  { journal := !(e.journal.bind Text.ofBytes?).any isOff
    limit := ((e.limit.bind Text.ofBytes?).bind limit?).getD defaultLimit }

/-- Settings that are read from an environment allow a reference. -/
theorem limit_ofEnvironment_pos (e : Environment) : 0 < (ofEnvironment e).limit := by
  rw [ofEnvironment]
  cases h : (e.limit.bind Text.ofBytes?).bind limit? with
  | none => exact (by decide : 0 < defaultLimit)
  | some n =>
    obtain ⟨value, -, hvalue⟩ := Option.bind_eq_some_iff.mp h
    simpa using (Option.filter_eq_some_iff.mp hvalue).2

/-- The settings with journals off. -/
def withoutJournal (s : Settings) : Settings :=
  { s with journal := false }

end Settings

end OperandStack
