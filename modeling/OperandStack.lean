import OperandStack.Text
import OperandStack.Text.Blank
import OperandStack.Text.Split
import OperandStack.Text.Decimal
import OperandStack.Text.Hex
import OperandStack.Text.Quoted
import OperandStack.Json
import OperandStack.Item
import OperandStack.Item.View
import OperandStack.Item.Document
import OperandStack.Journal
import OperandStack.Fault
import OperandStack.Event
import OperandStack.Counter.Counts
import OperandStack.Counter
import OperandStack.Stack
import OperandStack.Stack.Position
import OperandStack.Stack.Call
import OperandStack.Stack.Copy
import OperandStack.Stack.Walk
import OperandStack.World
import OperandStack.Settings
import OperandStack.Script.Keyword
import OperandStack.Script.Command
import OperandStack.Script.Reader
import OperandStack.Script
import OperandStack.Run.Machine
import OperandStack.Run.Report
import OperandStack.Cli.Arguments
import OperandStack.Cli.Tree
import OperandStack.Cli.Outcome
import OperandStack.Main
import OperandStack.Proofs.Run
import OperandStack.Proofs.Effect
import OperandStack.Proofs.Counting
import OperandStack.Proofs.Accounting
import OperandStack.Proofs.Pile
import OperandStack.Proofs.Refinement
import OperandStack.Proofs.LifeCycle
import OperandStack.Proofs.Words
import OperandStack.Proofs.Written
import OperandStack.Proofs.RoundTrip
import OperandStack.Proofs.Echo
import OperandStack.Proofs.Line
import OperandStack.Proofs.Failure
import OperandStack.Proofs.Placement
import OperandStack.Proofs.Ceiling
import OperandStack.Proofs.Alone
import OperandStack.Proofs.Interleaving
import OperandStack.Proofs.ItemMap
import OperandStack.Proofs.Translation
import OperandStack.Proofs.Naming
import OperandStack.Proofs.Renaming
import OperandStack.Proofs.Muting
import OperandStack.Proofs.Composition
import OperandStack.Proofs.Limits
import OperandStack.Proofs.Grammar
import OperandStack.Proofs.Layout
import OperandStack.Proofs.Ledger
import OperandStack.Proofs.Standing
import OperandStack.Proofs.Warning
import OperandStack.Proofs.FixedWidth.Arithmetic
import OperandStack.Proofs.FixedWidth.Slots
import OperandStack.Proofs.FixedWidth.Tally
import OperandStack.Proofs.FixedWidth.World
import OperandStack.Proofs.FixedWidth.Machine
import OperandStack.Proofs.Refusal
import OperandStack.Proofs.Outcome
import OperandStack.Proofs.Gain
import OperandStack.Proofs.Inverse
import OperandStack.Proofs.Reversal
import OperandStack.Proofs.Clearing
import OperandStack.Proofs.Counterparts
import OperandStack.Proofs.Series
import OperandStack.Proofs.Wrapping
import OperandStack.Proofs.Survival
import OperandStack.Proofs.Readability
import OperandStack.Proofs.Likeness
import OperandStack.Proofs.Lossless
import OperandStack.Proofs.Environment
import OperandStack.Proofs.Observing
import OperandStack.Proofs.LogReading
import OperandStack.Proofs.Trace
import OperandStack.Proofs.Wording
import OperandStack.Proofs.Legibility
import OperandStack.Proofs.Visiting
