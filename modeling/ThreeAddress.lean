import ThreeAddress.Attribute
import ThreeAddress.Builder.Backpatch
import ThreeAddress.Builder.Basic
import ThreeAddress.Builder.Listing
import ThreeAddress.Builder.Unroll
import ThreeAddress.CommandLine.Directory
import ThreeAddress.CommandLine.Options
import ThreeAddress.CommandLine.Program
import ThreeAddress.Decimal.Shortest
import ThreeAddress.Error
import ThreeAddress.Event
import ThreeAddress.Main
import ThreeAddress.Outcome
import ThreeAddress.PendingList
import ThreeAddress.Proofs.Acceptance
import ThreeAddress.Proofs.Accounting
import ThreeAddress.Proofs.Actions
import ThreeAddress.Proofs.Arguments
import ThreeAddress.Proofs.Backpatching
import ThreeAddress.Proofs.BoundedSink
import ThreeAddress.Proofs.Capacity
import ThreeAddress.Proofs.Code
import ThreeAddress.Proofs.Commutation
import ThreeAddress.Proofs.Composition
import ThreeAddress.Proofs.ControlFlow
import ThreeAddress.Proofs.Decoding
import ThreeAddress.Proofs.Delivery
import ThreeAddress.Proofs.DocumentOrder
import ThreeAddress.Proofs.Execution
import ThreeAddress.Proofs.Failure
import ThreeAddress.Proofs.Files
import ThreeAddress.Proofs.History
import ThreeAddress.Proofs.Isolation
import ThreeAddress.Proofs.Iterations
import ThreeAddress.Proofs.JumpTargets
import ThreeAddress.Proofs.Linearity
import ThreeAddress.Proofs.ListOrder
import ThreeAddress.Proofs.Listings
import ThreeAddress.Proofs.Merging
import ThreeAddress.Proofs.NamedLists
import ThreeAddress.Proofs.Naming
import ThreeAddress.Proofs.Numerals
import ThreeAddress.Proofs.OptionOrder
import ThreeAddress.Proofs.PatchJournal
import ThreeAddress.Proofs.Readers
import ThreeAddress.Proofs.Reading
import ThreeAddress.Proofs.Recording
import ThreeAddress.Proofs.Resolution
import ThreeAddress.Proofs.Restating
import ThreeAddress.Proofs.RootTable
import ThreeAddress.Proofs.Scheduling
import ThreeAddress.Proofs.Sequencing
import ThreeAddress.Proofs.SettingTexts
import ThreeAddress.Proofs.Spacing
import ThreeAddress.Proofs.Unrolling
import ThreeAddress.Quad.Basic
import ThreeAddress.Quad.Layout
import ThreeAddress.Script.Command
import ThreeAddress.Script.Fault
import ThreeAddress.Script.NamedLists
import ThreeAddress.Script.Replay
import ThreeAddress.Settings.Basic
import ThreeAddress.Settings.Calendar
import ThreeAddress.Settings.Document
import ThreeAddress.Settings.Fault
import ThreeAddress.Settings.Grammar
import ThreeAddress.Settings.Library
import ThreeAddress.Settings.Number
import ThreeAddress.Settings.Quotation
import ThreeAddress.Settings.Reader
import ThreeAddress.Text.Blank
import ThreeAddress.Text.Lines
import ThreeAddress.Text.Numeral
import ThreeAddress.Text.Quoted
import ThreeAddress.Text.Visible
import ThreeAddress.ValueType
