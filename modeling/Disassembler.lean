import Disassembler.Action
import Disassembler.Arch.I8086
import Disassembler.Arch.Mos6502
import Disassembler.Arch.Registry
import Disassembler.Arch.Z80
import Disassembler.Capacity
import Disassembler.Command.Arguments
import Disassembler.Command.Run
import Disassembler.Command.Word
import Disassembler.Cursor
import Disassembler.Cursor.Placed
import Disassembler.Decoder.Basic
import Disassembler.Decoder.Deferred
import Disassembler.Decoder.Forward
import Disassembler.Decoder.Instruction
import Disassembler.Decoder.ModRM
import Disassembler.Decoder.Operand
import Disassembler.Decoder.Output
import Disassembler.Decoder.Rule
import Disassembler.Decoder.Walk
import Disassembler.Displacement
import Disassembler.Fault
import Disassembler.FileTree
import Disassembler.Listing.Block
import Disassembler.Listing.Line
import Disassembler.Listing.Row
import Disassembler.Listing.Scan
import Disassembler.Listing.Timeline
import Disassembler.Listing.Writer
import Disassembler.Log
import Disassembler.Main
import Disassembler.Path
import Disassembler.Plan.Basic
import Disassembler.Plan.Directive
import Disassembler.Plan.Loader
import Disassembler.Settings
import Disassembler.Symbol.Reference
import Disassembler.Symbol.Report
import Disassembler.Symbol.Table
import Disassembler.Text.Blank
import Disassembler.Text.Case
import Disassembler.Text.Decimal
import Disassembler.Text.Line
import Disassembler.Text.Numeral
import Disassembler.Text.Printable
import Disassembler.Text.Quoted
import Disassembler.Text.Template
import Disassembler.Token
import Disassembler.Trace.Recording
import Disassembler.Trace.Tracer
import Disassembler.Value
import Disassembler.Proofs.Decoder.Composed
import Disassembler.Proofs.Decoder.References
import Disassembler.Proofs.Decoder.Noninterference
import Disassembler.Proofs.Decoder.Within
import Disassembler.Proofs.Decoder.Cost
import Disassembler.Proofs.Decoder.Budget
import Disassembler.Proofs.Arch.Bounds
import Disassembler.Proofs.Decoder.Sweep
import Disassembler.Proofs.Symbol.Run
import Disassembler.Proofs.Symbol.Index
import Disassembler.Proofs.Symbol.Labels
import Disassembler.Proofs.Decoder.Agreement
import Disassembler.Proofs.Decoder.Locality
import Disassembler.Proofs.Decoder.Sites
import Disassembler.Proofs.Arch.Prefixes
import Disassembler.Proofs.Decoder.Pruning
import Disassembler.Proofs.Listing.Pass
import Disassembler.Proofs.Listing.Printed
import Disassembler.Proofs.Listing.Partition
import Disassembler.Proofs.Plan.Grammar
import Disassembler.Proofs.Plan.Parsing
import Disassembler.Proofs.Plan.Inlining
import Disassembler.Proofs.Trace.Runs
import Disassembler.Proofs.Listing.Clock
import Disassembler.Proofs.Plan.Nesting
import Disassembler.Proofs.Plan.Drafts
import Disassembler.Proofs.Plan.Order
import Disassembler.Proofs.Listing.Advance
import Disassembler.Proofs.Listing.Repetition
import Disassembler.Proofs.Listing.Observation
import Disassembler.Proofs.Plan.Steps
import Disassembler.Proofs.Listing.CrossReferences
import Disassembler.Proofs.Listing.Notes
import Disassembler.Proofs.Decoder.Progress
import Disassembler.Proofs.Command.Failure
import Disassembler.Proofs.Text.Numeral
import Disassembler.Proofs.Text.Pattern
import Disassembler.Proofs.Decoder.Spelling
import Disassembler.Proofs.Decoder.Passage
import Disassembler.Proofs.Decoder.Forms
import Disassembler.Proofs.Decoder.Telling
import Disassembler.Proofs.Arch.Unambiguous
import Disassembler.Proofs.Decoder.Selection
import Disassembler.Proofs.Decoder.Lookahead
import Disassembler.Proofs.Decoder.Consumption
import Disassembler.Proofs.Decoder.Pages
import Disassembler.Proofs.Decoder.Recording
import Disassembler.Proofs.Arch.Truncation
import Disassembler.Proofs.Symbol.Reading
import Disassembler.Proofs.Listing.Recovery
import Disassembler.Proofs.Listing.Quoting
import Disassembler.Proofs.Listing.Strings
import Disassembler.Proofs.Listing.Quotation
import Disassembler.Proofs.Decoder.Relative
import Disassembler.Proofs.Plan.Agenda
import Disassembler.Proofs.Plan.Stopping
import Disassembler.Proofs.Plan.Opacity
import Disassembler.Proofs.Trace.Slices
import Disassembler.Proofs.Listing.Slices
import Disassembler.Proofs.Cursor.Run
import Disassembler.Proofs.Decoder.Writing
import Disassembler.Proofs.Plan.Segments
import Disassembler.Proofs.Search
