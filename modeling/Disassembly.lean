import Disassembly.Cause
import Disassembly.Command.Dump
import Disassembly.Command.Flag
import Disassembly.Command.Log
import Disassembly.Command.Options
import Disassembly.Command.Run
import Disassembly.Entry.Basic
import Disassembly.Entry.BitList
import Disassembly.Entry.Source
import Disassembly.Fixed.Assembly
import Disassembly.Fixed.Format
import Disassembly.Fixed.Instruction
import Disassembly.Fixed.MajorOpcode
import Disassembly.Fixed.OpcodeTable
import Disassembly.Fixed.Operation
import Disassembly.Fixed.Standard
import Disassembly.Layout.Basic
import Disassembly.Layout.Fields
import Disassembly.Layout.Pattern
import Disassembly.Layout.Validity
import Disassembly.Listing
import Disassembly.Name
import Disassembly.Operand
import Disassembly.Program
import Disassembly.Table.BaseInteger
import Disassembly.Table.Basic
import Disassembly.Table.Compressed
import Disassembly.Table.Load
import Disassembly.Template.Basic
import Disassembly.Template.Render
import Disassembly.Text.Basic
import Disassembly.Text.Blank
import Disassembly.Text.Column
import Disassembly.Text.Integer
import Disassembly.Text.LetterCase
import Disassembly.Text.LetterCase.Table
import Disassembly.Text.Lines
import Disassembly.Text.Numeral
import Disassembly.Text.Printable
import Disassembly.Text.Quoted
import Disassembly.Text.Symbol
import Disassembly.Text.Symbol.Lemmas
import Disassembly.Width
import Disassembly.Main
import Disassembly.Proofs.Command.AllOrNothing
import Disassembly.Proofs.Command.Resuming
import Disassembly.Proofs.Command.WholeProgram
import Disassembly.Proofs.Entry.Quotes
import Disassembly.Proofs.Entry.RoundTrip
import Disassembly.Proofs.Fixed.Extensions
import Disassembly.Proofs.Fixed.Legibility
import Disassembly.Proofs.Fixed.Selection
import Disassembly.Proofs.Fixed.Slices
import Disassembly.Proofs.Fixed.Translation
import Disassembly.Proofs.Fixed.Wires
import Disassembly.Proofs.Layout.BitRole
import Disassembly.Proofs.Layout.Coverage
import Disassembly.Proofs.Layout.Positions
import Disassembly.Proofs.Layout.Reading
import Disassembly.Proofs.Layout.Recognition
import Disassembly.Proofs.Layout.Scatter
import Disassembly.Proofs.Listing.Decoded
import Disassembly.Proofs.Listing.Line
import Disassembly.Proofs.Listing.Schedule
import Disassembly.Proofs.Listing.Tasks
import Disassembly.Proofs.Operand.Told
import Disassembly.Proofs.Program.Resuming
import Disassembly.Proofs.Program.Splitting
import Disassembly.Proofs.Table.BaseInteger
import Disassembly.Proofs.Table.FirstMatch
import Disassembly.Proofs.Table.Loading
import Disassembly.Proofs.Table.Lossless
import Disassembly.Proofs.Table.Order
import Disassembly.Proofs.Template.Separated
import Disassembly.Proofs.Text.Column
import Disassembly.Proofs.Text.Numeral
import Disassembly.Proofs.Text.OneLine
import Disassembly.Proofs.Text.Pieces
import Disassembly.Proofs.Text.Trim
import Disassembly.Proofs.Text.Trimmed
import Disassembly.Proofs.Layout.Acceptance
import Disassembly.Proofs.Fixed.Encoding
import Disassembly.Proofs.Template.References
import Disassembly.Proofs.Entry.BitGrammar
import Disassembly.Proofs.Entry.Faults
import Disassembly.Proofs.Layout.Widening
import Disassembly.Proofs.Operand.Signed
