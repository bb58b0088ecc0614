import Asm16.Assembly.Assemble
import Asm16.Assembly.Layout
import Asm16.Assembly.Operand
import Asm16.Assembly.Statement
import Asm16.CommandLine.FileTree
import Asm16.CommandLine.Options
import Asm16.CommandLine.Report
import Asm16.CommandLine.Workspace
import Asm16.Constant.Builtin
import Asm16.Constant.Datum
import Asm16.Constant.Eval
import Asm16.Constant.Expr
import Asm16.Constant.Repeated
import Asm16.Constant.Token
import Asm16.Dump
import Asm16.Fault
import Asm16.Listing
import Asm16.Machine.Instruction
import Asm16.Machine.Name
import Asm16.Machine.Operand
import Asm16.Machine.Position
import Asm16.Main
import Asm16.Numeral
import Asm16.Program
import Asm16.Session
import Asm16.Text.Basic
import Asm16.Text.CodePoint
import Asm16.Text.Digits
import Asm16.Text.Field
import Asm16.Text.Letter
import Asm16.Text.Lines
import Asm16.Text.Printable
import Asm16.Text.Quoted
import Asm16.Text.Upper
import Asm16.Token
import Asm16.Proofs.CodePoint
import Asm16.Proofs.UpperCase
import Asm16.Proofs.Encoding
import Asm16.Proofs.Name
import Asm16.Proofs.Numeral
import Asm16.Proofs.Walk
import Asm16.Proofs.Grammar
import Asm16.Proofs.Lexing
import Asm16.Proofs.Lines
import Asm16.Proofs.Meaning
import Asm16.Proofs.FirstPass
import Asm16.Proofs.SecondPass
import Asm16.Proofs.Rendering
import Asm16.Proofs.Reassembly
import Asm16.Proofs.Visit
import Asm16.Proofs.Canonical
import Asm16.Proofs.Position
import Asm16.Proofs.PureCode
import Asm16.Proofs.Addressing
import Asm16.Proofs.Continuation
import Asm16.Proofs.FirstFault
import Asm16.Proofs.SyntaxTree
import Asm16.Proofs.Editing
import Asm16.Proofs.OnePass
import Asm16.Proofs.Restatement
import Asm16.Proofs.Rewriting
import Asm16.Proofs.Relabelling
import Asm16.Proofs.Insertion
import Asm16.Proofs.Resolution
import Asm16.Proofs.MemoryLimit
import Asm16.Proofs.LineEnding
import Asm16.Proofs.Streaming
import Asm16.Proofs.HexDump
import Asm16.Proofs.Pipeline
import Asm16.Proofs.History
import Asm16.Proofs.Identifier
import Asm16.Proofs.Definition
import Asm16.Proofs.Tiling
import Asm16.Proofs.Span
import Asm16.Proofs.Relisting
import Asm16.Proofs.LetterCase
import Asm16.Proofs.Positional
import Asm16.Proofs.DumpFormat
import Asm16.Proofs.Alphabet
import Asm16.Proofs.DumpFault
import Asm16.Machine.Record
import Asm16.Proofs.Logging
import Asm16.Proofs.Record
import Asm16.Proofs.Sequence
import Asm16.Proofs.FieldRange
