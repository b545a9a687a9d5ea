import Worksheet.Cells
import Worksheet.CommandLine.Arguments
import Worksheet.CommandLine.Program
import Worksheet.Dependency
import Worksheet.Expression.Evaluation
import Worksheet.Expression.Function
import Worksheet.Expression.Grammar
import Worksheet.Expression.Token
import Worksheet.Expression.Value
import Worksheet.Files.Tree
import Worksheet.Formula
import Worksheet.Json
import Worksheet.Main
import Worksheet.Notice
import Worksheet.Number
import Worksheet.OrderedMap
import Worksheet.OrderedMap.Lemmas
import Worksheet.Position
import Worksheet.Proofs.CommandLine.Processes
import Worksheet.Proofs.Dependency.Least
import Worksheet.Proofs.Dependency.Ordering
import Worksheet.Proofs.Dependency.Reading
import Worksheet.Proofs.Dependency.Search
import Worksheet.Proofs.Expression.Numeral
import Worksheet.Proofs.Formula.Boundary
import Worksheet.Proofs.Formula.Denotation
import Worksheet.Proofs.Formula.Exponent
import Worksheet.Proofs.Formula.Lexeme
import Worksheet.Proofs.Formula.Literal
import Worksheet.Proofs.Formula.NormalForm
import Worksheet.Proofs.Formula.Numeral
import Worksheet.Proofs.Formula.Pieces
import Worksheet.Proofs.Formula.Place
import Worksheet.Proofs.Formula.Reference
import Worksheet.Proofs.Formula.Run
import Worksheet.Proofs.Formula.StringLiteral
import Worksheet.Proofs.Formula.Substitution
import Worksheet.Proofs.Formula.Words
import Worksheet.Proofs.Number.Bits
import Worksheet.Proofs.Number.Digits
import Worksheet.Proofs.Number.Rank
import Worksheet.Proofs.Number.ReadBack
import Worksheet.Proofs.Number.Rounding
import Worksheet.Proofs.Number.Shortest
import Worksheet.Proofs.Position
import Worksheet.Proofs.Recalculation.Evaluation
import Worksheet.Proofs.Recalculation.Numeric
import Worksheet.Proofs.Recalculation.Settled
import Worksheet.Proofs.Recalculation.Sweep
import Worksheet.Proofs.Session.Lines
import Worksheet.Proofs.Sheet.Commit
import Worksheet.Proofs.Sheet.Edit
import Worksheet.Proofs.Sheet.Entered
import Worksheet.Proofs.Sheet.Erased
import Worksheet.Proofs.Sheet.History
import Worksheet.Proofs.Sheet.Linear
import Worksheet.Proofs.Sheet.Locality
import Worksheet.Proofs.Sheet.Recommit
import Worksheet.Proofs.Sheet.Reopening
import Worksheet.Proofs.Sheet.Saving
import Worksheet.Proofs.Sheet.Strict
import Worksheet.Proofs.Slot.Directory
import Worksheet.Proofs.Slot.Folder
import Worksheet.Proofs.Slot.Loading
import Worksheet.Proofs.Slot.Medium
import Worksheet.Proofs.Slot.RoundTrip
import Worksheet.Proofs.Slot.Serving
import Worksheet.Proofs.Slot.Traffic
import Worksheet.Proofs.Table.Layout
import Worksheet.Recalculation
import Worksheet.Session
import Worksheet.Settings.Basic
import Worksheet.Settings.Json
import Worksheet.Settings.Toml
import Worksheet.Sheet
import Worksheet.Slot.Format
import Worksheet.Slot.Medium
import Worksheet.Table
import Worksheet.Text
import Worksheet.Text.Quoted
