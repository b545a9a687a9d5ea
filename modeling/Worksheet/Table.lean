import Worksheet.Cells

/-! The displays of a grid as a table: column letters on top, row numbers at the side, and columns
as wide as their longest display. Widths count characters, and no line ends in blanks. A column may
have any width: there is no bound on it, such as the 65535 that a formatter may put on a width. -/
namespace Worksheet.Table

variable (extent : Extent) (cells : Cells)

def numberWidth : Nat := (Numeral.ofNat extent.rows.toNat).length

def display (row col : UInt64) : List Char := (cells.display ⟨row, col⟩).toList

def width (col : UInt64) : Nat :=
  (extent.rowRange.map fun row => (display cells row col).length).foldl max 1

def padStart (width : Nat) (cs : List Char) : List Char :=
  List.replicate (width - cs.length) ' ' ++ cs

def padEnd (width : Nat) (cs : List Char) : List Char :=
  cs ++ List.replicate (width - cs.length) ' '

/-- A line of the table: its margin, then each column's text behind a space. -/
def line (margin : List Char) (columns : List (Nat × List Char)) : List Char :=
  Text.trimEnd (margin ++ columns.flatMap fun c => ' ' :: padEnd c.1 c.2) ++ ['\n']

def widths : List (UInt64 × Nat) := extent.colRange.map fun col => (col, width extent cells col)

def header : List Char :=
  line (List.replicate (numberWidth extent) ' ')
    ((widths extent cells).map fun c => (c.2, [Position.letter c.1]))

def row (widths : List (UInt64 × Nat)) (row : UInt64) : List Char :=
  line (padStart (numberWidth extent) (Numeral.ofNat (row.toNat + 1)))
    (widths.map fun c => (c.2, display cells row c.1))

def render : String :=
  let widths := widths extent cells
  .ofList (header extent cells ++ extent.rowRange.flatMap (row extent cells widths))

end Worksheet.Table
