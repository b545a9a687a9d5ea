import Worksheet.Position
import Worksheet.Text.Quoted

/-! Notices report what a user should know although nothing failed, or which write failed. -/
namespace Worksheet

inductive Notice where
  | dropped (count : Nat) (extent : Extent)
  | malformedKey (key : String)
  | circular (path : List Position)
  | unreadable (slot reason : String)
  | malformed (slot : String)
  | notSaved (slot reason : String)
deriving DecidableEq

namespace Notice

def path (cells : List Position) : String := " -> ".intercalate (cells.map Position.label)

def isError : Notice → Bool
  | notSaved _ _ => true
  | _ => false

def message : Notice → String
  | dropped count extent =>
    "Dropped " ++ toString count ++ " restored cell(s) outside the " ++ toString extent.rows ++
      "x" ++ toString extent.cols ++ " grid"
  | malformedKey key => "Skipping stored cell with malformed key " ++ Text.quoted key
  | circular cells => "Circular reference: " ++ path cells
  | unreadable slot reason =>
    "Could not read slot " ++ Text.quoted slot ++ ", starting empty: " ++ reason
  | malformed slot => "Saved state in slot " ++ Text.quoted slot ++ " is malformed, starting empty"
  | notSaved slot reason => "Could not save slot " ++ Text.quoted slot ++ ": " ++ reason

def record (notice : Notice) : String :=
  (if notice.isError then "ERROR " else "WARN ") ++ notice.message

end Notice

end Worksheet
