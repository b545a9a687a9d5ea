import Worksheet.Position
import Worksheet.Text.Quoted

/-! Settings of a sheet, each with a default: a ten by ten grid saved in the slot `spreadsheet`. -/
namespace Worksheet

/-- One row-major sweep, or every formula after its precedents. -/
inductive Recalculation where
  | linear
  | dependency
deriving DecidableEq

/-- What a reference that names no cell of the grid reads as. -/
inductive Unresolved where
  | zero
  | error
deriving DecidableEq

def Recalculation.name : Recalculation → String
  | linear => "linear"
  | dependency => "dependency"

def Recalculation.ofName? : String → Option Recalculation
  | "linear" => some linear
  | "dependency" => some dependency
  | _ => none

def Unresolved.name : Unresolved → String
  | zero => "zero"
  | error => "error"

def Unresolved.ofName? : String → Option Unresolved
  | "zero" => some zero
  | "error" => some error
  | _ => none

structure Settings where
  rows : UInt64
  cols : UInt64
  slot : String
  recalculation : Recalculation
  unresolved : Unresolved
deriving DecidableEq

namespace Settings

def default : Settings := ⟨10, 10, "spreadsheet", .linear, .zero⟩

inductive Invalid where
  | dimensions (rows cols : UInt64)
  | slot (name : String)
deriving DecidableEq

def Invalid.message : Invalid → String
  | dimensions rows cols =>
    "Invalid grid dimensions " ++ toString rows ++ "x" ++ toString cols ++
      " (need rows >= 1 and 1 <= cols <= 26)"
  | slot name => "Invalid storage slot name: " ++ Text.quoted name

def isSlotName (name : String) : Bool :=
  !name.isEmpty && name.toList.all fun c => c.isAlphanum || c = '-' || c = '_'

/-- The extent of the grid. The dimensions are checked before the slot. -/
def validate (s : Settings) : Except Invalid Extent :=
  match Extent.make? s.rows s.cols with
  | none => .error (.dimensions s.rows s.cols)
  | some extent => if isSlotName s.slot then .ok extent else .error (.slot s.slot)

/-- What a settings file gives for a field: a number, a text, or the name of a choice that stands as
the only member of an object. -/
inductive Entry where
  | number (value : UInt64)
  | text (value : String)
  | choice (name : String)

def choice? : Entry → Option String
  | .number _ => none
  | .text name | .choice name => some name

def set? (s : Settings) (field : String) (entry : Entry) : Option Settings :=
  match field, entry with
  | "rows", .number rows => some { s with rows }
  | "cols", .number cols => some { s with cols }
  | "slot", .text slot => some { s with slot }
  | "recalc", entry => do
    let recalculation ← Recalculation.ofName? (← choice? entry)
    return { s with recalculation }
  | "unresolved_refs", entry => do
    let unresolved ← Unresolved.ofName? (← choice? entry)
    return { s with unresolved }
  | _, _ => none

/-- Fields that are not given keep their defaults. A field given twice or unknown is refused. -/
def ofEntries? (entries : List (String × Entry)) : Option Settings :=
  if (entries.map Prod.fst).eraseDups.length = entries.length then
    entries.foldlM (fun s e => s.set? e.1 e.2) default
  else none

def fields : List String := ["rows", "cols", "slot", "recalc", "unresolved_refs"]

end Settings

end Worksheet
