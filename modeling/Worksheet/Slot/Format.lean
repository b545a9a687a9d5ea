import Worksheet.Cells
import Worksheet.Json

/-! The text that a slot holds: one JSON object with a member for each cell. Its key is the 0-based
row and column of the cell joined by a dash, and members are written in the order of their keys'
bytes. A key is read more freely than it is written: each half may have leading zeros and one plus
sign. -/
namespace Worksheet.Position

def key (p : Position) : String :=
  .ofList (Numeral.ofNat p.row.toNat ++ '-' :: Numeral.ofNat p.col.toNat)

def ofKey? (key : String) : Option Position :=
  match key.toList.dropWhile (· ≠ '-') with
  | _ :: col => do
    let row ← Numeral.signed? (key.toList.takeWhile (· ≠ '-'))
    let col ← Numeral.signed? col
    return ⟨row, col⟩
  | [] => none

/-- A key is written without signs, so its only dash stands between the halves. -/
theorem ofKey?_key (p : Position) : ofKey? p.key = some p := by
  have noDash : ∀ c ∈ Numeral.ofNat p.row.toNat, decide (c ≠ '-') = true := by
    intro c member
    have digit : c.isDigit := List.all_eq_true.mp (Numeral.all_isDigit_ofNat _) c member
    simp only [decide_eq_true_eq]
    rintro rfl
    exact absurd digit (by decide)
  have text : p.key.toList = Numeral.ofNat p.row.toNat ++ '-' :: Numeral.ofNat p.col.toNat :=
    String.toList_ofList
  rw [ofKey?, text, List.takeWhile_append_of_pos noDash, List.dropWhile_append_of_pos noDash]
  simp [Numeral.signed?_ofNat]

theorem key_injective {p q : Position} (same : p.key = q.key) : p = q := by
  have read := ofKey?_key p
  rw [same, ofKey?_key] at read
  exact (Option.some.inj read).symm

end Worksheet.Position

namespace Worksheet.Slot

/-- What a text holds: cells, and the keys that name no position. -/
structure Content where
  cells : Cells
  malformed : List String
deriving DecidableEq

def byKey (cells : Cells) : OrderedMap String Cell :=
  .ofList (cells.entries.map fun e => (e.1.key, e.2))

def field (name : String) (value : String) : List Char :=
  Json.writeText name ++ ':' :: Json.writeText value

def member (key : String) (cell : Cell) : List Char :=
  Json.writeText key ++ ':' :: '\x7b' :: field "raw" cell.raw ++ ',' ::
    field "display" cell.display ++ ['\x7d']

def encode (cells : Cells) : String :=
  .ofList ('\x7b' :: [','].intercalate ((byKey cells).entries.map fun e => member e.1 e.2) ++
    ['\x7d'])

/-- The text of the only member of that name. -/
def only? (name : String) (members : List (Option String × Json)) : Option String :=
  match members.filter fun m => m.1 = some name with
  | [(_, .string text)] => text
  | _ => none

/-- A cell is an object with both texts, whatever else it has, or an array of the two. -/
def cellOf? : Json → Option Cell
  | .array [.string (some raw), .string (some display)] => some ⟨raw, display⟩
  | .object members => do
    guard (members.all fun m => m.1.isSome)
    return ⟨← only? "raw" members, ← only? "display" members⟩
  | _ => none

/-- The members of the object with their last values, all of which must be cells. -/
def entries? (text : String) : Option (OrderedMap String Cell) := do
  let members ← (← Json.read text).members?
  return .ofList (← members.mapM fun m => return (← m.1, ← cellOf? m.2))

/-- When several keys name one position, the last one in byte order is the one that counts. -/
def collect (entries : OrderedMap String Cell) : Content where
  cells := .ofList (entries.entries.filterMap fun e => (Position.ofKey? e.1).map (·, e.2))
  malformed := entries.keys.filter fun key => (Position.ofKey? key).isNone

def decode (text : String) : Option Content := (entries? text).map collect

end Worksheet.Slot
