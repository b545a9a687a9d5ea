import Worksheet.OrderedMap
import Worksheet.Text

/-! Cells are addressed by 0-based row and column, both 64-bit words, in row-major order. An extent
is a grid size that labels can address: at least one row, and one to twenty-six columns. A label is
one capital letter for the column and the 1-based row number. Reading a label knows no grid; an
extent names only the cells inside it. -/
namespace Worksheet

structure Position where
  row : UInt64
  col : UInt64
deriving DecidableEq, Inhabited

namespace Position

instance : LT Position := ⟨fun a b => a.row < b.row ∨ a.row = b.row ∧ a.col < b.col⟩

instance : DecidableLT Position := fun a b =>
  inferInstanceAs (Decidable (a.row < b.row ∨ a.row = b.row ∧ a.col < b.col))

theorem lt_iff {a b : Position} : a < b ↔ a.row < b.row ∨ a.row = b.row ∧ a.col < b.col := .rfl

instance : StrictOrder Position where
  irrefl a h := by
    rcases lt_iff.mp h with h | ⟨_, h⟩ <;> exact UInt64.lt_irrefl _ h
  trans {a b c} h h' := by
    rw [lt_iff] at h h' ⊢
    rcases h with h | ⟨e, h⟩ <;> rcases h' with h' | ⟨e', h'⟩
    · exact .inl (UInt64.lt_trans h h')
    · exact .inl (e' ▸ h)
    · exact .inl (e ▸ h')
    · exact .inr ⟨e.trans e', UInt64.lt_trans h h'⟩
  connected {a b} h h' := by
    rw [lt_iff] at h h'
    obtain ⟨row, col⟩ := a
    obtain ⟨row', col'⟩ := b
    have sameRow : row = row' := UInt64.le_antisymm
      (UInt64.not_lt.mp fun less => h' (.inl less)) (UInt64.not_lt.mp fun less => h (.inl less))
    have sameCol : col = col' := UInt64.le_antisymm
      (UInt64.not_lt.mp fun less => h' (.inr ⟨sameRow.symm, less⟩))
      (UInt64.not_lt.mp fun less => h (.inr ⟨sameRow, less⟩))
    rw [sameRow, sameCol]

end Position

structure Extent where
  rows : UInt64
  cols : UInt64
  rows_pos : 0 < rows
  cols_pos : 0 < cols
  cols_le : cols ≤ 26
deriving DecidableEq

namespace Extent

def make? (rows cols : UInt64) : Option Extent :=
  if h : 0 < rows ∧ 0 < cols ∧ cols ≤ 26 then some ⟨rows, cols, h.1, h.2.1, h.2.2⟩ else none

instance : Membership Position Extent := ⟨fun extent p => p.row < extent.rows ∧ p.col < extent.cols⟩

instance (extent : Extent) (p : Position) : Decidable (p ∈ extent) :=
  inferInstanceAs (Decidable (p.row < extent.rows ∧ p.col < extent.cols))

def rowRange (extent : Extent) : List UInt64 := (List.range extent.rows.toNat).map UInt64.ofNat

def colRange (extent : Extent) : List UInt64 := (List.range extent.cols.toNat).map UInt64.ofNat

def first (extent : Extent) (n : Nat) : List Position :=
  (List.range (min n (extent.rows.toNat * extent.cols.toNat))).map fun i =>
    ⟨.ofNat (i / extent.cols.toNat), .ofNat (i % extent.cols.toNat)⟩

end Extent

namespace Position

def letter (col : UInt64) : Char := Char.ofNat ('A'.toNat + col.toNat % 26)

/-- The row number is written without a bound, so that it is right for every row. -/
def label (p : Position) : String :=
  .ofList (letter p.col :: Numeral.ofNat (p.row.toNat + 1))

def ofLabel? (label : String) : Option Position :=
  match label.toList with
  | [] => none
  | c :: digits =>
    if c.isUpper then
      match Numeral.word? digits with
      | some number =>
        if number = 0 then none else some ⟨number - 1, .ofNat (c.toNat - 'A'.toNat)⟩
      | none => none
    else none

end Position

namespace Extent

/-- The cell of the grid that `label` names. -/
def cell? (extent : Extent) (label : String) : Option Position :=
  (Position.ofLabel? label).filter (· ∈ extent)

end Extent

end Worksheet
