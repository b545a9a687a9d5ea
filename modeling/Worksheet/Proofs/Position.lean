import Worksheet.Proofs.Formula.Run
import Worksheet.Proofs.Number.Digits
import Worksheet.Slot.Format

/-! Labels and keys, and the cells that they name. A label names a cell of a grid if and only if it
is the letter of the cell's column in front of a numeral of the cell's row, counted from one. A key
is two numerals of words with a dash between them, each behind at most one plus sign, and nothing
else is read as a key. -/
namespace Worksheet

namespace Position

variable {p : Position} {label : String} {c : Char} {digits : List Char} {col w : UInt64}

/-- The label is the capital letter of the column and a numeral of the row, counted from one. -/
def NamedBy (p : Position) (label : String) : Prop :=
  ∃ c digits, label.toList = c :: digits ∧ c.isUpper ∧ c.toNat = 'A'.toNat + p.col.toNat ∧
    Numeral.Writes digits (p.row.toNat + 1)

/-- A column that has a capital letter is shown with it. -/
theorem letter_eq (upper : c.isUpper) (same : c.toNat = 'A'.toNat + col.toNat) :
    letter col = c := by
  have first : 'A'.toNat = 65 := rfl
  have range := Formula.isUpper_toNat.mp upper
  rw [letter, Nat.mod_eq_of_lt (by omega), ← same, Char.ofNat_toNat]

theorem letter_upper (inside : col < 26) :
    (letter col).isUpper ∧ (letter col).toNat = 'A'.toNat + col.toNat := by
  have letters : ∀ n < 26, (Char.ofNat ('A'.toNat + n)).isUpper ∧
      (Char.ofNat ('A'.toNat + n)).toNat = 'A'.toNat + n := by decide
  have bound : col.toNat < 26 := UInt64.lt_iff_toNat_lt.mp inside
  rw [letter, Nat.mod_eq_of_lt bound]
  exact letters col.toNat bound

theorem exists_row (w : UInt64) (counted : w ≠ 0) :
    (w - 1).toNat + 1 = w.toNat := by
  have positive : w.toNat ≠ 0 := fun zero => counted (UInt64.toNat_inj.mp zero)
  have one : (1 : UInt64).toNat = 1 := rfl
  rw [UInt64.toNat_sub_of_le _ _ (UInt64.le_iff_toNat_le.mpr (by omega))]
  omega

theorem toNat_succ {row : UInt64} (bound : row.toNat + 1 < UInt64.size) :
    (row + 1).toNat = row.toNat + 1 := by
  rw [UInt64.toNat_add]
  exact Nat.mod_eq_of_lt bound

/-- Labels are read without a grid: only the number of the row has to fit in a word. -/
theorem ofLabel?_eq_some_iff :
    ofLabel? label = some p ↔ p.NamedBy label ∧ p.row.toNat + 1 < UInt64.size := by
  constructor
  · intro read
    unfold ofLabel? at read
    split at read
    next => cases read
    next c digits text =>
      split_ifs at read with upper
      split at read
      next number word =>
        split_ifs at read with zero
        obtain rfl := Option.some.inj read
        have range := Formula.isUpper_toNat.mp upper
        have first : 'A'.toNat = 65 := rfl
        have words : UInt64.size = 18446744073709551616 := rfl
        have writes := Numeral.word?_eq_some_iff.mp word
        rw [← exists_row number zero] at writes
        refine ⟨⟨c, digits, text, upper, ?_, writes⟩, ?_⟩
        · rw [UInt64.toNat_ofNat_of_lt' (by omega)]
          omega
        · rw [exists_row number zero]
          exact number.toNat_lt
      next => cases read
  · rintro ⟨⟨c, digits, text, upper, same, writes⟩, bound⟩
    rw [← toNat_succ bound] at writes
    have word := Numeral.word?_eq_some_iff.mpr writes
    have counted : p.row + 1 ≠ 0 := by
      intro zero
      have := congrArg UInt64.toNat zero
      rw [toNat_succ bound] at this
      cases this
    simp [ofLabel?, text, upper, word, counted, same]

theorem namedBy_label (inside : p.col < 26) : p.NamedBy p.label := by
  obtain ⟨upper, same⟩ := letter_upper inside
  exact ⟨_, _, String.toList_ofList, upper, same, Numeral.writes_ofNat _⟩

/-- All labels of a position but the one that it is shown with have zeros in front of the row. -/
theorem NamedBy.shortest (h : p.NamedBy label) :
    label = p.label ∨ p.label.length < label.length := by
  obtain ⟨c, digits, text, upper, same, writes⟩ := h
  have own : p.label.toList = c :: Numeral.ofNat (p.row.toNat + 1) := by
    rw [Position.label, String.toList_ofList, letter_eq upper same]
  rcases writes.shortest with written | longer
  · left
    apply String.toList_injective
    rw [text, own, written]
  · right
    rw [← String.length_toList, ← String.length_toList, text, own]
    exact Nat.succ_lt_succ longer

end Position

namespace Extent

variable {extent : Extent} {p : Position} {label : String}

/-- Columns of a grid have letters, and the numbers of its rows are words. -/
theorem mem_bounds (inside : p ∈ extent) : p.col < 26 ∧ p.row.toNat + 1 < UInt64.size := by
  obtain ⟨row, col⟩ := inside
  refine ⟨UInt64.lt_of_lt_of_le col extent.cols_le, ?_⟩
  have less : p.row.toNat < extent.rows.toNat := UInt64.lt_iff_toNat_lt.mp row
  exact Nat.lt_of_le_of_lt less extent.rows.toNat_lt

theorem cell?_eq_some_iff : extent.cell? label = some p ↔ p ∈ extent ∧ p.NamedBy label := by
  rw [cell?, Option.filter_eq_some_iff, decide_eq_true_eq, Position.ofLabel?_eq_some_iff]
  constructor
  · rintro ⟨⟨named, _⟩, inside⟩
    exact ⟨inside, named⟩
  · rintro ⟨inside, named⟩
    exact ⟨⟨named, (mem_bounds inside).2⟩, inside⟩

/-- Labels and cells of a grid correspond. The labels of a cell are the letter of its column with
any numeral of its row, the one that it is shown with is the shortest, and every other text names
no cell, such as one with a row that is zero or too large for a word. -/
theorem labels_exact (extent : Extent) :
    (∀ label p, extent.cell? label = some p ↔ p ∈ extent ∧ p.NamedBy label) ∧
    (∀ label, (∀ p ∈ extent, ¬p.NamedBy label) → extent.cell? label = none) ∧
    (∀ c digits, Numeral.value digits = 0 ∨ UInt64.size ≤ Numeral.value digits →
      extent.cell? (.ofList (c :: digits)) = none) ∧
    ∀ p ∈ extent, p.row.toNat + 1 < UInt64.size ∧ extent.cell? p.label = some p ∧
      ∀ label, extent.cell? label = some p → label = p.label ∨ p.label.length < label.length := by
  refine ⟨fun label p => cell?_eq_some_iff, fun label nothing => ?_, fun c digits outside => ?_,
    fun p inside => ⟨(mem_bounds inside).2, ?_, fun label named => ?_⟩⟩
  · apply Option.eq_none_iff_forall_ne_some.mpr
    intro p found
    obtain ⟨inside, named⟩ := cell?_eq_some_iff.mp found
    exact nothing p inside named
  · apply Option.eq_none_iff_forall_ne_some.mpr
    intro p found
    obtain ⟨inside, _, _, text, _, _, writes⟩ := cell?_eq_some_iff.mp found
    rw [String.toList_ofList] at text
    obtain ⟨rfl, rfl⟩ := List.cons.inj text
    have bound := (mem_bounds inside).2
    rw [writes.value] at outside
    omega
  · exact cell?_eq_some_iff.mpr ⟨inside, Position.namedBy_label (mem_bounds inside).1⟩
  · exact (cell?_eq_some_iff.mp named).2.shortest

/-- The last cell of the largest grid has the largest word as its row. The next number and a small
letter name nothing. -/
theorem labels_exact_last :
    let extent : Extent := ⟨18446744073709551615, 26, by decide, by decide, by decide⟩
    let last : Position := ⟨18446744073709551614, 25⟩
    last ∈ extent ∧ last.row.toNat + 1 < UInt64.size ∧
    last.label = "Z18446744073709551615" ∧ extent.cell? last.label = some last ∧
    extent.cell? "Z0018446744073709551615" = some last ∧
    last.label.length < "Z0018446744073709551615".length ∧
    extent.cell? "Z18446744073709551616" = none ∧ extent.cell? "z1" = none := by
  intro extent last
  obtain ⟨_, others, limits, cells⟩ := labels_exact extent
  have inside : last ∈ extent := by decide
  obtain ⟨bound, own, shortest⟩ := cells last inside
  have label : last.label = "Z18446744073709551615" := by decide +kernel
  have zeros : extent.cell? "Z0018446744073709551615" = some last := by decide +kernel
  have next : extent.cell? "Z18446744073709551616" = none :=
    limits 'Z' "18446744073709551616".toList (.inr (by decide +kernel))
  have small : extent.cell? "z1" = none := by
    apply others
    rintro p _ ⟨c, digits, text, upper, _⟩
    obtain ⟨rfl, _⟩ := List.cons.inj text
    exact absurd upper (by decide)
  refine ⟨inside, bound, label, own, zeros, ?_, next, small⟩
  refine (shortest _ zeros).resolve_left fun same => ?_
  rw [label] at same
  exact absurd same (by decide +kernel)

end Extent

namespace Numeral

/-- The text is a numeral of the number, behind a plus sign or not. -/
inductive WritesSigned : List Char → Nat → Prop where
  | unsigned {digits : List Char} {n : Nat} : Writes digits n → WritesSigned digits n
  | plus {digits : List Char} {n : Nat} : Writes digits n → WritesSigned ('+' :: digits) n

variable {cs : List Char} {n : Nat} {w : UInt64}

theorem signed?_eq_some_iff : signed? cs = some w ↔ WritesSigned cs w.toNat := by
  constructor
  · intro read
    unfold signed? at read
    split at read
    · exact .plus (word?_eq_some_iff.mp read)
    · exact .unsigned (word?_eq_some_iff.mp read)
  · intro writes
    cases writes with
    | plus writes => exact word?_eq_some_iff.mpr writes
    | unsigned writes =>
      unfold signed?
      split
      · -- A numeral without a sign does not begin with one.
        exact absurd (writes.digit '+' List.mem_cons_self) (by decide)
      · exact word?_eq_some_iff.mpr writes

theorem WritesSigned.no_dash (h : WritesSigned cs n) : ∀ c ∈ cs, c ≠ '-' := by
  have digits {digits : List Char} (writes : Writes digits n) : ∀ c ∈ digits, c ≠ '-' := by
    rintro c member rfl
    exact absurd (writes.digit '-' member) (by decide)
  cases h with
  | unsigned writes => exact digits writes
  | plus writes => exact List.forall_mem_cons.mpr ⟨by decide, digits writes⟩

end Numeral

namespace Position

variable {p : Position} {key : String}

/-- The key is a numeral of the row, a dash and a numeral of the column. -/
def KeyedBy (p : Position) (key : String) : Prop :=
  ∃ row col, key.toList = row ++ '-' :: col ∧ Numeral.WritesSigned row p.row.toNat ∧
    Numeral.WritesSigned col p.col.toNat

theorem ofKey?_eq_some_iff : ofKey? key = some p ↔ p.KeyedBy key := by
  constructor
  · intro read
    unfold ofKey? at read
    split at read
    next dash col rest =>
      obtain ⟨r, row, read⟩ := Option.bind_eq_some_iff.mp read
      obtain ⟨c, col, same⟩ := Option.bind_eq_some_iff.mp read
      obtain rfl := Option.some.inj same
      obtain rfl : dash = '-' := by
        have first : dash ∈ (key.toList.dropWhile (· ≠ '-')).head? := by rw [rest]; rfl
        simpa using Formula.head_dropWhile first
      refine ⟨_, _, ?_, Numeral.signed?_eq_some_iff.mp row, Numeral.signed?_eq_some_iff.mp col⟩
      rw [← rest]
      exact List.takeWhile_append_dropWhile.symm
    next => cases read
  · rintro ⟨row, col, text, writes, writes'⟩
    have noDash : ∀ c ∈ row, decide (c ≠ '-') = true := fun c member =>
      decide_eq_true (writes.no_dash c member)
    rw [ofKey?, text, List.takeWhile_append_of_pos noDash, List.dropWhile_append_of_pos noDash]
    simp [Numeral.signed?_eq_some_iff.mpr writes, Numeral.signed?_eq_some_iff.mpr writes']

/-- Keys are read exactly. A text is read as the key of a cell if and only if it is numerals of its
row and its column with a dash between them, the key that a cell is saved under is read as that
cell, and so no two cells are saved under one key. -/
theorem keys_exact :
    (∀ key p, ofKey? key = some p ↔ p.KeyedBy key) ∧
    (∀ p, ofKey? p.key = some p) ∧
    ∀ p q : Position, p.key = q.key ↔ p = q := by
  refine ⟨fun key p => ofKey?_eq_some_iff, ofKey?_key, fun p q => ⟨key_injective, ?_⟩⟩
  rintro rfl
  rfl

example : ofKey? "+007-0" = some ⟨7, 0⟩ ∧ ofKey? "++7-0" = none ∧ ofKey? "7-0-0" = none := by
  decide +kernel

end Position

end Worksheet
