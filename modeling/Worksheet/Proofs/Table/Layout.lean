import Mathlib.Algebra.GroupWithZero.Nat
import Mathlib.Data.List.DropRight
import Worksheet.Sheet
import Worksheet.Table

/-! The layout of the table. Every line has its entries at the starts of the columns, as if blanks
were still behind it. A row is one line unless its displays have a line break with something that is
not blank behind it. -/
namespace Worksheet

namespace Text

variable {cs front back : List Char}

theorem trimEnd_append (cs : List Char) :
    ∃ blanks, trimEnd cs ++ blanks = cs ∧ ∀ c ∈ blanks, isBlank c :=
  ⟨_, List.rdropWhile_append_rtakeWhile, fun _ => List.mem_rtakeWhile_imp⟩

theorem trimEnd_last (cs : List Char) : ∀ c ∈ (trimEnd cs).getLast?, ¬isBlank c := by
  intro c last
  have filled : trimEnd cs ≠ [] := by
    intro none
    simp [none] at last
  rw [List.getLast?_eq_some_getLast filled] at last
  obtain rfl := Option.some.inj last
  exact List.rdropWhile_last_not isBlank cs filled

theorem prefix_trimEnd {c : Char} (filled : ¬isBlank c) (front back : List Char) :
    front ++ [c] <+: trimEnd (front ++ [c] ++ back) := by
  obtain ⟨blanks, whole, blank⟩ := trimEnd_append (front ++ [c] ++ back)
  generalize trimEnd (front ++ [c] ++ back) = trimmed at whole
  rcases List.append_eq_append_iff.mp whole with ⟨between, same, rest⟩ | ⟨more, same, _⟩
  · rcases List.eq_nil_or_concat' between with rfl | ⟨shorter, d, rfl⟩
    · exact ⟨[], by simp [same]⟩
    · rw [← List.append_assoc] at same
      obtain rfl := List.singleton_inj.mp (List.append_inj' same rfl).2
      exact absurd (blank c (by simp [rest])) filled
  · exact ⟨more, same.symm⟩

theorem not_isBlank_of_isDigit {c : Char} (digit : c.isDigit) : ¬isBlank c := by
  have zero : '0'.toNat = 0x30 := rfl
  have nine : '9'.toNat = 0x39 := rfl
  rw [Char.isDigit_iff_toNat] at digit
  simp only [isBlank, blankRanges, List.any_cons, List.any_nil, Bool.or_false, Bool.or_eq_true,
    Bool.and_eq_true, decide_eq_true_eq]
  omega

/-- Something that is not blank stands behind a line break. -/
def Breaks (cs : List Char) : Prop :=
  ∃ before after, cs = before ++ '\n' :: after ∧ ∃ c ∈ after, ¬isBlank c

theorem breaks_cons {c : Char} : Breaks (c :: cs) ↔
    (c = '\n' ∧ ∃ d ∈ cs, ¬isBlank d) ∨ Breaks cs := by
  constructor
  · rintro ⟨_ | ⟨d, before⟩, after, same, filled⟩
    · obtain ⟨rfl, rfl⟩ := List.cons.inj same
      exact .inl ⟨rfl, filled⟩
    · obtain ⟨rfl, rfl⟩ := List.cons.inj same
      exact .inr ⟨before, after, rfl, filled⟩
  · rintro (⟨rfl, filled⟩ | ⟨before, after, rfl, filled⟩)
    · exact ⟨[], cs, rfl, filled⟩
    · exact ⟨c :: before, after, rfl, filled⟩

theorem breaks_append_left (whole : '\n' ∉ front) : Breaks (front ++ back) ↔ Breaks back := by
  induction front with
  | nil => rfl
  | cons c front ih =>
    rw [List.mem_cons, not_or] at whole
    rw [List.cons_append, breaks_cons, ih whole.2, or_iff_right fun h => whole.1 h.1.symm]

def solid (c : Char) : Bool := c == '\n' || !isBlank c

theorem breaks_filter : Breaks (cs.filter solid) ↔ Breaks cs := by
  induction cs with
  | nil => rfl
  | cons c cs ih =>
    have filled : (∃ d ∈ cs.filter solid, ¬isBlank d) ↔ ∃ d ∈ cs, ¬isBlank d := by
      simp only [List.mem_filter, solid]
      grind
    rw [breaks_cons, ← ih, ← filled]
    by_cases kept : solid c
    · rw [List.filter_cons_of_pos kept, breaks_cons]
    · rw [List.filter_cons_of_neg kept, or_iff_right]
      rintro ⟨rfl, _⟩
      exact kept rfl

theorem breaks_congr (same : front.filter solid = back.filter solid) :
    Breaks front ↔ Breaks back := by
  rw [← breaks_filter, same, breaks_filter]

theorem mem_trimEnd : '\n' ∈ trimEnd cs ↔ Breaks cs := by
  obtain ⟨blanks, whole, blank⟩ := trimEnd_append cs
  constructor
  · intro member
    obtain ⟨before, after, same⟩ := List.append_of_mem member
    refine ⟨before, after ++ blanks, ?_, ?_⟩
    · rw [← whole, same, List.append_assoc, List.cons_append]
    · have last := trimEnd_last cs
      rw [same] at last
      rcases List.eq_nil_or_concat' after with rfl | ⟨shorter, c, rfl⟩
      · exact absurd (by decide) (last '\n' (by simp))
      · refine ⟨c, by simp, last c ?_⟩
        rw [← List.cons_append, ← List.append_assoc]
        exact List.getLast?_concat ..
  · intro breaks
    by_contra kept
    rw [← whole, breaks_append_left kept] at breaks
    obtain ⟨before, after, rfl, c, member, filled⟩ := breaks
    exact filled (blank c (by simp [member]))

end Text

namespace Table

variable (extent : Extent) (cells : Cells)

theorem foldl_max_le {ns : List Nat} {m w : Nat} :
    ns.foldl max m ≤ w ↔ m ≤ w ∧ ∀ n ∈ ns, n ≤ w := by
  induction ns generalizing m with
  | nil => simp
  | cons n ns ih => rw [List.foldl_cons, ih, Nat.max_le, List.forall_mem_cons, and_assoc]

theorem width_le_iff {col : UInt64} {w : Nat} : width extent cells col ≤ w ↔
    1 ≤ w ∧ ∀ r < extent.rows.toNat, (display cells (.ofNat r) col).length ≤ w := by
  simp [width, foldl_max_le, Extent.rowRange]

theorem display_fits {r c : Nat} (h : r < extent.rows.toNat) :
    (display cells (.ofNat r) (.ofNat c)).length ≤ width extent cells (.ofNat c) :=
  ((width_le_iff extent cells).mp le_rfl).2 r h

theorem letter_fits (c : Nat) :
    [Position.letter (.ofNat c)].length ≤ width extent cells (.ofNat c) :=
  ((width_le_iff extent cells).mp le_rfl).1

/-- Where column `c` starts: in front of it are the row numbers, the columns before it and a space
in front of each column. -/
def start (c : Nat) : Nat :=
  numberWidth extent + ((List.range c).map fun j => width extent cells (.ofNat j) + 1).sum + 1

/-- A line of `n` columns before it is trimmed. -/
def untrimmed (margin : List Char) (entry : Nat → List Char) (n : Nat) : List Char :=
  margin ++ (List.range n).flatMap fun c => ' ' :: padEnd (width extent cells (.ofNat c)) (entry c)

variable {extent cells} {margin : List Char} {entry : Nat → List Char}

theorem length_padEnd {w : Nat} {cs : List Char} (fits : cs.length ≤ w) :
    (padEnd w cs).length = w := by
  rw [padEnd, List.length_append, List.length_replicate]
  omega

theorem untrimmed_succ (n : Nat) : untrimmed extent cells margin entry (n + 1) =
    untrimmed extent cells margin entry n ++
      ' ' :: padEnd (width extent cells (.ofNat n)) (entry n) := by
  simp [untrimmed, List.range_succ]

theorem untrimmed_begins {m n : Nat} (h : m ≤ n) :
    untrimmed extent cells margin entry m <+: untrimmed extent cells margin entry n := by
  induction n, h using Nat.le_induction with
  | base => exact List.prefix_rfl
  | succ n _ ih =>
    rw [untrimmed_succ]
    exact ih.trans (List.prefix_append ..)

theorem length_untrimmed (numbered : margin.length = numberWidth extent)
    (fits : ∀ c, (entry c).length ≤ width extent cells (.ofNat c)) (n : Nat) :
    (untrimmed extent cells margin entry n).length + 1 = start extent cells n := by
  simp [untrimmed, start, numbered, List.length_flatMap, length_padEnd (fits _)]

theorem entry_untrimmed (numbered : margin.length = numberWidth extent)
    (fits : ∀ c, (entry c).length ≤ width extent cells (.ofNat c)) {c n : Nat} (h : c < n) :
    ((untrimmed extent cells margin entry n).drop (start extent cells c)).take
        (width extent cells (.ofNat c)) =
      padEnd (width extent cells (.ofNat c)) (entry c) := by
  obtain ⟨rest, whole⟩ : untrimmed extent cells margin entry (c + 1) <+:
      untrimmed extent cells margin entry n := untrimmed_begins h
  rw [← whole, untrimmed_succ, ← length_untrimmed numbered fits, List.append_assoc,
    List.drop_length_add_append, List.cons_append, List.drop_succ_cons, List.drop_zero]
  exact List.take_left' (length_padEnd (fits c))

theorem filter_padded (w : Nat) (cs : List Char) :
    (' ' :: padEnd w cs).filter Text.solid = cs.filter Text.solid := by
  have space : Text.solid ' ' = false := by decide
  simp [padEnd, space]

theorem breaks_untrimmed (whole : '\n' ∉ margin) (n : Nat) :
    Text.Breaks (untrimmed extent cells margin entry n) ↔
      Text.Breaks ((List.range n).flatMap entry) := by
  rw [untrimmed, Text.breaks_append_left whole]
  exact Text.breaks_congr (by simp only [List.filter_flatMap, filter_padded])

variable (extent cells) in
def trimmed (margin : List Char) (entry : Nat → List Char) : List Char :=
  Text.trimEnd (untrimmed extent cells margin entry extent.cols.toNat)

variable (extent cells) in
/-- A line with every column's entry at the start of the column, padded to its width, but for the
blanks that the end of the line is trimmed of. -/
structure Aligned (margin : List Char) (entry : Nat → List Char) (line : List Char) : Prop where
  begins : margin <+: line
  numbered : margin.length = numberWidth extent
  columns : ∃ blanks, (∀ c ∈ blanks, Text.isBlank c) ∧ ∀ c < extent.cols.toNat,
    ((line ++ blanks).drop (start extent cells c)).take (width extent cells (.ofNat c)) =
      padEnd (width extent cells (.ofNat c)) (entry c)
  trimmed : ∀ c ∈ line.getLast?, ¬Text.isBlank c

theorem aligned (numbered : margin.length = numberWidth extent)
    (fits : ∀ c, (entry c).length ≤ width extent cells (.ofNat c))
    (front : margin <+: trimmed extent cells margin entry) :
    Aligned extent cells margin entry (trimmed extent cells margin entry) := by
  obtain ⟨blanks, whole, blank⟩ :=
    Text.trimEnd_append (untrimmed extent cells margin entry extent.cols.toNat)
  refine ⟨front, numbered, ⟨blanks, blank, fun c h => ?_⟩, Text.trimEnd_last _⟩
  rw [trimmed, whole]
  exact entry_untrimmed numbered fits h

variable (extent) in
def corner : List Char := List.replicate (numberWidth extent) ' '

def letters (c : Nat) : List Char := [Position.letter (.ofNat c)]

variable (extent) in
def number (r : Nat) : List Char := padStart (numberWidth extent) (Numeral.ofNat (r + 1))

variable (cells) in
def displays (r c : Nat) : List Char := display cells (.ofNat r) (.ofNat c)

theorem header_eq :
    header extent cells = trimmed extent cells (corner extent) letters ++ ['\n'] := by
  simp [header, line, widths, trimmed, untrimmed, corner, letters, Extent.colRange,
    List.flatMap_map]

theorem row_eq {r : Nat} (h : r < extent.rows.toNat) :
    row extent cells (widths extent cells) (.ofNat r) =
      trimmed extent cells (number extent r) (displays cells r) ++ ['\n'] := by
  have small : (UInt64.ofNat r).toNat = r :=
    UInt64.toNat_ofNat_of_lt' (h.trans extent.rows.toNat_lt)
  simp [row, line, widths, trimmed, untrimmed, number, displays, small, Extent.colRange,
    List.flatMap_map]

theorem length_number {r : Nat} (h : r < extent.rows.toNat) :
    (number extent r).length = numberWidth extent := by
  have bound : (Numeral.ofNat (r + 1)).length ≤ numberWidth extent := by
    have some : 0 < numberWidth extent := Nat.length_toDigits_pos
    have last : extent.rows.toNat < 10 ^ numberWidth extent :=
      (Nat.length_toDigits_le_iff (by decide) some).mp le_rfl
    exact (Nat.length_toDigits_le_iff (by decide) some).mpr (by omega)
  rw [number, padStart, List.length_append, List.length_replicate]
  omega

theorem isDigit_of_mem_ofNat {n : Nat} {c : Char} (member : c ∈ Numeral.ofNat n) : c.isDigit :=
  List.all_eq_true.mp (Numeral.all_isDigit_ofNat n) c member

theorem number_begins (r : Nat) (entry : Nat → List Char) :
    number extent r <+: trimmed extent cells (number extent r) entry := by
  obtain ⟨digits, digit, numeral⟩ :=
    (List.eq_nil_or_concat' (Numeral.ofNat (r + 1))).resolve_left (Numeral.ofNat_ne_nil _)
  have ends : digit.isDigit := isDigit_of_mem_ofNat (n := r + 1) (by simp [numeral])
  rw [trimmed, untrimmed, number, padStart, numeral, ← List.append_assoc]
  exact Text.prefix_trimEnd (Text.not_isBlank_of_isDigit ends) ..

theorem newline_number (r : Nat) : '\n' ∉ number extent r := by
  rw [number, padStart, List.mem_append, not_or]
  refine ⟨fun member => ?_, fun member => ?_⟩
  · exact absurd (List.eq_of_mem_replicate member) (by decide)
  · exact absurd (isDigit_of_mem_ofNat member) (by decide)

theorem letter_not_isBlank (col : UInt64) : ¬Text.isBlank (Position.letter col) := by
  have every : ∀ n < 26, ¬Text.isBlank (Char.ofNat ('A'.toNat + n)) := by decide
  exact every _ (Nat.mod_lt _ (by decide))

/-- There is a column A, so the margin of the header is not trimmed. -/
theorem corner_begins : corner extent <+: trimmed extent cells (corner extent) letters := by
  have some : 0 < extent.cols.toNat := UInt64.lt_iff_toNat_lt.mp extent.cols_pos
  obtain ⟨rest, whole⟩ : untrimmed extent cells (corner extent) letters 1 <+:
      untrimmed extent cells (corner extent) letters extent.cols.toNat := untrimmed_begins some
  have first := Text.prefix_trimEnd (letter_not_isBlank (.ofNat 0)) (corner extent ++ [' '])
  rw [trimmed, ← whole, untrimmed_succ]
  simp only [untrimmed, List.range_zero, List.flatMap_nil, List.append_nil, padEnd, letters]
  refine (List.prefix_append (corner extent) [' ', Position.letter (.ofNat 0)]).trans ?_
  simpa using first _

theorem newline_corner : '\n' ∉ corner extent := fun member =>
  absurd (List.eq_of_mem_replicate member) (by decide)

theorem newline_trimmed (whole : '\n' ∉ margin) : '\n' ∈ trimmed extent cells margin entry ↔
    Text.Breaks ((List.range extent.cols.toNat).flatMap entry) := by
  rw [trimmed, Text.mem_trimEnd, breaks_untrimmed whole]

theorem newline_header : '\n' ∉ trimmed extent cells (corner extent) letters := by
  rw [newline_trimmed newline_corner]
  rintro ⟨before, after, whole, -⟩
  have member : '\n' ∈ (List.range extent.cols.toNat).flatMap letters := by simp [whole]
  obtain ⟨c, -, same⟩ := List.mem_flatMap.mp member
  exact letter_not_isBlank (.ofNat c) (List.mem_singleton.mp same ▸ by decide)

variable (extent cells) in
/-- In the displays of row `r`, one behind the other, something that is not blank stands behind a
line break. -/
def Broken (r : Nat) : Prop :=
  Text.Breaks ((List.range extent.cols.toNat).flatMap (displays cells r))

theorem count_newline (lines : List (List Char)) :
    (lines.flatMap (· ++ ['\n'])).count '\n' =
      lines.length + (lines.map (List.count '\n')).sum := by
  induction lines with
  | nil => rfl
  | cons line lines ih =>
    simp only [List.flatMap_cons, List.count_append, ih, List.count_singleton_self,
      List.length_cons, List.map_cons, List.sum_cons]
    omega

/-- The table is its header and a line for each row, with every column where it starts in the
header; the line of a row is broken into several just if its displays break it. -/
theorem render_layout (extent : Extent) (cells : Cells) :
    (∀ c w, width extent cells (.ofNat c) ≤ w ↔
      1 ≤ w ∧ ∀ r < extent.rows.toNat, (displays cells r c).length ≤ w) ∧
    (∃ header : List Char, ∃ rows : List (List Char), (render extent cells).toList =
        header ++ '\n' :: rows.flatMap (· ++ ['\n']) ∧
      '\n' ∉ header ∧ rows.length = extent.rows.toNat ∧
      Aligned extent cells (corner extent) letters header ∧
      ∀ r line, rows[r]? = some line →
        Aligned extent cells (number extent r) (displays cells r) line ∧
        ('\n' ∈ line ↔ Broken extent cells r)) ∧
    ((render extent cells).toList.count '\n' = extent.rows.toNat + 1 ↔
      ∀ r < extent.rows.toNat, ¬Broken extent cells r) := by
  let row (r : Nat) := trimmed extent cells (number extent r) (displays cells r)
  let rows := (List.range extent.rows.toNat).map row
  have whole : (render extent cells).toList = trimmed extent cells (corner extent) letters ++
      '\n' :: rows.flatMap (· ++ ['\n']) := by
    have each : extent.rowRange.flatMap (Table.row extent cells (widths extent cells)) =
        rows.flatMap (· ++ ['\n']) := by
      rw [Extent.rowRange, List.flatMap_map, List.flatMap_map]
      exact List.flatMap_congr fun r member => row_eq (List.mem_range.mp member)
    simp only [render, String.toList_ofList, header_eq, each, List.append_assoc,
      List.singleton_append]
  have broken (r : Nat) : '\n' ∈ row r ↔ Broken extent cells r :=
    newline_trimmed (newline_number r)
  refine ⟨fun c w => width_le_iff extent cells,
    ⟨_, rows, whole, newline_header, ?_, ?_, fun r line found => ?_⟩, ?_⟩
  · rw [List.length_map, List.length_range]
  · exact aligned List.length_replicate (letter_fits extent cells) corner_begins
  · obtain ⟨bound, rfl⟩ := List.getElem?_eq_some_iff.mp found
    have inside : r < extent.rows.toNat := by simpa [rows] using bound
    have same : rows[r] = row r := by simp [rows]
    rw [same]
    exact ⟨aligned (length_number inside) (fun c => display_fits extent cells inside)
      (number_begins ..), broken r⟩
  · have none : (rows.map (List.count '\n')).sum = 0 ↔
        ∀ r < extent.rows.toNat, ¬Broken extent cells r := by
      rw [List.sum_eq_zero_iff_forall_eq_nat]
      simp [rows, List.count_eq_zero, broken]
    rw [whole, ← none, List.count_append, List.count_cons_self, count_newline,
      List.count_eq_zero.mpr newline_header, List.length_map, List.length_range]
    omega

/-- A text with a line break has another text behind it in the only row of a table. -/
theorem render_layout_broken :
    let extent : Extent := ⟨1, 2, by decide, by decide, by decide⟩
    let blank : Sheet := .blank ⟨extent, .linear, .zero, evaluate⟩
    let sheet := (blank.commit ⟨0, 0⟩ "a \nb" (by decide)).commit ⟨0, 1⟩ "x" (by decide)
    start extent sheet.cells 1 = 7 ∧ Broken extent sheet.cells 0 ∧
    ∃ line, Aligned extent sheet.cells (number extent 0) (displays sheet.cells 0) line ∧
      '\n' ∈ line := by
  intro extent blank sheet
  have broken : Broken extent sheet.cells 0 :=
    ⟨"a ".toList, "bx".toList, by decide +kernel, 'b', by decide, by decide⟩
  obtain ⟨_, ⟨header, rows, _, _, length, _, each⟩, _⟩ := render_layout extent sheet.cells
  obtain ⟨line, rfl⟩ : ∃ line, rows = [line] := List.length_eq_one_iff.mp length
  obtain ⟨aligned, breaks⟩ := each 0 line rfl
  exact ⟨by decide +kernel, broken, line, aligned, breaks.mpr broken⟩

/-- The table is not one line more than it has rows. -/
theorem render_second_line :
    let extent : Extent := ⟨1, 2, by decide, by decide, by decide⟩
    let blank : Sheet := .blank ⟨extent, .linear, .zero, evaluate⟩
    let sheet := (blank.commit ⟨0, 0⟩ "a \nb" (by decide)).commit ⟨0, 1⟩ "x" (by decide)
    render extent sheet.cells = "  A    B\n1 a \nb x\n" ∧
      (render extent sheet.cells).toList.count '\n' ≠ extent.rows.toNat + 1 := by
  decide +kernel

end Table

end Worksheet
