import Worksheet.Proofs.Formula.Reference
import Worksheet.Proofs.Number.ReadBack
import Worksheet.Proofs.Position
import Worksheet.Proofs.Recalculation.Evaluation

/-! Numbers pass from cell to cell unchanged. A formula that is a single reference evaluates the
text that its cell is shown as, and shows the number that it was. -/
namespace Worksheet

open Formula (DecimalNumeral Piece Run isNameChar isNameChar_iff isNameStart_of_isUpper)

namespace Formula

variable {label : String} {p : Position}

theorem pieces_label (found : Position.ofLabel? label = some p) :
    pieces label = [.reference label.toList 0] := by
  obtain ⟨⟨c, digits, same, upper, _, filled, digit, _⟩, _⟩ :=
    Position.ofLabel?_eq_some_iff.mp found
  have name : ∀ d ∈ digits, isNameChar d := fun d member =>
    isNameChar_iff.mpr (.inr (digit d member))
  have start := isNameStart_of_isUpper upper
  have runs : Run.scan (c :: digits) = [.name (c :: digits)] := by
    rw [(Run.Reads.name digits start).scan_eq, List.takeWhile_eq_self_iff.mpr name,
      List.dropWhile_eq_nil_iff.mpr name, Run.scan]
  have reference : (Run.name (c :: digits)).isReference :=
    Run.isReference_iff.mpr ⟨[c], digits, rfl, by simp, by simpa using upper, filled, digit⟩
  rw [pieces, same, runs, Piece.assemble, if_pos reference]
  rfl

theorem references_label (found : Position.ofLabel? label = some p) :
    references label = [label] := by
  simp [references, pieces_label found, Piece.label?]

theorem substitute_label (found : Position.ofLabel? label = some p) (value : String → String) :
    substitute value label = value label := by
  rw [substitute_eq_join, pieces_label found]
  simp [Piece.fill]

end Formula

/-- A formula that is one reference shows what its cell's display evaluates to. -/
theorem Rules.formulaDisplay_label {rules : Rules} {label display shown : String} {p : Position}
    {cells : Cells} (found : rules.extent.cell? label = some p) (stored : cells.display p = display)
    (filled : display ≠ "") (value : rules.evaluate display = .ok shown) :
    rules.formulaDisplay cells label = shown := by
  have position := (Option.filter_eq_some_iff.mp found).1
  have resolved : ¬rules.hasUnresolved label := by
    simp [hasUnresolved, Formula.references_label position, found]
  have reading : rules.reading? cells label = some display := by
    simp [reading?, found, stored, filled]
  rw [formulaDisplay, if_neg (fun strict => resolved strict.2),
    Formula.substitute_label position, reading, Option.getD_some, value]

namespace Number

open Formula (normalize)

theorem value_floating (n : DecimalNumeral) : n.floating.value = |n.value| := by
  have magnitude : n.floating.value =
      Nat.ofDigitChars 10 (n.whole ++ n.fraction.getD []) 0 / 10 ^ (n.fraction.getD []).length := by
    cases fraction : n.fraction with
    | none =>
      have zero (start : Nat) : Nat.ofDigitChars 10 ['0'] start = 10 * start := rfl
      simp [DecimalNumeral.value, DecimalNumeral.floating, fraction, Nat.ofDigitChars_append, zero]
    | some digits => simp [DecimalNumeral.value, DecimalNumeral.floating, fraction]
  change _ = |sign n.negative * _|
  rw [magnitude, abs_sign_mul, abs_of_nonneg (by positivity)]

/-- An evaluator that takes one float literal, behind a minus sign or alone, for the nearest float,
and shows that float. -/
def ReadsNumerals (evaluate : Evaluator) : Prop :=
  ∀ (expression : String) (negative : Bool) (m : DecimalNumeral) (x : Float),
    ¬m.negative → m.fraction.isSome →
    normalize expression = .ofList ((if negative then ['-', ' '] else []) ++ m.text) →
    x.isFinite → RoundsTo (sign negative * m.value) x → evaluate expression = .ok (display x)

theorem readsNumerals_evaluate : ReadsNumerals Worksheet.evaluate := by
  intro expression negative m x positive _ normal finite rounds
  obtain ⟨l, lexemes, same⟩ := Formula.scan_of_normalize positive normal
  have value : m.value = l.decimal.value := by
    rw [value_sign, same, sign, if_neg positive, one_mul]
  obtain ⟨number, shown⟩ := display_read finite (value ▸ rounds)
  rw [Worksheet.evaluate, evaluateText_signed lexemes]
  change Value.shown (.number (l.read negative)) = _
  rw [Value.shown, if_pos number, shown]

/-- The normal form of a numeral that a float is shown as is one float literal of the same value,
behind a minus sign if the float is below zero. -/
theorem exists_floating {x : Float} (finite : x.isFinite) : ∃ n, ReadsBack x n ∧
    ∃ m : DecimalNumeral, ¬m.negative ∧ m.fraction.isSome ∧ m.value = |n.value| ∧
      n.value = sign (value x < 0) * m.value ∧
      normalize (display x) = .ofList ((if value x < 0 then ['-', ' '] else []) ++ m.text) := by
  obtain ⟨negative, rank, bound, rfl⟩ := exists_ofSigned finite
  obtain ⟨n, shows⟩ := exists_shows negative bound
  have below := shows.negative_iff bound
  refine ⟨n, shows.readsBack bound, n.floating, by simp [DecimalNumeral.floating], rfl,
    value_floating n, ?_, ?_⟩
  · rw [value_floating, value_sign, abs_sign_mul, abs_of_nonneg n.literal.decimal.value_nonneg]
    simp only [← below, Bool.decide_eq_true]
  · rw [shows.text, n.normalize_text]
    simp only [below]

/-- A finite float is shown as a numeral that is rounded to it. No other float is shown so, but for
the two zeros; the normal form of the numeral is one float literal of the same value behind the
sign; and a formula that only refers to a cell that shows it shows it too, with every evaluator that
takes such a literal for the nearest float. -/
theorem display_reads_back (x : Float) (finite : x.isFinite) :
    (∃ n, ReadsBack x n ∧ ∃ m : DecimalNumeral, ¬m.negative ∧ m.fraction.isSome ∧
      m.value = |n.value| ∧
      normalize (display x) = .ofList ((if value x < 0 then ['-', ' '] else []) ++ m.text)) ∧
    (∀ y : Float, y.isFinite → display y = display x → y = x ∨ value y = 0 ∧ value x = 0) ∧
    (∀ (rules : Rules) (cells : Cells) (label : String) (p : Position),
      ReadsNumerals rules.evaluate →
      rules.extent.cell? label = some p → cells.display p = display x →
      rules.display cells ("=" ++ label) = display x) ∧
    ReadsNumerals evaluate := by
  obtain ⟨n, back, m, positive, point, same, value, normal⟩ := exists_floating finite
  refine ⟨⟨n, back, m, positive, point, same, normal⟩,
    fun y finite' => eq_of_display_eq finite finite', ?_, readsNumerals_evaluate⟩
  intro rules cells label p reads found stored
  have filled : display x ≠ "" := by
    obtain ⟨c, first, _⟩ := n.operand.starts
    intro none
    have empty : n.text = [] := String.ofList_injective (back.text.symm.trans none)
    simp [DecimalNumeral.operand, empty] at first
  have expression : Cell.expression? ("=" ++ label) = some label := by simp [Cell.expression?]
  rw [Rules.display, expression]
  refine Rules.formulaDisplay_label found stored filled ?_
  exact reads _ _ m x positive point (by simpa using normal) finite (value ▸ back.rounds)

/-- The float next to a negative tenth is shown as that tenth, and so is a reference to it. -/
theorem display_reads_back_tenth :
    let x := Float.ofBits 0xbfb999999999999a
    let rules : Rules :=
      ⟨⟨1, 2, by decide, by decide, by decide⟩, .dependency, .error, Worksheet.evaluate⟩
    let cells : Cells := OrderedMap.empty.insert ⟨0, 0⟩ (.literal "-0.1")
    x.isFinite ∧ (∃ n, ReadsBack x n ∧ n.text = ['-', '0', '.', '1'] ∧ n.Plain ∧
      RoundsTo n.value x) ∧ rules.display cells "=A1" = "-0.1" := by
  intro x rules cells
  have finite : x.isFinite := by decide +kernel
  have shown : display x = "-0.1" := by decide +kernel
  obtain ⟨⟨n, back, _⟩, _, formula, reads⟩ := display_reads_back x finite
  have text : n.text = ['-', '0', '.', '1'] :=
    String.ofList_injective (back.text.symm.trans shown)
  refine ⟨finite, ⟨n, back, text, back.plain, back.rounds⟩, ?_⟩
  rw [← shown]
  exact formula rules cells "A1" ⟨0, 0⟩ reads rfl (by rw [shown]; rfl)

end Number

end Worksheet
