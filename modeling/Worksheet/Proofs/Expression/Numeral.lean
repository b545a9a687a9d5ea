import Worksheet.Expression.Evaluation
import Worksheet.Proofs.Formula.Denotation

/-! Expressions that are one number literal, perhaps behind a minus sign. The sign belongs to the
literal, and a decimal numeral is such an expression. -/
namespace Worksheet

namespace Formula

def Literal.signed (negative : Bool) (l : Literal) : List Lexeme :=
  (if negative then [.operator ['-']] else []) ++ [.number l]

/-- The number that a literal behind a sign is evaluated to. -/
def Literal.read (negative : Bool) (l : Literal) : Float :=
  if negative then -Number.ofDecimal l.decimal else Number.ofDecimal l.decimal

namespace DecimalNumeral

theorem scan_text (n : DecimalNumeral) : Lexeme.scan n.text = n.lexemes := by
  have alone := n.operand.scan_append [] (by simp [Apart])
  rwa [List.append_nil, Lexeme.scan.eq_1, List.append_nil] at alone

/-- The magnitude with digits behind the point, which is the form that makes it a float. -/
def floating (n : DecimalNumeral) : DecimalNumeral where
  negative := false
  whole := n.whole
  fraction := some (n.fraction.getD ['0'])
  whole_ne_nil := n.whole_ne_nil
  whole_digits := n.whole_digits
  fraction_ne_nil := by
    cases fraction : n.fraction with
    | none => simp
    | some digits => simpa [fraction] using n.fraction_ne_nil
  fraction_digits := by
    rintro _ ⟨⟩ d member
    cases fraction : n.fraction with
    | none =>
      rw [fraction, Option.getD_none, List.mem_singleton] at member
      rw [member]
      rfl
    | some digits => exact n.fraction_digits digits fraction d (by simpa [fraction] using member)

theorem normal_literal (n : DecimalNumeral) : n.literal.normal = n.floating.text := by
  cases fraction : n.fraction with
  | none =>
    simp [Literal.normal, Literal.orZero, Literal.source, literal, text, floating, fraction,
      n.whole_ne_nil]
  | some digits =>
    have filled : digits ≠ [] := by
      rintro rfl
      exact n.fraction_ne_nil fraction
    simp [Literal.normal, Literal.orZero, Literal.source, literal, text, floating, fraction,
      n.whole_ne_nil, filled]

/-- The normal form of a numeral is one float literal, behind its sign. -/
theorem normalize_text (n : DecimalNumeral) : normalize (.ofList n.text) =
    .ofList ((if n.negative then ['-', ' '] else []) ++ n.floating.text) := by
  rw [normalize, String.toList_ofList, n.scan_text, ← n.normal_literal]
  cases negative : n.negative <;> simp [lexemes, negative, Lexeme.text]

/-- Numerals are told apart by their texts. -/
theorem text_inj {n n' : DecimalNumeral} (same : n.text = n'.text) :
    n.negative = n'.negative ∧ n.literal = n'.literal := by
  have lexemes := n.scan_text
  rw [same, n'.scan_text] at lexemes
  cases negative : n.negative <;> cases negative' : n'.negative <;>
    simp_all [DecimalNumeral.lexemes]

end DecimalNumeral

theorem Literal.signed_of_canonical {negative : Bool} {l' : Literal} {lexemes : List Lexeme}
    (same : lexemes.map Lexeme.canonical = l'.signed negative) :
    ∃ l : Literal, lexemes = l.signed negative ∧ l.canonical = l' := by
  obtain ⟨front, back, rfl, signs, numbers⟩ := List.map_eq_append_iff.mp same
  obtain ⟨lexeme, rfl, number⟩ := List.map_eq_singleton_iff.mp numbers
  have sign : front = if negative then [.operator ['-']] else [] := by
    cases negative with
    | false => exact List.map_eq_nil_iff.mp signs
    | true =>
      obtain ⟨operator, rfl, minus⟩ := List.map_eq_singleton_iff.mp signs
      cases operator <;> cases minus
      rfl
  cases lexeme with
  | number l => exact ⟨l, by rw [sign, signed], Lexeme.number.inj number⟩
  | _ => cases number

/-- An expression whose normal form is a float literal behind a sign is a literal of the same value
behind that sign. -/
theorem scan_of_normalize {expression : String} {negative : Bool} {m : DecimalNumeral}
    (positive : ¬m.negative)
    (normal : normalize expression =
      .ofList ((if negative then ['-', ' '] else []) ++ m.text)) :
    ∃ l : Literal, Lexeme.scan expression.toList = l.signed negative ∧
      l.decimal.value = m.literal.decimal.value := by
  have own : Lexeme.scan m.text = [.number m.literal] := by
    rw [m.scan_text, DecimalNumeral.lexemes, if_neg positive, List.nil_append]
  have canonical : (Lexeme.scan expression.toList).map Lexeme.canonical =
      m.literal.signed negative := by
    rw [normalize_eq] at normal
    rw [← Lexeme.scan_spaced, String.ofList_injective normal]
    cases negative with
    | false => exact own
    | true =>
      change Lexeme.scan ('-' :: ' ' :: m.text) = _
      rw [scan_minus, Lexeme.scan_space, own]
      rfl
  obtain ⟨l, lexemes, same⟩ := Literal.signed_of_canonical canonical
  exact ⟨l, lexemes, by rw [← same, Literal.value_canonical]⟩

end Formula

open Formula (Literal)

namespace Grammar

open Expression (Token)

theorem operand_number (levels : Nat) (v : Float) :
    operand levels [.number v] = some (.number v, []) := by
  have literal : prefixOperator? (.number v) = none := rfl
  simp [operand, literal, primary, members]

theorem expression_number (levels : Nat) (v : Float) :
    expression levels [.number v] = some (.number v, []) := by
  simp [expression, operand_number, operators]

theorem expression_negative (levels : Nat) (v : Float) :
    expression (levels + 1) [.operator .subtract, .number v] = some (.number (-v), []) := by
  have sign : prefixOperator? (.operator .subtract) = some .negate := rfl
  have negative : operand (levels + 1) [.operator .subtract, .number v] =
      some (.number (-v), []) := by
    rw [operand, sign]
    simp [operand_number, Expression.applyPrefix]
  simp [expression, negative, operators]

theorem tokens_number (column : Nat) (l : Literal) :
    Token.ofLexemes? column [.number l] = some [.number (Number.ofDecimal l.decimal)] := by
  have plain : ¬Token.isBacktick (.number l) := by simp [Token.isBacktick]
  simp [Token.ofLexemes?, Token.isSpaceLiteral, plain, Token.ofLexeme?]

theorem tokens_negative (column : Nat) (l : Literal) :
    Token.ofLexemes? column [.operator ['-'], .number l] =
      some [.operator .subtract, .number (Number.ofDecimal l.decimal)] := by
  have plain : ¬Token.isBacktick (.operator ['-']) := by decide
  have sign : Token.ofLexeme? column (.operator ['-']) = some (.operator .subtract) := rfl
  rw [Token.ofLexemes?]
  simp [Token.isSpaceLiteral, plain, sign, tokens_number]

theorem parse?_signed (negative : Bool) (l : Literal) :
    parse? (l.signed negative) = some (.number (l.read negative)) := by
  cases negative with
  | true =>
    simp [parse?, Literal.signed, Literal.read, tokens_negative, maxLevel, expression_negative]
  | false => simp [parse?, Literal.signed, Literal.read, tokens_number, expression_number]

end Grammar

/-- A literal behind a sign is evaluated to the number that it is read as. -/
theorem evaluateText_signed {expression : String} {negative : Bool} {l : Literal}
    (lexemes : Formula.Lexeme.scan expression.toList = l.signed negative) :
    Expression.evaluateText expression = .ok (.number (l.read negative)) := by
  have parsed := Grammar.parse?_signed negative l
  obtain ⟨first, rest, filled⟩ : ∃ first rest, l.signed negative = first :: rest :=
    List.exists_cons_of_ne_nil (by simp [Literal.signed])
  rw [filled] at parsed lexemes
  simp [Expression.evaluateText, lexemes, parsed, Expression.value]

end Worksheet
