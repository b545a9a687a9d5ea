import Worksheet.Proofs.Formula.Boundary

/-! Decimal numerals, which cells are shown as, and names: the operands that an expression can be
filled with. Each is scanned to the same lexemes wherever neither a name nor a number goes on. -/
namespace Worksheet.Formula

/-- Digits and perhaps a point with digits behind it, all behind a minus sign where the number is
negative. -/
structure DecimalNumeral where
  negative : Bool
  whole : List Char
  fraction : Option (List Char)
  whole_ne_nil : whole ≠ []
  whole_digits : ∀ d ∈ whole, d.isDigit
  fraction_ne_nil : fraction ≠ some []
  fraction_digits : ∀ digits ∈ fraction, ∀ d ∈ digits, d.isDigit

/-- What may follow an operand. -/
def Apart (rest : List Char) : Prop := ∀ c ∈ rest.head?, ¬isNameChar c ∧ c ≠ '.'

variable {rest : List Char} {c : Char}

theorem takeWhile_run {p : Char → Bool} {run : List Char} (all : ∀ c ∈ run, p c)
    (stop : ∀ c ∈ rest.head?, p c = false) :
    (run ++ rest).takeWhile p = run ∧ (run ++ rest).dropWhile p = rest :=
  run_unique List.takeWhile_append_dropWhile (fun _ => List.mem_takeWhile_imp) all
    (fun _ => head_dropWhile) stop

namespace Apart

theorem isNameChar (h : Apart rest) : ∀ c ∈ rest.head?, isNameChar c = false :=
  fun c first => Bool.eq_false_iff.mpr (h c first).1

theorem isDigit (h : Apart rest) : ∀ c ∈ rest.head?, c.isDigit = false :=
  fun c first => not_isDigit_of_not_isNameChar (h.isNameChar c first)

theorem splitExponent (h : Apart rest) : Literal.splitExponent rest = ([], rest) := by
  cases rest with
  | nil => rfl
  | cons e rest =>
    have other : ¬(e = 'e' ∨ e = 'E') := by
      rintro (rfl | rfl) <;> exact (h _ rfl).1 (by decide)
    simp only [Literal.splitExponent, if_neg other]

end Apart

namespace Literal

theorem Exponent.split {exponent : List Char} (h : Exponent exponent) (apart : Apart rest) :
    splitExponent (exponent ++ rest) = (exponent, rest) := by
  by_cases absent : exponent = []
  · subst absent
    exact apart.splitExponent
  · obtain ⟨taken, left⟩ : ([] ++ rest).takeWhile Char.isDigit = [] ∧
        ([] ++ rest).dropWhile Char.isDigit = rest := takeWhile_run (by simp) apart.isDigit
    rw [List.nil_append] at taken left
    rw [h.split_digits absent, taken, left, List.append_nil]

theorem Exponent.head {exponent : List Char} (h : Exponent exponent) (apart : Apart rest) :
    ∀ c ∈ (exponent ++ rest).head?, c.isDigit = false ∧ c ≠ '.' := by
  intro c first
  cases h with
  | absent => exact ⟨apart.isDigit c first, (apart c first).2⟩
  | unsigned letter =>
    obtain rfl := Option.some.inj first
    rcases letter with rfl | rfl <;> decide
  | signed letter =>
    obtain rfl := Option.some.inj first
    rcases letter with rfl | rfl <;> decide

/-- A literal is read back wherever neither a name nor a number goes on behind it. -/
theorem WellFormed.split {l : Literal} (h : l.WellFormed) (apart : Apart rest) :
    split (l.source ++ rest) = (l, rest) := by
  obtain ⟨whole, fraction, exponent⟩ := l
  have stop := h.exponent.head apart
  cases fraction with
  | none =>
    have none : splitFraction (exponent ++ rest) = (none, exponent ++ rest) := by
      rw [splitFraction]
      intro behind same
      exact (stop '.' (by simp [same])).2 rfl
    obtain ⟨taken, left⟩ := takeWhile_run h.whole fun c first => (stop c first).1
    have source : source ⟨whole, .none, exponent⟩ ++ rest = whole ++ (exponent ++ rest) := by
      simp [Literal.source]
    simp only [Literal.split, source, taken, left, none, h.exponent.split apart]
  | some digits =>
    have point : ∀ c ∈ ('.' :: (digits ++ (exponent ++ rest))).head?, c.isDigit = false := by simp
    obtain ⟨taken, left⟩ := takeWhile_run h.whole point
    obtain ⟨taken', left'⟩ := takeWhile_run (h.fraction digits rfl) fun c first => (stop c first).1
    have source : source ⟨whole, some digits, exponent⟩ ++ rest =
        whole ++ '.' :: (digits ++ (exponent ++ rest)) := by
      simp [Literal.source]
    simp only [Literal.split, source, taken, left, splitFraction, taken', left',
      h.exponent.split apart]

theorem WellFormed.starts {l : Literal} (h : l.WellFormed) (filled : l.whole ≠ [])
    (rest : List Char) : starts (l.source ++ rest) := by
  obtain ⟨c, whole, same⟩ := List.exists_cons_of_ne_nil filled
  have digit : c.isDigit := h.whole c (by simp [same])
  simp [source, same, Literal.starts, digit]

end Literal

namespace DecimalNumeral

def literal (n : DecimalNumeral) : Literal := ⟨n.whole, n.fraction, []⟩

def text (n : DecimalNumeral) : List Char :=
  (if n.negative then ['-'] else []) ++ n.literal.source

def lexemes (n : DecimalNumeral) : List Lexeme :=
  (if n.negative then [.operator ['-']] else []) ++ [.number n.literal]

theorem literal_wellFormed (n : DecimalNumeral) : n.literal.WellFormed where
  begins := .inl n.whole_ne_nil
  whole := n.whole_digits
  fraction := n.fraction_digits
  exponent := .absent

end DecimalNumeral

theorem scan_literal (n : DecimalNumeral) (apart : Apart rest) :
    Lexeme.scan (n.literal.source ++ rest) = .number n.literal :: Lexeme.scan rest := by
  have reads := Lexeme.Reads.number (n.literal_wellFormed.starts n.whole_ne_nil rest)
  rw [n.literal_wellFormed.split apart] at reads
  exact reads.scan

theorem scan_minus (rest : List Char) :
    Lexeme.scan ('-' :: rest) = .operator ['-'] :: Lexeme.scan rest := by
  have reads := Lexeme.Reads.single (c := '-') rest (by decide) (by decide)
    (by simp [Literal.starts]) (by decide) (by decide) (by simp [Lexeme.doubleOperators])
  exact reads.scan

/-- A text with the same lexemes wherever it is put. -/
structure Operand where
  text : List Char
  lexemes : List Lexeme
  starts : ∃ c ∈ text.head?, isNameChar c ∨ c = '-'
  scan_append : ∀ rest, Apart rest →
    Lexeme.scan (text ++ rest) = lexemes ++ Lexeme.scan rest

theorem Operand.unjoined (operand : Operand) (rest : List Char) :
    Lexeme.Unjoined (operand.text ++ rest) := by
  obtain ⟨c, first, starts⟩ := operand.starts
  apply Lexeme.unjoined_of_operand
  intro d found
  rw [List.head?_append, Option.mem_def.mp first] at found
  obtain rfl := Option.some.inj found
  exact starts

def DecimalNumeral.operand (n : DecimalNumeral) : Operand where
  text := n.text
  lexemes := n.lexemes
  starts := by
    obtain ⟨c, whole, same⟩ := List.exists_cons_of_ne_nil n.whole_ne_nil
    have digit : c.isDigit := n.whole_digits c (by simp [same])
    cases negative : n.negative with
    | true => exact ⟨'-', by simp [text, negative], .inr rfl⟩
    | false =>
      have first : c ∈ n.text.head? := by simp [text, negative, literal, Literal.source, same]
      exact ⟨c, first, .inl (isNameChar_iff.mpr (.inr digit))⟩
  scan_append rest apart := by
    cases negative : n.negative with
    | true => simp [text, lexemes, negative, scan_minus, scan_literal n apart]
    | false => simp [text, lexemes, negative, scan_literal n apart]

def Operand.name (c : Char) (chars : List Char) (start : isNameStart c)
    (name : ∀ c ∈ chars, isNameChar c) : Operand where
  text := c :: chars
  lexemes := [.name (c :: chars)]
  starts := ⟨c, rfl, .inl (isNameChar_iff.mpr (.inl start))⟩
  scan_append rest apart := by
    have reads := Lexeme.Reads.name (chars ++ rest) start
    obtain ⟨taken, left⟩ := takeWhile_run name apart.isNameChar
    rw [taken, left] at reads
    exact reads.scan

end Worksheet.Formula
