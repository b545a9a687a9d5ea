import Worksheet.Proofs.Formula.NormalForm
import Worksheet.Proofs.Number.Digits
import Worksheet.Proofs.Number.Rounding

/-! What number literals denote. The grammar of literals is told with the number that each denotes,
apart from how a text is split. A literal is read wherever one begins, as the longest one there, and
what is written for it denotes the same number with digits on both sides of a point. -/
namespace Worksheet.Formula

open Numeral (Writes)

/-- An exponent that scales by this power of ten: none, or a letter, perhaps a sign, and digits. -/
inductive Scales : List Char → ℤ → Prop where
  | absent : Scales [] 0
  | unsigned {e : Char} {digits : List Char} {n : ℕ} : e = 'e' ∨ e = 'E' → Writes digits n →
      Scales (e :: digits) n
  | plus {e : Char} {digits : List Char} {n : ℕ} : e = 'e' ∨ e = 'E' → Writes digits n →
      Scales (e :: '+' :: digits) n
  | minus {e : Char} {digits : List Char} {n : ℕ} : e = 'e' ∨ e = 'E' → Writes digits n →
      Scales (e :: '-' :: digits) (-n)

/-- A literal and the number that it denotes: digits, perhaps with a point and perhaps digits behind
that, or else a point with digits behind it, and in each case perhaps an exponent. -/
inductive Denotes : List Char → ℚ → Prop where
  | integral {whole exponent : List Char} {n : ℕ} {k : ℤ} : Writes whole n → Scales exponent k →
      Denotes (whole ++ exponent) (n * 10 ^ k)
  | pointed {whole fraction exponent : List Char} {n : ℕ} {k : ℤ} : Writes whole n →
      (∀ d ∈ fraction, d.isDigit) → Scales exponent k →
      Denotes (whole ++ '.' :: fraction ++ exponent)
        ((n + Numeral.value fraction / 10 ^ fraction.length) * 10 ^ k)
  | fractional {fraction exponent : List Char} {m : ℕ} {k : ℤ} : Writes fraction m →
      Scales exponent k →
      Denotes ('.' :: fraction ++ exponent) (m / 10 ^ fraction.length * 10 ^ k)

/-- A literal with digits on both sides of a point. -/
inductive Floating : List Char → Prop where
  | pointed {whole fraction exponent : List Char} {n m : ℕ} {k : ℤ} : Writes whole n →
      Writes fraction m → Scales exponent k → Floating (whole ++ '.' :: fraction ++ exponent)

variable {exponent cs rest t : List Char} {k : ℤ} {v w : ℚ}

namespace Scales

theorem form (h : Scales exponent k) : Literal.Exponent exponent := by
  cases h with
  | absent => exact .absent
  | unsigned letter writes => exact .unsigned letter writes.filled writes.digit
  | plus letter writes => exact .signed letter rfl writes.filled writes.digit
  | minus letter writes => exact .signed letter rfl writes.filled writes.digit

theorem power (h : Scales exponent k) : Literal.power exponent = k := by
  cases h with
  | absent => rfl
  | unsigned letter writes =>
    obtain ⟨d, digits, rfl⟩ := List.exists_cons_of_ne_nil writes.filled
    have digit := writes.digit d List.mem_cons_self
    rw [Literal.power, List.drop_one, List.tail_cons, ← writes.value]
    split
    next same =>
      obtain rfl := (List.cons.inj same).1
      exact absurd digit (by decide)
    next same =>
      obtain rfl := (List.cons.inj same).1
      exact absurd digit (by decide)
    next => rfl
  | plus _ writes =>
    rw [← writes.value]
    rfl
  | minus _ writes =>
    rw [← writes.value]
    rfl

end Scales

theorem Literal.Exponent.scales (h : Literal.Exponent exponent) :
    Scales exponent (Literal.power exponent) := by
  have writes {digits : List Char} (filled : digits ≠ []) (digit : ∀ d ∈ digits, d.isDigit) :
      Writes digits (Numeral.value digits) := ⟨filled, digit, rfl⟩
  suffices scales : ∃ k, Scales exponent k by
    obtain ⟨k, scales⟩ := scales
    rwa [scales.power]
  cases h with
  | absent => exact ⟨_, .absent⟩
  | unsigned letter filled digit => exact ⟨_, .unsigned letter (writes filled digit)⟩
  | signed letter sign filled digit =>
    rcases Literal.isSign_iff.mp sign with rfl | rfl
    · exact ⟨_, .plus letter (writes filled digit)⟩
    · exact ⟨_, .minus letter (writes filled digit)⟩

namespace Literal

variable {l : Literal}

structure Numeric (l : Literal) : Prop where
  form : l.WellFormed
  digit : l.whole ≠ [] ∨ l.fraction.getD [] ≠ []

theorem value_decimal (l : Literal) :
    l.decimal.value = (Numeral.value l.whole +
      Numeral.value (l.fraction.getD []) / 10 ^ (l.fraction.getD []).length) *
        10 ^ power l.exponent := by
  have ten : (10 : ℚ) ≠ 0 := by norm_num
  simp only [Decimal.value, decimal, Numeral.value, Nat.ofDigitChars_append]
  rw [Nat.ofDigitChars_eq_ofDigitChars_zero, zpow_sub₀ ten, zpow_natCast]
  push_cast
  field_simp

theorem Numeric.denotes (h : l.Numeric) : Denotes l.source l.decimal.value := by
  have scales := h.form.exponent.scales
  have whole (filled : l.whole ≠ []) : Writes l.whole (Numeral.value l.whole) :=
    ⟨filled, h.form.whole, rfl⟩
  rw [value_decimal]
  cases fraction : l.fraction with
  | none =>
    have filled : l.whole ≠ [] := h.digit.resolve_right fun other => other (by simp [fraction])
    simpa [source, fraction] using Denotes.integral (whole filled) scales
  | some digits =>
    have digit := h.form.fraction digits fraction
    by_cases none : l.whole = []
    · have filled : digits ≠ [] := by simpa [none, fraction] using h.digit
      have denotes := Denotes.fractional ⟨filled, digit, rfl⟩ scales
      simpa [source, fraction, none] using denotes
    · simpa [source, fraction] using Denotes.pointed (whole none) digit scales

theorem exists_numeric (h : Denotes t v) :
    ∃ l : Literal, l.Numeric ∧ l.source = t ∧ l.decimal.value = v := by
  cases h with
  | @integral whole exponent _ _ writes scales =>
    refine ⟨⟨whole, none, exponent⟩, ⟨⟨?_, writes.digit, ?_, scales.form⟩, ?_⟩, ?_, ?_⟩
    · exact .inl writes.filled
    · simp
    · exact .inl writes.filled
    · simp [source]
    · simp [value_decimal, writes.value, scales.power]
  | @pointed whole fraction exponent _ _ writes digit scales =>
    refine ⟨⟨whole, some fraction, exponent⟩, ⟨⟨?_, writes.digit, ?_, scales.form⟩, ?_⟩, ?_, ?_⟩
    · exact .inl writes.filled
    · rintro _ ⟨⟩
      exact digit
    · exact .inl writes.filled
    · simp [source]
    · simp [value_decimal, writes.value, scales.power]
  | @fractional fraction exponent _ _ writes scales =>
    refine ⟨⟨[], some fraction, exponent⟩, ⟨⟨?_, ?_, ?_, scales.form⟩, ?_⟩, ?_, ?_⟩
    · exact .inr ⟨fraction, rfl⟩
    · simp
    · rintro _ ⟨⟩
      exact writes.digit
    · exact .inr writes.filled
    · simp [source]
    · simp [value_decimal, writes.value, scales.power]

/-- Where a literal starts there is a digit before or behind its point. -/
theorem split_numeric (h : starts cs) : (split cs).1.Numeric := by
  refine ⟨split_wellFormed h, ?_⟩
  cases cs with
  | nil => simp [starts] at h
  | cons c rest =>
    rcases Bool.or_eq_true_iff.mp h with digit | point
    · exact .inl (by simp [split, digit])
    · obtain ⟨point, behind⟩ := Bool.and_eq_true_iff.mp point
      obtain rfl := of_decide_eq_true point
      exact .inr (takeWhile_ne_nil behind)

theorem Numeric.starts (h : l.Numeric) (rest : List Char) : starts (l.source ++ rest) := by
  by_cases filled : l.whole = []
  · have behind := h.digit.resolve_left fun other => other filled
    cases fraction : l.fraction with
    | none => simp [fraction] at behind
    | some digits =>
      obtain ⟨d, digits, rfl⟩ := List.exists_cons_of_ne_nil (by simpa [fraction] using behind)
      have digit := h.form.fraction _ fraction d List.mem_cons_self
      simp [source, filled, fraction, Literal.starts, startsDigit, digit]
  · exact h.form.starts filled rest

/-- A literal starts exactly where one of the grammar is in front. -/
theorem starts_iff : starts cs ↔ ∃ t v, t <+: cs ∧ Denotes t v := by
  constructor
  · intro starts
    exact ⟨_, _, ⟨_, split_append cs⟩, (split_numeric starts).denotes⟩
  · rintro ⟨t, v, ⟨rest, rfl⟩, denotes⟩
    obtain ⟨l, numeric, rfl, _⟩ := exists_numeric denotes
    exact numeric.starts rest

end Literal

theorem Denotes.value_split (h : Denotes t v) : (Literal.split t).1.decimal.value = v := by
  obtain ⟨l, numeric, rfl, rfl⟩ := Literal.exists_numeric h
  have alone : Literal.split (l.source ++ []) = (l, []) := numeric.form.split (by simp [Apart])
  rw [List.append_nil] at alone
  rw [alone]

theorem Denotes.unique (h : Denotes t v) (h' : Denotes t w) : v = w :=
  h.value_split.symm.trans h'.value_split

namespace Literal

variable {l : Literal}

theorem length_splitFraction (cs : List Char) : (splitFraction cs).2.length ≤ cs.length := by
  have whole := congrArg List.length (splitFraction_append cs)
  rw [List.length_append] at whole
  omega

theorem length_splitExponent (cs : List Char) : (splitExponent cs).2.length ≤ cs.length := by
  have whole := congrArg List.length (splitExponent_append cs)
  rw [List.length_append] at whole
  omega

theorem dropWhile_front {front : List Char} (stop : ∀ c ∈ front.head?, c.isDigit = false)
    (rest : List Char) : ∃ rest', (front ++ rest).dropWhile Char.isDigit = front ++ rest' ∧
      rest'.length ≤ rest.length := by
  cases front with
  | nil => exact ⟨_, rfl, dropWhile_length Char.isDigit rest⟩
  | cons c front => exact ⟨rest, by simp [stop c rfl], le_rfl⟩

theorem Exponent.length_split (h : Exponent exponent) (rest : List Char) :
    (splitExponent (exponent ++ rest)).2.length ≤ rest.length := by
  by_cases absent : exponent = []
  · rw [absent]
    exact length_splitExponent rest
  · rw [h.split_digits absent]
    exact dropWhile_length Char.isDigit rest

theorem Exponent.stop (h : Exponent exponent) :
    ∀ c ∈ exponent.head?, c.isDigit = false ∧ c ≠ '.' := by
  have stop : ∀ c ∈ (exponent ++ []).head?, c.isDigit = false ∧ c ≠ '.' := h.head (by simp [Apart])
  rwa [List.append_nil] at stop

theorem length_split_fraction {fraction : Option (List Char)}
    (digit : ∀ digits, fraction = some digits → ∀ d ∈ digits, d.isDigit) (h : Exponent exponent)
    (rest : List Char) :
    (splitExponent (splitFraction
      ((fraction.map ('.' :: ·)).getD [] ++ (exponent ++ rest))).2).2.length ≤ rest.length := by
  cases fraction with
  | some digits =>
    have left : (digits ++ (exponent ++ rest)).dropWhile Char.isDigit =
        (exponent ++ rest).dropWhile Char.isDigit :=
      List.dropWhile_append_of_pos (digit digits rfl)
    obtain ⟨rest', behind, shorter⟩ := dropWhile_front (fun c first => (h.stop c first).1) rest
    have split : (splitFraction ('.' :: (digits ++ (exponent ++ rest)))).2 = exponent ++ rest' := by
      rw [splitFraction, left, behind]
    rw [Option.map_some, Option.getD_some, List.cons_append, split]
    exact (h.length_split rest').trans shorter
  | none =>
    rw [Option.map_none, Option.getD_none, List.nil_append]
    by_cases absent : exponent = []
    · rw [absent]
      exact (length_splitExponent _).trans (length_splitFraction rest)
    · have split : splitFraction (exponent ++ rest) = (none, exponent ++ rest) := by
        obtain ⟨c, exponent, rfl⟩ := List.exists_cons_of_ne_nil absent
        rw [splitFraction]
        rintro _ same
        exact (h.stop c rfl).2 (List.cons.inj same).1
      rw [split]
      exact h.length_split rest

theorem WellFormed.length_split (h : l.WellFormed) (rest : List Char) :
    (Literal.split (l.source ++ rest)).2.length ≤ rest.length := by
  let front := (l.fraction.map ('.' :: ·)).getD [] ++ l.exponent
  have stop : ∀ c ∈ front.head?, c.isDigit = false := by
    cases fraction : l.fraction with
    | none => simpa [front, fraction] using fun c first => (h.exponent.stop c first).1
    | some digits => simp [front, fraction]
  obtain ⟨rest', behind, shorter⟩ := dropWhile_front stop rest
  have left : (l.source ++ rest).dropWhile Char.isDigit = front ++ rest' := by
    rw [source, List.append_assoc, List.append_assoc, List.dropWhile_append_of_pos h.whole,
      ← List.append_assoc]
    exact behind
  have split : (Literal.split (l.source ++ rest)).2 =
      (splitExponent (splitFraction (front ++ rest')).2).2 := by
    rw [← left]
    rfl
  rw [split, List.append_assoc]
  exact (length_split_fraction h.fraction h.exponent rest').trans shorter

/-- The literal that is split off is the longest one in front of the text. -/
theorem longest (front : t <+: cs) (denotes : Denotes t v) :
    t.length ≤ (split cs).1.source.length := by
  obtain ⟨l, numeric, rfl, _⟩ := exists_numeric denotes
  obtain ⟨rest, rfl⟩ := front
  have shorter := numeric.form.length_split rest
  have whole := congrArg List.length (split_append (l.source ++ rest))
  rw [List.length_append, List.length_append] at whole
  omega

theorem writes_orZero {digits : List Char} (digit : ∀ d ∈ digits, d.isDigit) :
    Writes (orZero digits) (Numeral.value digits) := by
  refine ⟨orZero_ne_nil digits, orZero_digits digit, ?_⟩
  cases digits <;> rfl

theorem WellFormed.floating (h : l.WellFormed) : Floating l.normal := by
  refine .pointed (writes_orZero h.whole) (writes_orZero ?_) h.exponent.scales
  cases fraction : l.fraction with
  | none => simp
  | some digits => exact h.fraction digits fraction

/-- The zeros that are written on an empty side of the point count nothing. -/
theorem value_canonical (l : Literal) : l.canonical.decimal.value = l.decimal.value := by
  have zero (digits : List Char) : Numeral.value (orZero digits) = Numeral.value digits := by
    cases digits <;> rfl
  have behind (digits : List Char) :
      (Numeral.value (orZero digits) / 10 ^ (orZero digits).length : ℚ) =
        Numeral.value digits / 10 ^ digits.length := by
    cases digits with
    | nil => simp [zero]
    | cons => rfl
  simp only [value_decimal, canonical, Option.getD_some]
  rw [zero, behind]

theorem Numeric.denotes_normal (h : l.Numeric) : Denotes l.normal l.decimal.value := by
  have numeric : l.canonical.Numeric := ⟨h.form.canonical, .inl (orZero_ne_nil _)⟩
  rw [← source_canonical, ← value_canonical]
  exact numeric.denotes

end Literal

namespace Lexeme

variable {part : Part} {source : List Char} {lexeme : Lexeme} {d : Char}

/-- Where a literal starts the step reads it. -/
theorem Reads.eq_number (h : Reads cs part rest) (starts : Literal.starts cs) :
    part = ⟨(Literal.split cs).1.source, some (.number (Literal.split cs).1)⟩ := by
  cases cs with
  | nil => simp [Literal.starts] at starts
  | cons c behind =>
    have same := h.eq_first.symm.trans (Reads.number starts).eq_first
    exact congrArg Prod.fst same

theorem Reads.number_of_digit (h : Reads cs part rest) (first : d ∈ part.source.head?)
    (digit : d.isDigit) :
    ∃ l, part = ⟨l.source, some (.number l)⟩ := by
  have starts : Literal.starts cs := by
    obtain ⟨behind, source⟩ := List.head?_eq_some_iff.mp first
    rw [← h.append, source]
    simp [Literal.starts, digit]
  exact ⟨_, h.eq_number starts⟩

theorem Reads.text_digit (h : Reads cs ⟨source, some lexeme⟩ rest)
    (first : d ∈ lexeme.text.head?) (digit : d.isDigit) : ∃ l, lexeme = .number l := by
  cases h with
  | number => exact ⟨_, rfl⟩
  | quoted =>
    obtain rfl := Option.some.inj first
    exact absurd digit (by decide)
  | name _ start =>
    obtain rfl := Option.some.inj first
    exact absurd start (not_isNameStart_of_isDigit digit)
  | power =>
    obtain rfl := Option.some.inj first
    exact absurd digit (by decide)
  | double _ double =>
    obtain rfl := Option.some.inj first
    exact absurd (isNameChar_iff.mpr (.inr digit)) (doubleOperators_plain double (by simp)).1
  | single _ _ _ starts =>
    obtain rfl := Option.some.inj first
    exact absurd (by simp [Literal.starts, digit]) starts

theorem exists_reads (member : lexeme ∈ scan cs) :
    ∃ cs source rest, Reads cs ⟨source, some lexeme⟩ rest := by
  rw [← filterMap_lexeme_parts] at member
  obtain ⟨⟨source, _⟩, member, rfl⟩ := List.mem_filterMap.mp member
  obtain ⟨front, back, steps⟩ := List.append_of_mem member
  exact ⟨_, source, _, parts_at steps⟩

section

variable {l : Literal}

theorem Reads.numeric (h : Reads cs ⟨source, some (.number l)⟩ rest) : l.Numeric := by
  cases h with
  | number starts => exact Literal.split_numeric starts

theorem Reads.longest (h : Reads cs ⟨source, some (.number l)⟩ rest) (front : t <+: cs)
    (denotes : Denotes t v) : t.length ≤ source.length := by
  cases h with
  | number => exact Literal.longest front denotes

/-- In a normal form every literal stands as it is written for one of the expression. -/
theorem exists_normal (member : .number l ∈ scan (spaced (scan cs))) :
    ∃ read, .number read ∈ scan cs ∧ l.source = read.normal := by
  rw [scan_spaced] at member
  obtain ⟨lexeme, scanned, same⟩ := List.mem_map.mp member
  cases lexeme with
  | number read =>
    obtain rfl := Lexeme.number.inj same
    exact ⟨read, scanned, read.source_canonical⟩
  | _ => cases same

end

theorem floating_of_digit (member : lexeme ∈ scan cs) (first : d ∈ lexeme.text.head?)
    (digit : d.isDigit) : Floating lexeme.text := by
  obtain ⟨_, _, _, reads⟩ := exists_reads member
  obtain ⟨l, rfl⟩ := reads.text_digit first digit
  exact reads.numeric.form.floating

end Lexeme

open Lexeme (Part)

/-- Numbers are read whole and keep their value. A literal is read wherever one begins, and it is
the longest one there. It is written with digits on both sides of a point, and denotes the same
number as before. Nothing else in a normal form begins with a digit, also when the normal form is
read. -/
theorem numbers_exact (expression : String) :
    let parts := Lexeme.parts expression.toList
    let tokens := (parts.filterMap Part.lexeme?).map Lexeme.text
    (parts.flatMap Part.source = expression.toList ∧
      normalize expression = .ofList ([' '].intercalate tokens)) ∧
    (∀ before source l after, parts = before ++ ⟨source, some (.number l)⟩ :: after →
      (∃ v, Denotes source v ∧ Denotes (Lexeme.number l).text v) ∧
      Floating (Lexeme.number l).text ∧
      ∀ t v, t <+: source ++ after.flatMap Part.source → Denotes t v →
        t.length ≤ source.length) ∧
    (∀ before part after, parts = before ++ part :: after →
      (∃ t v, t <+: part.source ++ after.flatMap Part.source ∧ Denotes t v) →
      ∃ l, part.lexeme? = some (.number l)) ∧
    (∀ t v w, Denotes t v → Denotes t w → v = w) ∧
    (∀ token ∈ tokens, ∀ d ∈ token.head?, d.isDigit → Floating token) ∧
    ∀ part ∈ Lexeme.parts (normalize expression).toList, ∀ d ∈ part.source.head?, d.isDigit →
      Floating part.source := by
  intro parts tokens
  have lexemes : parts.filterMap Part.lexeme? = Lexeme.scan expression.toList :=
    Lexeme.filterMap_lexeme_parts _
  refine ⟨⟨Lexeme.flatMap_source_parts _, ?_⟩, fun before source l after steps => ?_,
    fun before part after steps front => ?_, fun t v w => Denotes.unique,
    fun token member d first digit => ?_, fun part member d first digit => ?_⟩
  · rw [normalize, ← lexemes]
  · have reads := Lexeme.parts_at steps
    obtain ⟨rfl, _⟩ := reads.number_whole
    exact ⟨⟨_, reads.numeric.denotes, reads.numeric.denotes_normal⟩, reads.numeric.form.floating,
      fun t v => reads.longest⟩
  · have reads := Lexeme.parts_at steps
    rw [reads.eq_number (Literal.starts_iff.mpr front)]
    exact ⟨_, rfl⟩
  · obtain ⟨lexeme, read, rfl⟩ := List.mem_map.mp member
    rw [lexemes] at read
    exact Lexeme.floating_of_digit read first digit
  · obtain ⟨before, after, steps⟩ := List.append_of_mem member
    obtain ⟨l, rfl⟩ := (Lexeme.parts_at steps).number_of_digit first digit
    have again : .number l ∈ Lexeme.scan (normalize expression).toList := by
      rw [← Lexeme.filterMap_lexeme_parts]
      exact List.mem_filterMap.mpr ⟨_, member, rfl⟩
    rw [normalize_eq, String.toList_ofList] at again
    obtain ⟨read, scanned, same⟩ := Lexeme.exists_normal again
    obtain ⟨_, _, _, reads⟩ := Lexeme.exists_reads scanned
    rw [same]
    exact reads.numeric.form.floating

/-- The first exponent has no digits and is none. The second literal is a fraction alone. -/
theorem numbers_exact_exponents :
    let l : Literal := ⟨[], some ['5'], ['E', '7']⟩
    let part : Part := ⟨['.', '5', 'E', '7'], some (.number l)⟩
    let before : List Part := [⟨['1'], some (.number ⟨['1'], none, []⟩)⟩,
      ⟨['e'], some (.name ['e'])⟩, ⟨['+'], some (.operator ['+'])⟩]
    let text := (Lexeme.number l).text
    Lexeme.parts "1e+.5E7".toList = before ++ [part] ∧ normalize "1e+.5E7" = "1.0 e + 0.5E7" ∧
    text = ['0', '.', '5', 'E', '7'] ∧ Denotes part.source 5000000 ∧ Denotes text 5000000 ∧
    Floating text ∧ ['.', '5'].length ≤ part.source.length ∧
    (∃ l, part.lexeme? = some (.number l)) ∧ Floating ['1', '.', '0'] ∧
    ∃ part ∈ Lexeme.parts "1.0 e + 0.5E7".toList, Floating part.source := by
  intro l part before text
  have steps : Lexeme.parts "1e+.5E7".toList = before ++ [part] := by decide +kernel
  have normal : normalize "1e+.5E7" = "1.0 e + 0.5E7" := by decide +kernel
  have five : Writes ['5'] 5 := ⟨by simp, List.forall_mem_singleton.mpr rfl, rfl⟩
  have seven : Writes ['7'] 7 := ⟨by simp, List.forall_mem_singleton.mpr rfl, rfl⟩
  have own : Denotes part.source 5000000 := by
    have denotes := Denotes.fractional five (.unsigned (.inr rfl) seven)
    norm_num at denotes
    exact denotes
  have half : Denotes ['.', '5'] (5 / 10 ^ 1 * 10 ^ 0) := .fractional five .absent
  obtain ⟨_, numbers, begins, unique, tokens, again⟩ := numbers_exact "1e+.5E7"
  obtain ⟨⟨v, read, written⟩, floating, longest⟩ := numbers before _ l [] steps
  obtain rfl := unique _ _ _ read own
  rw [normal] at again
  refine ⟨steps, normal, rfl, own, written, floating, longest _ _ ⟨['E', '7'], rfl⟩ half,
    begins before part [] steps ⟨_, _, ⟨['E', '7'], rfl⟩, half⟩, ?_, ?_⟩
  · rw [steps] at tokens
    exact tokens ['1', '.', '0'] (by decide) '1' rfl rfl
  · have member : (⟨['1', '.', '0'], some (.number ⟨['1'], some ['0'], []⟩)⟩ : Part) ∈
        Lexeme.parts "1.0 e + 0.5E7".toList := by decide +kernel
    exact ⟨_, member, again _ member '1' rfl rfl⟩

end Worksheet.Formula
