import Worksheet.Proofs.Formula.Lexeme
import Worksheet.Proofs.Formula.Reference

/-! Numbers and references in the same text. References are found by one reading of an expression
and numbers by another, and they agree but for one thing: an exponent with a capital E and no sign
is a reference too, unless a name goes on behind it. -/
namespace Worksheet.Formula

open Piece

namespace Literal

/-- The exponent is written like the label of a cell. -/
def ExponentIsLabel (l : Literal) : Prop :=
  ∃ digits, l.exponent = 'E' :: digits ∧ digits ≠ [] ∧ ∀ d ∈ digits, d.isDigit

theorem Exponent.tail {e c : Char} {rest : List Char} (h : Exponent (e :: rest))
    (member : c ∈ rest) : ¬c.isUpper := by
  have digit {digits : List Char} (all : ∀ d ∈ digits, d.isDigit) (member : c ∈ digits) :
      ¬c.isUpper := not_isUpper_of_isDigit (all c member)
  cases h with
  | unsigned _ _ digits => exact digit digits member
  | signed _ sign _ digits =>
    rcases List.mem_cons.mp member with rfl | member
    · intro upper
      rcases isSign_iff.mp sign with rfl | rfl <;> exact absurd upper (by decide)
    · exact digit digits member

/-- A label that begins with the letter of an exponent ends where the exponent does. -/
theorem Exponent.label {e : Char} {digits letters number rest rest' : List Char}
    (h : Exponent (e :: digits)) (upper : ∀ c ∈ e :: letters, c.isUpper) (filled : number ≠ [])
    (digit : ∀ d ∈ number, d.isDigit)
    (same : letters ++ (number ++ rest) = digits ++ rest')
    (stop : ∀ d ∈ rest.head?, d.isDigit = false) (stop' : ∀ d ∈ rest'.head?, d.isDigit = false) :
    e = 'E' ∧ letters = [] ∧ number = digits ∧ rest = rest' := by
  obtain ⟨upper, uppers⟩ := List.forall_mem_cons.mp upper
  have capital (letter : e = 'e' ∨ e = 'E') : e = 'E' := by
    refine letter.resolve_left ?_
    rintro rfl
    exact absurd upper (by decide)
  cases letters with
  | cons second letters =>
    have member : second ∈ digits := by
      cases h with
      | unsigned _ more =>
        obtain ⟨d, digits, rfl⟩ := List.exists_cons_of_ne_nil more
        simp [(List.cons.inj same).1]
      | signed => simp [(List.cons.inj same).1]
    exact absurd (uppers second List.mem_cons_self) (h.tail member)
  | nil =>
    rw [List.nil_append] at same
    cases h with
    | unsigned letter _ digits =>
      obtain ⟨numbers, rests⟩ := run_unique same digit digits stop stop'
      exact ⟨capital letter, rfl, numbers, rests⟩
    | signed _ sign =>
      obtain ⟨d, number, rfl⟩ := List.exists_cons_of_ne_nil filled
      have first := digit d List.mem_cons_self
      rw [(List.cons.inj same).1] at first
      rcases isSign_iff.mp sign with rfl | rfl <;> exact absurd first (by decide)

end Literal

variable {cs source : List Char} {l : Literal} {front back : List Run} {run : Run}
  {before after : List Lexeme.Part}

theorem Literal.WellFormed.capital (h : l.WellFormed) {c : Char} {left right : List Char}
    (upper : c.isUpper) (stands : l.source = left ++ c :: right) :
    left = l.mantissa ∧ l.exponent = c :: right := by
  rw [source_eq] at stands
  rcases List.append_eq_append_iff.mp stands with ⟨_ | ⟨e, more⟩, rfl, exponent⟩ |
    ⟨_ | ⟨d, more⟩, mantissa, rest⟩
  · exact ⟨by simp, exponent⟩
  · have h := h.exponent
    rw [exponent] at h
    exact absurd upper (h.tail (by simp))
  · exact ⟨by simpa using mantissa.symm, rest.symm⟩
  · obtain rfl : c = d := (List.cons.inj rest).1
    have member : c ∈ l.mantissa := by simp [mantissa]
    exact absurd (isNameStart_of_isUpper upper) (h.not_isNameStart member)

theorem Literal.ExponentIsLabel.isReference (h : l.ExponentIsLabel) :
    (Run.name l.exponent).isReference := by
  obtain ⟨digits, exponent, filled, digit⟩ := h
  exact Run.isReference_iff.mpr ⟨['E'], digits, by rw [exponent]; rfl, by simp,
    List.forall_mem_singleton.mpr (by decide), filled, digit⟩

theorem Literal.ExponentIsLabel.ne_nil (h : l.ExponentIsLabel) : l.exponent ≠ [] := by
  obtain ⟨digits, exponent, _⟩ := h
  simp [exponent]

theorem name_not_before (runs : Run.scan cs = front ++ run :: back)
    (name : ∀ c ∈ run.text, isNameChar c)
    (steps : Lexeme.parts cs = before ++ ⟨source, some (.number l)⟩ :: after)
    {shared rest : List Char} (earlier : shared ≠ []) (more : rest ≠ [])
    (begins : before.flatMap Lexeme.Part.source = front.flatMap Run.text ++ shared)
    (overlaps : run.text = shared ++ rest) : False := by
  obtain ⟨rfl, wellFormed, _⟩ := (Lexeme.parts_at steps).number_whole
  rw [overlaps] at name
  -- The number begins in the name, with a character that is not the first one there.
  obtain ⟨c, rest, rfl⟩ := List.exists_cons_of_ne_nil more
  obtain ⟨first, mantissa, number⟩ := List.exists_cons_of_ne_nil wellFormed.mantissa_ne_nil
  have same : c = first := by
    have whole := (Run.scan_whole runs).trans (Lexeme.parts_whole steps).symm
    rw [begins, overlaps, List.append_assoc, List.append_assoc, Literal.source_eq, number] at whole
    exact (List.cons.inj (List.append_cancel_left (List.append_cancel_left whole))).1
  subst same
  have last : shared.getLast earlier ∈ (before.flatMap Lexeme.Part.source).getLast? := by
    simp [begins, List.getLast?_eq_some_getLast earlier]
  have boundary : c.isDigit = false :=
    Lexeme.parts_boundary steps last (name _ (by simp)) c (by simp [Literal.source_eq, number])
  rcases wellFormed.mem_mantissa (number ▸ List.mem_cons_self) with digit | rfl
  · exact Bool.false_ne_true (boundary.symm.trans digit)
  · exact absurd (name '.' (by simp)) (by decide)

theorem reference_inside (runs : Run.scan cs = front ++ run :: back)
    (reference : run.isReference)
    (steps : Lexeme.parts cs = before ++ ⟨source, some (.number l)⟩ :: after)
    {left right : List Char} (more : right ≠ [])
    (begins : front.flatMap Run.text = before.flatMap Lexeme.Part.source ++ left)
    (overlaps : source = left ++ right) :
    run.text = l.exponent ∧ left = l.mantissa ∧ l.ExponentIsLabel ∧
      ∀ c ∈ (after.flatMap Lexeme.Part.source).head?, ¬isNameChar c := by
  obtain ⟨rfl, wellFormed, stop⟩ := (Lexeme.parts_at steps).number_whole
  obtain ⟨letters, number, rfl, filled, upper, filled', digit⟩ := Run.isReference_iff.mp reference
  obtain ⟨_, _, stop'⟩ := (Run.scan_at runs).name_maximal
  obtain ⟨c, letters, rfl⟩ := List.exists_cons_of_ne_nil filled
  obtain ⟨first, right, rfl⟩ := List.exists_cons_of_ne_nil more
  have whole := (Run.scan_whole runs).trans (Lexeme.parts_whole steps).symm
  rw [begins, overlaps, List.append_assoc, List.append_assoc, Run.text] at whole
  replace whole := List.append_cancel_left (List.append_cancel_left whole)
  simp only [List.cons_append, List.append_assoc, List.cons.injEq] at whole
  obtain ⟨rfl, whole⟩ := whole
  obtain ⟨mantissa, exponent⟩ := wellFormed.capital (upper c List.mem_cons_self) overlaps
  obtain ⟨rfl, rfl, rfl, behind⟩ := (exponent ▸ wellFormed.exponent).label upper filled'
    digit whole (fun d member => not_isDigit_of_not_isNameChar (stop' d member)) stop
  refine ⟨exponent.symm, mantissa, ⟨number, exponent, filled', digit⟩, ?_⟩
  rw [← behind]
  exact fun c member => Bool.eq_false_iff.mp (stop' c member)

/-- A name that goes on behind the mantissa of a number begins there. No letter is in a mantissa,
and a number is not in the middle of a name. -/
theorem name_begins_later {left right : List Char}
    (runs : Run.scan cs = front ++ .name (left ++ right) :: back)
    (steps : Lexeme.parts cs = before ++ ⟨source, some (.number l)⟩ :: after)
    (ends : front.flatMap Run.text ++ left = before.flatMap Lexeme.Part.source ++ l.mantissa) :
    left = [] := by
  obtain ⟨_, wellFormed, _⟩ := (Lexeme.parts_at steps).number_whole
  obtain ⟨⟨start, chars, head, isStart⟩, name, _⟩ := (Run.scan_at runs).name_maximal
  cases left with
  | nil => rfl
  | cons first left =>
    obtain rfl : first = start := (List.cons.inj head).1
    have letter (member : first ∈ l.mantissa) : False := wellFormed.not_isNameStart member isStart
    rcases List.append_eq_append_iff.mp ends with ⟨_ | ⟨c, shared⟩, begins, rest⟩ |
      ⟨between, _, rest⟩
    · exact (letter (by simp [← show _ = l.mantissa from rest])).elim
    · have earlier : c :: shared ≠ [] := List.cons_ne_nil c shared
      have more : l.mantissa ++ right ≠ [] := by simp [wellFormed.mantissa_ne_nil]
      have overlaps : first :: left ++ right = c :: shared ++ (l.mantissa ++ right) := by
        rw [rest, List.append_assoc]
      exact (name_not_before runs name steps earlier more begins overlaps).elim
    · exact (letter (by simp [rest])).elim

/-- An exponent that is written like a label is a reference, unless a name goes on behind it. -/
theorem exponent_reference
    (steps : Lexeme.parts cs = before ++ ⟨source, some (.number l)⟩ :: after)
    (label : l.ExponentIsLabel)
    (stop : ∀ c ∈ (after.flatMap Lexeme.Part.source).head?, ¬isNameChar c) :
    ∃ front back, Run.scan cs = front ++ .name l.exponent :: back ∧
      front.flatMap Run.text = before.flatMap Lexeme.Part.source ++ l.mantissa := by
  obtain ⟨rfl, wellFormed, _⟩ := (Lexeme.parts_at steps).number_whole
  obtain ⟨digits, exponent, _, digit⟩ := label
  have outside : Outside cs ('E' :: (digits ++ after.flatMap Lexeme.Part.source)) := by
    have number := Lexeme.parts_outside steps
    rw [List.flatMap_cons, Literal.source_eq, exponent, List.append_assoc] at number
    refine number.trans (.append (fun member => ?_) _)
    exact wellFormed.plain (List.mem_append_left _ member)
  obtain ⟨front, back, left, right, runs, rest⟩ := Run.scan_covers_name outside (by decide)
  obtain ⟨_, name, stop'⟩ := (Run.scan_at runs).name_maximal
  obtain ⟨rfl, behind⟩ := run_unique rest
    (fun d member => isNameChar_iff.mpr (.inr (digit d member)))
    (fun c member => name c (by simp [member]))
    (fun c member => Bool.eq_false_iff.mpr (stop c member)) stop'
  have whole : front.flatMap Run.text ++ left =
      before.flatMap Lexeme.Part.source ++ l.mantissa := by
    have whole := (Run.scan_whole runs).trans (Lexeme.parts_whole steps).symm
    rw [Literal.source_eq, exponent, behind, Run.text] at whole
    simp only [List.append_assoc] at whole
    rw [← List.append_assoc, ← List.append_assoc (before.flatMap _)] at whole
    exact List.append_cancel_right whole
  obtain rfl := name_begins_later runs steps whole
  exact ⟨front, back, exponent ▸ runs, by simpa using whole⟩

/-- Two parts of a text that share a byte, told by which of them begins first. -/
theorem overlap_cases {front first after before second behind : List Char}
    (whole : front ++ (first ++ after) = before ++ (second ++ behind))
    (starts : utf8Size front < utf8Size before + utf8Size second)
    (ends : utf8Size before < utf8Size front + utf8Size first) :
    (∃ shared rest, shared ≠ [] ∧ rest ≠ [] ∧ before = front ++ shared ∧
      first = shared ++ rest) ∨
      ∃ left right, right ≠ [] ∧ front = before ++ left ∧ second = left ++ right := by
  have filled {cs : List Char} (size : 0 < utf8Size cs) : cs ≠ [] := by
    rintro rfl
    exact Nat.lt_irrefl _ size
  rcases Nat.lt_or_ge (utf8Size front) (utf8Size before) with less | notLess
  · obtain ⟨shared, rfl, same⟩ := cut_behind whole less.le
    rw [utf8Size_append] at less ends
    obtain ⟨rest, rfl, _⟩ := cut_behind same.symm (by omega)
    rw [utf8Size_append] at ends
    exact .inl ⟨shared, rest, filled (by omega), filled (by omega), rfl, rfl⟩
  · obtain ⟨left, rfl, same⟩ := cut_behind whole.symm notLess
    rw [utf8Size_append] at starts
    obtain ⟨right, rfl, _⟩ := cut_behind same.symm (by omega)
    rw [utf8Size_append] at starts
    exact .inr ⟨left, right, filled (by omega), rfl, rfl⟩

/-- Numbers are taken for references in one case and in no other. A reference that touches a number
is its exponent. There is one if and only if the exponent is a capital E with digits and no sign,
and no name goes on behind the number. Otherwise the number is passed on as it was entered. -/
theorem reference_in_number (expression : String)
    (steps : Lexeme.parts expression.toList = before ++ ⟨source, some (.number l)⟩ :: after) :
    let start := utf8Size (before.flatMap Lexeme.Part.source)
    let stop := start + utf8Size source
    (∀ piece ∈ pieces expression, piece.Touches start stop →
      piece = .reference l.exponent (start + utf8Size l.mantissa)) ∧
    ((∃ piece ∈ pieces expression, piece.Touches start stop) ↔
      l.ExponentIsLabel ∧ ∀ c ∈ (after.flatMap Lexeme.Part.source).head?, ¬isNameChar c) ∧
    (Untouched start stop (pieces expression) →
      Verbatim (before.flatMap Lexeme.Part.source) source (pieces expression)) := by
  intro start stop
  have touched (piece : Piece) (member : piece ∈ pieces expression)
      (touches : piece.Touches start stop) :
      piece = .reference l.exponent (start + utf8Size l.mantissa) ∧
        l.ExponentIsLabel ∧ ∀ c ∈ (after.flatMap Lexeme.Part.source).head?, ¬isNameChar c := by
    cases piece with
    | text => exact touches.elim
    | reference label offset =>
      obtain ⟨front, run, back, runs, reference, rfl, rfl⟩ := reference_mem_assemble.mp member
      rw [Nat.zero_add] at touches ⊢
      have whole := (Run.scan_whole runs).trans (Lexeme.parts_whole steps).symm
      rcases overlap_cases whole touches.1 touches.2 with
        ⟨shared, rest, earlier, more, begins, overlaps⟩ | ⟨left, right, more, begins, overlaps⟩
      · have name (c : Char) : c ∈ run.text → isNameChar c := Run.isReference_text reference
        exact (name_not_before runs name steps earlier more begins overlaps).elim
      · obtain ⟨same, rfl, label, after⟩ :=
          reference_inside runs reference steps more begins overlaps
        rw [same, begins, utf8Size_append]
        exact ⟨rfl, label, after⟩
  refine ⟨fun piece member touches => (touched piece member touches).1, ⟨?_, ?_⟩,
    fun untouched => ?_⟩
  · rintro ⟨piece, member, touches⟩
    exact (touched piece member touches).2
  · rintro ⟨label, behind⟩
    obtain ⟨front, back, runs, begins⟩ := exponent_reference steps label behind
    obtain ⟨rfl, _⟩ := (Lexeme.parts_at steps).number_whole
    refine ⟨_, reference_mem_assemble.mpr ⟨front, _, back, runs, label.isReference, rfl, rfl⟩, ?_⟩
    have size : 0 < utf8Size l.exponent := utf8Size_pos label.ne_nil
    simp only [Touches, begins, start, stop, Literal.source_eq, utf8Size_append, Run.text]
    omega
  · have whole := (Run.flatMap_text_scan expression.toList).trans (Lexeme.parts_whole steps).symm
    refine assemble_verbatim whole (Lexeme.parts_at steps).source_ne_nil
      (fun _ => Run.text_ne_nil) ?_
    rwa [Nat.zero_add]

/-- The letter alone decides between a reference to E5 and a number that is passed on. -/
theorem reference_in_number_letter :
    let number (letter : Char) : Literal := ⟨['1'], some ['5'], [letter, '5']⟩
    let front : List Lexeme.Part :=
      [⟨['B', '2'], some (.name ['B', '2'])⟩, ⟨['+'], some (.operator ['+'])⟩]
    Lexeme.parts "B2+1.5E5".toList =
      front ++ [⟨(number 'E').source, some (.number (number 'E'))⟩] ∧
    Lexeme.parts "B2+1.5e5".toList =
      front ++ [⟨(number 'e').source, some (.number (number 'e'))⟩] ∧
    (∃ piece ∈ pieces "B2+1.5E5", piece.Touches 3 8) ∧
    Verbatim ['B', '2', '+'] (number 'e').source (pieces "B2+1.5e5") := by
  intro number front
  have capital : Lexeme.parts "B2+1.5E5".toList =
      front ++ [⟨(number 'E').source, some (.number (number 'E'))⟩] := by decide +kernel
  have small : Lexeme.parts "B2+1.5e5".toList =
      front ++ [⟨(number 'e').source, some (.number (number 'e'))⟩] := by decide +kernel
  obtain ⟨_, touched, _⟩ := reference_in_number "B2+1.5E5" capital
  obtain ⟨_, touched', verbatim⟩ := reference_in_number "B2+1.5e5" small
  have label : (number 'E').ExponentIsLabel :=
    ⟨['5'], rfl, by simp, List.forall_mem_singleton.mpr (by decide)⟩
  refine ⟨capital, small, touched.mpr ⟨label, by simp⟩, verbatim ?_⟩
  intro piece member touches
  obtain ⟨⟨_, exponent, _⟩, _⟩ := touched'.mp ⟨piece, member, touches⟩
  exact absurd (List.cons.inj exponent).1 (by decide)

/-- So numbers are not always left alone. -/
theorem number_not_untouched : ¬∀ (expression : String) (before after : List Lexeme.Part)
    (source : List Char) (l : Literal),
    Lexeme.parts expression.toList = before ++ ⟨source, some (.number l)⟩ :: after →
      Untouched (utf8Size (before.flatMap Lexeme.Part.source))
        (utf8Size (before.flatMap Lexeme.Part.source) + utf8Size source) (pieces expression) := by
  intro untouched
  have steps : Lexeme.parts "1E5".toList =
      [⟨['1', 'E', '5'], some (.number ⟨['1'], none, ['E', '5']⟩)⟩] := by decide +kernel
  have found : .reference ['E', '5'] 1 ∈ pieces "1E5" := by decide +kernel
  exact untouched "1E5" [] [] _ _ steps _ found ⟨by decide, by decide⟩

end Worksheet.Formula
