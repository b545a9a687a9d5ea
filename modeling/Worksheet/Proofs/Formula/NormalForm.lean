import Worksheet.Proofs.Formula.Numeral

/-! Normal forms are read as the lexemes they were made of. Each lexeme is written in a way that is
read back where a blank follows it, and only the last one can be a literal that nothing closes. -/
namespace Worksheet.Formula

variable {cs rest behind source : List Char}

theorem Parted.apart (h : Parted rest) : Apart rest := fun c first =>
  have blank := Lexeme.blank_apart (h c first)
  ⟨blank.1, blank.2.1⟩

theorem Closes.alone {body : List Char} (h : Closes body rest) : Closes body [] := by
  induction h with
  | quote => exact .quote []
  | escape c _ ih => exact .escape c ih
  | plain other escape _ ih => exact .plain other escape ih
  | unclosed => exact .unclosed
  | unclosedEscape => exact .unclosedEscape

namespace Literal

/-- The literal that the normal form of a literal is read as. -/
def canonical (l : Literal) : Literal :=
  ⟨orZero l.whole, some (orZero (l.fraction.getD [])), l.exponent⟩

theorem orZero_ne_nil (digits : List Char) : orZero digits ≠ [] := by
  cases digits <;> simp [orZero]

theorem orZero_digits {digits : List Char} (all : ∀ d ∈ digits, d.isDigit) :
    ∀ d ∈ orZero digits, d.isDigit := by
  cases digits with
  | nil => simp [orZero]
  | cons c digits => simpa [orZero] using all

theorem source_canonical (l : Literal) : l.canonical.source = l.normal := by
  simp [canonical, Literal.source, normal]

theorem normal_canonical (l : Literal) : l.canonical.normal = l.normal := by
  have once (digits : List Char) : orZero (orZero digits) = orZero digits := by
    cases digits <;> rfl
  simp [canonical, normal, once]

theorem WellFormed.canonical {l : Literal} (h : l.WellFormed) : l.canonical.WellFormed where
  begins := .inl (orZero_ne_nil l.whole)
  whole := orZero_digits h.whole
  fraction := by
    rintro _ ⟨⟩
    apply orZero_digits
    cases fraction : l.fraction with
    | none => simp
    | some digits => exact h.fraction digits fraction
  exponent := h.exponent

end Literal

namespace Lexeme

/-- The lexeme that the normal form of a lexeme is read as. -/
def canonical : Lexeme → Lexeme
  | number literal => number literal.canonical
  | lexeme => lexeme

@[simp] theorem text_canonical (lexeme : Lexeme) : lexeme.canonical.text = lexeme.text := by
  cases lexeme with
  | number literal => exact literal.normal_canonical
  | _ => rfl

/-- What is written for a lexeme is read back in front of a blank. At the end of all it is read back
even if it is a literal that nothing closes. -/
theorem Reads.rescan {lexeme : Lexeme} (h : Reads cs ⟨source, some lexeme⟩ behind)
    (parted : Parted rest) (closed : behind ≠ [] ∨ rest = []) :
    Lexeme.scan (lexeme.text ++ rest) = lexeme.canonical :: Lexeme.scan rest := by
  suffices reads : ∃ written, Reads (lexeme.text ++ rest) ⟨written, some lexeme.canonical⟩ rest by
    obtain ⟨_, reads⟩ := reads
    exact reads.scan
  have apart := parted.apart
  cases h with
  | quoted body =>
    have closes : Closes (Formula.quoted body).1 rest := by
      rcases closed with more | rfl
      · exact (closes_quoted body).other more rest
      · exact (closes_quoted body).alone
    have reads := Reads.quoted ((Formula.quoted body).1 ++ rest)
    rw [closes.quoted_eq] at reads
    exact ⟨_, reads⟩
  | number starts =>
    have form := (Literal.split_wellFormed starts).canonical
    have reads := Reads.number (form.starts (Literal.orZero_ne_nil _) rest)
    rw [form.split apart, Literal.source_canonical] at reads
    exact ⟨_, reads⟩
  | @name c chars start =>
    have name : ∀ d ∈ chars.takeWhile isNameChar, isNameChar d := fun _ => List.mem_takeWhile_imp
    obtain ⟨taken, left⟩ := takeWhile_run name apart.isNameChar
    have reads := Reads.name (chars.takeWhile isNameChar ++ rest) start
    rw [taken, left] at reads
    exact ⟨_, reads⟩
  | power => exact ⟨_, .double rest (by decide)⟩
  | double _ double => exact ⟨_, .double rest double⟩
  | @single c _ blank quote number start power _ =>
    refine ⟨_, .single rest blank quote ?_ start power (unjoined_of_parted parted c)⟩
    have none : Literal.startsDigit rest = false :=
      @Literal.startsDigit_prolong [] rest (.inr parted)
    intro starts
    rcases Bool.or_eq_true_iff.mp starts with digit | fraction
    · exact number (by simp [Literal.starts, digit])
    · rw [none, Bool.and_false] at fraction
      exact Bool.false_ne_true fraction

def spaced (lexemes : List Lexeme) : List Char := [' '].intercalate (lexemes.map text)

theorem spaced_singleton (lexeme : Lexeme) : spaced [lexeme] = lexeme.text := by simp [spaced]

theorem spaced_cons (lexeme : Lexeme) {lexemes : List Lexeme} (more : lexemes ≠ []) :
    spaced (lexeme :: lexemes) = lexeme.text ++ ' ' :: spaced lexemes := by
  obtain ⟨next, lexemes, rfl⟩ := List.exists_cons_of_ne_nil more
  simp [spaced, List.intercalate_cons_cons]

theorem spaced_append {lexemes lexemes' : List Lexeme} (more : lexemes ≠ [])
    (more' : lexemes' ≠ []) :
    spaced (lexemes ++ lexemes') = spaced lexemes ++ ' ' :: spaced lexemes' := by
  induction lexemes with
  | nil => exact absurd rfl more
  | cons lexeme lexemes ih =>
    by_cases last : lexemes = []
    · subst last
      rw [List.singleton_append, spaced_cons lexeme more', spaced_singleton]
    · rw [List.cons_append, spaced_cons _ (by simp [last]), ih last, spaced_cons _ last]
      simp

theorem scan_space (cs : List Char) : scan (' ' :: cs) = scan cs :=
  (Reads.blank cs (by decide)).scan

/-- A normal form has the lexemes that it was made of. -/
theorem scan_spaced (cs : List Char) : scan (spaced (scan cs)) = (scan cs).map canonical := by
  fun_induction parts cs with
  | case1 => simp [scan, spaced]
  | case2 c rest ih =>
    have reads := first_reads c rest
    generalize first c rest = step at reads ih
    obtain ⟨⟨source, lexeme?⟩, behind⟩ := step
    rw [reads.scan]
    cases lexeme? with
    | none => exact ih
    | some lexeme =>
      rw [Option.toList_some, List.singleton_append, List.map_cons, ← ih]
      by_cases last : scan behind = []
      · have none : Parted [] := by simp [Parted]
        have alone := reads.rescan none (.inr rfl)
        rwa [last, spaced_singleton, ← List.append_nil lexeme.text]
      · -- Something follows, so the lexeme is no literal that is still open.
        have more : behind ≠ [] := by
          rintro rfl
          exact last (by rw [scan])
        have parted : Parted (' ' :: spaced (scan behind)) := by simp [Parted, isBlank]
        rw [spaced_cons lexeme last, reads.rescan parted (.inl more), scan_space]

/-- Nothing goes on over a space, unless a literal is open. -/
theorem scan_append_space (closed : Closed cs) (rest : List Char) :
    scan (cs ++ ' ' :: rest) = scan cs ++ scan rest := by
  have parted : Parted (' ' :: rest) := by simp [Parted, isBlank]
  rw [scan_append (.inr parted) closed (unjoined_of_parted parted), scan_space]

end Lexeme

theorem normalize_eq (expression : String) :
    normalize expression = .ofList (Lexeme.spaced (Lexeme.scan expression.toList)) := rfl

/-- The normal form of a normal form is itself, and normal forms that stand behind each other with a
space between them are the normal form of the whole. -/
theorem normalize_stable :
    (∀ expression, normalize (normalize expression) = normalize expression) ∧
    ∀ front back : String, Closed front.toList → normalize front ≠ "" → normalize back ≠ "" →
      normalize (front ++ " " ++ back) = normalize front ++ " " ++ normalize back := by
  constructor
  · intro expression
    rw [normalize_eq (normalize expression), normalize_eq expression, String.toList_ofList,
      Lexeme.scan_spaced, Lexeme.spaced, List.map_map]
    simp [Lexeme.spaced, Function.comp_def]
  · intro front back closed filled filled'
    have lexemes {expression : String} (filled : normalize expression ≠ "") :
        Lexeme.scan expression.toList ≠ [] := by
      intro none
      exact filled (by rw [normalize_eq, none]; rfl)
    have whole : (front ++ " " ++ back).toList = front.toList ++ ' ' :: back.toList := by simp
    rw [normalize_eq (front ++ " " ++ back), whole, Lexeme.scan_append_space closed,
      Lexeme.spaced_append (lexemes filled) (lexemes filled')]
    apply String.toList_injective
    simp [normalize_eq]

/-- The second text opens a literal that nothing closes, and the first ends in a closed one. -/
theorem normalize_stable_open :
    Closed "1e+\"a ^\"".toList ∧ normalize "1e+\"a ^\"" ≠ "" ∧ normalize "^ .5\"x" ≠ "" ∧
      normalize ("1e+\"a ^\"" ++ " " ++ "^ .5\"x") = "1.0 e + \"a ^\" ** 0.5 \"x" := by
  have closed : Closed "1e+\"a ^\"".toList := by
    have text : "1e+\"a ^\"".toList = ['1', 'e', '+', '"', 'a', ' ', '^', '"'] := by decide +kernel
    have body (rest : List Char) : Closes ['a', ' ', '^', '"'] rest :=
      .plain (by decide) (by decide) <| .plain (by decide) (by decide) <|
        .plain (by decide) (by decide) (.quote rest)
    rw [text]
    exact .plain (by decide) <| .plain (by decide) <| .plain (by decide) (.literal body .nil)
  have front : normalize "1e+\"a ^\"" = "1.0 e + \"a ^\"" := by decide +kernel
  have back : normalize "^ .5\"x" = "** 0.5 \"x" := by decide +kernel
  have filled : normalize "1e+\"a ^\"" ≠ "" := by simp [front]
  have filled' : normalize "^ .5\"x" ≠ "" := by simp [back]
  refine ⟨closed, filled, filled', ?_⟩
  rw [normalize_stable.2 _ _ closed filled filled', front, back]
  decide +kernel

end Worksheet.Formula
