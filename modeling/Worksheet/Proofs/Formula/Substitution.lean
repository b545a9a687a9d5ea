import Worksheet.Proofs.Formula.Numeral
import Worksheet.Proofs.Formula.Pieces
import Worksheet.Proofs.Formula.Place

/-! What an expression becomes when its references are filled. Where every reference stands apart
from numbers, each operand that is put in its place gives its own lexemes and changes no others. -/
namespace Worksheet.Formula

open Piece

/-- What stands before a reference and behind it. A number does not go on into the reference, nor
into what is put in its place, and no fraction goes on behind it. -/
structure Separated (before after : List Char) : Prop where
  last : ∀ c, [c] <:+ before → ¬c.isDigit ∧ c ≠ '.'
  exponent : ∀ e sign, [e, sign] <:+ before → e = 'e' ∨ e = 'E' → ¬Literal.isSign sign
  point : '.' ∉ after.head?

/-- All references of the expression stand apart from numbers. -/
def Separate (expression : String) : Prop :=
  ∀ front label offset back, pieces expression = front ++ .reference label offset :: back →
    Separated (front.flatMap source) (back.flatMap source)

variable {expression : String} {front back : List Piece} {label cs : List Char} {offset : Nat}

/-- A reference is a name, and neither a name nor a number goes on into it or behind it. -/
theorem Separate.reference (h : Separate expression)
    (same : pieces expression = front ++ .reference label offset :: back) :
    (∃ c chars, label = c :: chars ∧ isNameStart c ∧ ∀ d ∈ chars, isNameChar d) ∧
      Ends (front.flatMap source) ∧ Apart (back.flatMap source) := by
  obtain ⟨last, exponent, point⟩ := h front label offset back same
  obtain ⟨before, after, runs, begins, rest, assembled⟩ := pieces_append same
  obtain ⟨run, later, rfl, reference, rfl, _⟩ := assemble_reference assembled
  have stands := Stands.of_run runs reference
  obtain ⟨c, chars, text, upper, name⟩ := stands.first
  have behind : later.flatMap Run.text = back.flatMap source := List.append_cancel_left rest
  have noName := EndsNoName.iff_getLast?.mpr stands.front
  rw [begins] at noName
  refine ⟨⟨c, chars, text, isNameStart_of_isUpper upper, name⟩, ⟨fun d final => ?_, exponent⟩, ?_⟩
  · obtain ⟨digit, other⟩ := last d final
    obtain ⟨shorter, whole⟩ := final
    have start : ¬isNameStart d := noName shorter d [] whole.symm (by simp)
    exact ⟨fun name => (isNameChar_iff.mp name).elim start digit, other⟩
  · intro d first
    refine ⟨stands.behind d (behind ▸ first), ?_⟩
    rintro rfl
    exact point first

/-- Behind a piece of text nothing stands, or a reference that no literal, name or number of the
text goes on into. -/
theorem Separate.text (h : Separate expression)
    (same : pieces expression = front ++ .text cs :: back) :
    back = [] ∨ (∃ label offset later, back = .reference label offset :: later) ∧
      Ends cs ∧ Closed cs := by
  obtain ⟨before, after, runs, _, _, assembled⟩ := pieces_append same
  cases back with
  | nil => exact .inl rfl
  | cons piece later =>
    cases piece with
    | text more => exact absurd rfl (assemble_text assembled more later)
    | reference label offset =>
      have split : pieces expression =
          (front ++ [.text cs]) ++ .reference label offset :: later := by
        simp [same]
      have ends := (h.reference split).2.1
      refine .inr ⟨⟨label, offset, later, rfl⟩, ends.suffix ⟨front.flatMap source, ?_⟩, ?_⟩
      · simp [source]
      -- No literal is open where the text ends, since runs end there.
      rw [← List.singleton_append] at assembled
      obtain ⟨inner, outer, rfl, text, assembled'⟩ := assemble_append assembled
      obtain ⟨run, rest, rfl, reference, rfl, _⟩ := assemble_reference assembled'
      have reads := Run.scan_at (by rw [runs, ← List.append_assoc])
      have outside := Run.scan_outside (Run.scan_suffix runs)
      rw [List.flatMap_append, text] at outside
      obtain ⟨closing, whole, closed⟩ := outside.closed (by simp [reads.text_ne_nil])
      obtain rfl := List.append_cancel_right whole
      simpa [source] using closed

/-- Pieces with an operand in the place of every reference: their characters and their lexemes. -/
inductive Fills : List Piece → List Char → List Lexeme → Prop where
  | nil : Fills [] [] []
  | text (cs : List Char) {pieces : List Piece} {filled : List Char} {lexemes : List Lexeme} :
      Fills pieces filled lexemes →
      Fills (.text cs :: pieces) (cs ++ filled) (Lexeme.scan cs ++ lexemes)
  | reference (label : List Char) (offset : Nat) (operand : Operand) {pieces : List Piece}
      {filled : List Char} {lexemes : List Lexeme} : Fills pieces filled lexemes →
      Fills (.reference label offset :: pieces) (operand.text ++ filled)
        (operand.lexemes ++ lexemes)

theorem Fills.apart {filled : List Char} {lexemes : List Lexeme} (fills : Fills back filled lexemes)
    (separate : Separate expression)
    (same : pieces expression = front ++ .reference label offset :: back) : Apart filled := by
  have apart := (separate.reference same).2.2
  cases fills with
  | nil => simp [Apart]
  | text cs =>
    have member : .text cs ∈ pieces expression := by simp [same]
    have more : cs ≠ [] := pieces_source_ne_nil member
    intro c first
    rw [List.head?_append_of_ne_nil _ more] at first
    exact apart c (by simpa [source, more] using first)
  | @reference label' offset' _ later =>
    have split : pieces expression =
        front ++ [.reference label offset] ++ .reference label' offset' :: later := by simp [same]
    obtain ⟨⟨c, chars, rfl, start, _⟩, _⟩ := separate.reference split
    exact absurd (isNameChar_iff.mpr (.inl start)) (apart c (by simp [source])).1

/-- Each operand gives its own lexemes, and the text between them gives the lexemes that it has by
itself. -/
theorem Fills.scan {filled : List Char} {lexemes : List Lexeme} (fills : Fills back filled lexemes)
    (separate : Separate expression) (same : pieces expression = front ++ back) :
    Lexeme.scan filled = lexemes := by
  induction fills generalizing front with
  | nil => rw [Lexeme.scan]
  | @text cs later filled lexemes fills ih =>
    have split : pieces expression = (front ++ [.text cs]) ++ later := by simp [same]
    rcases separate.text same with rfl | ⟨⟨label, offset, later, rfl⟩, ends, closed⟩
    · cases fills
      simp
    · cases fills with
      | reference _ _ operand =>
        rw [Lexeme.scan_append (.inl ends) closed (operand.unjoined _), ih split]
  | @reference label offset operand later filled lexemes fills ih =>
    have split : pieces expression = (front ++ [.reference label offset]) ++ later := by
      simp [same]
    rw [operand.scan_append filled (fills.apart separate same), ih split]

namespace Piece

/-- The lexemes of a piece by itself. -/
def lexemes : Piece → List Lexeme
  | text cs => Lexeme.scan cs
  | reference label _ => [.name label]

/-- The lexemes of a piece when each reference has a numeral in its place. -/
def valueLexemes {m : Type → Type} [Monad m] (value : String → m DecimalNumeral) :
    Piece → m (List Lexeme)
  | text cs => pure (Lexeme.scan cs)
  | reference label _ => DecimalNumeral.lexemes <$> value (.ofList label)

end Piece

theorem Separate.fills_names (separate : Separate expression)
    (same : pieces expression = front ++ back) :
    Fills back (back.flatMap source) (back.flatMap Piece.lexemes) := by
  induction back generalizing front with
  | nil => exact .nil
  | cons piece back ih =>
    have split : pieces expression = (front ++ [piece]) ++ back := by simp [same]
    have fills := ih split
    cases piece with
    | text cs => exact fills.text cs
    | reference label offset =>
      obtain ⟨⟨c, chars, rfl, start, name⟩, _⟩ := separate.reference same
      exact fills.reference (c :: chars) offset (.name c chars start name)

section Lookup

variable {m : Type → Type} [Monad m] [LawfulMonad m] {α : Type}

theorem map_fill (value : String → m DecimalNumeral) (pieces : List Piece)
    {f : List Char → α} {g : List Lexeme → α}
    (agree : ∀ filled lexemes, Fills pieces filled lexemes → f filled = g lexemes) :
    (fun texts => f (String.join texts).toList) <$>
        pieces.mapM (fill fun label => (fun n => .ofList n.text) <$> value label) =
      (fun lexemes => g lexemes.flatten) <$> pieces.mapM (valueLexemes value) := by
  induction pieces generalizing f g with
  | nil => simpa using congrArg pure (agree [] [] .nil)
  | cons piece pieces ih =>
    have join (text : String) (texts : List String) :
        (String.join (text :: texts)).toList = text.toList ++ (String.join texts).toList := by simp
    simp only [List.mapM_cons, map_bind, bind_pure_comp, Functor.map_map, join, List.flatten_cons]
    cases piece with
    | text cs =>
      simp only [fill, valueLexemes, pure_bind, String.toList_ofList]
      exact ih fun _ _ fills => agree _ _ (fills.text cs)
    | reference label offset =>
      simp only [fill, valueLexemes, bind_map_left, String.toList_ofList]
      refine bind_congr fun n => ?_
      exact ih fun _ _ fills => agree _ _ (fills.reference label offset n.operand)

/-- Numerals that are put in the place of references stay operands of their own. The normal form has
a minus sign and the magnitude where it had the name of the cell, and it is the same elsewhere. -/
theorem substitute_separate (value : String → m DecimalNumeral) (expression : String)
    (separate : Separate expression) :
    let substituted := substituteM (fun label => (fun n => .ofList n.text) <$> value label) expression
    let lexemes := List.flatten <$> (pieces expression).mapM (valueLexemes value)
    Lexeme.scan expression.toList = (pieces expression).flatMap Piece.lexemes ∧
    (fun filled => Lexeme.scan filled.toList) <$> substituted = lexemes ∧
    normalize <$> substituted =
      (fun lexemes => .ofList ([' '].intercalate (lexemes.map Lexeme.text))) <$> lexemes := by
  intro substituted lexemes
  have whole : [] ++ pieces expression = pieces expression := List.nil_append _
  have scan {filled : List Char} {lexemes : List Lexeme}
      (fills : Fills (pieces expression) filled lexemes) : Lexeme.scan filled = lexemes :=
    fills.scan separate whole.symm
  have scanned : (fun filled => Lexeme.scan filled.toList) <$> substituted = lexemes := by
    simp only [substituted, substituteM, bind_pure_comp, Functor.map_map]
    exact map_fill value (pieces expression) (g := id) fun _ _ => scan
  refine ⟨?_, scanned, ?_⟩
  · have source : (pieces expression).flatMap source = expression.toList := by
      rw [pieces, flatMap_source_assemble, Run.flatMap_text_scan]
    exact source ▸ scan (separate.fills_names whole.symm)
  · rw [← scanned, Functor.map_map]
    rfl

end Lookup

/-- Minus signs stack, a fraction stays whole, and a string literal is left alone. -/
theorem substitute_separate_negative :
    let four : DecimalNumeral := ⟨true, ['4'], none, by simp, by simp, by simp, by simp⟩
    let half : DecimalNumeral := ⟨false, ['2'], some ['5'], by simp, by simp, by simp, by simp⟩
    let value (label : String) : Option DecimalNumeral :=
      if label = "A1" then some four else if label = "B2" then some half else none
    Separate "1-A1*\"B2\"/B2" ∧
      (fun filled => Lexeme.scan filled.toList) <$>
          substituteM (fun label => (fun n => .ofList n.text) <$> value label) "1-A1*\"B2\"/B2" =
        some [.number ⟨['1'], none, []⟩, .operator ['-'], .operator ['-'], .number four.literal,
          .operator ['*'], .quoted ['"', 'B', '2', '"'], .operator ['/'], .number half.literal] := by
  intro four half value
  have cut : pieces "1-A1*\"B2\"/B2" = [.text ['1', '-'], .reference ['A', '1'] 2,
      .text ['*', '"', 'B', '2', '"', '/'], .reference ['B', '2'] 10] := by decide +kernel
  have separate : Separate "1-A1*\"B2\"/B2" := by
    intro front label offset back same
    rw [cut] at same
    have first : Separated ['1', '-'] ['*', '"', 'B', '2', '"', '/', 'B', '2'] := by
      constructor <;> simp [List.suffix_cons_iff]
    have second : Separated ['1', '-', 'A', '1', '*', '"', 'B', '2', '"', '/'] [] := by
      constructor <;> simp [List.suffix_cons_iff]
    rcases front with _ | ⟨_, _ | ⟨_, _ | ⟨_, _ | ⟨_, front⟩⟩⟩⟩ <;> simp at same
    · obtain ⟨rfl, ⟨rfl, rfl⟩, rfl⟩ := same
      exact first
    · obtain ⟨rfl, rfl, rfl, ⟨rfl, rfl⟩, rfl⟩ := same
      exact second
  obtain ⟨_, filled, _⟩ := substitute_separate value "1-A1*\"B2\"/B2" separate
  refine ⟨separate, filled.trans ?_⟩
  rw [cut]
  decide +kernel

end Worksheet.Formula
