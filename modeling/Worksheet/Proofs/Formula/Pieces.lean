import Mathlib.Algebra.GroupWithZero.Nat
import Worksheet.Proofs.Formula.Reference

/-! An expression cut into pieces. The pieces are the whole text, texts and references take turns,
and each reference knows the bytes in front of it. Filling an expression asks for its references one
after the other and puts each answer where its reference stood. -/
namespace Worksheet.Formula

open Piece

theorem Run.scan_name_apart {cs name : List Char} {run : Run} {front back : List Run}
    (runs : scan cs = front ++ .name name :: run :: back) (next : List Char) :
    run ≠ .name next := by
  rintro rfl
  have reads := scan_at runs
  have behind : scan cs = (front ++ [.name name]) ++ .name next :: back := by simp [runs]
  obtain ⟨⟨c, chars, rfl, start⟩, _⟩ := (scan_at behind).name_maximal
  have apart := reads.name_maximal.2.2 c (by simp [text])
  rw [isNameChar_iff.mpr (.inl start)] at apart
  exact Bool.noConfusion apart

namespace Piece

variable {front back pieces : List Piece} {runs : List Run} {cs label : List Char}
  {start offset : Nat}

theorem prepend_cons {piece : Piece} (same : prepend cs pieces = piece :: back) :
    (∃ more, piece = text (cs ++ more) ∧ pieces = text more :: back) ∨
      piece = text cs ∧ pieces = back ∧ ∀ more later, back ≠ text more :: later := by
  unfold prepend at same
  split at same
  next more later =>
    obtain ⟨rfl, rfl⟩ := List.cons.inj same
    exact .inl ⟨more, rfl, rfl⟩
  next apart =>
    obtain ⟨rfl, rfl⟩ := List.cons.inj same
    exact .inr ⟨rfl, rfl, apart⟩

theorem assemble_append (same : assemble start runs = front ++ back) : ∃ before after,
    runs = before ++ after ∧ before.flatMap Run.text = front.flatMap source ∧
      assemble (start + utf8Size (front.flatMap source)) after = back := by
  induction runs generalizing start front with
  | nil =>
    obtain ⟨rfl, rfl⟩ := List.append_eq_nil_iff.mp same.symm
    exact ⟨[], [], rfl, rfl, rfl⟩
  | cons run runs ih =>
    cases front with
    | nil => exact ⟨[], run :: runs, rfl, rfl, same⟩
    | cons piece front =>
      rw [assemble, List.cons_append] at same
      split_ifs at same with isReference
      · obtain ⟨rfl, assembled⟩ := List.cons.inj same
        obtain ⟨before, after, rfl, text, later⟩ := ih assembled
        refine ⟨run :: before, after, rfl, by simp [text, source], ?_⟩
        simpa [source, Nat.add_assoc] using later
      · rcases prepend_cons same with ⟨more, rfl, assembled⟩ | ⟨rfl, assembled, _⟩
        · rw [← List.cons_append] at assembled
          obtain ⟨before, after, rfl, text, later⟩ := ih assembled
          refine ⟨run :: before, after, rfl, by simp [text, source], ?_⟩
          simpa [source, Nat.add_assoc] using later
        · obtain ⟨before, after, rfl, text, later⟩ := ih assembled
          refine ⟨run :: before, after, rfl, by simp [text, source], ?_⟩
          simpa [source, Nat.add_assoc] using later

theorem assemble_reference (same : assemble start runs = reference label offset :: back) :
    ∃ run later, runs = run :: later ∧ run.isReference ∧ label = run.text ∧ offset = start ∧
      assemble (start + utf8Size label) later = back := by
  cases runs with
  | nil => simp [assemble] at same
  | cons run runs =>
    rw [assemble] at same
    split_ifs at same with isReference
    · obtain ⟨piece, assembled⟩ := List.cons.inj same
      obtain ⟨rfl, rfl⟩ := reference.inj piece
      exact ⟨run, runs, rfl, isReference, rfl, rfl, assembled⟩
    · rcases prepend_cons same with ⟨_, piece, _⟩ | ⟨piece, _⟩ <;> simp at piece

theorem assemble_text (same : assemble start runs = text cs :: back) (more : List Char)
    (later : List Piece) : back ≠ text more :: later := by
  induction runs generalizing start cs with
  | nil => simp [assemble] at same
  | cons run runs ih =>
    rw [assemble] at same
    split_ifs at same with isReference
    · simp at same
    · rcases prepend_cons same with ⟨_, _, assembled⟩ | ⟨_, _, apart⟩
      · exact ih assembled
      · exact apart more later

theorem filterMap_label_assemble (start : Nat) (runs : List Run) :
    (assemble start runs).filterMap label? =
      (runs.filter Run.isReference).map fun run => .ofList run.text := by
  have skip (front : List Char) (pieces : List Piece) :
      (prepend front pieces).filterMap label? = pieces.filterMap label? := by
    unfold prepend
    split <;> simp [List.filterMap_cons, label?]
  induction runs generalizing start with
  | nil => rfl
  | cons run runs ih =>
    rw [assemble]
    split_ifs with reference
    · simp [label?, reference, ih]
    · simp [skip, reference, ih]

def byteSize (piece : Piece) : Nat := (String.ofList piece.source).utf8ByteSize

theorem utf8Size_eq (cs : List Char) : utf8Size cs = (String.ofList cs).utf8ByteSize := by
  induction cs with
  | nil => simp [utf8Size]
  | cons c rest ih =>
    rw [utf8Size, ih, ← List.singleton_append, String.ofList_append, String.utf8ByteSize_append]
    simp

theorem utf8Size_flatMap_source (pieces : List Piece) :
    utf8Size (pieces.flatMap source) = (pieces.map byteSize).sum := by
  induction pieces with
  | nil => rfl
  | cons piece pieces ih =>
    rw [List.flatMap_cons, utf8Size_append, ih, utf8Size_eq]
    simp [byteSize]

end Piece

variable {expression : String} {front back : List Piece} {label : List Char} {offset : Nat}

theorem flatMap_source_pieces (expression : String) :
    (pieces expression).flatMap source = expression.toList := by
  rw [pieces, flatMap_source_assemble, Run.flatMap_text_scan]

theorem references_eq (expression : String) : references expression =
    ((Run.scan expression.toList).filter Run.isReference).map fun run => .ofList run.text :=
  filterMap_label_assemble 0 _

theorem pieces_source_ne_nil {piece : Piece} (member : piece ∈ pieces expression) :
    piece.source ≠ [] :=
  source_ne_nil (fun _ => Run.text_ne_nil) piece member

/-- Where the pieces are cut, the runs and the text are cut too. -/
theorem pieces_append (same : pieces expression = front ++ back) : ∃ before after,
    Run.scan expression.toList = before ++ after ∧ before.flatMap Run.text = front.flatMap source ∧
      after.flatMap Run.text = back.flatMap source ∧
      assemble (front.map byteSize).sum after = back := by
  obtain ⟨before, after, runs, text, later⟩ := assemble_append same
  rw [Nat.zero_add, utf8Size_flatMap_source] at later
  exact ⟨before, after, runs, text, later ▸ (flatMap_source_assemble _ after).symm, later⟩

theorem pieces_offset (same : pieces expression = front ++ .reference label offset :: back) :
    offset = (front.map byteSize).sum := by
  obtain ⟨_, _, _, _, _, assembled⟩ := pieces_append same
  obtain ⟨_, _, _, _, _, stands, _⟩ := assemble_reference assembled
  exact stands

/-- Of two pieces next to each other one is a text and one is a reference. -/
theorem pieces_alternate {first second : Piece}
    (same : pieces expression = front ++ first :: second :: back) :
    first.label?.isSome ↔ ¬second.label?.isSome := by
  obtain ⟨before, after, runs, _, _, assembled⟩ := pieces_append same
  cases first with
  | text cs =>
    cases second with
    | text more => exact absurd rfl (assemble_text assembled more back)
    | reference => simp [label?]
  | reference label offset =>
    cases second with
    | text => simp [label?]
    | reference label' offset' =>
      -- Both would be names, and the first would not have ended.
      obtain ⟨run, later, rfl, isReference, _, _, behind⟩ := assemble_reference assembled
      obtain ⟨run', later', rfl, isReference', _⟩ := assemble_reference behind
      obtain ⟨_, _, rfl, _⟩ := Run.isReference_iff.mp isReference
      obtain ⟨_, _, rfl, _⟩ := Run.isReference_iff.mp isReference'
      exact absurd rfl (Run.scan_name_apart runs _)

theorem pieces_boundary (same : pieces expression = front ++ back) :
    (String.Pos.Raw.mk (front.map byteSize).sum).IsValid expression := by
  have whole := flatMap_source_pieces expression
  rw [same, List.flatMap_append] at whole
  refine String.Pos.Raw.isValid_iff_exists_append.mpr
    ⟨.ofList (front.flatMap source), .ofList (back.flatMap source), ?_, ?_⟩
  · rw [← String.ofList_append, whole, String.ofList_toList]
  · rw [← utf8Size_flatMap_source, utf8Size_eq]
    rfl

section Lookup

variable {m : Type → Type} [Monad m] [LawfulMonad m]

namespace Piece

/-- The texts of the pieces, with one answer after the other in the place of the references. -/
def answered : List Piece → List String → List String
  | text cs :: rest, answers => .ofList cs :: answered rest answers
  | reference _ _ :: rest, answer :: answers => answer :: answered rest answers
  | _, _ => []

theorem join_answered_prepend (front : List Char) (pieces : List Piece) (answers : List String) :
    (String.join (answered (prepend front pieces) answers)).toList =
      front ++ (String.join (answered pieces answers)).toList := by
  unfold prepend
  split <;> simp [answered]

theorem mapM_fill (value : String → m String) (pieces : List Piece) :
    pieces.mapM (fill value) = answered pieces <$> (pieces.filterMap label?).mapM value := by
  induction pieces with
  | nil => simp [answered]
  | cons piece pieces ih =>
    cases piece with
    | text cs => simp [fill, List.filterMap_cons, label?, answered, ih]
    | reference label offset => simp [fill, label?, answered, ih]

theorem join_answered_labels (pieces : List Piece) :
    String.join (answered pieces (pieces.filterMap label?)) =
      .ofList (pieces.flatMap source) := by
  induction pieces with
  | nil => rfl
  | cons piece pieces ih =>
    cases piece <;> simp [List.filterMap_cons, label?, answered, source, ih]

end Piece

/-- All references are asked for first, one after the other, and the answers are put in after. -/
theorem substituteM_eq (value : String → m String) (expression : String) :
    substituteM value expression =
      (fun answers => String.join (answered (pieces expression) answers)) <$>
        (references expression).mapM value := by
  simp [substituteM, mapM_fill, references]

/-- Cutting an expression loses nothing, and filling it follows the pieces. -/
theorem pieces_exact (expression : String) (value : String → m String) :
    (pieces expression).flatMap source = expression.toList ∧
    (∀ piece ∈ pieces expression, piece.source ≠ []) ∧
    (∀ front first second back, pieces expression = front ++ first :: second :: back →
      (first.label?.isSome ↔ ¬second.label?.isSome)) ∧
    (∀ front label offset back, pieces expression = front ++ .reference label offset :: back →
      offset = (front.map byteSize).sum) ∧
    (∀ front back, pieces expression = front ++ back →
      (String.Pos.Raw.mk (front.map byteSize).sum).IsValid expression) ∧
    substituteM value expression =
      (fun answers => String.join (answered (pieces expression) answers)) <$>
        (references expression).mapM value ∧
    substitute id expression = expression := by
  refine ⟨flatMap_source_pieces expression, fun _ => pieces_source_ne_nil,
    fun _ _ _ _ => pieces_alternate, fun _ _ _ _ => pieces_offset, fun _ _ => pieces_boundary,
    substituteM_eq value expression, ?_⟩
  simp [substitute, substituteM_eq, references, join_answered_labels, flatMap_source_pieces]

end Lookup

/-- Repeated references are asked for again, and offsets count bytes. -/
theorem pieces_exact_repeated :
    let ask (label : String) : StateM (List String) String := fun asked =>
      (if label ∈ asked then "0" else "-1", asked ++ [label])
    (∀ front label offset back,
      pieces "A1*\"é\"+B2/A1" = front ++ .reference label offset :: back →
        offset = (front.map byteSize).sum) ∧
      .reference ['B', '2'] 8 ∈ pieces "A1*\"é\"+B2/A1" ∧
      (substituteM ask "A1*\"é\"+B2/A1").run [] = ("-1*\"é\"+-1/0", ["A1", "B2", "A1"]) := by
  intro ask
  have cut : pieces "A1*\"é\"+B2/A1" = [.reference ['A', '1'] 0, .text ['*', '"', 'é', '"', '+'],
      .reference ['B', '2'] 8, .text ['/'], .reference ['A', '1'] 11] := by decide +kernel
  obtain ⟨_, _, _, offsets, _, asked, _⟩ := pieces_exact "A1*\"é\"+B2/A1" ask
  refine ⟨offsets, by simp [cut], ?_⟩
  rw [asked, references, cut]
  rfl

end Worksheet.Formula
