import Worksheet.Proofs.Formula.Run

/-! References among the pieces of an expression. A reference knows where it stands, and text that
no reference touches is in one piece, as it was entered. -/
namespace Worksheet.Formula

theorem Run.isReference_iff {run : Run} : run.isReference ↔ ∃ letters digits,
    run = .name (letters ++ digits) ∧ letters ≠ [] ∧ (∀ c ∈ letters, c.isUpper) ∧ digits ≠ [] ∧
      ∀ d ∈ digits, d.isDigit := by
  constructor
  · intro reference
    cases run with
    | name name =>
      simp only [isReference, Bool.and_eq_true, Bool.not_eq_true', List.isEmpty_eq_false_iff,
        List.all_eq_true] at reference
      obtain ⟨⟨letter, number⟩, digits⟩ := reference
      refine ⟨name.takeWhile Char.isUpper, name.dropWhile Char.isUpper, ?_, ?_,
        fun _ => List.mem_takeWhile_imp, number, digits⟩
      · rw [List.takeWhile_append_dropWhile]
      · cases name with
        | nil => simp at letter
        | cons c rest =>
          have upper : c.isUpper := by simpa using letter
          simp [upper]
    | _ => simp [isReference] at reference
  · rintro ⟨letters, digits, rfl, filled, upper, filled', digit⟩
    have stop : digits.dropWhile Char.isUpper = digits := by
      obtain ⟨d, rest, rfl⟩ := List.exists_cons_of_ne_nil filled'
      exact List.dropWhile_cons_of_neg (not_isUpper_of_isDigit (digit d List.mem_cons_self))
    have number : (letters ++ digits).dropWhile Char.isUpper = digits := by
      rw [List.dropWhile_append_of_pos upper, stop]
    obtain ⟨c, rest, rfl⟩ := List.exists_cons_of_ne_nil filled
    simp only [isReference, number, Bool.and_eq_true, Bool.not_eq_true', List.isEmpty_eq_false_iff,
      List.all_eq_true]
    exact ⟨⟨by simpa using upper c List.mem_cons_self, filled'⟩, digit⟩

theorem Run.isReference_text {run : Run} (reference : run.isReference) {c : Char}
    (member : c ∈ run.text) : isNameChar c := by
  obtain ⟨letters, digits, rfl, _, upper, _, digit⟩ := isReference_iff.mp reference
  rcases List.mem_append.mp member with letter | number
  · exact isNameChar_iff.mpr (.inl (isNameStart_of_isUpper (upper c letter)))
  · exact isNameChar_iff.mpr (.inr (digit c number))

namespace Piece

variable {front back cs : List Char} {runs : List Run} {label : List Char} {offset start stop : Nat}

@[simp] theorem utf8Size_append (front back : List Char) :
    utf8Size (front ++ back) = utf8Size front + utf8Size back := by
  induction front with
  | nil => simp [utf8Size]
  | cons c rest ih => simp [utf8Size, ih, Nat.add_assoc]

theorem utf8Size_pos (filled : cs ≠ []) : 0 < utf8Size cs := by
  obtain ⟨c, rest, rfl⟩ := List.exists_cons_of_ne_nil filled
  have := c.utf8Size_pos
  rw [utf8Size]
  omega

/-- Some byte between two offsets belongs to the reference. -/
def Touches (start stop : Nat) : Piece → Prop
  | reference label offset => offset < stop ∧ start < offset + utf8Size label
  | text _ => False

theorem flatMap_source_prepend (front : List Char) (pieces : List Piece) :
    (prepend front pieces).flatMap source = front ++ pieces.flatMap source := by
  unfold prepend
  split <;> simp [source]

theorem flatMap_source_assemble (offset : Nat) (runs : List Run) :
    (assemble offset runs).flatMap source = runs.flatMap Run.text := by
  induction runs generalizing offset with
  | nil => rfl
  | cons run runs ih =>
    rw [assemble]
    split
    · simp [source, ih]
    · simp [flatMap_source_prepend, ih]

theorem reference_mem_prepend {pieces : List Piece} :
    reference label offset ∈ prepend front pieces ↔ reference label offset ∈ pieces := by
  unfold prepend
  split <;> simp

/-- Among these runs, the first of which stands at `start`, is a reference at `offset`. -/
def ReferenceAt (start : Nat) (runs : List Run) (label : List Char) (offset : Nat) : Prop :=
  ∃ front run back, runs = front ++ run :: back ∧ run.isReference ∧ label = run.text ∧
    offset = start + utf8Size (front.flatMap Run.text)

theorem referenceAt_cons {run : Run} : ReferenceAt start (run :: runs) label offset ↔
    (run.isReference ∧ label = run.text ∧ offset = start) ∨
      ReferenceAt (start + utf8Size run.text) runs label offset := by
  constructor
  · rintro ⟨_ | ⟨first, front⟩, found, back, same, reference, rfl, rfl⟩
    · obtain ⟨rfl, rfl⟩ := List.cons.inj same
      exact .inl ⟨reference, rfl, rfl⟩
    · obtain ⟨rfl, rfl⟩ := List.cons.inj same
      exact .inr ⟨front, found, back, rfl, reference, rfl, by simp [Nat.add_assoc]⟩
  · rintro (⟨reference, rfl, rfl⟩ | ⟨front, found, back, rfl, reference, rfl, rfl⟩)
    · exact ⟨[], run, runs, rfl, reference, rfl, rfl⟩
    · exact ⟨run :: front, found, back, rfl, reference, rfl, by simp [Nat.add_assoc]⟩

/-- The references among the pieces are the runs that are references. -/
theorem reference_mem_assemble :
    reference label offset ∈ assemble start runs ↔ ReferenceAt start runs label offset := by
  induction runs generalizing start with
  | nil => simp [assemble, ReferenceAt]
  | cons run runs ih =>
    rw [assemble, referenceAt_cons, ← ih]
    split_ifs with reference
    · simp [reference]
    · simp [reference, reference_mem_prepend]

theorem source_ne_nil (nonempty : ∀ run ∈ runs, run.text ≠ []) :
    ∀ piece ∈ assemble start runs, piece.source ≠ [] := by
  induction runs generalizing start with
  | nil => simp [assemble]
  | cons run runs ih =>
    have here : run.text ≠ [] := nonempty run List.mem_cons_self
    have later : ∀ piece ∈ assemble (start + utf8Size run.text) runs, piece.source ≠ [] :=
      ih fun later member => nonempty later (List.mem_cons_of_mem _ member)
    rw [assemble]
    split_ifs with reference
    · exact List.forall_mem_cons.mpr ⟨here, later⟩
    · unfold prepend
      split
      next pieces assembled =>
        rw [assembled] at later
        exact List.forall_mem_cons.mpr ⟨by simp [source, here], (List.forall_mem_cons.mp later).2⟩
      next => exact List.forall_mem_cons.mpr ⟨here, later⟩

/-- The characters that stand behind `before` are in one piece of text, as they were entered. -/
def Verbatim (before cs : List Char) (pieces : List Piece) : Prop :=
  ∃ front left right back, pieces = front ++ text (left ++ cs ++ right) :: back ∧
    before = front.flatMap source ++ left

namespace Verbatim

variable {before : List Char} {pieces : List Piece}

theorem cons (h : Verbatim before cs pieces) (piece : Piece) :
    Verbatim (piece.source ++ before) cs (piece :: pieces) := by
  obtain ⟨front, left, right, back, rfl, rfl⟩ := h
  exact ⟨piece :: front, left, right, back, rfl, by simp⟩

theorem prepend (h : Verbatim before cs pieces) (text : List Char) :
    Verbatim (text ++ before) cs (prepend text pieces) := by
  obtain ⟨_ | ⟨_ | _, front⟩, left, right, back, rfl, rfl⟩ := h
  · exact ⟨[], text ++ before, right, back, by simp [Piece.prepend], rfl⟩
  · exact ⟨_ :: front, left, right, back, rfl, by simp [source]⟩
  · exact ⟨_ :: _ :: front, left, right, back, rfl, by simp [source]⟩

theorem head (before cs right : List Char) (pieces : List Piece) :
    Verbatim before cs (Piece.prepend (before ++ (cs ++ right)) pieces) := by
  unfold Piece.prepend
  split
  next more pieces => exact ⟨[], before, right ++ more, pieces, by simp, rfl⟩
  next => exact ⟨[], before, right, pieces, by simp, rfl⟩

theorem join {outer : List Char} (h : Verbatim [] outer pieces)
    (nonempty : ∀ piece ∈ pieces, piece.source ≠ []) (before inner : List Char) :
    Verbatim before (inner ++ outer) (Piece.prepend (before ++ inner) pieces) := by
  obtain ⟨front, left, right, back, rfl, none⟩ := h
  obtain ⟨first, rfl⟩ := List.append_eq_nil_iff.mp none.symm
  cases front with
  | nil => exact ⟨[], before, right, back, by simp [Piece.prepend], rfl⟩
  | cons piece front =>
    exact absurd (List.append_eq_nil_iff.mp first).1 (nonempty piece List.mem_cons_self)

end Verbatim

/-- No byte between two offsets belongs to a reference. -/
def Untouched (start stop : Nat) (pieces : List Piece) : Prop :=
  ∀ piece ∈ pieces, ¬piece.Touches start stop

theorem untouched_prepend {pieces : List Piece} :
    Untouched start stop (prepend front pieces) ↔ Untouched start stop pieces := by
  unfold prepend
  split <;> simp [Untouched, Touches]

theorem Untouched.later {pieces : List Piece} {start' : Nat} (h : Untouched start stop pieces)
    (later : start ≤ start') : Untouched start' stop pieces := by
  intro piece member touches
  cases piece with
  | text => exact touches
  | reference =>
    exact h _ member ⟨touches.1, Nat.lt_of_le_of_lt later touches.2⟩

/-- Where a part of a text begins when the text is cut once. -/
theorem cut_cases {first second before cs after : List Char}
    (whole : first ++ second = before ++ (cs ++ after)) :
    (∃ between, before = first ++ between ∧ second = between ++ (cs ++ after)) ∨
    (∃ rest, first = before ++ (cs ++ rest) ∧ after = rest ++ second) ∨
    ∃ inner outer, outer ≠ [] ∧ first = before ++ inner ∧ cs = inner ++ outer ∧
      second = outer ++ after := by
  rcases List.append_eq_append_iff.mp whole with behind | ⟨inner, rfl, same⟩
  · exact .inl behind
  · rcases List.append_eq_append_iff.mp same with ⟨rest, rfl, rfl⟩ | ⟨outer, rfl, rfl⟩
    · exact .inr (.inl ⟨rest, rfl, rfl⟩)
    · by_cases none : outer = []
      · subst none
        exact .inr (.inl ⟨[], by simp, by simp⟩)
      · exact .inr (.inr ⟨inner, outer, none, rfl, rfl, rfl⟩)

theorem cut_behind {first second before after : List Char}
    (whole : first ++ second = before ++ after) (later : utf8Size first ≤ utf8Size before) :
    ∃ between, before = first ++ between ∧ second = between ++ after := by
  rcases List.append_eq_append_iff.mp whole with behind | ⟨inner, rfl, rfl⟩
  · exact behind
  · have none : inner = [] := by
      by_contra more
      have size := utf8Size_pos more
      rw [utf8Size_append] at later
      omega
    subst none
    exact ⟨[], by simp, by simp⟩

/-- What no reference touches is in one piece of text. -/
theorem assemble_verbatim {before cs after : List Char}
    (whole : runs.flatMap Run.text = before ++ (cs ++ after)) (filled : cs ≠ [])
    (nonempty : ∀ run ∈ runs, run.text ≠ [])
    (untouched : Untouched (start + utf8Size before) (start + utf8Size before + utf8Size cs)
      (assemble start runs)) : Verbatim before cs (assemble start runs) := by
  induction runs generalizing start before cs with
  | nil =>
    obtain ⟨_, later⟩ := List.append_eq_nil_iff.mp whole.symm
    exact absurd (List.append_eq_nil_iff.mp later).1 filled
  | cons run runs ih =>
    have nonempty (later : Run) (member : later ∈ runs) : later.text ≠ [] :=
      nonempty later (List.mem_cons_of_mem _ member)
    rw [List.flatMap_cons] at whole
    rw [assemble] at untouched ⊢
    have behind {between : List Char} (rest : runs.flatMap Run.text = between ++ (cs ++ after))
        (untouched : Untouched (start + utf8Size (run.text ++ between))
          (start + utf8Size (run.text ++ between) + utf8Size cs)
          (assemble (start + utf8Size run.text) runs)) :
        Verbatim between cs (assemble (start + utf8Size run.text) runs) := by
      rw [utf8Size_append, ← Nat.add_assoc] at untouched
      exact ih rest filled nonempty untouched
    split_ifs at untouched ⊢ with reference
    · obtain ⟨apart, untouched⟩ := List.forall_mem_cons.mp untouched
      -- The reference stands before the text, or it would touch it.
      have apart : utf8Size run.text ≤ utf8Size before := by
        have size := utf8Size_pos filled
        simp only [Touches, not_and_or] at apart
        omega
      obtain ⟨between, rfl, rest⟩ := cut_behind whole apart
      exact (behind rest untouched).cons (.reference run.text start)
    · rw [untouched_prepend] at untouched
      rcases cut_cases whole with ⟨between, rfl, rest⟩ | ⟨rest, same, rfl⟩ |
        ⟨inner, outer, more, same, rfl, rest⟩
      · exact (behind rest untouched).prepend run.text
      · rw [same]
        exact .head ..
      · -- The text goes on in the next runs, and no reference comes between.
        have stop : start + utf8Size before + utf8Size (inner ++ outer) =
            start + utf8Size run.text + utf8Size ([] : List Char) + utf8Size outer := by
          simp [same, utf8Size, Nat.add_assoc]
        rw [stop] at untouched
        have later : start + utf8Size before ≤
            start + utf8Size run.text + utf8Size ([] : List Char) := by
          rw [same, utf8Size_append]
          omega
        have first : Verbatim [] outer _ := ih rest more nonempty (untouched.later later)
        rw [same] at first ⊢
        exact first.join (source_ne_nil nonempty) before inner

end Piece

end Worksheet.Formula
