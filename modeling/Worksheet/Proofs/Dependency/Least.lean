import Mathlib.Data.List.Lex
import Worksheet.Proofs.Dependency.Ordering

/-! Ties between ready formulas. The order of recalculation is the first, cell by cell in row-major
order, of all orders that it could be: a formula that has become ready early is never passed over
for a later cell. -/
namespace Worksheet.Graph

variable {g : Graph} {s : Progress} {p q : Position} {front rest order : List Position}

theorem takeMany_succ (n : Nat) (s : Progress) :
    g.takeMany (n + 1) s = g.take (g.takeMany n s) := by
  induction n generalizing s with
  | zero => rfl
  | succ n ih => exact ih (g.take s)

/-- Whatever is ready comes no earlier in row-major order than what is taken. -/
theorem Tracks.first_least (h : g.Tracks s) (first : s.ready.keys = p :: rest)
    (formula : g.isFormula q) (fresh : q ∉ s.ordered) (free : ∀ r, g.Reads q r → r ∈ s.ordered) :
    p = q ∨ p < q := by
  have ready : q ∈ p :: rest := by
    rw [← first, ← OrderedMap.contains_iff, h.ready]
    exact ⟨formula, fresh, waitsFor_eq_nil.mpr free⟩
  have ascending : (p :: rest).Pairwise (· < ·) := first ▸ s.ready.keys_ascending
  rcases List.mem_cons.mp ready with same | later
  · exact .inl same.symm
  · exact .inr ((List.pairwise_cons.mp ascending).1 q later)

/-- Every formula of a run was taken at the moment when what stands before it had come. -/
theorem exists_taken {n : Nat} (taken : (g.takeMany n g.initial).ordered = front ++ p :: rest) :
    ∃ m later, (g.takeMany m g.initial).ordered = front ∧
      (g.takeMany m g.initial).ready.keys = p :: later := by
  induction n generalizing rest with
  | zero => simp [takeMany, initial] at taken
  | succ n ih =>
    rw [takeMany_succ] at taken
    cases first : (g.takeMany n g.initial).ready.keys with
    | nil =>
      rw [take_of_nil first] at taken
      exact ih taken
    | cons last later =>
      rw [take_of_cons first, ordered_releases, Progress.next] at taken
      rcases List.eq_nil_or_concat rest with rfl | ⟨between, final, rfl⟩
      · obtain ⟨before, same⟩ := List.append_inj' taken rfl
        obtain rfl := List.singleton_inj.mp same
        exact ⟨n, later, before, first⟩
      · rw [List.concat_eq_append, ← List.cons_append, ← List.append_assoc] at taken
        exact ih (List.append_inj' taken rfl).1

theorem ordered_first (split : g.ordered = front ++ p :: rest) (formula : g.isFormula q)
    (fresh : q ∉ front) (free : ∀ r, g.Reads q r → r ∈ front) : p = q ∨ p < q := by
  obtain ⟨n, later, rfl, first⟩ := exists_taken split
  exact (g.initial_tracks.takeMany n).first_least first formula fresh free

/-- The unblocked formulas, each of them once and after all formulas that it reads. -/
structure Arrangement (g : Graph) (order : List Position) : Prop where
  nodup : order.Nodup
  members : ∀ p, p ∈ order ↔ g.isFormula p ∧ p ∉ g.blocked
  reads_before : ∀ p ∈ order, ∀ q, g.Reads p q → order.idxOf q < order.idxOf p

theorem mem_ordered : p ∈ g.ordered ↔ g.isFormula p ∧ p ∉ g.blocked := by
  constructor
  · exact fun come => ⟨mem_ordered_or_blocked.mpr (.inl come), g.ordered_disjoint_blocked come⟩
  · rintro ⟨formula, free⟩
    exact (mem_ordered_or_blocked.mp formula).resolve_right free

theorem ordered_arrangement (g : Graph) : g.Arrangement g.ordered where
  nodup := g.schedule_ordered.nodup
  members _ := mem_ordered
  reads_before _ come _ reads := g.schedule_ordered.reads_before come reads

namespace Arrangement

theorem perm (h : g.Arrangement order) : g.ordered.Perm order := by
  refine (List.perm_ext_iff_of_nodup g.schedule_ordered.nodup h.nodup).mpr fun p => ?_
  rw [mem_ordered, h.members]

theorem reads_front (h : g.Arrangement (front ++ q :: rest)) {r : Position}
    (reads : g.Reads q r) : r ∈ front := by
  have fresh : q ∉ front := fun twice =>
    (List.nodup_append.mp h.nodup).2.2 q twice q List.mem_cons_self rfl
  have before := h.reads_before q (by simp) r reads
  rw [List.idxOf_append_of_notMem fresh, List.idxOf_cons_self, Nat.add_zero] at before
  by_contra other
  rw [List.idxOf_append_of_notMem other] at before
  omega

/-- Behind what both have in common, the order is not after another arrangement. -/
theorem least_behind (front : List Position) {rest rest' : List Position}
    (split : g.ordered = front ++ rest) (h : g.Arrangement (front ++ rest')) :
    rest = rest' ∨ List.Lex (· < ·) rest rest' := by
  have lengths : rest.length = rest'.length := by
    have := h.perm.length_eq
    rw [split, List.length_append, List.length_append] at this
    omega
  induction rest generalizing front rest' with
  | nil => exact .inl (List.eq_nil_of_length_eq_zero lengths.symm).symm
  | cons p rest ih =>
    obtain ⟨q, rest', rfl⟩ := List.exists_cons_of_length_eq_add_one lengths.symm
    have formula : g.isFormula q := ((h.members q).mp (by simp)).1
    have fresh : q ∉ front := fun twice =>
      (List.nodup_append.mp h.nodup).2.2 q twice q List.mem_cons_self rfl
    rcases ordered_first split formula fresh (fun _ => h.reads_front) with rfl | less
    · have split : g.ordered = (front ++ [p]) ++ rest := by simpa using split
      have h : g.Arrangement ((front ++ [p]) ++ rest') := by simpa using h
      rcases ih (front ++ [p]) split h (Nat.succ.inj lengths) with same | less
      · exact .inl (congrArg _ same)
      · exact .inr (.cons less)
    · exact .inr (.rel less)

end Arrangement

/-- The order is an arrangement of the unblocked formulas, and among all of them it is the first
one, where arrangements compare as words do and their cells in row-major order. -/
theorem ordered_least (g : Graph) : g.Arrangement g.ordered ∧
    ∀ order, g.Arrangement order → g.ordered = order ∨ List.Lex (· < ·) g.ordered order :=
  ⟨g.ordered_arrangement, fun _ => Arrangement.least_behind [] rfl⟩

/-- The second cell is freed by the third and then comes before the fourth, which was ready all the
time. Another arrangement leaves it for last. -/
theorem ordered_least_freed :
    let g : Graph := ⟨.ofList [(⟨0, 0⟩, .ofList [⟨0, 0⟩]), (⟨0, 1⟩, .ofList [⟨0, 2⟩]),
      (⟨0, 2⟩, .ofList []), (⟨0, 3⟩, .ofList [⟨5, 5⟩])]⟩
    let other : List Position := [⟨0, 2⟩, ⟨0, 3⟩, ⟨0, 1⟩]
    g.ordered = [⟨0, 2⟩, ⟨0, 1⟩, ⟨0, 3⟩] ∧ g.Arrangement other ∧
      List.Lex (· < ·) g.ordered other := by
  intro g other
  have order : g.ordered = [⟨0, 2⟩, ⟨0, 1⟩, ⟨0, 3⟩] := by decide
  have perm : other.Perm g.ordered := by decide
  have before : ∀ p ∈ other, ∀ q ∈ g.precedentsOf p, g.isFormula q →
      other.idxOf q < other.idxOf p := by decide
  have arrangement : g.Arrangement other :=
    ⟨by decide, fun p => perm.mem_iff.trans mem_ordered,
      fun p member q reads => before p member q reads.1 reads.2⟩
  exact ⟨order, arrangement, ((ordered_least g).2 other arrangement).resolve_left (by decide)⟩

end Worksheet.Graph
