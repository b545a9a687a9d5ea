import Mathlib.Data.List.Perm.Subperm
import Worksheet.Proofs.Dependency.Reading

/-! The order of recalculation. In a schedule whatever a formula reads has come before it, so it
never reaches a formula behind a cycle. Counts and ready set always agree with the formulas that
have come so far, so the order is a schedule, and what is left over waits for something left over: a
formula is blocked exactly when it is behind a cycle. -/
namespace Worksheet.Graph

/-- Formulas one after another, each of them once and after all formulas that it reads. -/
inductive Schedule (g : Graph) : List Position → Prop where
  | nil : Schedule g []
  | snoc {order : List Position} {p : Position} : Schedule g order → g.isFormula p → p ∉ order →
      (∀ q, g.Reads p q → q ∈ order) → Schedule g (order ++ [p])

namespace Schedule

variable {g : Graph} {p q : Position} {order : List Position}

theorem isFormula (h : g.Schedule order) (member : p ∈ order) : g.isFormula p := by
  induction h with
  | nil => simp at member
  | snoc _ formula _ _ ih =>
    rcases List.mem_append.mp member with earlier | last
    · exact ih earlier
    · rwa [List.mem_singleton.mp last]

theorem nodup (h : g.Schedule order) : order.Nodup := by
  induction h with
  | nil => exact List.nodup_nil
  | snoc _ _ fresh _ ih =>
    refine List.nodup_append.mpr ⟨ih, List.nodup_singleton _, ?_⟩
    rintro a member b last rfl
    exact fresh (List.mem_singleton.mp last ▸ member)

/-- Nothing in a schedule reads a formula outside it. -/
theorem reads_mem (h : g.Schedule order) (member : p ∈ order) (reads : g.Reads p q) :
    q ∈ order := by
  induction h with
  | nil => simp at member
  | snoc _ _ _ before ih =>
    rcases List.mem_append.mp member with earlier | last
    · exact List.mem_append_left _ (ih earlier)
    · exact List.mem_append_left _ (before q (List.mem_singleton.mp last ▸ reads))

theorem reads_before (h : g.Schedule order) (member : p ∈ order) (reads : g.Reads p q) :
    order.idxOf q < order.idxOf p := by
  induction h with
  | nil => simp at member
  | @snoc order last schedule _ fresh before ih =>
    by_cases earlier : p ∈ order
    · rw [List.idxOf_append_of_mem (schedule.reads_mem earlier reads),
        List.idxOf_append_of_mem earlier]
      exact ih earlier
    · obtain rfl : p = last := by simpa [earlier] using member
      have found : q ∈ order := before q reads
      rw [List.idxOf_append_of_mem found, List.idxOf_append_of_notMem earlier]
      exact Nat.lt_add_right _ (List.idxOf_lt_length_of_mem found)

theorem not_behindCycle (h : g.Schedule order) (member : p ∈ order) : ¬g.BehindCycle p := by
  induction h generalizing p with
  | nil => simp at member
  | snoc _ _ _ before ih =>
    rcases List.mem_append.mp member with earlier | last
    · exact ih earlier
    · intro behind
      obtain ⟨q, reads, behind⟩ := behind.reads
      exact ih (before q (List.mem_singleton.mp last ▸ reads)) behind

theorem length_le (h : g.Schedule order) : order.length ≤ g.cells.length :=
  (List.subperm_of_subset h.nodup fun _ member => isFormula_iff.mp (h.isFormula member)).length_le

end Schedule

variable {g : Graph} {s : Progress} {p q : Position} {done : List Position}

def waitsFor (g : Graph) (done : List Position) (p : Position) : List Position :=
  (g.precedentsOf p).filter fun q => g.isFormula q && !done.contains q

theorem mem_waitsFor : q ∈ g.waitsFor done p ↔ g.Reads p q ∧ q ∉ done := by
  simp [waitsFor, Reads, and_assoc]

theorem waitsFor_snoc (g : Graph) (done : List Position) (p q : Position) :
    g.waitsFor (done ++ [q]) p = (g.waitsFor done p).erase q := by
  have nodup : (g.waitsFor done p).Nodup := (g.precedentsOf_nodup p).filter _
  rw [nodup.erase_eq_filter, waitsFor, waitsFor, List.filter_filter]
  refine List.filter_congr fun r _ => ?_
  by_cases same : r = q <;> simp [same]

theorem waitsFor_eq_nil : g.waitsFor done p = [] ↔ ∀ q, g.Reads p q → q ∈ done := by
  rw [List.eq_nil_iff_forall_not_mem]
  simp only [mem_waitsFor, not_and, not_not]

theorem pending_release (s : Progress) (p q : Position) :
    (release s p).pending.get? q =
      if p = q then (s.pending.get? q).map (· - 1) else s.pending.get? q := by
  unfold release
  by_cases same : p = q
  · subst same
    cases found : s.pending.get? p <;> simp [found, OrderedMap.get?_insert]
  · cases s.pending.get? p <;> simp [same, OrderedMap.get?_insert]

theorem ordered_release (s : Progress) (p : Position) : (release s p).ordered = s.ordered := by
  unfold release
  split <;> rfl

theorem ready_release : (release s p).ready.contains q ↔
    s.ready.contains q ∨ p = q ∧ ∃ count ≤ 1, s.pending.get? p = some count := by
  unfold release
  cases found : s.pending.get? p with
  | none => simp
  | some count =>
    by_cases least : count ≤ 1
    · simp [Nat.sub_eq_zero_of_le least, OrderedSet.contains_add, least, or_comm]
    · simp [Nat.sub_eq_zero_iff_le, least]

theorem ordered_releases (s : Progress) (dependents : List Position) :
    (dependents.foldl release s).ordered = s.ordered := by
  induction dependents generalizing s with
  | nil => rfl
  | cons p rest ih => rw [List.foldl_cons, ih, ordered_release]

theorem pending_releases {dependents : List Position} (distinct : dependents.Nodup) :
    (dependents.foldl release s).pending.get? q =
      if q ∈ dependents then (s.pending.get? q).map (· - 1) else s.pending.get? q := by
  induction dependents generalizing s with
  | nil => simp
  | cons p rest ih =>
    obtain ⟨fresh, distinct⟩ := List.nodup_cons.mp distinct
    rw [List.foldl_cons, ih distinct, pending_release]
    by_cases same : p = q
    · subst same; simp [fresh]
    · simp [same, Ne.symm same]

theorem ready_releases {dependents : List Position} (distinct : dependents.Nodup) :
    (dependents.foldl release s).ready.contains q ↔
      s.ready.contains q ∨ q ∈ dependents ∧ ∃ count ≤ 1, s.pending.get? q = some count := by
  induction dependents generalizing s with
  | nil => simp
  | cons p rest ih =>
    obtain ⟨fresh, distinct⟩ := List.nodup_cons.mp distinct
    rw [List.foldl_cons, ih distinct, ready_release, pending_release, List.mem_cons]
    by_cases same : p = q
    · subst same; simp [fresh]
    · simp [same, Ne.symm same]

/-- `p` comes next, before its dependents are released. -/
def Progress.next (s : Progress) (p : Position) : Progress :=
  { s with ready := s.ready.filter fun q _ => q ≠ p, ordered := s.ordered ++ [p] }

theorem take_of_nil (h : s.ready.keys = []) : g.take s = s := by simp [take, h]

theorem take_of_cons {rest : List Position} (h : s.ready.keys = p :: rest) :
    g.take s = (g.dependentsOf p).foldl release (s.next p) := by simp [take, h, Progress.next]

theorem ready_next : (s.next p).ready.contains q ↔ s.ready.contains q ∧ q ≠ p := by
  simp only [Progress.next, OrderedMap.contains, OrderedMap.get?_filter]
  cases s.ready.get? q <;> simp [Option.filter]

/-- Counts and ready set say what the formulas that have come say. -/
structure Tracks (g : Graph) (s : Progress) : Prop where
  schedule : g.Schedule s.ordered
  pending : ∀ p, s.pending.get? p =
    if g.isFormula p then some (g.waitsFor s.ordered p).length else none
  ready : ∀ p, s.ready.contains p ↔ g.isFormula p ∧ p ∉ s.ordered ∧ g.waitsFor s.ordered p = []

theorem pending_initial (g : Graph) (p : Position) : g.initial.pending.get? p =
    if g.isFormula p then some (g.waitsFor [] p).length else none := by
  have formula : g.isFormula p = (g.precedents.get? p).isSome := rfl
  have waits : g.waitsFor [] p = (g.precedentsOf p).filter fun q => g.isFormula q := by
    simp [waitsFor]
  rw [formula, waits, precedentsOf, initial, OrderedMap.get?_map]
  cases g.precedents.get? p <;> rfl

theorem ready_initial : g.initial.ready.contains p ↔ g.initial.pending.get? p = some 0 := by
  change (((g.initial.pending.filter fun _ count => count = 0).map fun _ _ => ()).get? p).isSome ↔ _
  rw [OrderedMap.get?_map, OrderedMap.get?_filter]
  cases g.initial.pending.get? p <;> simp [Option.filter]

theorem initial_tracks (g : Graph) : g.Tracks g.initial where
  schedule := .nil
  pending := pending_initial g
  ready p := by
    rw [ready_initial, pending_initial]
    by_cases is : g.isFormula p <;> simp [is, initial]

namespace Tracks

/-- The least ready formula may come next. -/
theorem first_ready {rest : List Position} (h : g.Tracks s) (first : s.ready.keys = p :: rest) :
    g.isFormula p ∧ p ∉ s.ordered ∧ g.waitsFor s.ordered p = [] :=
  (h.ready p).mp (OrderedMap.contains_iff.mpr (first ▸ List.mem_cons_self))

theorem schedule_snoc {rest : List Position} (h : g.Tracks s) (first : s.ready.keys = p :: rest) :
    g.Schedule (s.ordered ++ [p]) := by
  obtain ⟨formula, fresh, waits⟩ := h.first_ready first
  exact h.schedule.snoc formula fresh (waitsFor_eq_nil.mp waits)

theorem mem_waitsFor_dependent {rest : List Position} (h : g.Tracks s)
    (first : s.ready.keys = p :: rest) :
    p ∈ g.waitsFor s.ordered q ↔ q ∈ g.dependentsOf p := by
  obtain ⟨formula, fresh, _⟩ := h.first_ready first
  simp [mem_waitsFor, mem_dependentsOf, Reads, formula, fresh]

theorem ready_take {rest : List Position} (h : g.Tracks s) (first : s.ready.keys = p :: rest)
    (q : Position) : (g.take s).ready.contains q ↔
      g.isFormula q ∧ q ∉ s.ordered ++ [p] ∧ (g.waitsFor s.ordered q).erase p = [] := by
  obtain ⟨_, _, waits⟩ := h.first_ready first
  have dependent := h.mem_waitsFor_dependent (q := q) first
  rw [take_of_cons first, ready_releases (g.dependentsOf_nodup p), ready_next, h.ready]
  simp only [Progress.next, h.pending]
  by_cases waiting : p ∈ g.waitsFor s.ordered q
  · have formula : g.isFormula q := (mem_waitsFor.mp waiting).1.isFormula
    have fresh : q ∉ s.ordered := fun come =>
      (mem_waitsFor.mp waiting).2 (h.schedule.reads_mem come (mem_waitsFor.mp waiting).1)
    have other : q ≠ p := fun same => by simp [same, waits] at waiting
    have single : (g.waitsFor s.ordered q).erase p = [] ↔ (g.waitsFor s.ordered q).length ≤ 1 := by
      rw [← List.length_eq_zero_iff, List.length_erase_of_mem waiting]
      omega
    simp [single, formula, fresh, other, dependent.mp waiting, List.ne_nil_of_mem waiting]
  · simp [mt dependent.mpr waiting, List.erase_of_not_mem waiting]
    tauto

theorem take (h : g.Tracks s) : g.Tracks (g.take s) := by
  cases first : s.ready.keys with
  | nil => rwa [take_of_nil first]
  | cons p rest =>
    have ordered : (g.take s).ordered = s.ordered ++ [p] := by
      rw [take_of_cons first, ordered_releases]
      rfl
    refine ⟨ordered ▸ h.schedule_snoc first, fun q => ?_, fun q => ?_⟩
    · rw [ordered, take_of_cons first, pending_releases (g.dependentsOf_nodup p)]
      simp only [Progress.next, h.pending, waitsFor_snoc, List.length_erase,
        h.mem_waitsFor_dependent first]
      by_cases dependent : q ∈ g.dependentsOf p <;> by_cases is : g.isFormula q <;>
        simp [dependent, is]
    · rw [ordered, waitsFor_snoc]
      exact h.ready_take first q

theorem takeMany (n : Nat) (h : g.Tracks s) : g.Tracks (g.takeMany n s) := by
  induction n generalizing s with
  | zero => exact h
  | succ n ih => exact ih h.take

end Tracks

theorem takeMany_of_nil (n : Nat) (h : s.ready.keys = []) : g.takeMany n s = s := by
  induction n with
  | zero => rfl
  | succ n ih => rw [takeMany, take_of_nil h, ih]

theorem length_takeMany (n : Nat) (s : Progress) : (g.takeMany n s).ready.keys = [] ∨
    (g.takeMany n s).ordered.length = s.ordered.length + n := by
  induction n generalizing s with
  | zero => exact .inr rfl
  | succ n ih =>
    cases first : s.ready.keys with
    | nil => exact .inl (by rw [takeMany_of_nil _ first, first])
    | cons p rest =>
      refine (ih (g.take s)).imp id fun taken => ?_
      rw [takeMany, taken, take_of_cons first, ordered_releases, Progress.next, List.length_append,
        List.length_singleton]
      omega

/-- The run ends with no formula ready: there are enough steps to take them all. -/
theorem ready_final (g : Graph) : (g.takeMany g.cells.length g.initial).ready.keys = [] := by
  have final := g.initial_tracks.takeMany g.cells.length
  rcases length_takeMany g.cells.length g.initial with done | all
  · exact done
  · cases first : (g.takeMany g.cells.length g.initial).ready.keys with
    | nil => rfl
    | cons p rest =>
      have bound := (final.schedule_snoc first).length_le
      rw [List.length_append, List.length_singleton, all] at bound
      omega

theorem schedule_ordered (g : Graph) : g.Schedule g.ordered :=
  (g.initial_tracks.takeMany _).schedule

theorem mem_blocked : p ∈ g.blocked ↔ g.isFormula p ∧ p ∉ g.ordered := by
  simp [blocked, isFormula_iff]

theorem ordered_disjoint_blocked (g : Graph) : g.ordered.Disjoint g.blocked :=
  fun _ ordered blocked => (mem_blocked.mp blocked).2 ordered

theorem blocked_reads (h : p ∈ g.blocked) : ∃ q ∈ g.blocked, g.Reads p q := by
  obtain ⟨formula, left⟩ := mem_blocked.mp h
  have final := g.initial_tracks.takeMany g.cells.length
  have notReady : ¬(g.takeMany g.cells.length g.initial).ready.contains p := by
    rw [OrderedMap.contains_iff, ready_final]
    exact List.not_mem_nil
  have waits : g.waitsFor g.ordered p ≠ [] := fun none =>
    notReady ((final.ready p).mpr ⟨formula, left, none⟩)
  obtain ⟨q, waiting⟩ := List.exists_mem_of_ne_nil _ waits
  obtain ⟨reads, notCome⟩ := mem_waitsFor.mp waiting
  exact ⟨q, mem_blocked.mpr ⟨reads.2, notCome⟩, reads⟩

/-- Being blocked is a property of the graph, not of the run. -/
theorem mem_blocked_iff_behindCycle : p ∈ g.blocked ↔ g.BehindCycle p := by
  constructor
  · exact behindCycle_of_endless fun _ => blocked_reads
  · intro behind
    exact mem_blocked.mpr ⟨behind.isFormula, fun come =>
      g.schedule_ordered.not_behindCycle come behind⟩

theorem mem_ordered_or_blocked : g.isFormula p ↔ p ∈ g.ordered ∨ p ∈ g.blocked := by
  rw [mem_blocked]
  have := g.schedule_ordered.isFormula (p := p)
  tauto

/-- The run comes to `s`, and there the count of `q` is lowered. -/
def Lowers (g : Graph) (s : Progress) (q : Position) : Prop :=
  ∃ (n : Nat) (p : Position) (rest before after : List Position),
    (g.takeMany n g.initial).ready.keys = p :: rest ∧ g.dependentsOf p = before ++ q :: after ∧
      s = before.foldl release ((g.takeMany n g.initial).next p)

theorem Lowers.positive (h : g.Lowers s q) : ∃ count, s.pending.get? q = some (count + 1) := by
  obtain ⟨n, p, rest, before, after, first, split, rfl⟩ := h
  have tracks := g.initial_tracks.takeMany n
  have distinct := split ▸ g.dependentsOf_nodup p
  have fresh : q ∉ before := fun twice =>
    (List.nodup_append.mp distinct).2.2 q twice q List.mem_cons_self rfl
  have dependent : q ∈ g.dependentsOf p := split ▸ List.mem_append_right _ List.mem_cons_self
  have waiting := (tracks.mem_waitsFor_dependent first).mpr dependent
  have formula : g.isFormula q := (mem_waitsFor.mp waiting).1.isFormula
  rw [pending_releases (List.nodup_append.mp distinct).1, if_neg fresh, Progress.next,
    tracks.pending, if_pos formula]
  exact ⟨_, congrArg some (Nat.sub_add_cancel (List.length_pos_of_mem waiting)).symm⟩

/-- The order lists every formula once that is not behind a cycle, what it reads first, and the
blocked formulas are all the others in row-major order. No count is lowered when it is zero. -/
theorem order_exact (g : Graph) :
    g.ordered.Nodup ∧ g.blocked.Nodup ∧ g.ordered.Disjoint g.blocked ∧
    (∀ p, g.isFormula p ↔ p ∈ g.ordered ∨ p ∈ g.blocked) ∧
    (∀ p ∈ g.ordered, ∀ q ∈ g.precedentsOf p, g.isFormula q →
      q ∈ g.ordered ∧ g.ordered.idxOf q < g.ordered.idxOf p) ∧
    (∀ p, p ∈ g.blocked ↔ g.isFormula p ∧ g.BehindCycle p) ∧
    g.blocked.Pairwise (· < ·) ∧
    ∀ s q, g.Lowers s q → ∃ count, s.pending.get? q = some (count + 1) := by
  have schedule := g.schedule_ordered
  refine ⟨schedule.nodup, g.cells_nodup.filter _, g.ordered_disjoint_blocked,
    fun p => mem_ordered_or_blocked, fun p ordered q precedent formula => ?_, fun p => ?_,
    g.precedents.keys_ascending.filter _, fun s q => Lowers.positive⟩
  · have reads : g.Reads p q := ⟨precedent, formula⟩
    exact ⟨schedule.reads_mem ordered reads, schedule.reads_before ordered reads⟩
  · rw [mem_blocked_iff_behindCycle]
    exact ⟨fun behind => ⟨behind.isFormula, behind⟩, And.right⟩

/-- The third cell reads the cycle of the first two, and the last reads only what comes before. -/
theorem order_exact_cycle :
    let g : Graph := ⟨.ofList [(⟨0, 0⟩, .ofList [⟨0, 1⟩]), (⟨0, 1⟩, .ofList [⟨0, 0⟩]),
      (⟨0, 2⟩, .ofList [⟨0, 0⟩, ⟨1, 1⟩]), (⟨1, 0⟩, .ofList [⟨1, 1⟩, ⟨5, 5⟩]), (⟨1, 1⟩, .ofList [])]⟩
    g.ordered = [⟨1, 1⟩, ⟨1, 0⟩] ∧ g.blocked = [⟨0, 0⟩, ⟨0, 1⟩, ⟨0, 2⟩] ∧
    g.ordered.idxOf ⟨1, 1⟩ < g.ordered.idxOf ⟨1, 0⟩ ∧ g.BehindCycle ⟨0, 2⟩ ∧
    ∃ count, (g.initial.next ⟨1, 1⟩).pending.get? ⟨0, 2⟩ = some (count + 1) := by
  intro g
  obtain ⟨_, _, _, _, before, blocked, _, lowers⟩ := order_exact g
  refine ⟨by decide, by decide, ?_, ?_, ?_⟩
  · exact (before ⟨1, 0⟩ (by decide) ⟨1, 1⟩ (by decide) (by decide)).2
  · exact ((blocked ⟨0, 2⟩).mp (by decide)).2
  · exact lowers _ ⟨0, 2⟩ ⟨0, ⟨1, 1⟩, [], [], [⟨1, 0⟩], by decide, by decide, rfl⟩

end Worksheet.Graph
