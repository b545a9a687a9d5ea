import Mathlib.Data.Fintype.Pigeonhole
import Mathlib.Data.Set.Finite.List
import Mathlib.Logic.Relation
import Mathlib.Order.Monotone.Basic
import Worksheet.Dependency
import Worksheet.OrderedMap.Lemmas

/-! Which formulas read which, and which of them read their way to a cycle. References to cells
that hold no formula do not count: only formulas can wait for each other. -/
namespace Worksheet.Graph

open Relation

variable {g : Graph} {p q : Position}

theorem isFormula_iff : g.isFormula p ↔ p ∈ g.cells := OrderedMap.contains_iff

theorem cells_nodup (g : Graph) : g.cells.Nodup := g.precedents.keys_nodup

theorem mem_precedentsOf : q ∈ g.precedentsOf p ↔
    ∃ precedents, g.precedents.get? p = some precedents ∧ precedents.contains q := by
  unfold precedentsOf
  cases g.precedents.get? p <;> simp [OrderedMap.contains_iff]

theorem precedentsOf_nodup (g : Graph) (p : Position) : (g.precedentsOf p).Nodup := by
  unfold precedentsOf
  cases g.precedents.get? p with
  | none => exact List.nodup_nil
  | some precedents => exact precedents.keys_nodup

theorem isFormula_of_mem_precedentsOf (h : q ∈ g.precedentsOf p) : g.isFormula p := by
  obtain ⟨precedents, found, _⟩ := mem_precedentsOf.mp h
  exact OrderedMap.contains_iff_get?.mpr ⟨precedents, found⟩

theorem mem_dependentsOf : q ∈ g.dependentsOf p ↔ p ∈ g.precedentsOf q := by
  simp only [dependentsOf, mem_precedentsOf, List.mem_map, List.mem_filter]
  constructor
  · rintro ⟨e, ⟨member, reads⟩, rfl⟩
    exact ⟨e.2, OrderedMap.get?_eq_some_iff.mpr member, reads⟩
  · rintro ⟨precedents, found, reads⟩
    exact ⟨(q, precedents), ⟨OrderedMap.get?_eq_some_iff.mp found, reads⟩, rfl⟩

theorem dependentsOf_nodup (g : Graph) (p : Position) : (g.dependentsOf p).Nodup :=
  g.cells_nodup.sublist (List.filter_sublist.map Prod.fst)

/-- `p` refers to `q`, and `q` is a formula too. -/
def Reads (g : Graph) (p q : Position) : Prop := q ∈ g.precedentsOf p ∧ g.isFormula q

theorem Reads.isFormula (h : g.Reads p q) : g.isFormula p := isFormula_of_mem_precedentsOf h.1

/-- Reading leads from `p` to a formula on a cycle. A formula that reads itself is on one. -/
def BehindCycle (g : Graph) (p : Position) : Prop :=
  ∃ q, ReflTransGen g.Reads p q ∧ TransGen g.Reads q q

/-- Whatever is behind a cycle reads something behind it. -/
theorem BehindCycle.reads (h : g.BehindCycle p) : ∃ q, g.Reads p q ∧ g.BehindCycle q := by
  obtain ⟨c, path, cycle⟩ := h
  rcases path.cases_head with rfl | ⟨q, first, rest⟩
  · obtain ⟨q, first, rest⟩ := TransGen.head'_iff.mp cycle
    exact ⟨q, first, p, rest, cycle⟩
  · exact ⟨q, first, c, rest, cycle⟩

theorem BehindCycle.isFormula (h : g.BehindCycle p) : g.isFormula p := by
  obtain ⟨_, first, _⟩ := h.reads
  exact first.isFormula

/-- Among finitely many formulas that each read another of them, a walk must repeat. -/
theorem behindCycle_of_endless {cells : List Position}
    (endless : ∀ p ∈ cells, ∃ q ∈ cells, g.Reads p q) (member : p ∈ cells) : g.BehindCycle p := by
  choose! next inside reads using endless
  let walk (n : Nat) : Position := next^[n] p
  have walk_succ (n : Nat) : walk (n + 1) = next (walk n) := Function.iterate_succ_apply' ..
  have stays (n : Nat) : walk n ∈ cells := by
    induction n with
    | zero => exact member
    | succ n ih =>
      rw [walk_succ]
      exact inside _ ih
  have step (n : Nat) : g.Reads (walk n) (walk (n + 1)) := by
    rw [walk_succ]
    exact reads _ (stays n)
  have finite : Finite {q // q ∈ cells} := cells.finite_toSet
  obtain ⟨m, n, different, same⟩ := Finite.exists_ne_map_eq_of_infinite
    fun n => (⟨walk n, stays n⟩ : {q // q ∈ cells})
  have same : walk m = walk n := congrArg Subtype.val same
  have forward {a b : Nat} (less : a < b) : TransGen g.Reads (walk a) (walk b) :=
    Nat.rel_of_forall_rel_succ_of_lt _ (fun n => .single (step n)) less
  have reached : ReflTransGen g.Reads p (walk m) :=
    Nat.rel_of_forall_rel_succ_of_le (f := walk) _ (fun n => .single (step n)) (Nat.zero_le m)
  refine ⟨walk m, reached, ?_⟩
  rcases Nat.lt_or_gt_of_ne different with less | less
  · simpa only [same] using forward less
  · simpa only [same] using forward less

/-- Following references leads from `p` to `q`, which need not be a formula. -/
def Reaches (g : Graph) : Position → Position → Prop :=
  ReflTransGen fun p q => q ∈ g.precedentsOf p

theorem Reaches.mem {part : List Position} (closed : ∀ p ∈ part, ∀ q ∈ g.precedentsOf p, q ∈ part)
    (reached : g.Reaches p q) (inside : p ∈ part) : q ∈ part := by
  induction reached with
  | refl => exact inside
  | tail _ refers ih => exact closed _ ih _ refers

/-- Changing what one cell refers to does not change from where that cell is reached. -/
theorem reaches_congr {g' : Graph} {target : Position}
    (same : ∀ p, p ≠ target → g.precedentsOf p = g'.precedentsOf p) (reached : g.Reaches p target) :
    g'.Reaches p target := by
  induction reached using ReflTransGen.head_induction_on with
  | refl => exact .refl
  | @head p q refers _ ih =>
    by_cases there : p = target
    · exact there ▸ .refl
    · exact .head (same p there ▸ refers) ih

/-- No reference leads out of the part, and what is in it refers to the same in both graphs. -/
structure SharedPart (g g' : Graph) (part : Position → Prop) : Prop where
  closed : ∀ p q, part p → q ∈ g.precedentsOf p → part q
  precedents : ∀ p, part p → g.precedents.get? p = g'.precedents.get? p

namespace SharedPart

variable {g' : Graph} {part : Position → Prop}

theorem precedentsOf_eq (h : g.SharedPart g' part) (inside : part p) :
    g.precedentsOf p = g'.precedentsOf p := by
  rw [precedentsOf, precedentsOf, h.precedents p inside]

theorem isFormula_eq (h : g.SharedPart g' part) (inside : part p) :
    g.isFormula p = g'.isFormula p := congrArg Option.isSome (h.precedents p inside)

theorem symm (h : g.SharedPart g' part) : g'.SharedPart g part where
  closed p q inside refers := h.closed p q inside (h.precedentsOf_eq inside ▸ refers)
  precedents p inside := (h.precedents p inside).symm

theorem reads (h : g.SharedPart g' part) (inside : part p) (reads : g.Reads p q) :
    part q ∧ g'.Reads p q := by
  have still := h.closed p q inside reads.1
  exact ⟨still, h.precedentsOf_eq inside ▸ reads.1, h.isFormula_eq still ▸ reads.2⟩

theorem path (h : g.SharedPart g' part) (inside : part p) (path : ReflTransGen g.Reads p q) :
    part q ∧ ReflTransGen g'.Reads p q := by
  induction path with
  | refl => exact ⟨inside, .refl⟩
  | tail _ last ih =>
    obtain ⟨still, front⟩ := ih
    exact (h.reads still last).imp id front.tail

theorem behindCycle (h : g.SharedPart g' part) (inside : part p) (behind : g.BehindCycle p) :
    g'.BehindCycle p := by
  obtain ⟨q, path, cycle⟩ := behind
  obtain ⟨still, path⟩ := h.path inside path
  obtain ⟨r, first, rest⟩ := TransGen.head'_iff.mp cycle
  obtain ⟨further, first⟩ := h.reads still first
  exact ⟨q, path, .head' first (h.path further rest).2⟩

end SharedPart

end Worksheet.Graph
