import Mathlib.Logic.Function.Iterate
import Worksheet.Proofs.Recalculation.Settled

/-! Sweeps against the order of dependencies. A formula that refers only backwards is final after
one sweep; each reference forwards along a chain costs one sweep more. When no formula is behind a
cycle, repeated sweeps come to what one recalculation in dependency order leaves. -/
namespace Worksheet

open Relation

theorem Position.lt_wellFounded : WellFounded fun p q : Position => p < q := by
  refine Subrelation.wf (r := InvImage (Prod.Lex (· < ·) (· < ·)) fun p : Position =>
    (p.row.toNat, p.col.toNat)) ?_ (InvImage.wf _ (Prod.lex Nat.lt_wfRel Nat.lt_wfRel).wf)
  rintro p q (row | ⟨row, col⟩)
  · exact Prod.Lex.left _ _ row
  · rw [InvImage, row]
    exact Prod.Lex.right _ col

namespace Graph

variable {g : Graph} {p q : Position} {n : Nat}

/-- How many steps along a chain lead to a later cell. -/
def ascents : List Position → Nat
  | p :: q :: rest => (if p < q then 1 else 0) + ascents (q :: rest)
  | _ => 0

/-- No chain of references from `p` has more than `n` steps to a later cell. -/
def Within (g : Graph) (n : Nat) (p : Position) : Prop :=
  ∀ rest, (p :: rest).IsChain g.Reads → ascents (p :: rest) ≤ n

theorem Within.reads (h : g.Within n p) (reads : g.Reads p q) : g.Within n q := by
  intro rest chain
  have whole := h (q :: rest) (List.isChain_cons_cons.mpr ⟨reads, chain⟩)
  rw [ascents] at whole
  omega

/-- A step to a later cell uses up one of the steps that are left. -/
theorem Within.later (h : g.Within n p) (reads : g.Reads p q) (later : p < q) :
    ∃ m, n = m + 1 ∧ g.Within m q := by
  have whole (rest : List Position) (chain : (q :: rest).IsChain g.Reads) :
      1 + ascents (q :: rest) ≤ n := by
    simpa [ascents, later] using h (q :: rest) (List.isChain_cons_cons.mpr ⟨reads, chain⟩)
  have positive := whole [] (.singleton q)
  refine ⟨n - 1, by omega, fun rest chain => ?_⟩
  have := whole rest chain
  omega

/-- A bound that falls with every step to a later cell bounds the steps of all chains. -/
theorem ascents_le (height : Position → Nat)
    (falls : ∀ p q, g.Reads p q → height q + (if p < q then 1 else 0) ≤ height p)
    {chain : List Position} (reads : (p :: chain).IsChain g.Reads) :
    ascents (p :: chain) ≤ height p := by
  induction chain generalizing p with
  | nil => exact Nat.zero_le _
  | cons q rest ih =>
    obtain ⟨first, tail⟩ := List.isChain_cons_cons.mp reads
    have := falls p q first
    have := ih tail
    rw [ascents]
    omega

end Graph

namespace Cells

variable {cells cells' : Cells} {p : Position}

theorem mem_formulaPositions :
    p ∈ cells.formulaPositions ↔ ∃ expression, cells.expression? p = some expression := by
  simp only [formulaPositions, List.mem_map, List.mem_filter, Cell.isFormula,
    Option.isSome_iff_exists, expression?, raw?, Option.bind_map, Option.bind_eq_some_iff]
  constructor
  · rintro ⟨e, ⟨member, expression, found⟩, rfl⟩
    exact ⟨expression, e.2, OrderedMap.get?_eq_some_iff.mpr member, found⟩
  · rintro ⟨expression, cell, stored, found⟩
    exact ⟨(p, cell), ⟨OrderedMap.get?_eq_some_iff.mp stored, expression, found⟩, rfl⟩

theorem formulaPositions_ascending (cells : Cells) : cells.formulaPositions.Pairwise (· < ·) :=
  List.pairwise_map.mpr (cells.ascending.filter _)

/-- The same texts, and the same displays wherever no formula is. -/
structure SameInputs (cells cells' : Cells) : Prop where
  raws : ∀ p, cells.raw? p = cells'.raw? p
  others : ∀ p, cells.expression? p = none → cells.display p = cells'.display p

namespace SameInputs

variable {cells'' : Cells}

theorem refl (cells : Cells) : cells.SameInputs cells := ⟨fun _ => rfl, fun _ _ => rfl⟩

theorem expression? (h : cells.SameInputs cells') (p : Position) :
    cells.expression? p = cells'.expression? p := congrArg (·.bind Cell.expression?) (h.raws p)

theorem trans (h : cells.SameInputs cells') (h' : cells'.SameInputs cells'') :
    cells.SameInputs cells'' where
  raws p := (h.raws p).trans (h'.raws p)
  others p other := (h.others p other).trans (h'.others p (h.expression? p ▸ other))

end SameInputs

end Cells

namespace Rules

variable {rules : Rules} {cells target seen : Cells} {p q : Position} {expression : String}
  {n : Nat}

theorem raw?_sweep (rules : Rules) (cells : Cells) (q : Position) :
    (rules.sweep cells).raw? q = cells.raw? q := raw?_foldl (raw?_recompute rules) ..

theorem expression?_sweep (rules : Rules) (cells : Cells) (q : Position) :
    (rules.sweep cells).expression? q = cells.expression? q :=
  congrArg (·.bind Cell.expression?) (raw?_sweep rules cells q)

theorem display_sweep_other (other : cells.expression? q = none) :
    (rules.sweep cells).display q = cells.display q := by
  refine display_foldl_other (fun _ _ _ => display_recompute_other) fun member => ?_
  obtain ⟨_, formula⟩ := Cells.mem_formulaPositions.mp member
  rw [other] at formula
  cases formula

/-- When a sweep comes to a formula, earlier cells show what they will show when it ends, and the
formula itself and later cells what they showed when it began. -/
theorem display_sweep (formula : cells.expression? p = some expression)
    (reads : ∀ q ∈ rules.extent.referenced expression, seen.display q =
      if q < p then (rules.sweep cells).display q else cells.display q) :
    (rules.sweep cells).display p = rules.formulaDisplay seen expression := by
  have member : p ∈ cells.formulaPositions := Cells.mem_formulaPositions.mpr ⟨_, formula⟩
  obtain ⟨before, after, split⟩ := List.append_of_mem member
  have ascending := split ▸ cells.formulaPositions_ascending
  obtain ⟨_, tail, earlier⟩ := List.pairwise_append.mp ascending
  obtain ⟨later, _⟩ := List.pairwise_cons.mp tail
  have swept : rules.sweep cells =
      after.foldl rules.recompute (rules.recompute (before.foldl rules.recompute cells) p) := by
    rw [sweep, split, List.foldl_append, List.foldl_cons]
  have untouched {q : Position} {positions : List Position} {cells : Cells} (h : q ∉ positions) :
      (positions.foldl rules.recompute cells).display q = cells.display q :=
    display_foldl_other (fun _ _ _ => display_recompute_other) h
  have formula' : (before.foldl rules.recompute cells).expression? p = some expression := by
    rwa [Cells.expression?, raw?_foldl (raw?_recompute rules)]
  rw [swept, untouched fun again => StrictOrder.irrefl p (later p again),
    display_recompute_same formula']
  refine formulaDisplay_local fun q referenced => ?_
  rw [reads q referenced, swept]
  split
  next less =>
    have notAfter : q ∉ after := fun member =>
      StrictOrder.irrefl q (StrictOrder.trans less (later q member))
    have other : q ≠ p := fun same => StrictOrder.irrefl p (same ▸ less)
    rw [untouched notAfter, display_recompute_other other]
  next notLess => exact untouched fun member => notLess (earlier q member p List.mem_cons_self)

/-- A sweep makes formulas final when the later formulas that they read are final already. -/
theorem display_sweep_final (inputs : cells.SameInputs target)
    (final : ∀ p, rules.Consistent target p) (loopless : ∀ p, ¬(rules.graph cells).Reads p p)
    (later : ∀ p q, (rules.graph cells).Within n p → (rules.graph cells).Reads p q → p < q →
      cells.display q = target.display q) (p : Position)
    (within : (rules.graph cells).Within n p) :
    (rules.sweep cells).display p = target.display p := by
  -- The sweep goes through cells in row-major order: what stands earlier is final by induction,
  -- what stands later must have been final before the sweep.
  induction p using Position.lt_wellFounded.induction with
  | _ p earlier =>
    cases formula : cells.expression? p with
    | none => rw [display_sweep_other formula, inputs.others p formula]
    | some expression =>
      rw [final p expression ((inputs.expression? p).symm.trans formula)]
      refine display_sweep formula fun q referenced => ?_
      cases inner : cells.expression? q with
      | none => rw [display_sweep_other inner, ite_self, inputs.others q inner]
      | some _ =>
        have reads : (rules.graph cells).Reads p q :=
          ⟨(mem_precedentsOf_graph formula).mpr referenced, isFormula_graph.mpr ⟨_, inner⟩⟩
        by_cases less : q < p
        · rw [if_pos less, earlier q less (within.reads reads)]
        · have other : q ≠ p := fun same => loopless p (same ▸ reads)
          have greater : p < q := by
            by_contra notGreater
            exact other (StrictOrder.connected less notGreater)
          rw [if_neg less, later p q within reads greater]

theorem sameInputs_sweep (inputs : cells.SameInputs target) :
    (rules.sweep cells).SameInputs target where
  raws p := (raw?_sweep rules cells p).trans (inputs.raws p)
  others p other := by
    rw [expression?_sweep] at other
    rw [display_sweep_other other, inputs.others p other]

theorem sameInputs_sweeps (n : Nat) (inputs : cells.SameInputs target) :
    (rules.sweep^[n] cells).SameInputs target := by
  induction n with
  | zero => exact inputs
  | succ n ih =>
    rw [Function.iterate_succ_apply']
    exact sameInputs_sweep ih

/-- With every sweep, formulas whose chains have one more step to a later cell become final. -/
theorem display_sweeps (inputs : cells.SameInputs target) (final : ∀ p, rules.Consistent target p)
    (loopless : ∀ p, ¬(rules.graph target).Reads p p) (n : Nat) (p : Position)
    (within : (rules.graph target).Within n p) :
    (rules.sweep^[n + 1] cells).display p = target.display p := by
  have sameInputs (n : Nat) : (rules.sweep^[n] cells).SameInputs target :=
    sameInputs_sweeps n inputs
  have graph (n : Nat) : rules.graph (rules.sweep^[n] cells) = rules.graph target :=
    graph_congr (sameInputs n).raws
  induction n generalizing p with
  | zero =>
    refine display_sweep_final inputs final (graph 0 ▸ loopless) (n := 0) ?_ p (graph 0 ▸ within)
    intro p q within reads later
    obtain ⟨_, none, _⟩ := within.later reads later
    cases none
  | succ n ih =>
    rw [Function.iterate_succ_apply']
    refine display_sweep_final (sameInputs _) final (graph (n + 1) ▸ loopless) (n := n + 1) ?_ p
      (graph (n + 1) ▸ within)
    intro p q within reads later
    obtain ⟨_, same, left⟩ := within.later reads later
    cases same
    exact ih q (graph (n + 1) ▸ left)

theorem settle_consistent (acyclic : ∀ p, ¬TransGen (rules.graph cells).Reads p p) (p : Position) :
    rules.Consistent (rules.settle cells) p := by
  intro expression formula
  have settled := rules.settle_settled cells
  rcases mem_ordered_or_blocked.mpr ⟨expression, formula⟩ with ordered | blocked
  · exact settled.ordered p ordered expression formula
  · obtain ⟨q, _, cycle⟩ := Graph.mem_blocked_iff_behindCycle.mp blocked
    rw [graph_settle] at cycle
    exact absurd cycle (acyclic q)

theorem sameInputs_settle (rules : Rules) (inputs : cells.SameInputs target) :
    cells.SameInputs (rules.settle target) where
  raws p := (inputs.raws p).trans (raw?_settle rules target p).symm
  others p other := by
    rw [inputs.others p other, display_settle_other ((inputs.expression? p).symm.trans other)]

/-- Where no formula is behind a cycle, one sweep more than the longest chain has steps to a later
cell comes to what a recalculation in dependency order comes to, whatever formulas show at first. -/
theorem sweeps_settle (acyclic : ∀ p, ¬TransGen (rules.graph cells).Reads p p) :
    (∀ k, (∀ chain : List Position, chain.IsChain (rules.graph cells).Reads →
        Graph.ascents chain ≤ k) →
      ∀ start : Cells, start.SameInputs cells → rules.sweep^[k + 1] start = rules.settle cells) ∧
    ((∀ p q, (rules.graph cells).Reads p q → ¬p < q) →
      ∀ start : Cells, start.SameInputs cells → rules.sweep start = rules.settle cells) := by
  have converge (k : Nat) (within : ∀ p, (rules.graph cells).Within k p) (start : Cells)
      (inputs : start.SameInputs cells) : rules.sweep^[k + 1] start = rules.settle cells := by
    have toSettled := sameInputs_settle rules inputs
    refine Cells.ext_views (sameInputs_sweeps (k + 1) toSettled).raws fun p => ?_
    refine display_sweeps toSettled (settle_consistent acyclic) ?_ k p ?_
    · rw [graph_settle]
      exact fun p loop => acyclic p (.single loop)
    · rw [graph_settle]
      exact within p
  refine ⟨fun k bound => converge k fun p rest => bound (p :: rest), fun backward => ?_⟩
  refine converge 0 fun p rest reads => Graph.ascents_le (fun _ => 0) ?_ reads
  intro p q reads
  rw [if_neg (backward p q reads)]

/-- The first cell refers forwards, from there a reference leads back, and the last one forwards
again. Two sweeps are not enough. -/
theorem sweeps_settle_three :
    let rules : Rules := ⟨⟨10, 10, by decide, by decide, by decide⟩, .linear, .zero, .ok⟩
    let cells : Cells := .ofList [(⟨0, 0⟩, ⟨"=C1", "old"⟩), (⟨0, 1⟩, ⟨"=D1", ""⟩),
      (⟨0, 2⟩, ⟨"=B1", "9"⟩), (⟨0, 3⟩, ⟨"=2", "7"⟩), (⟨1, 0⟩, ⟨"text", "text"⟩)]
    let start : Cells := cells.setDisplay ⟨0, 3⟩ "8"
    let backward : Cells := .ofList [(⟨0, 0⟩, ⟨"=C2", ""⟩), (⟨0, 1⟩, ⟨"=A1", ""⟩)]
    rules.sweep^[3] start = rules.settle cells ∧ rules.sweep^[2] start ≠ rules.settle cells ∧
    rules.sweep backward = rules.settle backward := by
  intro rules cells start backward
  have acyclic (cells : Cells) (none : (rules.graph cells).blocked = []) (p : Position) :
      ¬TransGen (rules.graph cells).Reads p p := by
    intro cycle
    have blocked := Graph.mem_blocked_iff_behindCycle.mpr ⟨p, .refl, cycle⟩
    rw [none] at blocked
    cases blocked
  have bound (chain : List Position) (reads : chain.IsChain (rules.graph cells).Reads) :
      Graph.ascents chain ≤ 2 := by
    let height (p : Position) : Nat :=
      if p = ⟨0, 0⟩ then 2 else if p = ⟨0, 1⟩ ∨ p = ⟨0, 2⟩ then 1 else 0
    have falls : ∀ p ∈ (rules.graph cells).cells, ∀ q ∈ (rules.graph cells).precedentsOf p,
        height q + (if p < q then 1 else 0) ≤ height p := by decide +kernel
    cases chain with
    | nil => exact Nat.zero_le _
    | cons p rest =>
      have least := Graph.ascents_le height
        (fun p q reads => falls p (Graph.isFormula_iff.mp reads.isFormula) q reads.1) reads
      have : height p ≤ 2 := by
        simp only [height]
        split <;> try split
        all_goals decide
      omega
  have inputs : start.SameInputs cells := by
    refine ⟨fun p => Cells.raw?_setDisplay .., fun p other => ?_⟩
    refine Cells.display_setDisplay_other _ ?_
    rintro rfl
    have formula : start.expression? ⟨0, 3⟩ = some "2" := by decide +kernel
    rw [formula] at other
    cases other
  refine ⟨?_, by decide +kernel, ?_⟩
  · exact (sweeps_settle (acyclic cells (by decide +kernel))).1 2 bound start inputs
  · have back : ∀ p ∈ (rules.graph backward).cells, ∀ q ∈ (rules.graph backward).precedentsOf p,
        (rules.graph backward).isFormula q → ¬p < q := by decide +kernel
    refine (sweeps_settle (acyclic backward (by decide +kernel))).2 ?_ backward
      ⟨fun _ => rfl, fun _ _ => rfl⟩
    exact fun p q reads => back p (Graph.isFormula_iff.mp reads.isFormula) q reads.1 reads.2

end Rules

end Worksheet
