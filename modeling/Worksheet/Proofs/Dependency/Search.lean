import Mathlib.Data.List.Chain
import Worksheet.Proofs.Dependency.Ordering
import Worksheet.Recalculation

/-! The search for a cycle. It is related to the depth-first search that keeps the formulas being
visited on a path, marks them there and takes them off again when it backtracks. Every formula
behind a cycle is answered by a path, and every path ends on a cycle. So the search finds a path
from the formulas that counting down precedents leaves over, and a recalculation reports a path
exactly when it marks a formula. -/
namespace Worksheet.Graph

open Relation

/-- Visits of the cells in `todo` one after another, with the formulas of `path` being visited. A
formula is on the path only while its precedents are visited, and the first cell that is on the
path already ends it all. -/
inductive Visits (g : Graph) : List Position → List Position → Option (List Position) → Prop where
  | done {path : List Position} : Visits g path [] none
  | repeated {path todo : List Position} {p : Position} : p ∈ path →
      Visits g path (p :: todo) (some (path ++ [p]))
  | skip {path todo : List Position} {p : Position} {result : Option (List Position)} :
      p ∉ path → ¬g.isFormula p → Visits g path todo result → Visits g path (p :: todo) result
  | found {path todo cycle : List Position} {p : Position} : p ∉ path → g.isFormula p →
      Visits g (path ++ [p]) (g.precedentsOf p) (some cycle) →
      Visits g path (p :: todo) (some cycle)
  | backtrack {path todo : List Position} {p : Position} {result : Option (List Position)} :
      p ∉ path → g.isFormula p → Visits g (path ++ [p]) (g.precedentsOf p) none →
      Visits g path todo result → Visits g path (p :: todo) result

variable {g : Graph} {p : Position} {path todo unvisited : List Position}

theorem Visits.unique {result result' : Option (List Position)} (h : g.Visits path todo result)
    (h' : g.Visits path todo result') : result = result' := by
  induction h generalizing result' with
  | done => cases h'; rfl
  | repeated on => cases h' <;> first | rfl | contradiction
  | skip off other _ ih => cases h' <;> first | contradiction | exact ih ‹_›
  | found off formula _ ih =>
    cases h' with
    | repeated on => contradiction
    | skip _ other => contradiction
    | found _ _ visit => exact ih visit
    | backtrack _ _ visit => exact absurd (ih visit) (by simp)
  | backtrack off formula _ _ ih rest =>
    cases h' with
    | repeated on => contradiction
    | skip _ other => contradiction
    | found _ _ visit => exact absurd (ih visit) (by simp)
    | backtrack _ _ _ later => exact rest later

theorem search_other (other : ¬g.isFormula p) : g.search unvisited p = none := by
  rw [search]; simp [other]

theorem search_repeated (formula : g.isFormula p) (on : p ∉ unvisited) :
    g.search unvisited p = some [p] := by
  rw [search]; simp [formula, on]

theorem search_visit (formula : g.isFormula p) (off : p ∈ unvisited) :
    g.search unvisited p =
      ((g.precedentsOf p).findSome? (g.search (unvisited.erase p))).map (p :: ·) := by
  rw [search]; simp [formula, off]

/-- What is unvisited are the formulas that are not on the path. -/
structure Splits (g : Graph) (path unvisited : List Position) : Prop where
  nodup : unvisited.Nodup
  formulas : ∀ p ∈ path, g.isFormula p
  unvisited : ∀ p, p ∈ unvisited ↔ g.isFormula p ∧ p ∉ path

theorem Splits.start (g : Graph) : g.Splits [] g.cells :=
  ⟨g.cells_nodup, by simp, fun p => by simp [isFormula_iff]⟩

theorem Splits.visit (h : g.Splits path unvisited) (off : p ∈ unvisited) :
    g.Splits (path ++ [p]) (unvisited.erase p) where
  nodup := h.nodup.erase p
  formulas q member := by
    rcases List.mem_append.mp member with earlier | last
    · exact h.formulas q earlier
    · exact List.mem_singleton.mp last ▸ ((h.unvisited p).mp off).1
  unvisited q := by
    rw [h.nodup.mem_erase_iff, h.unvisited, List.mem_append, List.mem_singleton]
    tauto

/-- The search visits what the depth-first search visits, and comes back with its answer. -/
theorem Splits.visits (h : g.Splits path unvisited) (todo : List Position) :
    g.Visits path todo ((todo.findSome? (g.search unvisited)).map (path ++ ·)) := by
  induction size : unvisited.length using Nat.strong_induction_on
    generalizing path unvisited todo with
  | _ n deeper =>
    induction todo with
    | nil => exact .done
    | cons p todo later =>
      rw [List.findSome?_cons]
      by_cases on : p ∈ path
      · have visited : p ∉ unvisited := fun off => ((h.unvisited p).mp off).2 on
        rw [search_repeated (h.formulas p on) visited]
        exact .repeated on
      by_cases formula : g.isFormula p
      · have off : p ∈ unvisited := (h.unvisited p).mpr ⟨formula, on⟩
        have smaller : (unvisited.erase p).length < n := by
          have := List.length_pos_of_mem off
          rw [List.length_erase_of_mem off]
          omega
        have inner := deeper _ smaller (h.visit off) (g.precedentsOf p) rfl
        rw [search_visit formula off]
        cases answer : (g.precedentsOf p).findSome? (g.search (unvisited.erase p)) with
        | none => exact .backtrack on formula (by simpa [answer] using inner) later
        | some cycle => exact .found on formula (by simpa [answer] using inner)
      · rw [search_other formula]
        exact .skip on formula later

/-- The depth-first search from a cell ends, and with this one answer. -/
theorem visits_iff (g : Graph) (start : Position) (result : Option (List Position)) :
    g.Visits [] [start] result ↔ result = g.cycleFrom? start := by
  have visits := (Splits.start g).visits [start]
  have answer : ([start].findSome? (g.search g.cells)).map ([] ++ ·) = g.cycleFrom? start := by
    rw [List.findSome?_singleton]
    simp [cycleFrom?]
  rw [answer] at visits
  exact ⟨fun visits' => visits'.unique visits, fun same => same ▸ visits⟩

/-- What is on an answer: reading leads from `p` through unvisited formulas to one that is among
them or was visited before. -/
structure Trail (g : Graph) (unvisited : List Position) (p : Position) (front : List Position)
    (last : Position) : Prop where
  head : (front ++ [last]).head? = some p
  reads : (front ++ [last]).IsChain g.Reads
  nodup : front.Nodup
  inside : ∀ q ∈ front, q ∈ unvisited
  formula : g.isFormula last
  closed : last ∈ unvisited → last ∈ front

theorem search_formula (found : g.search unvisited p = some path) : g.isFormula p := by
  by_contra other
  simp [search_other other] at found

theorem search_trail (nodup : unvisited.Nodup) (found : g.search unvisited p = some path) :
    ∃ front last, path = front ++ [last] ∧ g.Trail unvisited p front last := by
  induction unvisited, p using search.induct (g := g) generalizing path with
  | case1 unvisited p other =>
    exact absurd (search_formula found) (by simpa using other)
  | case2 unvisited p formula off ih =>
    rw [search_visit (by simpa using formula) off] at found
    obtain ⟨rest, answer, rfl⟩ := Option.map_eq_some_iff.mp found
    obtain ⟨q, precedent, answer⟩ := List.exists_of_findSome?_eq_some answer
    obtain ⟨front, last, rfl, trail⟩ := ih q (nodup.erase p) answer
    have outside (r : Position) (member : r ∈ front) : r ≠ p ∧ r ∈ unvisited :=
      nodup.mem_erase_iff.mp (trail.inside r member)
    have reads : g.Reads p q := ⟨precedent, search_formula answer⟩
    refine ⟨p :: front, last, rfl, rfl, ?_, ?_, ?_, trail.formula, ?_⟩
    · refine trail.reads.cons fun r first => ?_
      rw [trail.head, Option.mem_some_iff] at first
      exact first ▸ reads
    · exact List.nodup_cons.mpr ⟨fun member => (outside p member).1 rfl, trail.nodup⟩
    · intro r member
      rcases List.mem_cons.mp member with rfl | member
      · exact off
      · exact (outside r member).2
    · intro unvisited
      by_cases same : last = p
      · exact same ▸ List.mem_cons_self
      · exact List.mem_cons_of_mem _ (trail.closed (nodup.mem_erase_iff.mpr ⟨same, unvisited⟩))
  | case3 unvisited p formula on =>
    rw [search_repeated (by simpa using formula) on] at found
    obtain rfl := Option.some.inj found
    exact ⟨[], p, rfl, rfl, .singleton p, .nil, by simp, by simpa using formula,
      fun off => absurd off on⟩

/-- A trail that comes back to its own cells shows a cycle. -/
theorem Trail.behindCycle {front : List Position} {last : Position}
    (h : g.Trail unvisited p front last) (closed : last ∈ front) : g.BehindCycle p := by
  obtain ⟨before, after, rfl⟩ := List.append_of_mem closed
  have reads := h.reads
  rw [List.append_assoc, List.cons_append, List.isChain_split] at reads
  have path : ReflTransGen g.Reads p last := by
    have nonempty : before ++ [last] ≠ [] := by simp
    have head : (before ++ [last]).head nonempty = p := by
      have := h.head
      cases before <;> simpa using this
    simpa [head] using List.relationReflTransGen_of_exists_isChain _ reads.1 nonempty
  obtain ⟨next, rest, tail⟩ := List.exists_cons_of_ne_nil (l := after ++ [last]) (by simp)
  have final : (next :: rest).getLast (List.cons_ne_nil _ _) = last := by
    simp [← tail]
  rw [tail, List.isChain_cons_cons] at reads
  exact ⟨last, path, .head' reads.2.1
    (List.relationReflTransGen_of_exists_isChain_cons rest reads.2.2 final)⟩

/-- A formula behind a cycle reads another such one, which is visited or ends the search. -/
theorem search_of_behindCycle (unvisited : List Position) (behind : g.BehindCycle p) :
    (g.search unvisited p).isSome := by
  induction unvisited, p using search.induct (g := g) with
  | case1 unvisited p other => exact absurd behind.isFormula (by simpa using other)
  | case2 unvisited p formula off ih =>
    obtain ⟨q, reads, behind⟩ := behind.reads
    rw [search_visit (by simpa using formula) off, Option.isSome_map, List.findSome?_isSome_iff]
    exact ⟨q, reads.1, ih q behind⟩
  | case3 unvisited p formula on =>
    rw [search_repeated (by simpa using formula) on]
    rfl

theorem cycleFrom?_trail {start : Position} (found : g.cycleFrom? start = some path) :
    ∃ front last, path = front ++ [last] ∧ g.Trail g.cells start front last ∧ last ∈ front := by
  obtain ⟨front, last, same, trail⟩ := search_trail g.cells_nodup found
  exact ⟨front, last, same, trail, trail.closed (isFormula_iff.mp trail.formula)⟩

theorem cycleFrom?_isSome (g : Graph) (start : Position) :
    (g.cycleFrom? start).isSome ↔ g.BehindCycle start := by
  refine ⟨fun found => ?_, search_of_behindCycle _⟩
  obtain ⟨path, found⟩ := Option.isSome_iff_exists.mp found
  obtain ⟨front, last, rfl, trail, closed⟩ := cycleFrom?_trail found
  exact trail.behindCycle closed

end Worksheet.Graph

namespace Worksheet

namespace Graph

variable {g : Graph} {start : Position} {path : List Position}

/-- A path leads from its start along precedents to the first cell that is on it twice. -/
structure CyclePath (g : Graph) (start : Position) (path : List Position) : Prop where
  head : path.head? = some start
  edges : path.IsChain fun p q => g.isFormula p ∧ q ∈ g.precedentsOf p
  nodup : path.dropLast.Nodup
  formulas : ∀ p ∈ path.dropLast, g.isFormula p
  closed : ∃ last, path.getLast? = some last ∧ last ∈ path.dropLast

theorem cycleFrom?_path (found : g.cycleFrom? start = some path) : g.CyclePath start path := by
  obtain ⟨front, last, rfl, trail, closed⟩ := cycleFrom?_trail found
  refine ⟨trail.head, trail.reads.imp fun _ _ reads => ⟨reads.isFormula, reads.1⟩, ?_, ?_, ?_⟩
  · rw [List.dropLast_concat]
    exact trail.nodup
  · rw [List.dropLast_concat]
    exact fun p member => isFormula_iff.mpr (trail.inside p member)
  · exact ⟨last, by simp, by rwa [List.dropLast_concat]⟩

theorem cycleFrom?_isSome_iff_blocked : (g.cycleFrom? start).isSome ↔ start ∈ g.blocked := by
  rw [cycleFrom?_isSome, mem_blocked_iff_behindCycle]

end Graph

namespace Rules

variable {rules : Rules} {cells : Cells}

theorem blockingCycle?_isSome :
    (rules.blockingCycle? cells).isSome ↔ (rules.graph cells).blocked ≠ [] := by
  simp only [blockingCycle?]
  cases blocked : (rules.graph cells).blocked with
  | nil => simp
  | cons p rest =>
    have found : ((rules.graph cells).cycleFrom? p).isSome :=
      Graph.cycleFrom?_isSome_iff_blocked.mpr (blocked ▸ List.mem_cons_self)
    simpa using found

theorem circular_mem_notices (mode : rules.recalculation = .dependency) :
    (∃ path, .circular path ∈ rules.notices cells) ↔ (rules.graph cells).blocked ≠ [] := by
  rw [← blockingCycle?_isSome, notices, mode]
  cases rules.blockingCycle? cells <;> simp

end Rules

/-- The depth-first search ends with one answer. It is a path to a cycle if there is one to be
reached, which is when the order of recalculation blocks the cell. -/
theorem Graph.search_exact :
    (∀ (g : Graph) (start : Position),
      (∀ result, g.Visits [] [start] result ↔ result = g.cycleFrom? start) ∧
      ((g.cycleFrom? start).isSome ↔ g.isFormula start ∧ g.BehindCycle start) ∧
      ((g.cycleFrom? start).isSome ↔ start ∈ g.blocked) ∧
      ∀ path, g.cycleFrom? start = some path → g.CyclePath start path) ∧
    ∀ (rules : Rules) (cells : Cells), rules.recalculation = .dependency →
      ((∃ path, .circular path ∈ rules.notices cells) ↔ (rules.graph cells).blocked ≠ []) := by
  refine ⟨fun g start => ⟨visits_iff g start, ?_, cycleFrom?_isSome_iff_blocked,
    fun path => cycleFrom?_path⟩, fun rules cells => Rules.circular_mem_notices⟩
  rw [cycleFrom?_isSome]
  exact ⟨fun behind => ⟨behind.isFormula, behind⟩, And.right⟩

/-- The first search tries a formula that leads nowhere and goes back to the next one. In the sheet
the second cell waits for the first, which reads itself. -/
theorem Graph.search_exact_backtrack :
    let g : Graph := ⟨.ofList [(⟨0, 0⟩, .ofList [⟨0, 1⟩, ⟨0, 2⟩]), (⟨0, 1⟩, .ofList [⟨1, 0⟩]),
      (⟨0, 2⟩, .ofList [⟨0, 3⟩, ⟨1, 0⟩]), (⟨0, 3⟩, .ofList [⟨0, 2⟩]), (⟨1, 0⟩, .ofList [])]⟩
    let path : List Position := [⟨0, 0⟩, ⟨0, 2⟩, ⟨0, 3⟩, ⟨0, 2⟩]
    let rules : Rules := ⟨⟨10, 10, by decide, by decide, by decide⟩, .dependency, .zero, .ok⟩
    let cells : Cells := .ofList [(⟨0, 0⟩, ⟨"=1+A1", ""⟩), (⟨0, 1⟩, ⟨"=A1", ""⟩)]
    g.cycleFrom? ⟨0, 0⟩ = some path ∧ g.CyclePath ⟨0, 0⟩ path ∧ ⟨0, 0⟩ ∈ g.blocked ∧
    g.BehindCycle ⟨0, 0⟩ ∧ ⟨0, 1⟩ ∉ g.blocked ∧ g.Visits [] [⟨0, 0⟩] (some path) ∧
    rules.recalculation = .dependency ∧ ∃ path, .circular path ∈ rules.notices cells := by
  intro g path rules cells
  obtain ⟨searches, reports⟩ := search_exact
  obtain ⟨visits, behind, blocked, leads⟩ := searches g ⟨0, 0⟩
  have found : g.cycleFrom? ⟨0, 0⟩ = some path := by decide +kernel
  have isSome : (g.cycleFrom? ⟨0, 0⟩).isSome := found ▸ rfl
  refine ⟨found, leads path found, blocked.mp isSome, (behind.mp isSome).2, ?_,
    (visits _).mpr found.symm, rfl, (reports rules cells rfl).mpr (by decide +kernel)⟩
  have notFound : ¬(g.cycleFrom? ⟨0, 1⟩).isSome := by decide +kernel
  exact fun blocks => notFound ((searches g ⟨0, 1⟩).2.2.1.mpr blocks)

end Worksheet
