import Worksheet.Proofs.Dependency.Ordering
import Worksheet.Proofs.Recalculation.Evaluation

/-! What recalculation in dependency order leaves behind. Every formula that is not behind a cycle
shows its value in the cells that are left, the others show a marker, and no display from before
matters: there is only one such outcome for the texts and the displays of the other cells. -/
namespace Worksheet.Rules

variable {rules : Rules} {cells cells' : Cells} {p q : Position} {order : List Position}

/-- A formula at `p` shows what it evaluates to in these cells. -/
def Consistent (rules : Rules) (cells : Cells) (p : Position) : Prop :=
  ∀ expression, cells.expression? p = some expression →
    cells.display p = rules.formulaDisplay cells expression

theorem raw?_recompute (rules : Rules) (cells : Cells) (p q : Position) :
    (rules.recompute cells p).raw? q = cells.raw? q := by
  unfold recompute
  split
  · exact Cells.raw?_setDisplay ..
  · rfl

theorem display_recompute_other (other : q ≠ p) :
    (rules.recompute cells p).display q = cells.display q := by
  unfold recompute
  split
  · exact Cells.display_setDisplay_other _ other
  · rfl

theorem display_recompute_same {expression : String}
    (formula : cells.expression? p = some expression) :
    (rules.recompute cells p).display p = rules.formulaDisplay cells expression := by
  obtain ⟨raw, stored, found⟩ := Option.bind_eq_some_iff.mp formula
  obtain ⟨cell, read, rfl⟩ := Option.map_eq_some_iff.mp stored
  simp only [recompute, read, Cells.display_setDisplay_same stored, display, found]

theorem raw?_foldl {f : Cells → Position → Cells}
    (h : ∀ cells p q, (f cells p).raw? q = cells.raw? q) (positions : List Position)
    (cells : Cells) (q : Position) : (positions.foldl f cells).raw? q = cells.raw? q := by
  induction positions generalizing cells with
  | nil => rfl
  | cons p rest ih => rw [List.foldl_cons, ih, h]

theorem display_foldl_other {f : Cells → Position → Cells}
    (h : ∀ cells p q, q ≠ p → (f cells p).display q = cells.display q) {positions : List Position}
    (other : q ∉ positions) : (positions.foldl f cells).display q = cells.display q := by
  induction positions generalizing cells with
  | nil => rfl
  | cons p rest ih =>
    obtain ⟨different, other⟩ := not_or.mp (mt List.mem_cons.mpr other)
    rw [List.foldl_cons, ih other, h _ _ _ different]

/-- A formula stays consistent while neither it nor what it refers to shows anything new. -/
theorem Consistent.transfer (h : rules.Consistent cells p) (raw : cells'.raw? p = cells.raw? p)
    (shown : cells'.display p = cells.display p)
    (read : ∀ q ∈ (rules.graph cells).precedentsOf p, cells'.display q = cells.display q) :
    rules.Consistent cells' p := by
  intro expression formula
  rw [Cells.expression?, raw] at formula
  rw [shown, h expression formula]
  exact formulaDisplay_local fun q referenced =>
    (read q ((mem_precedentsOf_graph formula).mpr referenced)).symm

theorem Consistent.recompute {expression : String} (h : rules.Consistent cells p)
    (formula : cells.expression? p = some expression) : rules.recompute cells p = cells := by
  refine Cells.ext_views (raw?_recompute rules cells p) fun q => ?_
  by_cases same : q = p
  · rw [same, display_recompute_same formula, h expression formula]
  · exact display_recompute_other same

theorem Consistent.recompute_other (h : rules.Consistent cells p) (other : p ≠ q)
    (unread : q ∉ (rules.graph cells).precedentsOf p) :
    rules.Consistent (rules.recompute cells q) p :=
  h.transfer (raw?_recompute ..) (display_recompute_other other) fun _ member =>
    display_recompute_other fun same => unread (same ▸ member)

theorem recompute_consistent (unread : p ∉ (rules.graph cells).precedentsOf p) :
    rules.Consistent (rules.recompute cells p) p := by
  intro expression formula
  rw [Cells.expression?, raw?_recompute] at formula
  rw [display_recompute_same formula]
  refine formulaDisplay_local fun q referenced => (display_recompute_other ?_).symm
  rintro rfl
  exact unread ((mem_precedentsOf_graph formula).mpr referenced)

/-- Every formula of a schedule is final when it is computed. -/
theorem consistent_recomputes (schedule : (rules.graph cells).Schedule order) :
    ∀ p ∈ order, rules.Consistent (order.foldl rules.recompute cells) p := by
  induction schedule with
  | nil => simp
  | @snoc order last schedule formula fresh before ih =>
    have graph : rules.graph (order.foldl rules.recompute cells) = rules.graph cells :=
      graph_congr (raw?_foldl (raw?_recompute rules) order cells)
    -- No formula so far refers to the last one, or it would have come after it.
    have unread : ∀ p ∈ order, last ∉ (rules.graph cells).precedentsOf p := fun p member refers =>
      fresh (schedule.reads_mem member ⟨refers, formula⟩)
    have loopless : last ∉ (rules.graph cells).precedentsOf last := fun refers =>
      fresh (before last ⟨refers, formula⟩)
    intro p member
    rw [List.foldl_append]
    rcases List.mem_append.mp member with earlier | same
    · refine (ih p earlier).recompute_other ?_ (graph ▸ unread p earlier)
      rintro rfl
      exact fresh earlier
    · obtain rfl := List.mem_singleton.mp same
      exact recompute_consistent (graph ▸ loopless)

theorem raw?_markCircular (cells : Cells) (p q : Position) :
    (markCircular cells p).raw? q = cells.raw? q := Cells.raw?_setDisplay ..

theorem display_markCircular_other (cells : Cells) (p q : Position) (other : q ≠ p) :
    (markCircular cells p).display q = cells.display q := Cells.display_setDisplay_other _ other

theorem display_marks {positions : List Position} {raw : String} (member : p ∈ positions)
    (stored : cells.raw? p = some raw) :
    (positions.foldl markCircular cells).display p = Cell.Marker.circular.text := by
  induction positions generalizing cells with
  | nil => simp at member
  | cons first rest ih =>
    by_cases later : p ∈ rest
    · exact ih later ((raw?_markCircular ..).trans stored)
    · obtain rfl : p = first := by simpa [later] using member
      rw [List.foldl_cons, display_foldl_other display_markCircular_other later]
      exact Cells.display_setDisplay_same stored _

theorem mem_ordered_or_blocked : p ∈ (rules.graph cells).ordered ∨ p ∈ (rules.graph cells).blocked ↔
    ∃ expression, cells.expression? p = some expression :=
  Graph.mem_ordered_or_blocked.symm.trans isFormula_graph

/-- Nothing is left to do: formulas that can be ordered show their values, the others the marker. -/
structure Settled (rules : Rules) (cells : Cells) : Prop where
  ordered : ∀ p ∈ (rules.graph cells).ordered, rules.Consistent cells p
  blocked : ∀ p ∈ (rules.graph cells).blocked, cells.display p = Cell.Marker.circular.text

theorem raw?_settle (rules : Rules) (cells : Cells) (q : Position) :
    (rules.settle cells).raw? q = cells.raw? q := by
  rw [settle, raw?_foldl raw?_markCircular, raw?_foldl (raw?_recompute rules)]

theorem graph_settle (rules : Rules) (cells : Cells) :
    rules.graph (rules.settle cells) = rules.graph cells := graph_congr (raw?_settle rules cells)

theorem display_settle_other (other : cells.expression? q = none) :
    (rules.settle cells).display q = cells.display q := by
  have notFormula : ¬∃ expression, cells.expression? q = some expression := by simp [other]
  obtain ⟨notOrdered, notBlocked⟩ := not_or.mp (mt mem_ordered_or_blocked.mp notFormula)
  rw [settle, display_foldl_other display_markCircular_other notBlocked,
    display_foldl_other (fun _ _ _ => display_recompute_other) notOrdered]

theorem settle_settled (rules : Rules) (cells : Cells) : rules.Settled (rules.settle cells) := by
  have schedule := (rules.graph cells).schedule_ordered
  constructor <;> rw [graph_settle] <;> intro p member
  · -- The marks come last. They touch neither an ordered formula nor what it reads.
    have notBlocked := (rules.graph cells).ordered_disjoint_blocked
    refine (consistent_recomputes schedule p member).transfer (raw?_foldl raw?_markCircular ..)
      (display_foldl_other display_markCircular_other (notBlocked member)) fun q refers => ?_
    refine display_foldl_other display_markCircular_other fun blocked => ?_
    rw [graph_congr (raw?_foldl (raw?_recompute rules) _ cells)] at refers
    exact notBlocked (schedule.reads_mem member ⟨refers, (Graph.mem_blocked.mp blocked).1⟩) blocked
  · obtain ⟨expression, formula⟩ := mem_ordered_or_blocked.mp (.inr member)
    obtain ⟨raw, stored, _⟩ := Option.bind_eq_some_iff.mp formula
    exact display_marks member ((raw?_foldl (raw?_recompute rules) ..).trans stored)

/-- Along a schedule, consistent formulas over the same texts cannot differ. It is enough to look at
a part that no reference leaves. -/
theorem displays_agree {part : Position → Prop} (schedule : (rules.graph cells).Schedule order)
    (closed : ∀ p q, part p → q ∈ (rules.graph cells).precedentsOf p → part q)
    (raws : ∀ p, part p → cells.raw? p = cells'.raw? p)
    (consistent : ∀ p ∈ order, part p → rules.Consistent cells p)
    (consistent' : ∀ p ∈ order, part p → rules.Consistent cells' p)
    (others : ∀ p, part p → cells.expression? p = none → cells.display p = cells'.display p) :
    ∀ p ∈ order, part p → cells.display p = cells'.display p := by
  induction schedule with
  | nil => simp
  | @snoc order last _ formula _ before ih =>
    have earlier := ih (fun p member => consistent p (List.mem_append_left _ member))
      fun p member => consistent' p (List.mem_append_left _ member)
    intro p member inside
    rcases List.mem_append.mp member with member | same
    · exact earlier p member inside
    · obtain rfl := List.mem_singleton.mp same
      obtain ⟨expression, found⟩ := isFormula_graph.mp formula
      have found' : cells'.expression? p = some expression := by
        rwa [Cells.expression?, ← raws p inside]
      rw [consistent p member inside expression found,
        consistent' p member inside expression found']
      refine formulaDisplay_local fun q referenced => ?_
      have refers := (mem_precedentsOf_graph found).mpr referenced
      have still : part q := closed p q inside refers
      cases inner : cells.expression? q with
      | none => exact others q still inner
      | some _ => exact earlier q (before q ⟨refers, isFormula_graph.mpr ⟨_, inner⟩⟩) still

/-- Settled sheets agree on a part that no reference leaves if they hold the same texts there and
show the same where no formula is. What the rest of the sheets holds does not matter. -/
theorem Settled.agree {part : Position → Prop} (h : rules.Settled cells) (h' : rules.Settled cells')
    (closed : ∀ p q, part p → q ∈ (rules.graph cells).precedentsOf p → part q)
    (raws : ∀ p, part p → cells.raw? p = cells'.raw? p)
    (others : ∀ p, part p → cells.expression? p = none → cells.display p = cells'.display p)
    (p : Position) (inside : part p) : cells.display p = cells'.display p := by
  have shared : (rules.graph cells).SharedPart (rules.graph cells') part := by
    refine ⟨closed, fun q inside => ?_⟩
    rw [precedents_graph, precedents_graph, Cells.expression?, Cells.expression?, raws q inside]
  cases formula : cells.expression? p with
  | none => exact others p inside formula
  | some expression =>
    rcases mem_ordered_or_blocked.mpr ⟨expression, formula⟩ with ordered | blocked
    · refine displays_agree (rules.graph cells).schedule_ordered closed raws
        (fun q member _ => h.ordered q member) (fun q member inside => ?_) others p ordered inside
      -- What is ordered here is ordered there, because a cycle there would be one here.
      refine h'.ordered q ((Graph.mem_ordered_or_blocked.mp ?_).resolve_right fun blocked => ?_)
      · rw [← shared.isFormula_eq inside]
        exact Graph.mem_ordered_or_blocked.mpr (.inl member)
      · exact (rules.graph cells).schedule_ordered.not_behindCycle member
          (shared.symm.behindCycle inside (Graph.mem_blocked_iff_behindCycle.mp blocked))
    · have behind := shared.behindCycle inside (Graph.mem_blocked_iff_behindCycle.mp blocked)
      rw [h.blocked p blocked, h'.blocked p (Graph.mem_blocked_iff_behindCycle.mpr behind)]

/-- A settled sheet is a function of the texts and of what is shown where no formula is. -/
theorem Settled.unique (h : rules.Settled cells) (h' : rules.Settled cells')
    (raws : ∀ p, cells.raw? p = cells'.raw? p)
    (others : ∀ p, cells.expression? p = none → cells.display p = cells'.display p) :
    cells = cells' :=
  Cells.ext_views raws fun p => h.agree h' (fun _ _ _ _ => trivial) (fun p _ => raws p)
    (fun p _ => others p) p trivial

theorem Settled.recomputes (h : rules.Settled cells) {positions : List Position}
    (ordered : ∀ p ∈ positions, p ∈ (rules.graph cells).ordered) :
    positions.foldl rules.recompute cells = cells := by
  induction positions with
  | nil => rfl
  | cons p rest ih =>
    have member := ordered p List.mem_cons_self
    obtain ⟨_, formula⟩ := mem_ordered_or_blocked.mp (.inl member)
    rw [List.foldl_cons, (h.ordered p member).recompute formula]
    exact ih fun q member => ordered q (List.mem_cons_of_mem _ member)

/-- Settled, and every text that is no formula shows itself. -/
structure Canonical (rules : Rules) (cells : Cells) : Prop extends rules.Settled cells where
  literals : ∀ p raw, cells.raw? p = some raw → Cell.expression? raw = none → cells.display p = raw

theorem display_of_raw?_none (absent : cells.raw? p = none) : cells.display p = "" := by
  have absent : cells.get? p = none := by simpa [Cells.raw?] using absent
  rw [Cells.display, absent]
  rfl

theorem Canonical.display_other (h : rules.Canonical cells) (other : cells.expression? p = none) :
    cells.display p = (cells.raw? p).getD "" := by
  cases stored : cells.raw? p with
  | none => exact display_of_raw?_none stored
  | some raw => exact h.literals p raw stored (by simpa [Cells.expression?, stored] using other)

/-- Canonical cells are a function of the texts alone. -/
theorem Canonical.unique (h : rules.Canonical cells) (h' : rules.Canonical cells')
    (raws : ∀ p, cells.raw? p = cells'.raw? p) : cells = cells' := by
  refine h.toSettled.unique h'.toSettled raws fun p other => ?_
  have other' : cells'.expression? p = none := by rwa [Cells.expression?, ← raws]
  rw [h.display_other other, h'.display_other other', raws]

theorem empty_canonical (rules : Rules) : rules.Canonical .empty where
  ordered _ _ _ formula := by simp [Cells.expression?, Cells.raw?] at formula
  blocked p member := by
    obtain ⟨_, formula⟩ := mem_ordered_or_blocked.mp (.inr member)
    simp [Cells.expression?, Cells.raw?] at formula
  literals _ _ stored := by simp [Cells.raw?] at stored

end Worksheet.Rules
