import Worksheet.Proofs.Dependency.Reading
import Worksheet.Recalculation

/-! Cells seen as entered texts and displays. The dependency graph is a function of the texts, and
the display of a formula is a function of what its references read, which are displays of the
formula's precedents. -/
namespace Worksheet

namespace Cells

variable {cells cells' : Cells} {p q : Position}

def raw? (cells : Cells) (p : Position) : Option String := (cells.get? p).map Cell.raw

def expression? (cells : Cells) (p : Position) : Option String :=
  (cells.raw? p).bind Cell.expression?

theorem get?_congr (raw : cells.raw? p = cells'.raw? p)
    (display : cells.display p = cells'.display p) : cells.get? p = cells'.get? p := by
  rcases left : cells.get? p with _ | ⟨_, _⟩ <;> rcases right : cells'.get? p with _ | ⟨_, _⟩ <;>
    simp_all [raw?, Cells.display]

/-- There is nothing to cells but texts and displays. -/
theorem ext_views (raws : ∀ p, cells.raw? p = cells'.raw? p)
    (displays : ∀ p, cells.display p = cells'.display p) : cells = cells' :=
  OrderedMap.ext_get? fun p => get?_congr (raws p) (displays p)

theorem raw?_setDisplay (cells : Cells) (p q : Position) (display : String) :
    (cells.setDisplay p display).raw? q = cells.raw? q := by
  rw [raw?, setDisplay, OrderedMap.get?_modify, raw?]
  by_cases same : q = p <;> cases cells.get? q <;> simp [same, Cell.withDisplay]

theorem display_setDisplay_other (display : String) (other : q ≠ p) :
    (cells.setDisplay p display).display q = cells.display q := by
  rw [Cells.display, setDisplay, OrderedMap.get?_modify, if_neg other, Cells.display]

theorem display_setDisplay_same {raw : String} (stored : cells.raw? p = some raw)
    (display : String) : (cells.setDisplay p display).display p = display := by
  obtain ⟨cell, found, _⟩ := Option.map_eq_some_iff.mp stored
  simp [Cells.display, setDisplay, OrderedMap.get?_modify, found, Cell.withDisplay]

theorem raw?_insert (cells : Cells) (p q : Position) (cell : Cell) :
    Cells.raw? (cells.insert p cell) q = if p = q then some cell.raw else cells.raw? q := by
  rw [raw?, OrderedMap.get?_insert, raw?]
  split <;> rfl

theorem display_insert (cells : Cells) (p q : Position) (cell : Cell) :
    Cells.display (cells.insert p cell) q = if p = q then cell.display else cells.display q := by
  rw [Cells.display, OrderedMap.get?_insert, Cells.display]
  split <;> rfl

/-- The cell shows the same in both. To show nothing is as good as to show zero, and what is not
stored shows nothing. -/
def Alike (cells cells' : Cells) (p : Position) : Prop :=
  cells.display p = cells'.display p ∨
    cells.display p ∈ ["", "0"] ∧ cells'.display p ∈ ["", "0"]

instance (cells cells' : Cells) (p : Position) : Decidable (cells.Alike cells' p) :=
  inferInstanceAs (Decidable (cells.display p = cells'.display p ∨
    cells.display p ∈ ["", "0"] ∧ cells'.display p ∈ ["", "0"]))

theorem mem_formulas {expression : String} :
    (p, expression) ∈ cells.formulas ↔ cells.expression? p = some expression := by
  simp only [formulas, List.mem_filterMap, expression?, raw?, Option.bind_map,
    Option.bind_eq_some_iff, Option.map_eq_some_iff, Prod.mk.injEq, Cell.formula?]
  constructor
  · rintro ⟨e, member, _, found, rfl, rfl⟩
    exact ⟨e.2, OrderedMap.get?_eq_some_iff.mpr member, found⟩
  · rintro ⟨cell, stored, found⟩
    exact ⟨(p, cell), OrderedMap.get?_eq_some_iff.mp stored, expression, found, rfl, rfl⟩

theorem formulas_ascending (cells : Cells) : cells.formulas.Pairwise fun a b => a.1 < b.1 := by
  refine List.pairwise_filterMap.mpr (cells.ascending.imp ?_)
  intro a b less x hx y hy
  obtain ⟨_, _, rfl⟩ := Option.map_eq_some_iff.mp hx
  obtain ⟨_, _, rfl⟩ := Option.map_eq_some_iff.mp hy
  exact less

end Cells

namespace Rules

variable {rules : Rules} {cells cells' : Cells} {p q : Position} {expression : String}

/-- The precedents of a formula are the cells of the grid that its expression refers to. -/
theorem precedents_graph (rules : Rules) (cells : Cells) (p : Position) :
    (rules.graph cells).precedents.get? p =
      (cells.expression? p).map fun e => .ofList (rules.extent.referenced e) := by
  have entries := OrderedMap.entries_ofList (List.pairwise_map.mpr cells.formulas_ascending :
    (cells.formulas.map fun f =>
      (f.1, OrderedSet.ofList (rules.extent.referenced f.2))).Pairwise fun a b => a.1 < b.1)
  refine Option.ext fun precedents => ?_
  rw [OrderedMap.get?_eq_some_iff, graph, Graph.ofFormulas, entries, List.mem_map,
    Option.map_eq_some_iff]
  constructor
  · rintro ⟨f, member, same⟩
    obtain ⟨rfl, rfl⟩ := Prod.mk.inj same
    exact ⟨f.2, Cells.mem_formulas.mp member, rfl⟩
  · rintro ⟨e, found, rfl⟩
    exact ⟨(p, e), Cells.mem_formulas.mpr found, rfl⟩

theorem isFormula_graph :
    (rules.graph cells).isFormula p ↔ ∃ e, cells.expression? p = some e := by
  rw [Graph.isFormula, OrderedMap.contains, precedents_graph, Option.isSome_map,
    Option.isSome_iff_exists]

theorem mem_precedentsOf_graph (formula : cells.expression? p = some expression) :
    q ∈ (rules.graph cells).precedentsOf p ↔ q ∈ rules.extent.referenced expression := by
  rw [Graph.mem_precedentsOf, precedents_graph, formula]
  simp [OrderedSet.contains_ofList]

theorem graph_congr (raws : ∀ p, cells.raw? p = cells'.raw? p) :
    rules.graph cells = rules.graph cells' := by
  have same : (rules.graph cells).precedents = (rules.graph cells').precedents :=
    OrderedMap.ext_get? fun p => by simp only [precedents_graph, Cells.expression?, raws]
  exact congrArg Graph.mk same

end Rules

namespace Formula

variable {value value' : String → String} {expression : String}

theorem substitute_eq_join (value : String → String) (expression : String) :
    substitute value expression = String.join ((pieces expression).map fun piece =>
      Id.run (piece.fill fun label => pure (value label))) := by
  simp [substitute, substituteM]

/-- Substitution asks for nothing but the references of the expression. -/
theorem substitute_congr (same : ∀ label ∈ references expression, value label = value' label) :
    substitute value expression = substitute value' expression := by
  rw [substitute_eq_join, substitute_eq_join]
  refine congrArg String.join (List.map_congr_left fun piece member => ?_)
  cases piece with
  | text cs => rfl
  | reference label offset =>
    exact same _ (List.mem_filterMap.mpr ⟨_, member, rfl⟩)

end Formula

namespace Rules

variable {rules rules' : Rules} {cells cells' : Cells} {expression label : String}

theorem reading?_alike
    (alike : ∀ p, rules.extent.cell? label = some p → cells.Alike cells' p) :
    rules.reading? cells label = rules.reading? cells' label := by
  unfold reading?
  cases found : rules.extent.cell? label with
  | none => rfl
  | some p =>
    rw [Option.map_some, Option.map_some]
    rcases alike p found with same | ⟨zero, zero'⟩
    · rw [same]
    · simp only [List.mem_cons, List.not_mem_nil, or_false] at zero zero'
      rcases zero with shown | shown <;> rcases zero' with shown' | shown' <;>
        simp [shown, shown']

theorem formulaDisplay_congr (same : ∀ label ∈ Formula.references expression,
    rules.reading? cells label = rules.reading? cells' label) :
    rules.formulaDisplay cells expression = rules.formulaDisplay cells' expression := by
  have substituted :
      Formula.substitute (fun label => (rules.reading? cells label).getD "0") expression =
        Formula.substitute (fun label => (rules.reading? cells' label).getD "0") expression :=
    Formula.substitute_congr fun label member => congrArg (·.getD "0") (same label member)
  rw [formulaDisplay, formulaDisplay, substituted]

theorem formulaDisplay_alike
    (alike : ∀ q ∈ rules.extent.referenced expression, cells.Alike cells' q) :
    rules.formulaDisplay cells expression = rules.formulaDisplay cells' expression := by
  refine formulaDisplay_congr fun label member => reading?_alike fun q found => ?_
  have referenced : q ∈ rules.extent.referenced expression :=
    List.mem_filterMap.mpr ⟨label, member, found⟩
  exact alike q referenced

/-- A formula shows what the displays of the cells that it refers to make it show. -/
theorem formulaDisplay_local
    (same : ∀ q ∈ rules.extent.referenced expression, cells.display q = cells'.display q) :
    rules.formulaDisplay cells expression = rules.formulaDisplay cells' expression :=
  formulaDisplay_alike fun q referenced => .inl (same q referenced)

/-- The cells that an expression depends on are all that evaluation reads: where they show alike,
the expression shows the same, whatever else is stored and in which order formulas are recalculated.
-/
theorem evaluation_covered (rules rules' : Rules) (extent : rules.extent = rules'.extent)
    (unresolved : rules.unresolved = rules'.unresolved) (evaluate : rules.evaluate = rules'.evaluate)
    (cells cells' : Cells) (expression : String)
    (alike : ∀ p ∈ rules.extent.referenced expression, cells.Alike cells' p) :
    rules.formulaDisplay cells expression = rules'.formulaDisplay cells' expression := by
  rw [formulaDisplay_alike alike]
  unfold formulaDisplay hasUnresolved reading?
  rw [extent, unresolved, evaluate]

/-- A cell that was erased, one that was never stored and one that shows zero read the same, and a
label in a string literal reads nothing. -/
theorem evaluation_covered_absent :
    let rules : Rules := ⟨⟨1, 4, by decide, by decide, by decide⟩, .linear, .zero, .ok⟩
    let rules' : Rules := { rules with recalculation := .dependency }
    let cells : Cells :=
      ((OrderedMap.empty.insert ⟨0, 0⟩ (.literal "5")).insert ⟨0, 2⟩ ⟨"=1-1", "0"⟩).insert ⟨0, 3⟩
        (.literal "7")
    let cells' : Cells := (OrderedMap.empty.insert ⟨0, 0⟩ ⟨"=2+3", "5"⟩).insert ⟨0, 1⟩ .empty
    (∀ p ∈ rules.extent.referenced "A1+B1*\"D1\"+C1-Z9", cells.Alike cells' p) ∧
      rules.formulaDisplay cells "A1+B1*\"D1\"+C1-Z9" = "5+0*\"D1\"+0-0" ∧
      rules'.formulaDisplay cells' "A1+B1*\"D1\"+C1-Z9" = "5+0*\"D1\"+0-0" := by
  intro rules rules' cells cells'
  have alike : ∀ p ∈ rules.extent.referenced "A1+B1*\"D1\"+C1-Z9", cells.Alike cells' p := by
    decide +kernel
  have shown : rules.formulaDisplay cells "A1+B1*\"D1\"+C1-Z9" = "5+0*\"D1\"+0-0" := by
    decide +kernel
  have same := evaluation_covered rules rules' rfl rfl rfl cells cells' _ alike
  exact ⟨alike, shown, same ▸ shown⟩

end Rules

end Worksheet
