import Worksheet.Proofs.Sheet.History
import Worksheet.Proofs.Sheet.Linear

/-! Commits in linear mode of a text that stands in its cell already. They are sweeps over cells
that a sweep has left, and a sweep changes nothing if and only if every formula shows what it
evaluates to. Formulas that the first commit left behind are brought on by the second one. -/
namespace Worksheet

open Relation

/-- No chain of references from `p` comes to a formula that refers to itself or to a later one. -/
def Graph.Backward (g : Graph) (p : Position) : Prop :=
  ∀ q r, ReflTransGen g.Reads p q → g.Reads q r → r < q

theorem Graph.Backward.reads {g : Graph} {p q : Position} (h : g.Backward p)
    (reads : g.Reads p q) : g.Backward q := fun _ _ chain => h _ _ (.head reads chain)

namespace Rules

variable {rules : Rules} {cells start : Cells} {p : Position}

/-- A sweep leaves given cells if and only if every formula shows what it evaluates to where these
cells are read in front of it and those that the sweep starts from are read elsewhere. -/
theorem sweep_eq_iff (inputs : start.SameInputs cells) (seen : Position → Cells)
    (shows : ∀ p q, (seen p).display q = if q < p then cells.display q else start.display q) :
    rules.sweep start = cells ↔ ∀ p expression, cells.expression? p = some expression →
      cells.display p = rules.formulaDisplay (seen p) expression := by
  constructor
  · rintro rfl p expression formula
    rw [← inputs.expression?] at formula
    exact display_sweep formula fun q _ => shows p q
  · intro final
    refine Cells.ext_views (fun p => (raw?_sweep ..).trans (inputs.raws p)) fun p => ?_
    induction p using Position.lt_wellFounded.induction with
    | _ p earlier =>
      cases formula : start.expression? p with
      | none => rw [display_sweep_other formula, inputs.others p formula]
      | some expression =>
        rw [final p expression (inputs.expression? p ▸ formula)]
        refine display_sweep formula fun q _ => ?_
        rw [shows]
        split
        next less => exact (earlier q less).symm
        next => rfl

theorem sweep_eq_self_iff : rules.sweep cells = cells ↔ ∀ p, rules.Consistent cells p :=
  sweep_eq_iff (.refl cells) (fun _ => cells) fun _ _ => (ite_self _).symm

/-- What a formula shows at first does not matter where only earlier formulas are referred to, by it
and by all that it depends on. -/
theorem display_sweep_backward (inputs : start.SameInputs cells)
    (backward : (rules.graph start).Backward p) :
    (rules.sweep start).display p = (rules.sweep cells).display p := by
  induction p using Position.lt_wellFounded.induction with
  | _ p earlier =>
    cases formula : start.expression? p with
    | none =>
      have formula' := (inputs.expression? p).symm.trans formula
      rw [display_sweep_other formula, display_sweep_other formula', inputs.others p formula]
    | some expression =>
      have formula' := (inputs.expression? p).symm.trans formula
      rw [display_sweep formula' fun q _ => display_midSweep rules cells p q]
      refine display_sweep formula fun q referenced => ?_
      rw [display_midSweep]
      cases inner : start.expression? q with
      | none =>
        have inner' := (inputs.expression? q).symm.trans inner
        rw [display_sweep_other inner, display_sweep_other inner', inputs.others q inner, ite_self]
      | some _ =>
        have reads : (rules.graph start).Reads p q :=
          ⟨(mem_precedentsOf_graph formula).mpr referenced, isFormula_graph.mpr ⟨_, inner⟩⟩
        have less : q < p := backward p q .refl reads
        rw [if_pos less, if_pos less, earlier q less (backward.reads reads)]

end Rules

namespace Sheet

variable {sheet : Sheet} {p q : Position} {text : String}

/-- The text stands at `p`, and is shown there unless it is a formula. -/
structure Stands (sheet : Sheet) (p : Position) (text : String) : Prop where
  raw : sheet.cells.raw? p = some (Text.trim text)
  literal : Cell.expression? (Text.trim text) = none → sheet.cells.display p = Text.trim text

theorem display_entered (sheet : Sheet) (p q : Position) (text : String) :
    (sheet.entered p text).display q =
      if p = q then sheet.rules.display sheet.cells (Text.trim text) else sheet.cells.display q :=
  Cells.display_insert ..

theorem display_seen (sheet : Sheet) (p : Position) (text : String) (q r : Position) :
    (if p < q then sheet.cells else sheet.entered p text).display r =
      if r < q then sheet.cells.display r else (sheet.entered p text).display r := by
  by_cases same : p = r
  · subst same
    split <;> rfl
  · have other : (sheet.entered p text).display r = sheet.cells.display r := by
      rw [display_entered, if_neg same]
    split <;> rw [other, ite_self]

theorem commit_stands (mode : sheet.rules.recalculation = .linear) (inside : p ∈ sheet.extent)
    (text : String) : (sheet.commit p text inside).Stands p text where
  raw := by rw [raw?_commit, if_pos rfl]
  literal literal := by
    have other : (sheet.entered p text).expression? p = none := by
      rw [Cells.expression?, entered, Cells.raw?_insert, if_pos rfl, Option.bind_some, literal]
    rw [cells_commit_linear mode, Rules.display_sweep_other other, display_entered, if_pos rfl,
      Rules.display, literal]

namespace Stands

theorem expression? (h : sheet.Stands p text) :
    sheet.cells.expression? p = Cell.expression? (Text.trim text) := by
  rw [Cells.expression?, h.raw, Option.bind_some]

theorem raw?_same (h : sheet.Stands p text) (q : Position) :
    (if p = q then some (Text.trim text) else sheet.cells.raw? q) = sheet.cells.raw? q := by
  split
  next same => rw [← same, h.raw]
  next => rfl

theorem sameInputs (h : sheet.Stands p text) : (sheet.entered p text).SameInputs sheet.cells := by
  have raws (q : Position) : (sheet.entered p text).raw? q = sheet.cells.raw? q :=
    (Cells.raw?_insert ..).trans (h.raw?_same q)
  refine ⟨raws, fun q other => ?_⟩
  rw [display_entered]
  split
  next same =>
    subst same
    rw [Cells.expression?, raws, ← Cells.expression?, h.expression?] at other
    rw [Rules.display, other, h.literal other]
  next => rfl

theorem entered_eq (h : sheet.Stands p text) (current : sheet.rules.Consistent sheet.cells p) :
    sheet.entered p text = sheet.cells := by
  refine Cells.ext_views h.sameInputs.raws fun q => ?_
  rw [display_entered]
  split
  next same =>
    subst same
    cases formula : Cell.expression? (Text.trim text) with
    | none => rw [Rules.display, formula, h.literal formula]
    | some expression =>
      rw [Rules.display, formula, current expression (h.expression?.trans formula)]
  next => rfl

theorem consistent_own (h : sheet.Stands p text)
    (unread : ∀ expression, Cell.expression? (Text.trim text) = some expression →
      p ∉ sheet.extent.referenced expression)
    (same : sheet.rules.sweep (sheet.entered p text) = sheet.cells) :
    sheet.rules.Consistent sheet.cells p := by
  intro expression formula
  have formula' : (sheet.entered p text).expression? p = some expression :=
    (h.sameInputs.expression? p).trans formula
  have shown (q : Position) (referenced : q ∈ sheet.extent.referenced expression) :
      sheet.cells.display q =
        if q < p then sheet.cells.display q else (sheet.entered p text).display q := by
    have other : p ≠ q := by
      rintro rfl
      exact unread expression (h.expression?.symm.trans formula) referenced
    rw [display_entered, if_neg other, ite_self]
  nth_rewrite 1 [← same]
  exact Rules.display_sweep formula' (same.symm ▸ shown)

theorem raw?_commit (h : sheet.Stands p text) (inside : p ∈ sheet.extent) (q : Position) :
    (sheet.commit p text inside).cells.raw? q = sheet.cells.raw? q :=
  (Sheet.raw?_commit inside q).trans (h.raw?_same q)

theorem commit_eq_iff (h : sheet.Stands p text) (mode : sheet.rules.recalculation = .linear)
    (inside : p ∈ sheet.extent) :
    (sheet.commit p text inside).cells = sheet.cells ↔
      ∀ q expression, sheet.cells.expression? q = some expression → sheet.cells.display q =
        sheet.rules.formulaDisplay (if p < q then sheet.cells else sheet.entered p text)
          expression := by
  rw [cells_commit_linear mode inside]
  exact Rules.sweep_eq_iff h.sameInputs _ (sheet.display_seen p text)

theorem commit_eq (h : sheet.Stands p text) (mode : sheet.rules.recalculation = .linear)
    (inside : p ∈ sheet.extent) (current : ∀ q, sheet.rules.Consistent sheet.cells q) :
    (sheet.commit p text inside).cells = sheet.cells := by
  rw [cells_commit_linear mode inside, h.entered_eq (current p)]
  exact Rules.sweep_eq_self_iff.mpr current

theorem consistent_of_commit_eq (h : sheet.Stands p text)
    (mode : sheet.rules.recalculation = .linear) (inside : p ∈ sheet.extent)
    (unread : ∀ expression, Cell.expression? (Text.trim text) = some expression →
      p ∉ sheet.extent.referenced expression)
    (same : (sheet.commit p text inside).cells = sheet.cells) (q : Position) :
    sheet.rules.Consistent sheet.cells q := by
  rw [cells_commit_linear mode inside] at same
  have own := h.consistent_own unread same
  rw [h.entered_eq own] at same
  exact Rules.sweep_eq_self_iff.mp same q

end Stands

theorem display_recommit_backward (mode : sheet.rules.recalculation = .linear)
    (inside : p ∈ sheet.extent)
    (backward : (sheet.rules.graph (sheet.commit p text inside).cells).Backward q) :
    ((sheet.commit p text inside).commit p text inside).cells.display q =
      (sheet.commit p text inside).cells.display q := by
  have stands := commit_stands mode inside text
  have swept : (sheet.commit p text inside).cells = sheet.rules.sweep (sheet.entered p text) :=
    cells_commit_linear mode inside
  have first : (sheet.commit p text inside).cells.SameInputs (sheet.entered p text) :=
    swept ▸ Rules.sameInputs_sweep (.refl _)
  have mode' : (sheet.commit p text inside).rules.recalculation = .linear := mode
  have again : ((sheet.commit p text inside).commit p text inside).cells =
      sheet.rules.sweep ((sheet.commit p text inside).entered p text) :=
    cells_commit_linear mode' inside
  rw [again, swept]
  refine Rules.display_sweep_backward (stands.sameInputs.trans first) ?_
  rwa [Rules.graph_congr stands.sameInputs.raws]

end Sheet

namespace SavedSheet

variable {σ : Type} {p : Position}

/-- What a second commit of the same text changes in linear mode, from any state: displays of
formulas, and only of such that depend on a reference to the same cell or forwards. It changes
nothing if and only if every formula shows already what it evaluates to, where formulas up to the
cell committed to read in it what the text shows when it is entered again. When the text does not
refer to its own cell, that is what they read anyway. -/
theorem recommit_exact (saved : SavedSheet (StateM σ))
    (mode : saved.sheet.rules.recalculation = .linear) (inside : p ∈ saved.extent) (text : String)
    (world world' : σ) :
    let rules := saved.sheet.rules
    let once := saved.after p text world
    let twice := once.after p text world'
    let graph := rules.graph once.cells
    (∀ q, twice.cells.raw? q = once.cells.raw? q) ∧
    (∀ q, graph.Backward q → twice.cells.display q = once.cells.display q) ∧
    ((∀ q r, graph.Reads q r → r < q) → twice.cells = once.cells) ∧
    (twice.cells = once.cells ↔
      ∀ q expression, once.cells.expression? q = some expression → once.cells.display q =
        rules.formulaDisplay (if p < q then once.cells else once.sheet.entered p text)
          expression) ∧
    ((∀ q, rules.Consistent once.cells q) → twice.cells = once.cells) ∧
    ((∀ expression, Cell.expression? (Text.trim text) = some expression →
        p ∉ rules.extent.referenced expression) →
      twice.cells = once.cells → ∀ q, rules.Consistent once.cells q) := by
  intro rules once twice graph
  have atOnce : once = { saved with sheet := saved.sheet.commit p text inside } :=
    after_inside inside world
  have atTwice : twice = { once with sheet := once.sheet.commit p text (atOnce ▸ inside) } :=
    after_inside _ world'
  clear_value twice once
  subst atTwice atOnce
  have stands : (saved.sheet.commit p text inside).Stands p text :=
    Sheet.commit_stands mode inside text
  have raws := stands.raw?_commit inside
  refine ⟨raws, fun q => Sheet.display_recommit_backward mode inside, fun earlier => ?_,
    stands.commit_eq_iff mode inside, stands.commit_eq mode inside,
    stands.consistent_of_commit_eq mode inside⟩
  refine Cells.ext_views raws fun q => ?_
  apply Sheet.display_recommit_backward mode inside
  exact fun q r _ reads => earlier q r reads

/-- A1 refers to B1, and B1 to C1. The commit to C1 leaves A1 behind, the same commit again brings
it on, and from then on nothing changes. -/
theorem recommit_exact_chain :
    let extent : Extent := ⟨10, 10, by decide, by decide, by decide⟩
    let rules := rulesOf .default .ok extent
    let opened : SavedSheet (StateM Unit) := ⟨.default, .blank rules, none⟩
    let chained := (opened.after ⟨0, 0⟩ "=B1" ()).after ⟨0, 1⟩ "=C1" ()
    let once := chained.after ⟨0, 2⟩ "5" ()
    let twice := once.after ⟨0, 2⟩ "5" ()
    chained.sheet.rules.recalculation = .linear ∧ ⟨0, 2⟩ ∈ chained.extent ∧
    twice.cells ≠ once.cells ∧ twice.cells.display ⟨0, 1⟩ = once.cells.display ⟨0, 1⟩ ∧
    once.sheet.rules.recalculation = .linear ∧ ⟨0, 2⟩ ∈ once.extent ∧
    (twice.after ⟨0, 2⟩ "5" ()).cells = twice.cells := by
  intro extent rules opened chained once twice
  obtain ⟨_, backward, _, _, _, current⟩ :=
    recommit_exact chained rfl (p := ⟨0, 2⟩) (by decide) "5" () ()
  obtain ⟨_, _, _, _, unchanged, _⟩ :=
    recommit_exact once rfl (p := ⟨0, 2⟩) (by decide) "5" () ()
  refine ⟨rfl, by decide, fun same => ?_, backward _ ?_, rfl, by decide, unchanged ?_⟩
  · have literal : Cell.expression? (Text.trim "5") = none := by decide +kernel
    have consistent := current (by simp [literal]) same ⟨0, 0⟩ "B1" (by decide +kernel)
    revert consistent
    decide +kernel
  · have none : ∀ q ∈ (rules.graph once.cells).precedentsOf ⟨0, 1⟩,
        ¬(rules.graph once.cells).isFormula q := by decide +kernel
    rintro q r chain reads
    rcases chain.cases_head with rfl | ⟨_, first, _⟩
    · exact absurd reads.2 (none r reads.1)
    · exact absurd first.2 (none _ first.1)
  · have formulas : ∀ f ∈ twice.cells.formulas,
        twice.cells.display f.1 = rules.formulaDisplay twice.cells f.2 := by decide +kernel
    exact fun q expression formula => formulas (q, expression) (Cells.mem_formulas.mpr formula)

/-- A repeated commit can change what a document shows, even in the default settings. -/
theorem recommit_not_idempotent :
    ¬∀ (settings : Settings) (evaluate : Evaluator) (saved : SavedSheet (StateM Unit)),
      settings.recalculation = .linear → saved.Reached settings evaluate none →
      ∀ p ∈ saved.extent, ∀ text, ((saved.after p text ()).after p text ()).cells =
        (saved.after p text ()).cells := by
  intro idempotent
  let extent : Extent := ⟨10, 10, by decide, by decide, by decide⟩
  let opened : SavedSheet (StateM Unit) := ⟨.default, .blank (rulesOf .default .ok extent), none⟩
  have loaded : (load (m := StateM Unit) .default .ok none).run () = (.ok (opened, []), ()) := by
    have valid : Settings.default.validate = .ok extent := by decide +kernel
    simp only [load, ofSettings_valid valid]
    rfl
  have reached := ((Reached.opened loaded).committed ⟨0, 0⟩ "=B1" ()).committed ⟨0, 1⟩ "=C1" ()
  have same := idempotent .default .ok _ rfl reached ⟨0, 2⟩ (by decide) "5"
  have display := congrArg (Cells.display · ⟨0, 0⟩) same
  revert display
  decide +kernel

end SavedSheet

end Worksheet
