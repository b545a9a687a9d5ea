import Worksheet.Proofs.Sheet.Commit

/-! Histories of a document in dependency mode. After a commit every formula is either final or
marked, whatever was loaded before. A document that started empty is a function of the texts it
holds: how they came to be there cannot be seen. -/
namespace Worksheet.SavedSheet

/-- What opening a sheet and committing to it can lead to. The world outside may change in any way
between two commits, and nothing is assumed of the medium. -/
inductive Reached {σ : Type} (settings : Settings) (evaluate : Evaluator)
    (medium : Option (Medium (StateM σ))) : SavedSheet (StateM σ) → Prop where
  | opened {world world' : σ} {saved : SavedSheet (StateM σ)} {notices : List Notice} :
      (load settings evaluate medium).run world = (.ok (saved, notices), world') →
      Reached settings evaluate medium saved
  | committed {saved : SavedSheet (StateM σ)} (p : Position) (text : String) (world : σ) :
      Reached settings evaluate medium saved →
      Reached settings evaluate medium (saved.after p text world)

variable {σ : Type} {settings : Settings} {evaluate : Evaluator}
  {medium : Option (Medium (StateM σ))} {saved : SavedSheet (StateM σ)} {extent : Extent}

def rulesOf (settings : Settings) (evaluate : Evaluator) (extent : Extent) : Rules :=
  ⟨extent, settings.recalculation, settings.unresolved, evaluate⟩

theorem rules_loaded (sheet : Sheet) (slot : String) (answer : Except FileError (Option String)) :
    (sheet.loaded slot answer).1.rules = sheet.rules := by
  unfold Sheet.loaded
  split
  · rfl
  · split <;> rfl
  · rfl

theorem ofSettings_valid (valid : settings.validate = .ok extent) :
    Sheet.ofSettings settings evaluate = .ok (.blank (rulesOf settings evaluate extent)) := by
  simp only [Sheet.ofSettings, valid]
  rfl

theorem load_valid (valid : settings.validate = .ok extent) {world world' : σ}
    {notices : List Notice}
    (loaded : (load settings evaluate medium).run world = (.ok (saved, notices), world')) :
    saved.sheet.rules = rulesOf settings evaluate extent ∧
      (medium = none → saved.cells = .empty) := by
  simp only [load, ofSettings_valid valid] at loaded
  cases medium with
  | none =>
    cases loaded
    exact ⟨rfl, fun _ => rfl⟩
  | some medium =>
    rw [StateT.run_bind] at loaded
    rcases (medium.read settings.slot).run world with ⟨answer, _⟩
    cases loaded
    exact ⟨rules_loaded .., by simp⟩

namespace Reached

theorem valid (h : saved.Reached settings evaluate medium) :
    ∃ extent, settings.validate = .ok extent := by
  induction h with
  | opened loaded =>
    cases checked : settings.validate with
    | ok extent => exact ⟨extent, rfl⟩
    | error e =>
      simp only [load, Sheet.ofSettings, checked] at loaded
      cases loaded
  | committed _ _ _ _ ih => exact ih

theorem rules (h : saved.Reached settings evaluate medium)
    (valid : settings.validate = .ok extent) :
    saved.sheet.rules = rulesOf settings evaluate extent := by
  induction h with
  | opened loaded => exact (load_valid valid loaded).1
  | committed p text world _ ih => rwa [rules_after]

/-- Without a medium a document starts empty, and every commit leaves canonical cells. -/
theorem canonical (h : saved.Reached settings evaluate none)
    (valid : settings.validate = .ok extent) (mode : settings.recalculation = .dependency) :
    (rulesOf settings evaluate extent).Canonical saved.cells := by
  induction h with
  | opened loaded =>
    rw [(load_valid valid loaded).2 rfl]
    exact Rules.empty_canonical _
  | @committed saved p text world reached ih =>
    have rules := reached.rules valid
    by_cases inside : p ∈ saved.extent
    · rw [after_inside inside]
      rw [← rules] at ih ⊢
      exact Sheet.canonical_commit (by rw [rules]; exact mode) ih inside
    · rwa [after_outside inside]

end Reached

/-- After every commit each formula shows its value in the cells that the commit leaves, or the
marker if it is behind a cycle. Nothing that was shown before the commit is left in a formula. -/
theorem after_consistent (valid : settings.validate = .ok extent)
    (mode : settings.recalculation = .dependency) (reached : saved.Reached settings evaluate medium)
    {p : Position} (inside : p ∈ extent) (text : String) (world : σ) :
    let rules := rulesOf settings evaluate extent
    let cells := (saved.after p text world).cells
    let graph := rules.graph cells
    (∀ q expression, cells.expression? q = some expression →
      q ∈ graph.ordered ∨ q ∈ graph.blocked) ∧
    (∀ q ∈ graph.ordered, ∃ expression, cells.expression? q = some expression ∧
      cells.display q = rules.formulaDisplay cells expression) ∧
    (∀ q ∈ graph.blocked, cells.display q = Cell.Marker.circular.text) ∧
    ∀ positions : List Position, (∀ q ∈ positions, q ∈ graph.ordered) →
      positions.foldl rules.recompute cells = cells := by
  intro rules cells graph
  have same : saved.sheet.rules = rules := reached.rules valid
  have settled : rules.Settled cells := by
    have inside : p ∈ saved.extent := by
      change p ∈ saved.sheet.rules.extent
      rwa [same]
    change rules.Settled (saved.after p text world).cells
    rw [after_inside inside, ← same]
    exact Sheet.settled_commit (by rw [same]; exact mode) inside
  refine ⟨fun q expression formula => ?_, fun q member => ?_, settled.blocked,
    fun _ => settled.recomputes⟩
  · exact Rules.mem_ordered_or_blocked.mpr ⟨expression, formula⟩
  · obtain ⟨expression, formula⟩ := Rules.mem_ordered_or_blocked.mp (.inl member)
    exact ⟨expression, formula, settled.ordered q member expression formula⟩

/-- The medium refuses every write. The last commit closes a cycle, and the formula with an
unresolved reference is marked as circular too. -/
theorem after_consistent_unsaved :
    let settings : Settings :=
      { Settings.default with recalculation := .dependency, unresolved := .error }
    let extent : Extent := ⟨10, 10, by decide, by decide, by decide⟩
    let medium : Option (Medium (StateM Unit)) := some .readOnly
    let rules := rulesOf settings .ok extent
    let opened : SavedSheet (StateM Unit) := ⟨settings, .blank rules, medium⟩
    let before := (opened.after ⟨0, 0⟩ "=B1" ()).after ⟨0, 2⟩ "=D1+1" ()
    let cells := (before.after ⟨0, 1⟩ "=A1+Z99" ()).cells
    settings.validate = .ok extent ∧ before.Reached settings .ok medium ∧
    before.cells.display ⟨0, 0⟩ = "0" ∧
    cells.display ⟨0, 0⟩ = Cell.Marker.circular.text ∧
    cells.display ⟨0, 1⟩ = Cell.Marker.circular.text ∧
    cells.display ⟨0, 2⟩ = rules.formulaDisplay cells "D1+1" := by
  intro settings extent medium rules opened before cells
  have valid : settings.validate = .ok extent := by decide +kernel
  have loaded : (load settings .ok medium).run () = (.ok (opened, []), ()) := by
    simp only [load, ofSettings_valid valid]
    rfl
  have reached : before.Reached settings .ok medium :=
    ((Reached.opened loaded).committed ..).committed ..
  obtain ⟨_, ordered, blocked, _⟩ :=
    after_consistent valid rfl reached (p := ⟨0, 1⟩) (by decide) "=A1+Z99" ()
  refine ⟨valid, reached, by decide +kernel, blocked _ (by decide +kernel),
    blocked _ (by decide +kernel), ?_⟩
  obtain ⟨expression, formula, display⟩ := ordered ⟨0, 2⟩ (by decide +kernel)
  have same : cells.expression? ⟨0, 2⟩ = some "D1+1" := by decide +kernel
  obtain rfl : "D1+1" = expression := Option.some.inj (same.symm.trans formula)
  exact display

/-- A document that started empty is determined by the texts it holds. Commits to different cells
commute, and a commit of a text that stands there already changes nothing. -/
theorem history_invisible (mode : settings.recalculation = .dependency) :
    (∀ first second : SavedSheet (StateM σ), first.Reached settings evaluate none →
      second.Reached settings evaluate none →
      (∀ p, first.cells.raw? p = second.cells.raw? p) → first.cells = second.cells) ∧
    (∀ saved : SavedSheet (StateM σ), saved.Reached settings evaluate none →
      ∀ (p q : Position) (text text' : String) (world world' : σ), p ≠ q →
        ((saved.after p text world).after q text' world').cells =
          ((saved.after q text' world).after p text world').cells) ∧
    ∀ saved : SavedSheet (StateM σ), saved.Reached settings evaluate none →
      ∀ (p : Position) (text : String) (world : σ), saved.cells.raw? p = some (Text.trim text) →
        (saved.after p text world).cells = saved.cells := by
  have determined (first second : SavedSheet (StateM σ)) (h : first.Reached settings evaluate none)
      (h' : second.Reached settings evaluate none)
      (raws : ∀ p, first.cells.raw? p = second.cells.raw? p) : first.cells = second.cells := by
    obtain ⟨extent, valid⟩ := h.valid
    exact (h.canonical valid mode).unique (h'.canonical valid mode) raws
  refine ⟨determined, fun saved h p q text text' world world' other => ?_,
    fun saved h p text world stored => ?_⟩
  · refine determined _ _ ((h.committed p text world).committed q text' world')
      ((h.committed q text' world).committed p text world') fun r => ?_
    simp only [raw?_after, extent_after]
    by_cases atP : p = r
    · have notQ : q ≠ r := fun atQ => other (atP.trans atQ.symm)
      simp [atP, notQ]
    · simp [atP]
  · refine determined _ _ (h.committed p text world) h fun q => ?_
    rw [raw?_after]
    split
    next same => rw [← same.2, stored]
    next => rfl

/-- A cycle that was closed and broken again has left nothing behind. -/
theorem history_invisible_cycle :
    let settings : Settings := { Settings.default with recalculation := .dependency }
    let extent : Extent := ⟨10, 10, by decide, by decide, by decide⟩
    let opened : SavedSheet (StateM Unit) := ⟨settings, .blank (rulesOf settings .ok extent), none⟩
    let circular := (opened.after ⟨0, 0⟩ "=B1" ()).after ⟨0, 1⟩ "=A1" ()
    let broken := circular.after ⟨0, 1⟩ "4" ()
    let direct := (opened.after ⟨0, 1⟩ " 4 " ()).after ⟨0, 0⟩ "=B1" ()
    settings.recalculation = .dependency ∧ circular.Reached settings .ok none ∧
    circular.cells.display ⟨0, 0⟩ = Cell.Marker.circular.text ∧
    broken.cells = direct.cells ∧ (direct.after ⟨0, 1⟩ "4" ()).cells = direct.cells ∧
    ((opened.after ⟨0, 0⟩ "=B1" ()).after ⟨0, 1⟩ " 4 " ()).cells = direct.cells := by
  intro settings extent opened circular broken direct
  have valid : settings.validate = .ok extent := by decide +kernel
  have loaded : (load (m := StateM Unit) settings .ok none).run () = (.ok (opened, []), ()) := by
    simp only [load, ofSettings_valid valid]
    rfl
  have reached : circular.Reached settings .ok none :=
    ((Reached.opened loaded).committed ..).committed ..
  have reached' : direct.Reached settings .ok none :=
    ((Reached.opened loaded).committed ..).committed ..
  obtain ⟨determined, commute, again⟩ := @history_invisible Unit settings .ok rfl
  refine ⟨rfl, reached, by decide +kernel, ?_, ?_, ?_⟩
  · refine determined _ _ (reached.committed ..) reached' fun p => ?_
    have a1 : ⟨0, 0⟩ ∈ opened.extent := by decide
    have b1 : ⟨0, 1⟩ ∈ opened.extent := by decide
    have blanks : Text.trim " 4 " = Text.trim "4" := by decide +kernel
    simp only [broken, circular, direct, raw?_after, extent_after, a1, b1, blanks, true_and]
    by_cases atA1 : ⟨0, 0⟩ = p
    · simp [← atA1]
    · by_cases atB1 : ⟨0, 1⟩ = p <;> simp [atA1, atB1]
  · exact again _ reached' _ _ _ (by decide +kernel)
  · exact commute _ (.opened loaded) _ _ _ _ _ _ (by decide)

end Worksheet.SavedSheet
