import Mathlib.Logic.Function.Basic
import Mathlib.Logic.Relation
import Worksheet.Proofs.Slot.Serving

/-! Writes to the slots of one directory, step by step and in any interleaving. The text of a slot
changes only when a complete text takes the place of the last one. -/
namespace Worksheet

open Relation (ReflTransGen)

structure Writing where
  text : String
  left : List Slot.Step
deriving DecidableEq

/-- A directory in use, with the write in progress for each slot and the text of the slot's last
write that was completed. -/
structure Traffic (σ : Type) where
  world : σ
  writing : String → Option Writing
  completed : String → Option String

namespace Traffic

variable {σ : Type}

/-- Nothing was written yet. -/
def opened (world : σ) : Traffic σ := ⟨world, fun _ => none, fun _ => none⟩

def update (now : Traffic σ) (slot : String) (world : σ) (writing : Option Writing) : Traffic σ :=
  { now with world, writing := Function.update now.writing slot writing }

def complete (now : Traffic σ) (slot text : String) : Traffic σ :=
  { now.update slot now.world none with
    completed := Function.update now.completed slot (some text) }

def answered (now : Traffic σ) (slot text : String) (world : σ) : Except FileError Unit → Traffic σ
  | .ok () => (now.update slot world none).complete slot text
  | .error _ => now.update slot world none

/-- The text that was put into the slot last. A write with no steps left has put its text there,
even if it has not returned yet. -/
def current (now : Traffic σ) (slot : String) : Option String :=
  match now.writing slot with
  | some ⟨text, []⟩ => some text
  | _ => now.completed slot

@[simp] theorem writing_update (now : Traffic σ) (slot : String) (world : σ)
    (writing : Option Writing) : (now.update slot world writing).writing slot = writing :=
  Function.update_self ..

@[simp] theorem completed_update (now : Traffic σ) (slot : String) (world : σ)
    (writing : Option Writing) : (now.update slot world writing).completed = now.completed := rfl

end Traffic

namespace Folder

variable {σ : Type} (folder : Folder σ)

inductive Moves (slot : String) (now : Traffic σ) : Traffic σ → Prop
  | begins (text : String) (idle : now.writing slot = none) :
      Moves slot now (now.update slot now.world (some ⟨text, Slot.writing slot text⟩))
  | performs {text : String} {step : Slot.Step} {left : List Slot.Step} {world : σ}
      (busy : now.writing slot = some ⟨text, step :: left⟩)
      (performed : (step.perform folder.files folder.directory).run now.world = (.ok (), world)) :
      Moves slot now (now.update slot world (some ⟨text, left⟩))
  /-- The error of a step is the answer of the write. -/
  | fails {text : String} {step : Slot.Step} {left : List Slot.Step} {e : FileError} {world : σ}
      (busy : now.writing slot = some ⟨text, step :: left⟩)
      (performed : (step.perform folder.files folder.directory).run now.world = (.error e, world)) :
      Moves slot now (now.update slot world none)
  /-- The temporary file is written in part, or anything is left in it. -/
  | cut {text : String} {left : List Slot.Step} {world : σ}
      (busy : now.writing slot = some ⟨text, .writeTemporary slot text :: left⟩)
      (changes : folder.Changes [Slot.temporaryName slot] now.world world) :
      Moves slot now { now with world }
  /-- The process that writes is stopped. Another one may write later. -/
  | stops {text : String} {step : Slot.Step} {left : List Slot.Step}
      (busy : now.writing slot = some ⟨text, step :: left⟩) :
      Moves slot now (now.update slot now.world none)
  | returns {text : String} (busy : now.writing slot = some ⟨text, []⟩) :
      Moves slot now (now.complete slot text)

/-- What reading a slot answers. -/
def reading (world : σ) (slot : String) : Except FileError (Option String) :=
  (((Medium.directory folder.files folder.directory).read slot).run world).1

variable {folder} {world world' start : σ} {now next : Traffic σ} {slot other text : String}
  {names : List String} {result : Except FileError Unit}

theorem run_read (serves : folder.Serves) (possible : folder.possible world)
    (accepted : Settings.Accepts slot) :
    ((Medium.directory folder.files folder.directory).read slot).run world =
      (folder.reading world slot, world) := by
  refine Prod.ext rfl ?_
  have same := serves.reads world _ possible (Slot.isFileName_fileName accepted)
  rw [Medium.directory, StateT.run_bind]
  rcases ran : (folder.files.read
    (Slot.inside folder.directory (Slot.fileName slot))).run world with ⟨e | text, left⟩ <;>
    rw [ran] at same
  · cases e <;> exact same
  · exact same

theorem Moves.elsewhere (moves : folder.Moves slot now next) (apart : other ≠ slot) :
    next.writing other = now.writing other ∧ next.completed other = now.completed other := by
  cases moves <;> simp [Traffic.update, Traffic.complete, Function.update_of_ne apart]

theorem Moves.current (moves : folder.Moves slot now next) (apart : other ≠ slot) :
    next.current other = now.current other := by
  obtain ⟨writing, completed⟩ := moves.elsewhere apart
  rw [Traffic.current, Traffic.current, writing, completed]

theorem writing_cases {step : Slot.Step} {left : List Slot.Step}
    (suffix : step :: left <:+ Slot.writing slot text) :
    step = .createDirectory ∧ left = [.writeTemporary slot text, .replace slot] ∨
      step = .writeTemporary slot text ∧ left = [.replace slot] ∨
      step = .replace slot ∧ left = [] := by
  simpa [Slot.writing, List.suffix_cons_iff] using suffix

/-- What holds of a slot in the course of traffic that started in a world. Its file has the current
text, and before the first one it is as it was. The temporary file is complete before it takes the
place of the slot's file. -/
structure Keeps (folder : Folder σ) (start : σ) (slot : String) (now : Traffic σ) : Prop where
  possible : folder.possible now.world
  left : ∀ writing, now.writing slot = some writing →
    writing.left <:+ Slot.writing slot writing.text
  ready : ∀ text, now.writing slot = some ⟨text, [.replace slot]⟩ →
    folder.shows now.world (Slot.temporaryName slot) = .ok text
  written : ∀ text, now.current slot = some text →
    folder.shows now.world (Slot.fileName slot) = .ok text
  unwritten : now.current slot = none → folder.takes (Slot.fileName slot) →
    folder.shows now.world (Slot.fileName slot) = folder.shows start (Slot.fileName slot)

variable (serves : folder.Serves) (accepted : Settings.Accepts slot)
include serves accepted

theorem Keeps.changes {step : Slot.Step} {left : List Slot.Step}
    (h : folder.Keeps start slot now) (busy : now.writing slot = some ⟨text, step :: left⟩)
    (performed : (step.perform folder.files folder.directory).run now.world = (result, world)) :
    folder.Changes (Slot.files slot) now.world world := by
  have temporary := Slot.isFileName_temporaryName accepted
  have file := Slot.isFileName_fileName accepted
  have suffix : step :: left <:+ Slot.writing slot text := h.left _ busy
  rcases writing_cases suffix with ⟨rfl, -⟩ | ⟨rfl, -⟩ | ⟨rfl, -⟩
  · exact (serves.creates _ _ _ h.possible performed).weaken (List.nil_subset _)
  · have changes := (serves.writes _ _ _ _ _ h.possible temporary performed).1
    exact changes.weaken (by simp [Slot.files])
  · have changes := serves.renames _ _ _ _ _ h.possible temporary file performed
    cases result with
    | ok => exact changes.1
    | error e => exact changes.weaken (List.nil_subset _)

theorem Moves.changes (h : folder.Keeps start slot now) (moves : folder.Moves slot now next) :
    folder.Changes (Slot.files slot) now.world next.world := by
  cases moves with
  | performs busy performed | fails busy performed => exact h.changes serves accepted busy performed
  | cut busy changes => exact changes.weaken (by simp [Slot.files])
  | begins | stops | returns => exact .refl h.possible

theorem Keeps.quiet (h : folder.Keeps start slot now)
    (changes : folder.Changes names now.world next.world) (other : Slot.fileName slot ∉ names)
    (current : next.current slot = now.current slot)
    (left : ∀ writing, next.writing slot = some writing →
      writing.left <:+ Slot.writing slot writing.text)
    (ready : ∀ text, next.writing slot = some ⟨text, [.replace slot]⟩ →
      folder.shows next.world (Slot.temporaryName slot) = .ok text) :
    folder.Keeps start slot next := by
  have file := Slot.isFileName_fileName accepted
  refine ⟨changes.possible, left, ready, fun text put => ?_, fun unwritten taken => ?_⟩
  · rw [current] at put
    exact (changes.text serves h.possible file other).mpr (h.written text put)
  · rw [current] at unwritten
    exact (changes.others _ file taken other).trans (h.unwritten unwritten taken)

theorem Keeps.elsewhere {mover : String} (acceptedMover : Settings.Accepts mover)
    (apart : slot ≠ mover) (h : folder.Keeps start slot now)
    (hMover : folder.Keeps start mover now) (moves : folder.Moves mover now next) :
    folder.Keeps start slot next := by
  have changes := moves.changes serves acceptedMover hMover
  have writing := (moves.elsewhere apart).1
  have file := Slot.fileName_notMem_files accepted apart
  have temporary := Slot.temporaryName_notMem_files acceptedMover apart
  refine h.quiet serves accepted changes file (moves.current apart) (writing ▸ h.left) ?_
  intro text ready
  rw [writing] at ready
  exact (changes.text serves h.possible (Slot.isFileName_temporaryName accepted) temporary).mpr
    (h.ready text ready)

/-- A step leaves everything as it should be for the next one. The text of the slot changes only
when the complete temporary file takes the place of the slot's file. -/
theorem Keeps.performs {step : Slot.Step} {left : List Slot.Step}
    (h : folder.Keeps start slot now) (busy : now.writing slot = some ⟨text, step :: left⟩)
    (performed : (step.perform folder.files folder.directory).run now.world = (.ok (), world)) :
    folder.Keeps start slot (now.update slot world (some ⟨text, left⟩)) := by
  have temporary := Slot.isFileName_temporaryName accepted
  have file := Slot.isFileName_fileName accepted
  have suffix : step :: left <:+ Slot.writing slot text := h.left _ busy
  have left' : ∀ writing, (now.update slot world (some ⟨text, left⟩)).writing slot = some writing →
      writing.left <:+ Slot.writing slot writing.text := by
    intro writing same
    rw [Traffic.writing_update] at same
    cases same
    exact (List.suffix_cons step left).trans suffix
  rcases writing_cases suffix with ⟨rfl, rfl⟩ | ⟨rfl, rfl⟩ | ⟨rfl, rfl⟩
  · have changes := serves.creates _ _ _ h.possible performed
    refine h.quiet serves accepted changes List.not_mem_nil ?_ left' fun text' same => ?_
    · simp [Traffic.current, busy]
    · simp at same
  · obtain ⟨changes, put⟩ := serves.writes _ _ _ _ _ h.possible temporary performed
    have other := Slot.fileName_notMem_temporary accepted
    refine h.quiet serves accepted changes other ?_ left' fun text' same => ?_
    · simp [Traffic.current, busy]
    · obtain rfl : text = text' := by simpa using same
      exact put rfl
  · obtain ⟨changes, put⟩ := serves.renames _ _ _ _ _ h.possible temporary file performed
    have current : (now.update slot world (some ⟨text, []⟩)).current slot = some text := by
      simp [Traffic.current]
    refine ⟨changes.possible, left', fun text' same => ?_, fun text' same => ?_,
      fun unwritten => ?_⟩
    · simp at same
    · obtain rfl : text = text' := Option.some.inj (current.symm.trans same)
      exact put.trans (h.ready text busy)
    · rw [current] at unwritten
      cases unwritten

/-- A step that fails leaves the text of the slot as it was. -/
theorem Keeps.fails {step : Slot.Step} {left : List Slot.Step} {e : FileError}
    (h : folder.Keeps start slot now) (busy : now.writing slot = some ⟨text, step :: left⟩)
    (performed : (step.perform folder.files folder.directory).run now.world = (.error e, world)) :
    folder.Keeps start slot (now.update slot world none) := by
  have temporary := Slot.isFileName_temporaryName accepted
  have file := Slot.isFileName_fileName accepted
  have suffix : step :: left <:+ Slot.writing slot text := h.left _ busy
  have other := Slot.fileName_notMem_temporary accepted
  have changes : folder.Changes [Slot.temporaryName slot] now.world world := by
    rcases writing_cases suffix with ⟨rfl, -⟩ | ⟨rfl, -⟩ | ⟨rfl, -⟩
    · exact (serves.creates _ _ _ h.possible performed).weaken (List.nil_subset _)
    · exact (serves.writes _ _ _ _ _ h.possible temporary performed).1
    · exact (serves.renames _ _ _ _ _ h.possible temporary file performed).weaken
        (List.nil_subset _)
  refine h.quiet serves accepted changes other ?_ ?_ ?_
  · simp [Traffic.current, busy]
  · simp
  · simp

theorem Keeps.moves (h : folder.Keeps start slot now) (moves : folder.Moves slot now next) :
    folder.Keeps start slot next := by
  cases moves with
  | begins text idle =>
    refine h.quiet serves accepted (.refl h.possible) List.not_mem_nil ?_ ?_ ?_
    · simp [Traffic.current, idle, Slot.writing]
    · simp
    · simp [Slot.writing]
  | performs busy performed => exact h.performs serves accepted busy performed
  | fails busy performed => exact h.fails serves accepted busy performed
  | cut busy changes =>
    have other := Slot.fileName_notMem_temporary accepted
    refine h.quiet serves accepted changes other rfl h.left fun text' same => ?_
    simp [busy] at same
  | stops busy =>
    refine h.quiet serves accepted (.refl h.possible) List.not_mem_nil ?_ ?_ ?_
    · simp [Traffic.current, busy]
    · simp
    · simp
  | returns busy =>
    refine h.quiet serves accepted (.refl h.possible) List.not_mem_nil ?_ ?_ ?_
    · simp [Traffic.current, Traffic.complete, busy]
    · simp [Traffic.complete]
    · simp [Traffic.complete]

end Folder

namespace FileTree

end FileTree

namespace Folder

end Folder

end Worksheet
