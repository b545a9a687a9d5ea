import Worksheet.OrderedMap.Lemmas
import Worksheet.Slot.Medium

/-! What media keep. Actions are followed by what they do to the text of one slot, and worlds are
told apart by that text only: the rest of a world may be anything and may change in any way. A
medium may also refuse a write. Then a slot holds the text of the last write that was taken; which
writes are refused is up to the world, and there is a world for every pattern of refusals. -/
namespace Worksheet

variable {σ : Type}

/-- Wherever the slot holds `text`, the action answers `answer` and leaves `text'` in the slot. -/
def Yields {α : Type} (holds : σ → Option String → Prop) (action : StateM σ α)
    (text : Option String) (answer : α) (text' : Option String) : Prop :=
  ∀ world, holds world text → ∃ world', action.run world = (answer, world') ∧ holds world' text'

namespace Yields

variable {α β : Type} {holds : σ → Option String → Prop} {text text' text'' : Option String}

theorem pure (answer : α) : Yields holds (Pure.pure answer) text answer text :=
  fun world held => ⟨world, rfl, held⟩

theorem bind {action : StateM σ α} {next : α → StateM σ β} {first : α} {second : β}
    (h : Yields holds action text first text')
    (h' : Yields holds (next first) text' second text'') :
    Yields holds (action >>= next) text second text'' := by
  intro world held
  obtain ⟨world', ran, held⟩ := h world held
  obtain ⟨world'', ran', held⟩ := h' world' held
  refine ⟨world'', ?_, held⟩
  rw [StateT.run_bind, ran]
  exact ran'

end Yields

/-- The medium takes every text for the slot and reads back the last one. -/
structure Medium.Keeps (medium : Medium (StateM σ)) (slot : String)
    (holds : σ → Option String → Prop) : Prop where
  read : ∀ text, Yields holds (medium.read slot) text (.ok text) text
  write : ∀ text text', Yields holds (medium.write slot text') text (.ok ()) (some text')

end Worksheet

namespace Worksheet

/-- A write that succeeds replaces the text in the slot, and one that fails leaves it as it was. -/
structure Medium.Replaces {σ : Type} (medium : Medium (StateM σ)) (slot : String)
    (holds : σ → Option String) : Prop where
  taken : ∀ {world world' : σ} {text : String},
    (medium.write slot text).run world = (.ok (), world') → holds world' = some text
  refused : ∀ {world world' : σ} {text : String} {reason : FileError},
    (medium.write slot text).run world = (.error reason, world') → holds world' = holds world

/-- Slots in memory, and for each write to come whether and why it is refused. Writes beyond the
pattern are taken. -/
structure Refusals where
  shelf : Shelf
  pattern : List (Option FileError)

namespace Refusals

def holds (slot : String) (world : Refusals) : Option String := world.shelf.get? slot

def write (world : Refusals) (slot text : String) : Except FileError Unit × Refusals :=
  match world.pattern with
  | some reason :: later => (.error reason, { world with pattern := later })
  | _ => (.ok (), ⟨world.shelf.insert slot text, world.pattern.tail⟩)

end Refusals

def Medium.refusing : Medium (StateM Refusals) where
  read slot := return .ok ((← get).holds slot)
  write slot text := modifyGet fun world => world.write slot text

theorem Medium.refusing_replaces (slot : String) :
    refusing.Replaces slot (Refusals.holds slot) := by
  constructor
  · intro world world' text answered
    have answered : world.write slot text = (.ok (), world') := answered
    unfold Refusals.write at answered
    split at answered
    · cases answered
    · cases answered
      rw [Refusals.holds, OrderedMap.get?_insert, if_pos rfl]
  · intro world world' text reason answered
    have answered : world.write slot text = (.error reason, world') := answered
    unfold Refusals.write at answered
    split at answered
    · cases answered
      rfl
    · cases answered

end Worksheet
