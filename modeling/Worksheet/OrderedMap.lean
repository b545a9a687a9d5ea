/-! Finite maps as association lists in ascending order of their keys. The order is part of the
type, so two maps with the same bindings are equal and listing a map lists its keys in order. -/
namespace Worksheet

universe u v w

class StrictOrder (κ : Type u) [LT κ] : Prop where
  irrefl : ∀ a : κ, ¬a < a
  trans : ∀ {a b c : κ}, a < b → b < c → a < c
  connected : ∀ {a b : κ}, ¬a < b → ¬b < a → a = b

instance : StrictOrder String where
  irrefl := String.lt_irrefl
  trans := String.lt_trans
  connected h h' := Std.Trichotomous.trichotomous _ _ h h'

structure OrderedMap (κ : Type u) (α : Type v) [LT κ] where
  entries : List (κ × α)
  ascending : entries.Pairwise fun a b => a.1 < b.1

namespace OrderedMap

variable {κ : Type u} {α : Type v} [LT κ]

theorem ext_entries {m m' : OrderedMap κ α} (h : m.entries = m'.entries) : m = m' := by
  cases m; cases m'; cases h; rfl

instance [DecidableEq κ] [DecidableEq α] : DecidableEq (OrderedMap κ α) := fun m m' =>
  if h : m.entries = m'.entries then .isTrue (ext_entries h)
  else .isFalse fun same => h (congrArg entries same)

def empty : OrderedMap κ α := ⟨[], .nil⟩

instance : Inhabited (OrderedMap κ α) := ⟨empty⟩

def size (m : OrderedMap κ α) : Nat := m.entries.length

def keys (m : OrderedMap κ α) : List κ := m.entries.map Prod.fst

theorem keys_ascending (m : OrderedMap κ α) : m.keys.Pairwise (· < ·) :=
  List.pairwise_map.mpr m.ascending

def get? [DecidableEq κ] (m : OrderedMap κ α) (k : κ) : Option α :=
  (m.entries.find? fun e => e.1 = k).map Prod.snd

def contains [DecidableEq κ] (m : OrderedMap κ α) (k : κ) : Bool := (m.get? k).isSome

def filter (keep : κ → α → Bool) (m : OrderedMap κ α) : OrderedMap κ α :=
  ⟨m.entries.filter fun e => keep e.1 e.2, m.ascending.filter _⟩

def map {β : Type w} (f : κ → α → β) (m : OrderedMap κ α) : OrderedMap κ β :=
  ⟨m.entries.map fun e => (e.1, f e.1 e.2), List.pairwise_map.mpr m.ascending⟩

/-- Applies `f` to the value under `k`, if there is one. -/
def modify [DecidableEq κ] (k : κ) (f : α → α) (m : OrderedMap κ α) : OrderedMap κ α :=
  m.map fun key a => if key = k then f a else a

@[simp] theorem keys_map {β : Type w} (f : κ → α → β) (m : OrderedMap κ α) :
    (m.map f).keys = m.keys := by
  simp [keys, map]

@[simp] theorem keys_modify [DecidableEq κ] (k : κ) (f : α → α) (m : OrderedMap κ α) :
    (m.modify k f).keys = m.keys := keys_map _ _

/-- Binds `k` to `a` in an ascending list, in the place of an earlier binding of `k`. -/
def place [DecidableLT κ] (k : κ) (a : α) : List (κ × α) → List (κ × α)
  | [] => [(k, a)]
  | e :: rest =>
    if k < e.1 then (k, a) :: e :: rest
    else if e.1 < k then e :: place k a rest
    else (k, a) :: rest

theorem mem_place [DecidableLT κ] {k : κ} {a : α} {e : κ × α} {entries : List (κ × α)}
    (h : e ∈ place k a entries) : e = (k, a) ∨ e ∈ entries := by
  induction entries with
  | nil => exact .inl (by simpa [place] using h)
  | cons first rest ih =>
    unfold place at h
    split at h
    · simpa using h
    · split at h
      · rcases List.mem_cons.mp h with h | h
        · exact .inr (h ▸ List.mem_cons_self)
        · exact (ih h).imp id (List.mem_cons_of_mem _)
      · rcases List.mem_cons.mp h with h | h
        · exact .inl h
        · exact .inr (List.mem_cons_of_mem _ h)

theorem place_ascending [DecidableLT κ] [StrictOrder κ] (k : κ) (a : α) {entries : List (κ × α)}
    (h : entries.Pairwise fun a b => a.1 < b.1) :
    (place k a entries).Pairwise fun a b => a.1 < b.1 := by
  induction entries with
  | nil => simp [place]
  | cons first rest ih =>
    obtain ⟨above, tail⟩ := List.pairwise_cons.mp h
    unfold place
    split
    next before =>
      refine List.pairwise_cons.mpr ⟨fun e he => ?_, h⟩
      rcases List.mem_cons.mp he with rfl | he
      · exact before
      · exact StrictOrder.trans before (above e he)
    next =>
      split
      next after =>
        refine List.pairwise_cons.mpr ⟨fun e he => ?_, ih tail⟩
        rcases mem_place he with rfl | he
        · exact after
        · exact above e he
      next notBefore notAfter =>
        refine List.pairwise_cons.mpr ⟨fun e he => ?_, tail⟩
        exact StrictOrder.connected notBefore notAfter ▸ above e he

def insert [DecidableLT κ] [StrictOrder κ] (m : OrderedMap κ α) (k : κ) (a : α) :
    OrderedMap κ α :=
  ⟨place k a m.entries, place_ascending k a m.ascending⟩

/-- Later bindings of a key replace earlier ones. -/
def ofList [DecidableLT κ] [StrictOrder κ] (bindings : List (κ × α)) : OrderedMap κ α :=
  bindings.foldl (fun m e => m.insert e.1 e.2) empty

theorem mem_keys_insert [DecidableLT κ] [StrictOrder κ] {m : OrderedMap κ α} {k key : κ} {a : α}
    (h : key ∈ (m.insert k a).keys) : key = k ∨ key ∈ m.keys := by
  obtain ⟨e, he, rfl⟩ := List.mem_map.mp h
  rcases mem_place he with rfl | he
  · exact .inl rfl
  · exact .inr (List.mem_map_of_mem he)

theorem mem_keys_filter {m : OrderedMap κ α} {keep : κ → α → Bool} {key : κ}
    (h : key ∈ (m.filter keep).keys) : key ∈ m.keys ∧ ∃ a, keep key a := by
  obtain ⟨e, he, rfl⟩ := List.mem_map.mp h
  obtain ⟨member, kept⟩ := List.mem_filter.mp he
  exact ⟨List.mem_map_of_mem member, e.2, kept⟩

end OrderedMap

abbrev OrderedSet (κ : Type u) [LT κ] := OrderedMap κ Unit

namespace OrderedSet

variable {κ : Type u} [LT κ] [DecidableLT κ] [StrictOrder κ]

def ofList (members : List κ) : OrderedSet κ :=
  OrderedMap.ofList (members.map (·, ()))

def add (s : OrderedSet κ) (member : κ) : OrderedSet κ := s.insert member ()

end OrderedSet

end Worksheet
