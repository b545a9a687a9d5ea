import Worksheet.OrderedMap

/-! What is read from a map after each operation. A map is determined by what is read from it. -/
namespace Worksheet.OrderedMap

universe u v w

variable {κ : Type u} {α : Type v} [LT κ] [DecidableEq κ]

@[simp] theorem get?_empty (k : κ) : (empty : OrderedMap κ α).get? k = none := rfl

theorem find?_place [DecidableLT κ] [StrictOrder κ] (k key : κ) (a : α) (entries : List (κ × α)) :
    ((place k a entries).find? fun e => e.1 = key).map Prod.snd =
      if k = key then some a else (entries.find? fun e => e.1 = key).map Prod.snd := by
  induction entries with
  | nil => by_cases h : k = key <;> simp [place, h]
  | cons first rest ih =>
    unfold place
    split
    · by_cases h : k = key <;> simp [h]
    · split
      next after =>
        by_cases h : first.1 = key
        · have : k ≠ key := fun same => StrictOrder.irrefl key (by simpa [same, h] using after)
          simp [h, this]
        · simpa [List.find?_cons, h] using ih
      next notBefore notAfter =>
        have same : k = first.1 := StrictOrder.connected notBefore notAfter
        by_cases h : k = key
        · simp [h]
        · simp [h, same ▸ h]

theorem get?_insert [DecidableLT κ] [StrictOrder κ] (m : OrderedMap κ α) (k key : κ) (a : α) :
    (m.insert k a).get? key = if k = key then some a else m.get? key :=
  find?_place k key a m.entries

theorem get?_map {β : Type w} (f : κ → α → β) (m : OrderedMap κ α) (k : κ) :
    (m.map f).get? k = (m.get? k).map (f k) := by
  simp only [get?, map, List.find?_map, Option.map_map, Function.comp_def]
  cases h : m.entries.find? fun e => decide (e.1 = k) with
  | none => rfl
  | some e =>
    have := List.find?_some h
    simp_all

theorem get?_modify (m : OrderedMap κ α) (k key : κ) (f : α → α) :
    (m.modify k f).get? key = if key = k then (m.get? key).map f else m.get? key := by
  rw [modify, get?_map]
  by_cases h : key = k <;> simp [h]

theorem get?_eq_some_iff [StrictOrder κ] {m : OrderedMap κ α} {k : κ} {a : α} :
    m.get? k = some a ↔ (k, a) ∈ m.entries := by
  obtain ⟨entries, ascending⟩ := m
  simp only [get?]
  induction entries with
  | nil => simp
  | cons first rest ih =>
    obtain ⟨above, tail⟩ := List.pairwise_cons.mp ascending
    by_cases h : first.1 = k
    · subst h
      have alone : (first.1, a) ∉ rest := fun member =>
        StrictOrder.irrefl _ (above (first.1, a) member)
      simp [Prod.ext_iff, alone, eq_comm]
    · have other : (k, a) ≠ first := fun same => h (same ▸ rfl)
      simpa [List.find?_cons, h, other] using ih tail

omit [DecidableEq κ] in
theorem entries_unique [StrictOrder κ] {entries entries' : List (κ × α)}
    (h : entries.Pairwise fun a b => a.1 < b.1) (h' : entries'.Pairwise fun a b => a.1 < b.1)
    (same : ∀ e, e ∈ entries ↔ e ∈ entries') : entries = entries' := by
  induction entries generalizing entries' with
  | nil =>
    exact (List.eq_nil_iff_forall_not_mem.mpr fun e he => by simpa using (same e).mpr he).symm
  | cons first rest ih =>
    match entries' with
    | [] => simpa using (same first).mp List.mem_cons_self
    | first' :: rest' =>
      obtain ⟨above, tail⟩ := List.pairwise_cons.mp h
      obtain ⟨above', tail'⟩ := List.pairwise_cons.mp h'
      have heads : first = first' := by
        rcases List.mem_cons.mp ((same first).mp List.mem_cons_self) with e | later
        · exact e
        · rcases List.mem_cons.mp ((same first').mpr List.mem_cons_self) with e | later'
          · exact e.symm
          · exact absurd (StrictOrder.trans (above' _ later) (above _ later'))
              (StrictOrder.irrefl _)
      subst heads
      refine congrArg _ (ih tail tail' fun e => ?_)
      have members := same e
      have left : e ∈ rest → e ≠ first := fun he same => StrictOrder.irrefl _ (same ▸ above e he)
      have right : e ∈ rest' → e ≠ first := fun he same => StrictOrder.irrefl _ (same ▸ above' e he)
      simp only [List.mem_cons] at members
      exact ⟨fun he => (members.mp (.inr he)).resolve_left (left he),
        fun he => (members.mpr (.inr he)).resolve_left (right he)⟩

theorem ext_get? [StrictOrder κ] {m m' : OrderedMap κ α} (h : ∀ k, m.get? k = m'.get? k) :
    m = m' :=
  ext_entries <| entries_unique m.ascending m'.ascending fun e => by
    rw [← get?_eq_some_iff (k := e.1) (a := e.2), h, get?_eq_some_iff]

theorem contains_iff_get? {m : OrderedMap κ α} {k : κ} :
    m.contains k ↔ ∃ a, m.get? k = some a := Option.isSome_iff_exists

theorem contains_iff [StrictOrder κ] {m : OrderedMap κ α} {k : κ} :
    m.contains k ↔ k ∈ m.keys := by
  rw [contains_iff_get?]
  constructor
  · rintro ⟨a, found⟩
    exact List.mem_map.mpr ⟨(k, a), get?_eq_some_iff.mp found, rfl⟩
  · intro member
    obtain ⟨e, he, rfl⟩ := List.mem_map.mp member
    exact ⟨e.2, get?_eq_some_iff.mpr he⟩

omit [DecidableEq κ] in
theorem keys_nodup [StrictOrder κ] (m : OrderedMap κ α) : m.keys.Nodup := by
  refine List.nodup_iff_pairwise_ne.mpr (m.keys_ascending.imp ?_)
  rintro a _ less rfl
  exact StrictOrder.irrefl a less

theorem get?_filter [StrictOrder κ] (keep : κ → α → Bool) (m : OrderedMap κ α) (k : κ) :
    (m.filter keep).get? k = (m.get? k).filter (keep k) := by
  apply Option.ext
  intro a
  rw [get?_eq_some_iff, Option.filter_eq_some_iff, get?_eq_some_iff]
  exact List.mem_filter

theorem contains_insert [DecidableLT κ] [StrictOrder κ] {m : OrderedMap κ α} {k key : κ} {a : α} :
    (m.insert k a).contains key ↔ k = key ∨ m.contains key := by
  rw [contains, get?_insert]
  by_cases h : k = key <;> simp [h, contains]

/-- The last binding of a key is the one that counts. -/
theorem get?_ofList [DecidableLT κ] [StrictOrder κ] (bindings : List (κ × α)) (k : κ) :
    (ofList bindings).get? k = (bindings.reverse.find? fun e => e.1 = k).map Prod.snd := by
  suffices general : ∀ (rest : List (κ × α)) (m : OrderedMap κ α),
      (rest.foldl (fun m e => m.insert e.1 e.2) m).get? k =
        ((rest.reverse.find? fun e => e.1 = k).map Prod.snd).or (m.get? k) by
    rw [ofList, general, get?_empty, Option.or_none]
  intro rest
  induction rest with
  | nil => intro m; rfl
  | cons e rest ih =>
    intro m
    rw [List.foldl_cons, ih, get?_insert, List.reverse_cons, List.find?_append]
    cases rest.reverse.find? fun e => e.1 = k with
    | some _ => rfl
    | none => by_cases h : e.1 = k <;> simp [h]

theorem get?_ofList_eq_some_iff [DecidableLT κ] [StrictOrder κ] {bindings : List (κ × α)}
    (unique : ∀ e ∈ bindings, ∀ e' ∈ bindings, e.1 = e'.1 → e = e') {k : κ} {a : α} :
    (ofList bindings).get? k = some a ↔ (k, a) ∈ bindings := by
  rw [get?_ofList, Option.map_eq_some_iff]
  constructor
  · rintro ⟨e, found, rfl⟩
    have key : e.1 = k := by simpa using List.find?_some found
    exact key ▸ List.mem_reverse.mp (List.mem_of_find?_eq_some found)
  · intro member
    have found : (bindings.reverse.find? fun e => e.1 = k).isSome :=
      List.find?_isSome.mpr ⟨(k, a), List.mem_reverse.mpr member, by simp⟩
    obtain ⟨e, found⟩ := Option.isSome_iff_exists.mp found
    have key : e.1 = k := by simpa using List.find?_some found
    have stored := List.mem_reverse.mp (List.mem_of_find?_eq_some found)
    exact ⟨e, found, by rw [unique e stored _ member key]⟩

omit [DecidableEq κ] in
theorem place_last [DecidableLT κ] [StrictOrder κ] {k : κ} {a : α} {entries : List (κ × α)}
    (below : ∀ e ∈ entries, e.1 < k) : place k a entries = entries ++ [(k, a)] := by
  induction entries with
  | nil => rfl
  | cons first rest ih =>
    have less := below first List.mem_cons_self
    have notAbove : ¬k < first.1 := fun h => StrictOrder.irrefl _ (StrictOrder.trans h less)
    simp only [place, if_neg notAbove, if_pos less, List.cons_append,
      ih fun e he => below e (List.mem_cons_of_mem _ he)]

omit [DecidableEq κ] in
theorem entries_ofList [DecidableLT κ] [StrictOrder κ] {bindings : List (κ × α)}
    (ascending : bindings.Pairwise fun a b => a.1 < b.1) :
    (ofList bindings).entries = bindings := by
  suffices general : ∀ (rest : List (κ × α)) (m : OrderedMap κ α),
      (m.entries ++ rest).Pairwise (fun a b => a.1 < b.1) →
      (rest.foldl (fun m e => m.insert e.1 e.2) m).entries = m.entries ++ rest from
    general bindings empty ascending
  intro rest
  induction rest with
  | nil => intro m _; simp
  | cons e rest ih =>
    intro m together
    have below : ∀ e' ∈ m.entries, e'.1 < e.1 := fun e' he =>
      (List.pairwise_append.mp together).2.2 e' he e List.mem_cons_self
    have placed : (m.insert e.1 e.2).entries = m.entries ++ [e] := place_last below
    rw [List.foldl_cons, ih _ (by simpa [placed] using together), placed, List.append_assoc,
      List.singleton_append]

end Worksheet.OrderedMap

namespace Worksheet.OrderedSet

universe u

variable {κ : Type u} [LT κ] [DecidableLT κ] [DecidableEq κ] [StrictOrder κ]

theorem contains_add {s : OrderedSet κ} {member k : κ} :
    (s.add member).contains k ↔ member = k ∨ s.contains k := OrderedMap.contains_insert

theorem contains_ofList {members : List κ} {k : κ} : (ofList members).contains k ↔ k ∈ members := by
  suffices general : ∀ (rest : List κ) (s : OrderedSet κ),
      ((rest.map (·, ())).foldl (fun m e => m.insert e.1 e.2) s).contains k ↔
        s.contains k ∨ k ∈ rest from
    (general members .empty).trans (by simp [OrderedMap.contains])
  intro rest
  induction rest with
  | nil => simp
  | cons member rest ih =>
    intro s
    rw [List.map_cons, List.foldl_cons, ih, OrderedMap.contains_insert, List.mem_cons,
      eq_comm (a := k), or_assoc, or_left_comm]

end Worksheet.OrderedSet
