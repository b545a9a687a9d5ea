import Mathlib.Data.String.Basic
import Worksheet.Proofs.Sheet.Entered
import Worksheet.Proofs.Slot.Medium

/-! What a slot's text is read as. Members go through a map by key, a map by position and the grid.
The first keeps the last member of a key, and since it lists the keys in ascending order, the second
keeps the greatest key of a position. That order is the one of the UTF-8 bytes: a character takes
more bytes the higher it is, the first byte grows with their number, and the bytes of one length
have the character's digits in base 64. -/
namespace Worksheet.Text

def bytes (s : String) : List UInt8 := s.toUTF8.data.toList

theorem bytes_eq (s : String) : bytes s = s.toList.flatMap String.utf8EncodeChar := by
  obtain ⟨cs, rfl⟩ := s.exists_eq_ofList
  rw [String.toList_ofList, bytes, String.toUTF8_eq_toByteArray, String.toByteArray_ofList,
    List.utf8Encode, List.data_toByteArray]

theorem byte_lt_iff {a b : Nat} : UInt8.ofNat a < UInt8.ofNat b ↔ a % 256 < b % 256 := by
  rw [UInt8.lt_iff_toNat_lt, UInt8.toNat_ofNat', UInt8.toNat_ofNat']

theorem byte_inj {a b : Nat} : UInt8.ofNat a = UInt8.ofNat b ↔ a % 256 = b % 256 := by
  rw [← UInt8.toNat_inj, UInt8.toNat_ofNat', UInt8.toNat_ofNat']

theorem encode_lt {c d : Char} (less : c < d) (rest rest' : List UInt8) :
    String.utf8EncodeChar c ++ rest < String.utf8EncodeChar d ++ rest' := by
  have code : c.val.toNat < d.val.toNat := less
  have last : d.val.toNat < 0x110000 := by
    have valid := d.valid
    unfold UInt32.isValidChar Nat.isValidChar at valid
    omega
  have digits : c.val.toNat / 64 < d.val.toNat / 64 ∨
      c.val.toNat / 64 = d.val.toNat / 64 ∧ c.val.toNat % 64 < d.val.toNat % 64 := by omega
  unfold String.utf8EncodeChar
  generalize c.val.toNat = n at *
  generalize d.val.toNat = m at *
  -- One case for each pair of lengths; where the first is greater, `m` is below `n`.
  dsimp only
  repeat' split
  all_goals
    simp only [List.cons_append, List.nil_append, List.cons_lt_cons_iff, byte_lt_iff, byte_inj]
    generalize (rest < rest') = tail
    rcases digits with digits | digits <;> omega

theorem encode_strictMono {cs ds : List Char} (less : cs < ds) :
    cs.flatMap String.utf8EncodeChar < ds.flatMap String.utf8EncodeChar := by
  induction less with
  | @nil c cs =>
    obtain ⟨first, rest, some⟩ := List.exists_cons_of_ne_nil (@String.utf8EncodeChar_ne_nil c)
    rw [List.flatMap_nil, List.flatMap_cons, some]
    exact List.nil_lt_cons _ _
  | rel less => exact encode_lt less _ _
  | cons _ ih => exact List.append_left_lt ih

/-- The order of texts is the order of their bytes. -/
theorem bytes_lt_iff {s t : String} : bytes s < bytes t ↔ s < t := by
  have mono {s t : String} (less : s < t) : bytes s < bytes t := by
    rw [bytes_eq, bytes_eq]
    exact encode_strictMono (String.lt_iff_toList_lt.mp less)
  refine ⟨fun less => ?_, mono⟩
  rcases lt_trichotomy s t with before | rfl | after
  · exact before
  · exact absurd less (List.lt_irrefl _)
  · exact absurd less (List.lt_asymm (mono after))

end Worksheet.Text

namespace Worksheet

namespace OrderedMap

variable {κ ι α : Type} {bindings : List (κ × α)} {k : κ} {a : α}

/-- The key is bound to the value, and not bound again behind that. -/
def Last (bindings : List (κ × α)) (k : κ) (a : α) : Prop :=
  ∃ front back, bindings = front ++ (k, a) :: back ∧ ∀ e ∈ back, e.1 ≠ k

theorem get?_ofList_iff_last [LT κ] [DecidableEq κ] [DecidableLT κ] [StrictOrder κ] :
    (ofList bindings).get? k = some a ↔ Last bindings k a := by
  simp only [get?_ofList, Option.map_eq_some_iff, List.find?_eq_some_iff_append]
  constructor
  · rintro ⟨e, ⟨same, back, front, whole, other⟩, rfl⟩
    obtain rfl : e.1 = k := by simpa using same
    refine ⟨front.reverse, back.reverse, ?_, by simpa using other⟩
    rw [← bindings.reverse_reverse, whole]
    simp
  · rintro ⟨front, back, rfl, other⟩
    exact ⟨(k, a), ⟨by simp, back.reverse, front.reverse, by simp, by simpa using other⟩, rfl⟩

theorem mem_keys_ofList [LT κ] [DecidableEq κ] [DecidableLT κ] [StrictOrder κ] :
    k ∈ (ofList bindings).keys ↔ ∃ e ∈ bindings, e.1 = k := by
  rw [← contains_iff, contains, get?_ofList, Option.isSome_map, List.find?_isSome]
  simp

theorem exists_mem_ofList [LT κ] [DecidableEq κ] [DecidableLT κ] [StrictOrder κ]
    (bindings : List (κ × α)) (P : κ → Prop) :
    (∃ e ∈ (ofList bindings).entries, P e.1) ↔ ∃ e ∈ bindings, P e.1 := by
  constructor
  · rintro ⟨e, member, holds⟩
    obtain ⟨e', member', same⟩ := mem_keys_ofList.mp (List.mem_map_of_mem member)
    exact ⟨e', member', same ▸ holds⟩
  · rintro ⟨e, member, holds⟩
    obtain ⟨e', member', same⟩ := List.mem_map.mp (mem_keys_ofList.mpr ⟨e, member, rfl⟩)
    exact ⟨e', member', same ▸ holds⟩

/-- Where ascending keys are placed, the greatest of the keys with one place comes last. -/
theorem last_filterMap [LT κ] [StrictOrder κ] {place : κ → Option ι} {p : ι}
    (ascending : bindings.Pairwise fun a b => a.1 < b.1) :
    Last (bindings.filterMap fun e => (place e.1).map (·, e.2)) p a ↔
      ∃ k, place k = some p ∧ (k, a) ∈ bindings ∧
        ∀ e ∈ bindings, place e.1 = some p → e.1 = k ∨ e.1 < k := by
  constructor
  · rintro ⟨front, back, whole, other⟩
    obtain ⟨before, rest, rfl, rfl, split⟩ := List.filterMap_eq_append_iff.mp whole
    obtain ⟨skipped, ⟨k, b⟩, after, rfl, none, moved, rfl⟩ := List.filterMap_eq_cons_iff.mp split
    obtain ⟨q, here, same⟩ := Option.map_eq_some_iff.mp moved
    cases same
    refine ⟨k, here, by simp, fun e member placed => ?_⟩
    rw [← List.append_assoc] at ascending member
    rcases List.mem_append.mp member with earlier | later
    · exact .inr ((List.pairwise_append.mp ascending).2.2 e earlier _ List.mem_cons_self)
    rcases List.mem_cons.mp later with rfl | later
    · exact .inl rfl
    · exact absurd rfl (other (p, e.2) (List.mem_filterMap.mpr ⟨e, later, by simp [placed]⟩))
  · rintro ⟨k, here, member, greatest⟩
    obtain ⟨front, back, rfl⟩ := List.append_of_mem member
    let move (e : κ × α) := (place e.1).map (·, e.2)
    refine ⟨front.filterMap move, back.filterMap move, by simp [here, move], fun e kept same => ?_⟩
    obtain ⟨e', later, moved⟩ := List.mem_filterMap.mp kept
    obtain ⟨q, placed, rfl⟩ := Option.map_eq_some_iff.mp moved
    have above : k < e'.1 := by
      have tail := (List.pairwise_append.mp ascending).2.1
      exact (List.pairwise_cons.mp tail).1 e' later
    rcases greatest e' (by simp [later]) (by rw [placed, ← same]) with equal | below
    · exact StrictOrder.irrefl k (equal ▸ above)
    · exact StrictOrder.irrefl k (StrictOrder.trans above below)

end OrderedMap

namespace Slot

open OrderedMap (Last)

variable {text : String} {members : List (String × Cell)}

/-- The text is an object of cells, and these are its members as they stand in the text. -/
def Lists (text : String) (members : List (String × Cell)) : Prop :=
  ∃ values, Json.read text = some (.object values) ∧
    List.Forall₂ (fun value member => value.1 = some member.1 ∧ cellOf? value.2 = some member.2)
      values members

theorem mapM_eq_some_iff {α β : Type} {f : α → Option β} {xs : List α} {ys : List β} :
    xs.mapM f = some ys ↔ List.Forall₂ (fun x y => f x = some y) xs ys := by
  induction xs generalizing ys with
  | nil => simp [eq_comm]
  | cons x xs ih =>
    simp only [List.mapM_cons, List.forall₂_cons_left_iff, ← ih, Option.bind_eq_bind,
      Option.bind_eq_some_iff, Option.pure_def, Option.some.injEq]
    grind

theorem mapM_member {values : List (Option String × Json)} :
    values.mapM (m := Option) (fun m => return (← m.1, ← cellOf? m.2)) = some members ↔
      List.Forall₂ (fun value member => value.1 = some member.1 ∧ cellOf? value.2 = some member.2)
        values members := by
  rw [mapM_eq_some_iff]
  refine Eq.to_iff (congrArg (List.Forall₂ · values members) (funext₂ fun value member => ?_))
  cases value.1 <;> cases cellOf? value.2 <;> simp [Prod.ext_iff]

theorem entries?_eq_some_iff {entries : OrderedMap String Cell} :
    entries? text = some entries ↔
      ∃ members, Lists text members ∧ .ofList members = entries := by
  simp only [Lists, ← mapM_member, entries?]
  cases Json.read text with
  | none => simp
  | some value => cases value <;> simp [Json.members?, Option.bind_eq_some_iff]

/-- How a text's members are resolved. Of the keys of a position, which may be spelled in several
ways, the greatest one counts, and of the members of a key the last one. -/
structure Content.Resolves (content : Content) (members : List (String × Cell)) : Prop where
  cells : ∀ p cell, content.cells.get? p = some cell ↔
    ∃ key, Position.ofKey? key = some p ∧ Last members key cell ∧
      ∀ e ∈ members, Position.ofKey? e.1 = some p → e.1 = key ∨ Text.bytes e.1 < Text.bytes key
  stored : ∀ p, p ∈ content.cells.keys ↔ ∃ e ∈ members, Position.ofKey? e.1 = some p
  malformed : ∀ key, key ∈ content.malformed ↔
    Position.ofKey? key = none ∧ ∃ e ∈ members, e.1 = key
  ordered : content.malformed.Pairwise fun a b => Text.bytes a < Text.bytes b

theorem collect_resolves (members : List (String × Cell)) :
    (collect (.ofList members)).Resolves members where
  cells p cell := by
    have greatest (key : String) :
        (∀ e ∈ (OrderedMap.ofList members).entries,
          Position.ofKey? e.1 = some p → e.1 = key ∨ e.1 < key) ↔
        ∀ e ∈ members, Position.ofKey? e.1 = some p →
          e.1 = key ∨ Text.bytes e.1 < Text.bytes key := by
      have exceeded := OrderedMap.exists_mem_ofList members fun other =>
        ¬(Position.ofKey? other = some p → other = key ∨ other < key)
      simpa only [not_exists, not_and, not_not, Text.bytes_lt_iff] using not_congr exceeded
    rw [collect, OrderedMap.get?_ofList_iff_last,
      OrderedMap.last_filterMap (OrderedMap.ofList members).ascending]
    simp only [greatest, ← OrderedMap.get?_eq_some_iff, OrderedMap.get?_ofList_iff_last]
  stored p := by
    have placed := OrderedMap.exists_mem_ofList members fun key => Position.ofKey? key = some p
    rw [collect, OrderedMap.mem_keys_ofList, ← placed]
    simp only [List.mem_filterMap, Option.map_eq_some_iff]
    grind
  malformed key := by
    rw [collect, List.mem_filter, OrderedMap.mem_keys_ofList, and_comm, Option.isNone_iff_eq_none]
  ordered := by
    refine ((OrderedMap.keys_ascending _).filter _).imp ?_
    exact Text.bytes_lt_iff.mpr

theorem decode_members (listed : Lists text members) :
    ∃ content, decode text = some content ∧ content.Resolves members := by
  have read : entries? text = some (.ofList members) :=
    entries?_eq_some_iff.mpr ⟨members, listed, rfl⟩
  exact ⟨_, by rw [decode, read, Option.map_some], collect_resolves members⟩

theorem decode_unlisted (unlisted : ∀ members, ¬Lists text members) : decode text = none := by
  rw [decode, Option.map_eq_none_iff, Option.eq_none_iff_forall_ne_some]
  rintro entries read
  obtain ⟨members, listed, _⟩ := entries?_eq_some_iff.mp read
  exact unlisted members listed

end Slot

theorem Grid.outside_eq (extent : Extent) (cells : Cells) :
    outside extent cells = cells.keys.countP (· ∉ extent) := by
  have kept : (ofCells cells : Grid extent).cells.size =
      cells.entries.countP fun e => e.1 ∈ extent := List.countP_eq_length_filter.symm
  have parted := cells.entries.length_eq_countP_add_countP fun e => decide (e.1 ∈ extent)
  have dropped : cells.keys.countP (· ∉ extent) =
      cells.entries.countP fun e => ¬decide (e.1 ∈ extent) := by
    simp [OrderedMap.keys, List.countP_map, Function.comp_def]
  rw [outside, kept, OrderedMap.size, parted, dropped, Nat.add_sub_cancel_left]

namespace SavedSheet

variable {σ : Type} {settings : Settings} {evaluate : Evaluator} {medium : Medium (StateM σ)}
  {extent : Extent} {holds : σ → Option String → Prop} {text : String}

/-- A document opens with all that its slot's text lists and the grid has room for, as it was saved,
or with nothing. The slot is only read. -/
theorem load_resolves (valid : settings.validate = .ok extent)
    (reads : Yields holds (medium.read settings.slot) (some text) (.ok (some text)) (some text)) :
    let opens (grid : Grid extent) (notices : List Notice) :=
      Yields holds (load settings evaluate (some medium)) (some text)
        (.ok (⟨settings, ⟨rulesOf settings evaluate extent, grid⟩, some medium⟩, notices))
        (some text)
    ((∀ members, ¬Slot.Lists text members) →
      Slot.decode text = none ∧ opens .blank [.malformed settings.slot]) ∧
    ∀ members, Slot.Lists text members →
      ∃ content grid, Slot.decode text = some content ∧ content.Resolves members ∧
        let dropped := content.cells.keys.countP (· ∉ extent)
        opens grid (content.malformed.map .malformedKey ++
          if 0 < dropped then [.dropped dropped extent] else []) ∧
        ∀ p, grid.cells.get? p = if p ∈ extent then content.cells.get? p else none := by
  intro opens
  have opened {sheet : Sheet} {notices : List Notice}
      (same : (Sheet.blank (rulesOf settings evaluate extent)).loaded settings.slot
        (.ok (some text)) = (sheet, notices)) :
      Yields holds (load settings evaluate (some medium)) (some text)
        (.ok (⟨settings, sheet, some medium⟩, notices)) (some text) := by
    simp only [load, ofSettings_valid valid]
    refine reads.bind ?_
    rw [same]
    exact .pure _
  refine ⟨fun unlisted => ?_, fun members listed => ?_⟩
  · have malformed := Slot.decode_unlisted unlisted
    refine ⟨malformed, opened ?_⟩
    rw [Sheet.loaded, malformed]
    rfl
  · obtain ⟨content, decoded, resolves⟩ := Slot.decode_members listed
    refine ⟨content, .ofCells content.cells, decoded, resolves, opened ?_, fun p => ?_⟩
    · rw [Sheet.loaded, decoded]
      simp only [Sheet.restoreNotices, Grid.outside_eq]
      rfl
    · have found := Sheet.get?_loaded (rulesOf settings evaluate extent) settings.slot
        (.ok (some text)) p
      simp only [Sheet.loaded, Slot.cellsOf, decoded] at found
      exact found

/-- Two spellings of B1, the greater of them twice, a key that is no position, and a cell outside
the grid. -/
theorem load_resolves_repeated :
    let settings := Settings.default
    let extent : Extent := ⟨10, 10, by decide, by decide, by decide⟩
    let text := "\x7b\"00-1\":[\"1\",\"1\"],\"0-1\":[\"2\",\"2\"],\"00-1\":[\"=3\",\"7\"]," ++
      "\"B1\":[\"4\",\"4\"],\"99-0\":[\"5\",\"5\"]\x7d"
    let world : Shelf := .ofList [("spreadsheet", text)]
    settings.validate = .ok extent ∧ (∃ members, Slot.Lists text members) ∧
    ∃ opened,
      (load settings .ok (some .memory)).run world =
        (.ok (opened, [.malformedKey "B1", .dropped 1 extent]), world) ∧
      opened.cells.get? ⟨0, 1⟩ = some ⟨"=3", "7"⟩ ∧ opened.cells.get? ⟨99, 0⟩ = none := by
  intro settings extent text world
  let holds (shelf : Shelf) (text : Option String) :=
    shelf = world ∧ shelf.get? "spreadsheet" = text
  let decoded : Slot.Content :=
    ⟨.ofList [(⟨0, 1⟩, ⟨"=3", "7"⟩), (⟨99, 0⟩, ⟨"5", "5"⟩)], ["B1"]⟩
  have valid : settings.validate = .ok extent := by decide +kernel
  have held : holds world (some text) := ⟨rfl, by decide +kernel⟩
  have reads : Yields holds (Medium.memory.read settings.slot) (some text) (.ok (some text))
      (some text) := by
    intro shelf held
    exact ⟨shelf, congrArg (fun found => (Except.ok found, shelf)) held.2, held⟩
  have decodes : Slot.decode text = some decoded := by decide +kernel
  have notices : decoded.malformed.map .malformedKey ++
      (let dropped := decoded.cells.keys.countP (· ∉ extent)
        if 0 < dropped then [.dropped dropped extent] else []) =
      [Notice.malformedKey "B1", .dropped 1 extent] := by decide +kernel
  obtain ⟨unlisted, listed⟩ := @load_resolves _ _ .ok _ _ _ _ valid reads
  obtain ⟨members, lists⟩ : ∃ members, Slot.Lists text members := by
    by_contra none
    rw [(unlisted (not_exists.mp none)).1] at decodes
    cases decodes
  obtain ⟨content, grid, decodes', -, opens, cells⟩ := listed members lists
  obtain rfl : decoded = content := Option.some.inj (decodes.symm.trans decodes')
  obtain ⟨shelf, loads, same, -⟩ := opens world held
  rw [notices, same] at loads
  refine ⟨valid, ⟨members, lists⟩, _, loads, (cells ⟨0, 1⟩).trans ?_, (cells ⟨99, 0⟩).trans ?_⟩
  · decide +kernel
  · decide +kernel

end SavedSheet

end Worksheet
