import Mathlib.Data.List.Basic
import Worksheet.OrderedMap.Lemmas
import Worksheet.Slot.Format

/-! Saved grids read back. Whatever text is written, the scanner finds the closing quote that ends
it and the same characters in between, so the tokens of a written grid are known. The reader makes
the members of one object of them, and sorting those by position undoes the sorting by key. -/
namespace Worksheet.Json.Token

theorem hexadecimal?_control : ∀ code < 0x20, Text.hexadecimal?
    ['0', '0', Nat.digitChar (code / 16), Nat.digitChar (code % 16)] = some code := by
  decide

theorem literal_quote (rest : List Char) : literal ('"' :: rest) = some ([], rest) := by
  rw [literal]
  simp

theorem literal_escape {cs rest : List Char} {unit : Nat} (read : escape cs = some (unit, rest)) :
    literal ('\\' :: cs) = (literal rest).map fun r => (unit :: r.1, r.2) := by
  rw [literal, if_neg (by decide), if_pos rfl]
  split
  next found =>
    rw [read] at found
    cases found
    rfl
  next failed => rw [read] at failed; cases failed

theorem literal_plain {c : Char} (quote : c ≠ '"') (backslash : c ≠ '\\') (printable : ¬c < ' ')
    (rest : List Char) :
    literal (c :: rest) = (literal rest).map fun r => (c.toNat :: r.1, r.2) := by
  rw [literal, if_neg quote, if_neg backslash, if_neg printable]

/-- Each character is written in one of three ways: a short escape, four digits, or itself. -/
theorem literal_writeChar (c : Char) (rest : List Char) :
    literal (writeChar c ++ rest) = (literal rest).map fun r => (c.toNat :: r.1, r.2) := by
  unfold writeChar
  split
  case h_8 quote backslash _ _ _ _ _ =>
    split
    next control =>
      have code : Text.hexadecimal?
          ['0', '0', Nat.digitChar (c.toNat / 16), Nat.digitChar (c.toNat % 16)] = some c.toNat :=
        hexadecimal?_control _ control
      exact literal_escape (congrArg (Option.map (·, rest)) code)
    next printable => exact literal_plain quote backslash printable rest
  all_goals exact literal_escape rfl

theorem literal_writeText (cs rest : List Char) :
    literal (cs.flatMap writeChar ++ '"' :: rest) = some (cs.map Char.toNat, rest) := by
  induction cs with
  | nil => exact literal_quote rest
  | cons c cs ih =>
    rw [List.flatMap_cons, List.append_assoc, literal_writeChar, ih]
    rfl

theorem isSurrogate_toNat (c : Char) :
    isHighSurrogate c.toNat = false ∧ isLowSurrogate c.toNat = false := by
  have valid : c.toNat < 0xd800 ∨ 0xdfff < c.toNat ∧ c.toNat < 0x110000 := c.valid
  simp only [isHighSurrogate, isLowSurrogate, Bool.and_eq_false_iff, decide_eq_false_iff_not]
  omega

theorem characters?_toNat (cs : List Char) : characters? (cs.map Char.toNat) = some cs := by
  induction cs with
  | nil => rfl
  | cons c cs ih =>
    obtain ⟨notHigh, notLow⟩ := isSurrogate_toNat c
    rw [List.map_cons, characters?.eq_def]
    simp [notHigh, notLow, ih]

theorem scan_writeText (s : String) (rest : List Char) :
    scan (writeText s ++ rest) = (scan rest).map (.string (some s.toList) :: ·) := by
  have read : literal (s.toList.flatMap writeChar ++ '"' :: rest) =
      some (s.toList.map Char.toNat, rest) := literal_writeText ..
  rw [writeText, List.cons_append, List.cons_append, List.append_assoc, scan,
    if_neg (by decide), if_pos rfl]
  split
  next found =>
    rw [List.singleton_append, read] at found
    cases found
    rw [characters?_toNat]
  next failed => rw [List.singleton_append, read] at failed; cases failed

theorem scan_punctuation (c : Char) {token : Token} (mark : punctuation? c = some token)
    (rest : List Char) : scan (c :: rest) = (scan rest).map (token :: ·) := by
  have kind : isBlank c = false ∧ c ≠ '"' ∧ (c = '-' || c.isDigit) = false ∧ c.isAlpha = false := by
    unfold punctuation? at mark
    split at mark <;> first | decide | cases mark
  obtain ⟨notBlank, notQuote, notNumber, notWord⟩ := kind
  rw [scan]
  simp only [notBlank, notQuote, notNumber, notWord, mark, Bool.false_eq_true, if_false]

end Worksheet.Json.Token

namespace Worksheet.Slot

open Json (Token)

variable {cells : Cells}

def fieldTokens (name value : String) : List Token :=
  [.string (some name.toList), .colon, .string (some value.toList)]

def memberTokens (e : String × Cell) : List Token :=
  .string (some e.1.toList) :: .colon :: .openObject :: fieldTokens "raw" e.2.raw ++
    .comma :: fieldTokens "display" e.2.display ++ [.closeObject]

def membersTokens (entries : List (String × Cell)) : List Token :=
  [.comma].intercalate (entries.map memberTokens)

theorem membersTokens_cons (e e' : String × Cell) (entries : List (String × Cell)) :
    membersTokens (e :: e' :: entries) =
      memberTokens e ++ .comma :: membersTokens (e' :: entries) := by
  simp [membersTokens, List.intercalate_cons_cons]

theorem scan_field (name value : String) (rest : List Char) :
    Token.scan (field name value ++ rest) =
      (Token.scan rest).map (fieldTokens name value ++ ·) := by
  rw [field, List.append_assoc, List.cons_append, Token.scan_writeText,
    Token.scan_punctuation ':' rfl, Token.scan_writeText, Option.map_map, Option.map_map]
  rfl

theorem scan_member (e : String × Cell) (rest : List Char) :
    Token.scan (member e.1 e.2 ++ rest) = (Token.scan rest).map (memberTokens e ++ ·) := by
  simp only [member, List.append_assoc, List.cons_append, List.nil_append, Token.scan_writeText,
    Token.scan_punctuation ':' rfl, Token.scan_punctuation '\x7b' rfl,
    Token.scan_punctuation ',' rfl, Token.scan_punctuation '\x7d' rfl, scan_field, Option.map_map]
  rfl

theorem scan_members (entries : List (String × Cell)) (rest : List Char) :
    Token.scan ([','].intercalate (entries.map fun e => member e.1 e.2) ++ rest) =
      (Token.scan rest).map (membersTokens entries ++ ·) := by
  induction entries with
  | nil => simp [membersTokens]
  | cons e entries ih =>
    cases entries with
    | nil => simpa [membersTokens] using scan_member e rest
    | cons e' entries =>
      simp only [membersTokens_cons, List.map_cons, List.intercalate_cons_cons, List.append_assoc,
        List.nil_append, List.cons_append] at ih ⊢
      rw [scan_member, Token.scan_punctuation ',' rfl, ih]
      simp [Option.map_map, Function.comp_def]

theorem scan_encode (cells : Cells) : Token.scan (encode cells).toList =
    some (.openObject :: membersTokens (byKey cells).entries ++ [.closeObject]) := by
  have ending : Token.scan ['\x7d'] = some [.closeObject] := by
    rw [Token.scan_punctuation '\x7d' rfl, Token.scan]
    rfl
  rw [encode, String.toList_ofList, List.cons_append, Token.scan_punctuation '\x7b' rfl,
    scan_members, ending]
  rfl

def valueOf (cell : Cell) : Json :=
  .object [(some "raw", .string (some cell.raw)), (some "display", .string (some cell.display))]

def readMember (e : String × Cell) : Option String × Json := (some e.1, valueOf e.2)

theorem steps_member (done : List (Option String × Json)) (mayClose : Bool) (stack : List Json.Open)
    (e : String × Cell) (rest : List Token) :
    (memberTokens e ++ rest).foldlM Json.step (.key done mayClose, stack) =
      rest.foldlM Json.step (.continuation (valueOf e.2), .member done (some e.1) :: stack) := by
  simp [memberTokens, fieldTokens, Json.step, Json.start, valueOf]

theorem steps_members (done : List (Option String × Json)) (mayClose : Bool) (e : String × Cell)
    (entries : List (String × Cell)) :
    (membersTokens (e :: entries) ++ [Token.closeObject]).foldlM Json.step
        (.key done mayClose, []) =
      some (.continuation (.object (done.reverse ++ (e :: entries).map readMember)), []) := by
  induction entries generalizing e done mayClose with
  | nil =>
    rw [membersTokens, List.map_singleton, List.intercalate_singleton, steps_member]
    simp [Json.step, readMember]
  | cons e' entries ih =>
    rw [membersTokens_cons, List.append_assoc, steps_member, List.cons_append, List.foldlM_cons]
    simpa [Json.step, readMember] using ih (readMember e :: done) false e'

theorem read_encode (cells : Cells) :
    Json.read (encode cells) = some (.object ((byKey cells).entries.map readMember)) := by
  rw [Json.read, scan_encode]
  cases (byKey cells).entries with
  | nil => rfl
  | cons e entries =>
    have opened : Json.step (.value, []) .openObject = some (.key [] true, []) := rfl
    simp only [List.cons_append, List.foldlM_cons, opened, Option.bind_eq_bind, Option.bind_some,
      steps_members]
    rfl

theorem entries?_encode (cells : Cells) : entries? (encode cells) = some (byKey cells) := by
  have members (entries : List (String × Cell)) :
      (entries.map readMember).mapM (m := Option) (fun m => return (← m.1, ← cellOf? m.2)) =
        some entries := by
    induction entries with
    | nil => rfl
    | cons e entries ih =>
      simp only [List.map_cons, List.mapM_cons, ih]
      rfl
  have bound : OrderedMap.ofList (byKey cells).entries = byKey cells :=
    OrderedMap.ext_entries (OrderedMap.entries_ofList (byKey cells).ascending)
  simp only [entries?, read_encode, Option.bind_eq_bind, Option.bind_some, Json.members?]
  simp only [Option.bind_eq_bind] at members
  rw [members, Option.bind_some, bound]
  rfl

/-- The written members are the cells under their keys. -/
theorem mem_byKey {key : String} {cell : Cell} : (key, cell) ∈ (byKey cells).entries ↔
    ∃ p, cells.get? p = some cell ∧ key = p.key := by
  have unique : ∀ a ∈ cells.entries.map (fun e => (e.1.key, e.2)),
      ∀ b ∈ cells.entries.map (fun e => (e.1.key, e.2)), a.1 = b.1 → a = b := by
    simp only [List.mem_map]
    rintro _ ⟨a, first, rfl⟩ _ ⟨b, second, rfl⟩ same
    have place : a.1 = b.1 := Position.key_injective same
    have found : cells.get? a.1 = some a.2 := OrderedMap.get?_eq_some_iff.mpr first
    rw [place, OrderedMap.get?_eq_some_iff.mpr second] at found
    exact Prod.ext same (Option.some.inj found).symm
  rw [← OrderedMap.get?_eq_some_iff, byKey, OrderedMap.get?_ofList_eq_some_iff unique,
    List.mem_map]
  constructor
  · rintro ⟨a, member, same⟩
    cases same
    exact ⟨a.1, OrderedMap.get?_eq_some_iff.mpr member, rfl⟩
  · rintro ⟨p, found, rfl⟩
    exact ⟨(p, cell), OrderedMap.get?_eq_some_iff.mp found, rfl⟩

/-- Every key leads back to its position. Nothing is skipped, and no two members meet. -/
theorem collect_byKey (cells : Cells) : collect (byKey cells) = ⟨cells, []⟩ := by
  have placed {p : Position} {cell : Cell} :
      (p, cell) ∈ (byKey cells).entries.filterMap
        (fun e => (Position.ofKey? e.1).map (·, e.2)) ↔ cells.get? p = some cell := by
    simp only [List.mem_filterMap, Option.map_eq_some_iff, Prod.mk.injEq]
    constructor
    · rintro ⟨e, member, q, read, rfl, rfl⟩
      obtain ⟨r, found, key⟩ := mem_byKey.mp member
      rw [key, Position.ofKey?_key] at read
      rwa [← Option.some.inj read]
    · intro found
      exact ⟨(p.key, cell), mem_byKey.mpr ⟨p, found, rfl⟩, p, Position.ofKey?_key p, rfl, rfl⟩
  -- Sorting by position needs no rule for conflicts, since no position is bound twice.
  have same : (collect (byKey cells)).cells = cells := by
    refine OrderedMap.ext_get? fun p => Option.ext fun cell => ?_
    rw [collect, OrderedMap.get?_ofList_eq_some_iff, placed]
    rintro ⟨p, cell⟩ first ⟨q, cell'⟩ second rfl
    rw [placed] at first second
    rw [first] at second
    rw [Option.some.inj second]
  have complete : (collect (byKey cells)).malformed = [] := by
    refine List.filter_eq_nil_iff.mpr fun key member => ?_
    obtain ⟨e, written, rfl⟩ := List.mem_map.mp member
    obtain ⟨p, _, key⟩ := mem_byKey.mp written
    simp [key, Position.ofKey?_key]
  exact congrArg₂ Content.mk same complete

/-- Every grid is read back from its text, cell by cell, and no key of it is skipped. -/
theorem decode_encode (cells : Cells) : decode (encode cells) = some ⟨cells, []⟩ := by
  rw [decode, entries?_encode, Option.map_some, collect_byKey]

end Worksheet.Slot
