/-! Texts character by character. Blank characters are those with the Unicode property White_Space.
Hexadecimal digits are of either case. Numerals of 64-bit words are non-empty runs of ASCII digits,
leading zeros allowed, whose value is below 2^64. -/
namespace Worksheet.Text

/-- The characters of White_Space, as closed ranges of code points. -/
def blankRanges : List (Nat × Nat) :=
  [(0x09, 0x0d), (0x20, 0x20), (0x85, 0x85), (0xa0, 0xa0), (0x1680, 0x1680), (0x2000, 0x200a),
    (0x2028, 0x2029), (0x202f, 0x202f), (0x205f, 0x205f), (0x3000, 0x3000)]

def isBlank (c : Char) : Bool := blankRanges.any fun r => r.1 ≤ c.toNat && c.toNat ≤ r.2

def trimStart (cs : List Char) : List Char := cs.dropWhile isBlank

def trimEnd (cs : List Char) : List Char := (cs.reverse.dropWhile isBlank).reverse

def trim (s : String) : String := .ofList (trimEnd (trimStart s.toList))

/-- Drops each occurrence of a non-empty part, from the left and without overlap. -/
def without (part cs : List Char) : List Char :=
  match cs with
  | [] => []
  | c :: rest =>
    if _h : part ≠ [] ∧ part.isPrefixOf (c :: rest) then without part ((c :: rest).drop part.length)
    else c :: without part rest
termination_by cs.length
decreasing_by
  · have : 0 < part.length := List.length_pos_iff.mpr _h.1
    simp; omega
  · simp

def occurrence? (part : List Char) : List Char → Option Nat
  | [] => if part.isEmpty then some 0 else none
  | c :: rest =>
    if part.isPrefixOf (c :: rest) then some 0 else (occurrence? part rest).map (· + 1)

def occursIn (part cs : List Char) : Bool := (occurrence? part cs).isSome

/-- The pieces of a text between the occurrences of a character. -/
def pieces (separator : Char) (s : String) : List String :=
  (s.toList.splitOn separator).map .ofList

/-- The runs of characters between blanks. -/
def words (cs : List Char) : List (List Char) := (cs.splitOnP isBlank).filter (· ≠ [])

/-- The parts of a text between the occurrences of a separator. The empty separator stands around
each character. -/
def parts (separator part cs : List Char) : List (List Char) :=
  match cs with
  | [] => if separator.isEmpty then [part, []] else [part]
  | c :: rest =>
    if separator.isEmpty then part :: parts separator [c] rest
    else if _h : separator.isPrefixOf (c :: rest) ∧ separator ≠ [] then
      part :: parts separator [] ((c :: rest).drop separator.length)
    else parts separator (part ++ [c]) rest
termination_by cs.length
decreasing_by
  · simp
  · have : 0 < separator.length := List.length_pos_iff.mpr _h.2
    simp; omega
  · simp

def hexDigit? (c : Char) : Option Nat :=
  if c.isDigit then some (c.toNat - '0'.toNat)
  else if 'a' ≤ c ∧ c ≤ 'f' then some (c.toNat - 'a'.toNat + 10)
  else if 'A' ≤ c ∧ c ≤ 'F' then some (c.toNat - 'A'.toNat + 10)
  else none

def hexadecimal? (digits : List Char) : Option Nat :=
  digits.foldlM (fun n c => (hexDigit? c).map (16 * n + ·)) 0

/-- The character with the given code, unless the code is a surrogate or too great. -/
def coded? (digits : List Char) : Option Char := do
  let code ← hexadecimal? digits
  if code.isValidChar then some (Char.ofNat code) else none

end Worksheet.Text

namespace Worksheet.Numeral

def limit : Nat := Nat.pow 2 64

def value (digits : List Char) : Nat := Nat.ofDigitChars 10 digits 0

def word? (digits : List Char) : Option UInt64 :=
  if digits ≠ [] ∧ digits.all Char.isDigit ∧ value digits < limit then
    some (.ofNat (value digits))
  else none

def signed? : List Char → Option UInt64
  | '+' :: digits => word? digits
  | digits => word? digits

def ofNat (n : Nat) : List Char := Nat.toDigits 10 n

theorem value_ofNat (n : Nat) : value (ofNat n) = n := Nat.ofDigitChars_ten_toDigits

theorem ofNat_ne_nil (n : Nat) : ofNat n ≠ [] := Nat.toDigits_ne_nil

theorem all_isDigit_ofNat (n : Nat) : (ofNat n).all Char.isDigit := by
  simp only [List.all_eq_true]
  exact fun _ h => Nat.isDigit_of_mem_toDigits (by decide) (by decide) h

theorem word?_ofNat (w : UInt64) : word? (ofNat w.toNat) = some w := by
  have bound : w.toNat < limit := w.toNat_lt
  simp [word?, value_ofNat, ofNat_ne_nil, all_isDigit_ofNat, bound]

theorem signed?_ofNat (w : UInt64) : signed? (ofNat w.toNat) = some w := by
  have digits := all_isDigit_ofNat w.toNat
  rw [← word?_ofNat w]
  unfold signed?
  split
  next plus =>
    rw [plus] at digits
    simp at digits
  next => rfl

end Worksheet.Numeral
