import Worksheet.Text

/-! JSON texts (RFC 8259). In a value, numbers keep their spelling, members keep their order and
their repetitions. A text is read token by token with a stack of the arrays and objects that are
still open, so nesting has no limit. Strings are written with short escapes where JSON has them,
four hexadecimal digits for the other controls, and every other character as it is. -/
namespace Worksheet

/-- A string literal is absent text when its escapes leave half of a surrogate pair alone. -/
inductive Json where
  | null
  | boolean (value : Bool)
  | number (spelling : String)
  | string (text : Option String)
  | array (items : List Json)
  | object (members : List (Option String × Json))
deriving Inhabited

namespace Json

def text? : Json → Option String
  | string text => text
  | _ => none

def members? : Json → Option (List (Option String × Json))
  | object members => some members
  | _ => none

end Json

end Worksheet

namespace Worksheet.Json

inductive Token where
  | openArray
  | closeArray
  | openObject
  | closeObject
  | comma
  | colon
  | null
  | boolean (value : Bool)
  | number (spelling : List Char)
  | string (text : Option (List Char))
deriving DecidableEq

namespace Token

def isBlank (c : Char) : Bool := c = ' ' || c = '\t' || c = '\n' || c = '\r'

def shortEscape? : Char → Option Nat
  | '"' => some '"'.toNat
  | '\\' => some '\\'.toNat
  | '/' => some '/'.toNat
  | 'b' => some 0x08
  | 'f' => some 0x0c
  | 'n' => some 0x0a
  | 'r' => some 0x0d
  | 't' => some 0x09
  | _ => none

def escape : List Char → Option (Nat × List Char)
  | 'u' :: a :: b :: c :: d :: rest => (Text.hexadecimal? [a, b, c, d]).map (·, rest)
  | c :: rest => (shortEscape? c).map (·, rest)
  | [] => none

theorem escape_length {cs rest : List Char} {unit : Nat} (h : escape cs = some (unit, rest)) :
    rest.length < cs.length := by
  unfold escape at h
  split at h
  · obtain ⟨_, _, e⟩ := Option.map_eq_some_iff.mp h
    cases e; simp; omega
  · obtain ⟨_, _, e⟩ := Option.map_eq_some_iff.mp h
    cases e; simp
  · simp at h

/-- Reads a literal behind its opening quote: code points and escaped units, then the rest. -/
def literal (cs : List Char) : Option (List Nat × List Char) :=
  match cs with
  | [] => none
  | c :: rest =>
    if c = '"' then some ([], rest)
    else if c = '\\' then
      match _h : escape rest with
      | some (unit, rest) => (literal rest).map fun r => (unit :: r.1, r.2)
      | none => none
    else if c < ' ' then none
    else (literal rest).map fun r => (c.toNat :: r.1, r.2)
termination_by cs.length
decreasing_by
  · have := escape_length _h; simp; omega
  · simp

theorem literal_length {cs rest : List Char} {units : List Nat}
    (h : literal cs = some (units, rest)) : rest.length < cs.length := by
  fun_induction literal cs generalizing units rest with
  | case1 => simp at h
  | case2 => cases h; simp
  | case3 tail unit tail' found _ ih =>
    obtain ⟨r, hr, e⟩ := Option.map_eq_some_iff.mp h
    cases e
    have := ih hr
    have := escape_length found
    simp; omega
  | case4 => simp at h
  | case5 => simp at h
  | case6 c tail _ _ _ ih =>
    obtain ⟨r, hr, e⟩ := Option.map_eq_some_iff.mp h
    cases e
    have := ih hr
    simp; omega

def isHighSurrogate (unit : Nat) : Bool := 0xd800 ≤ unit && unit < 0xdc00

def isLowSurrogate (unit : Nat) : Bool := 0xdc00 ≤ unit && unit < 0xe000

/-- Joins surrogate pairs; there is no text when a surrogate stands alone. -/
def characters? : List Nat → Option (List Char)
  | [] => some []
  | unit :: rest =>
    if isHighSurrogate unit then
      match rest with
      | low :: rest =>
        if isLowSurrogate low then
          (characters? rest).map
            (Char.ofNat (0x10000 + (unit - 0xd800) * 0x400 + (low - 0xdc00)) :: ·)
        else none
      | [] => none
    else if isLowSurrogate unit then none
    else (characters? rest).map (Char.ofNat unit :: ·)

def digits? (cs : List Char) : Option (List Char × List Char) :=
  match cs.takeWhile Char.isDigit with
  | [] => none
  | digits => some (digits, cs.dropWhile Char.isDigit)

def fraction? : List Char → Option (List Char × List Char)
  | '.' :: rest => (digits? rest).map fun r => ('.' :: r.1, r.2)
  | cs => some ([], cs)

def exponentDigits? : List Char → Option (List Char × List Char)
  | '+' :: rest => (digits? rest).map fun r => ('+' :: r.1, r.2)
  | '-' :: rest => (digits? rest).map fun r => ('-' :: r.1, r.2)
  | cs => digits? cs

def exponent? : List Char → Option (List Char × List Char)
  | c :: rest =>
    if c = 'e' ∨ c = 'E' then (exponentDigits? rest).map fun r => (c :: r.1, r.2)
    else some ([], c :: rest)
  | [] => some ([], [])

def magnitude? (cs : List Char) : Option (List Char × List Char) := do
  let (whole, rest) ← (digits? cs).filter fun r => r.1.head? ≠ some '0' || r.1.length = 1
  let (fraction, rest) ← fraction? rest
  let (exponent, rest) ← exponent? rest
  return (whole ++ fraction ++ exponent, rest)

def number? : List Char → Option (List Char × List Char)
  | '-' :: rest => (magnitude? rest).map fun r => ('-' :: r.1, r.2)
  | cs => magnitude? cs

theorem digits?_length {cs digits rest : List Char} (h : digits? cs = some (digits, rest)) :
    rest.length < cs.length := by
  unfold digits? at h
  have parts := congrArg List.length (List.takeWhile_append_dropWhile (p := Char.isDigit) (l := cs))
  split at h
  · simp at h
  next empty =>
    cases h
    rw [List.length_append] at parts
    have : (cs.takeWhile Char.isDigit).length ≠ 0 := by
      simpa using empty
    omega

theorem fraction?_length {cs digits rest : List Char} (h : fraction? cs = some (digits, rest)) :
    rest.length ≤ cs.length := by
  unfold fraction? at h
  split at h
  · obtain ⟨r, hr, e⟩ := Option.map_eq_some_iff.mp h
    cases e
    have := digits?_length hr
    simp; omega
  · cases h; simp

theorem exponentDigits?_length {cs digits rest : List Char}
    (h : exponentDigits? cs = some (digits, rest)) : rest.length ≤ cs.length := by
  unfold exponentDigits? at h
  split at h
  · obtain ⟨r, hr, e⟩ := Option.map_eq_some_iff.mp h
    cases e
    have := digits?_length hr
    simp; omega
  · obtain ⟨r, hr, e⟩ := Option.map_eq_some_iff.mp h
    cases e
    have := digits?_length hr
    simp; omega
  · exact Nat.le_of_lt (digits?_length h)

theorem exponent?_length {cs digits rest : List Char} (h : exponent? cs = some (digits, rest)) :
    rest.length ≤ cs.length := by
  unfold exponent? at h
  split at h
  · split at h
    · obtain ⟨r, hr, e⟩ := Option.map_eq_some_iff.mp h
      cases e
      have := exponentDigits?_length hr
      simp; omega
    · cases h; simp
  · cases h; simp

theorem magnitude?_length {cs spelling rest : List Char}
    (h : magnitude? cs = some (spelling, rest)) : rest.length < cs.length := by
  simp only [magnitude?, Option.bind_eq_bind, Option.bind_eq_some_iff, Prod.exists,
    Option.filter_eq_some_iff] at h
  obtain ⟨_, r, ⟨h₁, _⟩, _, r', h₂, _, r'', h₃, h₄⟩ := h
  cases h₄
  have := digits?_length h₁
  have := fraction?_length h₂
  have := exponent?_length h₃
  omega

theorem number?_length {cs spelling rest : List Char} (h : number? cs = some (spelling, rest)) :
    rest.length < cs.length := by
  unfold number? at h
  split at h
  · obtain ⟨r, hr, e⟩ := Option.map_eq_some_iff.mp h
    cases e
    have := magnitude?_length hr
    simp; omega
  · exact magnitude?_length h

def punctuation? : Char → Option Token
  | '[' => some openArray
  | ']' => some closeArray
  | '\x7b' => some openObject
  | '\x7d' => some closeObject
  | ',' => some comma
  | ':' => some colon
  | _ => none

def word? (word : List Char) : Option Token :=
  match String.ofList word with
  | "null" => some null
  | "true" => some (boolean true)
  | "false" => some (boolean false)
  | _ => none

def scan (cs : List Char) : Option (List Token) :=
  match cs with
  | [] => some []
  | c :: rest =>
    if isBlank c then scan rest
    else if c = '"' then
      match _h : literal rest with
      | some (units, rest) => (scan rest).map (string (characters? units) :: ·)
      | none => none
    else if c = '-' || c.isDigit then
      match _h : number? (c :: rest) with
      | some (spelling, rest) => (scan rest).map (number spelling :: ·)
      | none => none
    else if c.isAlpha then
      match word? (c :: rest.takeWhile Char.isAlpha) with
      | some token => (scan (rest.dropWhile Char.isAlpha)).map (token :: ·)
      | none => none
    else
      match punctuation? c with
      | some token => (scan rest).map (token :: ·)
      | none => none
termination_by cs.length
decreasing_by
  · simp
  · have := literal_length _h; simp; omega
  · exact number?_length _h
  · exact Nat.lt_succ_of_le (List.dropWhile_sublist Char.isAlpha).length_le
  · simp

end Token

/-- An open array with its items so far, or an open object with its members so far and the key of
the value being read. Both lists are in reverse. -/
inductive Open where
  | items (done : List Json)
  | member (done : List (Option String × Json)) (key : Option String)

inductive Expected where
  | value
  | firstItem
  | key (done : List (Option String × Json)) (mayClose : Bool)
  | colon (done : List (Option String × Json)) (key : Option String)
  | continuation (value : Json)

abbrev State := Expected × List Open

def start (stack : List Open) : Token → Option State
  | .openArray => some (.firstItem, .items [] :: stack)
  | .openObject => some (.key [] true, stack)
  | .null => some (.continuation .null, stack)
  | .boolean b => some (.continuation (.boolean b), stack)
  | .number spelling => some (.continuation (.number (.ofList spelling)), stack)
  | .string text => some (.continuation (.string (text.map .ofList)), stack)
  | _ => none

def step : State → Token → Option State
  | (.value, stack), token => start stack token
  | (.firstItem, stack), token =>
    match token, stack with
    | .closeArray, _ :: below => some (.continuation (.array []), below)
    | token, stack => start stack token
  | (.key done mayClose, stack), token =>
    match token with
    | .string text => some (.colon done (text.map .ofList), stack)
    | .closeObject => if mayClose then some (.continuation (.object []), stack) else none
    | _ => none
  | (.colon done key, stack), token =>
    if token = .colon then some (.value, .member done key :: stack) else none
  | (.continuation value, .items done :: below), token =>
    match token with
    | .comma => some (.value, .items (value :: done) :: below)
    | .closeArray => some (.continuation (.array (value :: done).reverse), below)
    | _ => none
  | (.continuation value, .member done key :: below), token =>
    match token with
    | .comma => some (.key ((key, value) :: done) false, below)
    | .closeObject => some (.continuation (.object ((key, value) :: done).reverse), below)
    | _ => none
  | (.continuation _, []), _ => none

def read (text : String) : Option Json := do
  let tokens ← Token.scan text.toList
  match ← tokens.foldlM step (.value, []) with
  | (.continuation value, []) => return value
  | _ => none

def writeChar (c : Char) : List Char :=
  match c with
  | '"' => ['\\', '"']
  | '\\' => ['\\', '\\']
  | '\x08' => ['\\', 'b']
  | '\x0c' => ['\\', 'f']
  | '\n' => ['\\', 'n']
  | '\r' => ['\\', 'r']
  | '\t' => ['\\', 't']
  | c =>
    if c < ' ' then
      ['\\', 'u', '0', '0', Nat.digitChar (c.toNat / 16), Nat.digitChar (c.toNat % 16)]
    else [c]

def writeText (s : String) : List Char := '"' :: s.toList.flatMap writeChar ++ ['"']

end Worksheet.Json
