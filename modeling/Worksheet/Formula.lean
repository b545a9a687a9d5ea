/-! Formulas as texts. Two readers share their string literals and names, and only ASCII letters
and digits make names and numbers.

The first splits an expression into lexemes. A number literal is digits with an optional fraction
and an optional exponent, or a fraction alone; an exponent without digits is not part of it. The
lexemes are what an expression is parsed from, and its normal form is made of them: joined by single
spaces, with every number a float literal and every caret the power operator.

The second looks for references. A name that is capital letters and then digits is a reference,
whether or not a grid has such a cell; string literals and all other names are text. To it a number
ends before the first letter, so a name may follow it directly. -/
namespace Worksheet.Formula

def isNameStart (c : Char) : Bool := c.isAlpha || c = '_'

def isNameChar (c : Char) : Bool := c.isAlphanum || c = '_'

/-- Splits what stands behind an opening quote after the closing one. A backslash takes the next
character with it, and a literal that nothing closes runs to the end. -/
def quoted : List Char → List Char × List Char
  | [] => ([], [])
  | '"' :: rest => (['"'], rest)
  | '\\' :: c :: rest => ('\\' :: c :: (quoted rest).1, (quoted rest).2)
  | c :: rest => (c :: (quoted rest).1, (quoted rest).2)

theorem quoted_append (cs : List Char) : (quoted cs).1 ++ (quoted cs).2 = cs := by
  fun_induction quoted cs <;> simp_all

theorem quoted_length (cs : List Char) : (quoted cs).2.length ≤ cs.length := by
  have := congrArg List.length (quoted_append cs)
  rw [List.length_append] at this
  omega

theorem dropWhile_length (p : Char → Bool) (cs : List Char) :
    (cs.dropWhile p).length ≤ cs.length := (List.dropWhile_sublist p).length_le

/-- The fraction is absent where no point stands. The exponent includes its letter and sign. -/
structure Literal where
  whole : List Char
  fraction : Option (List Char)
  exponent : List Char
deriving DecidableEq

namespace Literal

def source (l : Literal) : List Char :=
  l.whole ++ (l.fraction.map ('.' :: ·)).getD [] ++ l.exponent

def orZero (digits : List Char) : List Char := if digits.isEmpty then ['0'] else digits

/-- Digits on both sides of a point, so that the literal is always a float. -/
def normal (l : Literal) : List Char :=
  orZero l.whole ++ '.' :: orZero (l.fraction.getD []) ++ l.exponent

def startsDigit (cs : List Char) : Bool := cs.head?.any Char.isDigit

def isSign (c : Char) : Bool := c = '+' || c = '-'

def splitFraction : List Char → Option (List Char) × List Char
  | '.' :: rest => (some (rest.takeWhile Char.isDigit), rest.dropWhile Char.isDigit)
  | cs => (none, cs)

def splitExponent : List Char → List Char × List Char
  | [] => ([], [])
  | e :: rest =>
    if e = 'e' ∨ e = 'E' then
      match rest with
      | [] => ([], [e])
      | sign :: digits =>
        if isSign sign && startsDigit digits then
          (e :: sign :: digits.takeWhile Char.isDigit, digits.dropWhile Char.isDigit)
        else if sign.isDigit then
          (e :: rest.takeWhile Char.isDigit, rest.dropWhile Char.isDigit)
        else ([], e :: rest)
    else ([], e :: rest)

def starts : List Char → Bool
  | c :: rest => c.isDigit || c = '.' && startsDigit rest
  | [] => false

def split (cs : List Char) : Literal × List Char :=
  let (fraction, rest) := splitFraction (cs.dropWhile Char.isDigit)
  let (exponent, rest) := splitExponent rest
  (⟨cs.takeWhile Char.isDigit, fraction, exponent⟩, rest)

theorem splitFraction_append (cs : List Char) :
    ((splitFraction cs).1.map ('.' :: ·)).getD [] ++ (splitFraction cs).2 = cs := by
  unfold splitFraction
  split <;> simp

theorem splitExponent_append (cs : List Char) :
    (splitExponent cs).1 ++ (splitExponent cs).2 = cs := by
  unfold splitExponent
  repeat' split
  all_goals simp

theorem split_append (cs : List Char) : (split cs).1.source ++ (split cs).2 = cs := by
  simp [split, source, splitExponent_append, splitFraction_append]

theorem split_length {cs : List Char} (h : starts cs) : (split cs).2.length < cs.length := by
  have whole := congrArg List.length (split_append cs)
  suffices 0 < (split cs).1.source.length by
    rw [List.length_append] at whole
    omega
  match cs with
  | c :: rest =>
    simp only [starts, Bool.or_eq_true, Bool.and_eq_true, decide_eq_true_eq] at h
    rcases h with h | ⟨rfl, _⟩
    · simp [split, source, h]
    · simp [split, source, splitFraction]

end Literal

inductive Lexeme where
  | quoted (text : List Char)
  | number (literal : Literal)
  | name (text : List Char)
  | operator (text : List Char)
deriving DecidableEq

namespace Lexeme

def isBlank (c : Char) : Bool := c = ' ' || c = '\t' || c = '\n' || c = '\x0c' || c = '\r'

def doubleOperators : List (List Char) :=
  [['*', '*'], ['<', '='], ['>', '='], ['=', '='], ['!', '='], ['&', '&'], ['|', '|']]

def scan (cs : List Char) : List Lexeme :=
  match cs with
  | [] => []
  | c :: rest =>
    if isBlank c then scan rest
    else if c = '"' then .quoted ('"' :: (Formula.quoted rest).1) :: scan (Formula.quoted rest).2
    else if _h : Literal.starts (c :: rest) then
      .number (Literal.split (c :: rest)).1 :: scan (Literal.split (c :: rest)).2
    else if isNameStart c then
      .name (c :: rest.takeWhile isNameChar) :: scan (rest.dropWhile isNameChar)
    else if c = '^' then .operator ['*', '*'] :: scan rest
    else
      match rest with
      | d :: tail =>
        if [c, d] ∈ doubleOperators then .operator [c, d] :: scan tail
        else .operator [c] :: scan (d :: tail)
      | [] => [.operator [c]]
termination_by cs.length
decreasing_by
  · simp
  · exact Nat.lt_succ_of_le (quoted_length rest)
  · exact Literal.split_length _h
  · exact Nat.lt_succ_of_le (dropWhile_length isNameChar rest)
  · simp
  · rw [List.length_cons, List.length_cons]
    omega
  · simp

def text : Lexeme → List Char
  | quoted text => text
  | number literal => literal.normal
  | name text => text
  | operator text => text

end Lexeme

def normalize (expression : String) : String :=
  .ofList ([' '].intercalate ((Lexeme.scan expression.toList).map Lexeme.text))

inductive Run where
  | quoted (text : List Char)
  | digits (text : List Char)
  | name (text : List Char)
  | other (c : Char)
deriving DecidableEq

namespace Run

def text : Run → List Char
  | quoted text => text
  | digits text => text
  | name text => text
  | other c => [c]

def isNumberChar (c : Char) : Bool := c.isDigit || c = '.'

def scan (cs : List Char) : List Run :=
  match cs with
  | [] => []
  | c :: rest =>
    if c = '"' then .quoted ('"' :: (Formula.quoted rest).1) :: scan (Formula.quoted rest).2
    else if c.isDigit then
      .digits (c :: rest.takeWhile isNumberChar) :: scan (rest.dropWhile isNumberChar)
    else if isNameStart c then
      .name (c :: rest.takeWhile isNameChar) :: scan (rest.dropWhile isNameChar)
    else .other c :: scan rest
termination_by cs.length
decreasing_by
  · exact Nat.lt_succ_of_le (quoted_length rest)
  · exact Nat.lt_succ_of_le (dropWhile_length isNumberChar rest)
  · exact Nat.lt_succ_of_le (dropWhile_length isNameChar rest)
  · simp

def isReference : Run → Bool
  | name text =>
    let number := text.dropWhile Char.isUpper
    text.head?.any Char.isUpper && !number.isEmpty && number.all Char.isDigit
  | _ => false

end Run

/-- A reference knows the number of UTF-8 bytes before it. -/
inductive Piece where
  | text (text : List Char)
  | reference (label : List Char) (offset : Nat)
deriving DecidableEq

namespace Piece

def source : Piece → List Char
  | text cs => cs
  | reference label _ => label

def utf8Size : List Char → Nat
  | [] => 0
  | c :: rest => c.utf8Size + utf8Size rest

/-- Puts text in front, joined to the text that already stands there. -/
def prepend (front : List Char) : List Piece → List Piece
  | text cs :: pieces => text (front ++ cs) :: pieces
  | pieces => text front :: pieces

def assemble (offset : Nat) : List Run → List Piece
  | [] => []
  | run :: runs =>
    let rest := assemble (offset + utf8Size run.text) runs
    if run.isReference then reference run.text offset :: rest else prepend run.text rest

def label? : Piece → Option String
  | reference label _ => some (.ofList label)
  | text _ => none

def fill {m : Type → Type} [Monad m] (value : String → m String) : Piece → m String
  | text cs => pure (.ofList cs)
  | reference label _ => value (.ofList label)

end Piece

def pieces (expression : String) : List Piece := Piece.assemble 0 (Run.scan expression.toList)

/-- The labels of all references in order, repetitions kept. -/
def references (expression : String) : List String := (pieces expression).filterMap Piece.label?

/-- Asks for the value of each reference in turn and puts it in the reference's place. -/
def substituteM {m : Type → Type} [Monad m] (value : String → m String) (expression : String) :
    m String := do
  return String.join (← (pieces expression).mapM (Piece.fill value))

def substitute (value : String → String) (expression : String) : String :=
  Id.run (substituteM (fun label => pure (value label)) expression)

end Worksheet.Formula
