import Worksheet.Number
import Worksheet.Text
import Worksheet.Text.Quoted

/-! Values of expressions, the texts that stand for them, and the operators on them. A failure has
no cause that a cell shows, so operators are partial functions. -/
namespace Worksheet

inductive Value where
  | number (value : Float)
  | integer (value : Int)
  | truth (value : Bool)
  | character (value : Char)
  | text (value : String)
  | list (items : List Value)
  /-- A function by name, with its first arguments. -/
  | pointer (function : String) (bound : List Value)
  | unit

namespace Value

/-- Integers are 64-bit words; a result that does not fit is a failure. -/
def integer? (n : Int) : Option Value :=
  if Int64.minValue.toInt ≤ n ∧ n ≤ Int64.maxValue.toInt then some (.integer n) else none

def kind : Value → String
  | number _ => "f64"
  | integer _ => "i64"
  | truth _ => "bool"
  | character _ => "char"
  | text _ => "string"
  | list _ => "array"
  | pointer _ _ => "Fn"
  | unit => "()"

def displayTruth (b : Bool) : String := if b then "true" else "false"

/-- The display in a cell. Lists, pointers and the unit value have none. -/
def display? : Value → Option String
  | number x => some (Number.display x)
  | integer n => some (toString n)
  | truth b => some (displayTruth b)
  | character c => some (.singleton c)
  | text s => some s
  | list _ | pointer _ _ | unit => none

mutual

/-- A value as it is written in a list. -/
def written : Value → String
  | number x => Number.LiteralForm.inside.write x
  | integer n => toString n
  | truth b => displayTruth b
  | character c => Text.quotedChar c
  | text s => Text.quoted s
  | list items => "[" ++ ", ".intercalate (writtenItems items) ++ "]"
  | pointer function _ => "Fn(" ++ function ++ ")"
  | unit => "()"

def writtenItems : List Value → List String
  | [] => []
  | v :: rest => written v :: writtenItems rest

end

/-- A value as a text of its own. -/
def printed : Value → String
  | number x => Number.LiteralForm.alone.write x
  | character c => .singleton c
  | text s => s
  | unit => ""
  | v => v.written

/-- What a value adds to a text that it is joined to: numbers add their display. -/
def joined : Value → String
  | number x => Number.display x
  | v => v.printed

def float? : Value → Option Float
  | number x => some x
  | integer n => some (.ofInt n)
  | _ => none

def truth? : Value → Option Bool
  | truth b => some b
  | _ => none

end Value

inductive Comparison where
  | equal
  | unequal
  | less
  | atMost
  | greater
  | atLeast
deriving DecidableEq

namespace Comparison

def ofOrdering : Comparison → Ordering → Bool
  | equal, o => o = .eq
  | unequal, o => o ≠ .eq
  | less, o => o = .lt
  | atMost, o => o ≠ .gt
  | greater, o => o = .gt
  | atLeast, o => o ≠ .lt

/-- The step from one to the next float. -/
def tolerance : Float := .ofBits 0x3cb0000000000000

/-- The difference of two floats relative to the greater of them, unless their product is zero.
There is none between zero and NaN. -/
def difference (x y : Float) : Float :=
  let scale := if x * y == 0 then 1 else Number.greatest x.abs y.abs
  if scale == 0 then 0 else (x - y) / scale

/-- Floats count as equal when their difference is within the tolerance. Nothing holds of a
difference that is not a number. -/
def floats (c : Comparison) (x y : Float) : Bool :=
  let d := difference x y
  match c with
  | equal => d.abs ≤ tolerance
  | unequal => d.abs > tolerance
  | less => -d > tolerance
  | atMost => -d > -tolerance
  | greater => d > tolerance
  | atLeast => d > -tolerance

def texts (c : Comparison) (s t : String) : Bool := c.ofOrdering (compareOfLessAndEq s t)

end Comparison

namespace Value

/-- Compares values that are no lists. A character is the text of it; values of different kinds are
unequal, and no other comparison of them holds. -/
def compareScalar? (c : Comparison) : Value → Value → Option Bool
  | number x, number y => some (c.floats x y)
  | number x, integer n => some (c.floats x (.ofInt n))
  | integer n, number y => some (c.floats (.ofInt n) y)
  | integer n, integer m => some (c.ofOrdering (compareOfLessAndEq n m))
  | truth a, truth b => some (c.ofOrdering (compareOfLessAndEq a.toNat b.toNat))
  | text s, text t => some (c.texts s t)
  | text s, character t => some (c.texts s (.singleton t))
  | character s, text t => some (c.texts (.singleton s) t)
  | character s, character t => some (c.texts (.singleton s) (.singleton t))
  | unit, unit => some (c = .equal)
  | list _, list _ | pointer _ _, pointer _ _ => none
  | _, _ => some (c = .unequal)

mutual

def equal? : Value → Value → Option Bool
  | list items, list others => equalItems? items others
  | a, b => compareScalar? .equal a b

def equalItems? : List Value → List Value → Option Bool
  | [], [] => some true
  | a :: rest, b :: others =>
    if rest.length = others.length then
      match equal? a b with
      | some true => equalItems? rest others
      | result => result
    else some false
  | _, _ => some false

end

def compare? (c : Comparison) (a b : Value) : Option Bool :=
  match c with
  | .equal => equal? a b
  | .unequal =>
    match a, b with
    | list items, list others => (equalItems? items others).map (!·)
    | a, b => compareScalar? .unequal a b
  | c => compareScalar? c a b

def place? (value : Value) : List Value → Option (Option Nat)
  | [] => some none
  | item :: rest =>
    match equal? item value with
    | some true => some (some 0)
    | some false => (place? value rest).map (·.map (· + 1))
    | none => none

end Value

end Worksheet

namespace Worksheet.Value

/-- Joins texts with values, and lists with lists; numbers are summed. -/
def add? : Value → Value → Option Value
  | integer n, integer m => integer? (n + m)
  | text s, b => some (.text (s ++ b.joined))
  | a, text t => some (.text (a.joined ++ t))
  | character s, character t => some (.text (.ofList [s, t]))
  | list items, list others => some (.list (items ++ others))
  | a, b => return .number ((← a.float?) + (← b.float?))

/-- A text is removed from another one. From the empty text nothing can be removed, and the result
is the other one. -/
def subtract? : Value → Value → Option Value
  | integer n, integer m => integer? (n - m)
  | text s, text t =>
    some (.text (if s.isEmpty then t else .ofList (Text.without t.toList s.toList)))
  | text s, character c => some (.text (.ofList (Text.without [c] s.toList)))
  | a, b => return .number ((← a.float?) - (← b.float?))

def multiply? : Value → Value → Option Value
  | integer n, integer m => integer? (n * m)
  | a, b => return .number ((← a.float?) * (← b.float?))

def divide? : Value → Value → Option Value
  | integer n, integer m => if m = 0 then none else integer? (n.tdiv m)
  | a, b => return .number ((← a.float?) / (← b.float?))

/-- The least integer has no remainder by -1, because the quotient does not fit. -/
def remainder? : Value → Value → Option Value
  | integer n, integer m =>
    if m = 0 then none else (integer? (n.tdiv m)).map fun _ => .integer (n.tmod m)
  | a, b => return .number (Number.remainder (← a.float?) (← b.float?))

def greatestExponent : Int := 4294967295

/-- Integer powers beyond the exponent 63 overflow unless the base is 0, 1 or -1. -/
def integerPower? (n m : Int) : Option Value :=
  if m < 0 ∨ greatestExponent < m then none
  else if n.natAbs ≤ 1 then integer? (Int.pow n (if m = 0 then 0 else 2 - m.toNat % 2))
  else if 63 < m then none
  else integer? (Int.pow n m.toNat)

def power? : Value → Value → Option Value
  | integer n, integer m => integerPower? n m
  | a, b => return .number ((← a.float?).pow (← b.float?))

/-- Whether a text occurs in a text, or a value in a list. -/
def contained? : Value → Value → Option Bool
  | text part, text whole => some (Text.occursIn part.toList whole.toList)
  | character c, text whole => some (whole.toList.contains c)
  | item, list items => (place? item items).map Option.isSome
  | _, _ => none

def negate? : Value → Option Value
  | number x => some (.number (-x))
  | integer n => integer? (-n)
  | _ => none

def keep? : Value → Option Value
  | number x => some (.number x)
  | integer n => some (.integer n)
  | _ => none

def not? : Value → Option Value
  | truth b => some (.truth !b)
  | _ => none

def or? : Value → Value → Option Value
  | truth a, truth b => some (.truth (a || b))
  | integer n, integer m => some (.integer (Int64.ofInt n ||| Int64.ofInt m).toInt)
  | _, _ => none

def and? : Value → Value → Option Value
  | truth a, truth b => some (.truth (a && b))
  | integer n, integer m => some (.integer (Int64.ofInt n &&& Int64.ofInt m).toInt)
  | _, _ => none

/-- The place that an index names among `length` places. A negative one counts from the end. -/
def resolve? (length : Nat) (index : Int) : Option Nat :=
  let place := if index < 0 then length + index else index
  if 0 ≤ place ∧ place < length then some place.toNat else none

/-- The item of a list, the character of a text or the bit of an integer at an index. -/
def item? : Value → Value → Option Value
  | list items, integer i => (resolve? items.length i).bind (items[·]?)
  | text s, integer i => ((resolve? s.length i).bind (s.toList[·]?)).map .character
  | integer n, integer i =>
    (resolve? 64 i).map fun bit => .truth ((Int64.ofInt n).toUInt64.toNat.testBit bit)
  | _, _ => none

end Worksheet.Value
