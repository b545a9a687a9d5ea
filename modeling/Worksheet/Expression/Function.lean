import Worksheet.Expression.Grammar
import Worksheet.Expression.Value

/-! The functions of expressions, called by name or as methods of their first argument. Those in
capitals are the documented ones of the sheet. A text or a list of an expression has no place that
could be changed: functions that would change it there give what they take out of it, or nothing.

Letters change their case in ASCII only. Every function that is not listed here is unknown, and a
call of it fails. So there are no points in time, no blobs, ranges or object maps, no `parse_json`,
no fields of bits, and of the functions of lists neither those that call a function for each item,
such as `map`, `filter` and `reduce`, nor those that cut a list into parts or put items into it. -/
namespace Worksheet.Function

def orUnit (v : Option Value) : Value := v.getD .unit

/-- Lists of one kind of scalar values can be sorted. -/
def isSortable : List Value → Bool
  | [] | [_] => true
  | v :: rest => v.kind ≠ "array" && v.kind ≠ "Fn" && rest.all fun w => w.kind = v.kind

def onList? (name : String) (items : List Value) : Option Value :=
  match name with
  | "len" => some (.integer items.length)
  | "is_empty" => some (.truth items.isEmpty)
  | "pop" => some (orUnit items.getLast?)
  | "shift" => some (orUnit items.head?)
  | "clear" | "reverse" | "dedup" => some .unit
  | "sort" => if isSortable items then some .unit else none
  | _ => none

def onListAndInteger? (name : String) (items : List Value) (n : Int) : Option Value :=
  let place := Value.resolve? items.length n
  match name with
  | "get" | "remove" => some (orUnit (place.bind (items[·]?)))
  | "truncate" | "chop" => some .unit
  | _ => none

def onListAndValue? (name : String) (items : List Value) (v : Value) : Option Value :=
  match name, v with
  | "contains", v => (Value.place? v items).map fun place => .truth place.isSome
  | "index_of", v =>
    (Value.place? v items).map fun place => .integer ((place.map Int.ofNat).getD (-1))
  | "push", _ => some .unit
  | "append", .list _ => some .unit
  | _, .integer n => onListAndInteger? name items n
  | _, _ => none

def pi : Float := 3.141592653589793

def euler : Float := 2.718281828459045

def constant? : String → Option Float
  | "PI" => some pi
  | "E" => some euler
  | _ => none

def unary? : String → Option (Float → Float)
  | "ABS" | "abs" => some Float.abs
  | "SQRT" | "sqrt" => some Float.sqrt
  | "ROUND" | "round" => some Float.round
  | "FLOOR" | "floor" => some Float.floor
  | "CEIL" | "ceiling" => some Float.ceil
  | "int" => some Number.truncate
  | "fraction" => some fun x => x - Number.truncate x
  | "exp" => some Float.exp
  | "ln" => some Float.log
  | "log" => some Float.log10
  | "sin" => some Float.sin
  | "cos" => some Float.cos
  | "tan" => some Float.tan
  | "asin" => some Float.asin
  | "acos" => some Float.acos
  | "atan" => some Float.atan
  | "sinh" => some Float.sinh
  | "cosh" => some Float.cosh
  | "tanh" => some Float.tanh
  | "asinh" => some Float.asinh
  | "acosh" => some Float.acosh
  | "atanh" => some Float.atanh
  | "to_degrees" => some fun x => x * (180 / pi)
  | "to_radians" => some fun x => x * (pi / 180)
  | "to_float" => some id
  | _ => none

/-- The functions of two numbers that take integers beside floats. -/
def mixed? : String → Option (Float → Float → Float)
  | "min" => some fun x y => if x ≤ y then x else y
  | "max" => some fun x y => if x ≥ y then x else y
  | _ => none

def binary? : String → Option (Float → Float → Float)
  | "ROUND" => some Number.roundTo
  | "MIN" => some Number.least
  | "MAX" => some Number.greatest
  | "AVG" => some fun x y => (x + y) / 2
  | "POW" => some Float.pow
  | "MOD" => some Number.modulo
  | "log" => some fun x base => x.log / base.log
  | "atan" => some Float.atan2
  | "hypot" => some fun x y => (x * x + y * y).sqrt
  | name => mixed? name

def predicate? : String → Option (Float → Bool)
  | "is_nan" => some Float.isNaN
  | "is_finite" => some Float.isFinite
  | "is_infinite" => some Float.isInf
  | "is_zero" => some (· == 0)
  | _ => none

def sign? (x : Float) : Option Value :=
  if x.isNaN then none else some (.integer (if x > 0 then 1 else if x < 0 then -1 else 0))

/-- The integer part, if it is a 64-bit integer; the least integer above those is cut to the
greatest one, and NaN becomes zero. -/
def toInteger? (x : Float) : Option Value :=
  let limit : Float := .ofBits 0x43e0000000000000
  if x > limit ∨ x < -limit then none else some (.integer x.toInt64.toInt)

def onFloat? (name : String) (x : Float) : Option Value :=
  match unary? name, predicate? name, name with
  | some f, _, _ => some (.number (f x))
  | none, some p, _ => some (.truth (p x))
  | none, none, "sign" => sign? x
  | none, none, "to_int" => toInteger? x
  | none, none, "sleep" => some .unit
  | none, none, _ => none

def digits (base : Nat) (n : Int) : Value :=
  .text (.ofList (Nat.toDigits base (Int64.ofInt n).toUInt64.toNat))

def onInteger? (name : String) (n : Int) : Option Value :=
  match name with
  | "abs" => Value.integer? n.natAbs
  | "sign" => some (.integer n.sign)
  | "is_zero" => some (.truth (n = 0))
  | "is_odd" => some (.truth (n % 2 = 1))
  | "is_even" => some (.truth (n % 2 = 0))
  | "to_int" => some (.integer n)
  | "sleep" => some .unit
  | "to_float" => some (.number (.ofInt n))
  | "to_hex" => some (digits 16 n)
  | "to_octal" => some (digits 8 n)
  | "to_binary" => some (digits 2 n)
  | _ => none

def onIntegers? (name : String) (n m : Int) : Option Value :=
  match name with
  | "min" => some (.integer (min n m))
  | "max" => some (.integer (max n m))
  | _ => none

def onNumbers? (name : String) : Value → Value → Option Value
  | .number x, .number y => (binary? name).map fun f => .number (f x y)
  | .number x, .integer m => (mixed? name).map fun f => .number (f x (.ofInt m))
  | .integer n, .number y => (mixed? name).map fun f => .number (f (.ofInt n) y)
  | .integer n, .integer m => onIntegers? name n m
  | _, _ => none

def characters (cs : List Char) : Value := .text (.ofList cs)

def texts (parts : List (List Char)) : Value := .list (parts.map characters)

def placeOf (place : Option Nat) : Value := .integer ((place.map Int.ofNat).getD (-1))

def digit? (c : Char) : Option Nat :=
  if c.isDigit then some (c.toNat - '0'.toNat)
  else if c.isAlpha then some (c.toLower.toNat - 'a'.toNat + 10)
  else none

def readDigits? (base : Nat) (digits : List Char) : Option Nat :=
  if digits.isEmpty then none
  else digits.foldlM (fun n c => ((digit? c).filter (· < base)).map (base * n + ·)) 0

def readInteger? (base : Nat) (s : String) : Option Value := do
  let (positive, digits) := match (Text.trim s).toList with
    | '-' :: digits => (false, digits)
    | '+' :: digits => (true, digits)
    | digits => (true, digits)
  let n ← readDigits? base digits
  Value.integer? (if positive then n else -n)

def magnitude? (cs : List Char) : Option Float :=
  match String.ofList (cs.map Char.toLower) with
  | "inf" | "infinity" => some (1 / 0)
  | "nan" => some Number.nan
  | _ =>
    let (literal, rest) := Formula.Literal.split cs
    if Formula.Literal.starts cs && rest.isEmpty then some (Number.ofDecimal literal.decimal)
    else none

def readFloat? (s : String) : Option Value :=
  match (Text.trim s).toList with
  | '-' :: cs => (magnitude? cs).map fun x => .number (-x)
  | '+' :: cs => (magnitude? cs).map .number
  | cs => (magnitude? cs).map .number

/-- The place where a part starts; a negative one counts from the end. -/
def startOf (length : Nat) (start : Int) : Nat :=
  (if start < 0 then length + start else start).toNat

def middle (cs : List Char) (start length : Int) : List Char :=
  (cs.drop (startOf cs.length start)).take length.toNat

def onText? (name s : String) : Option Value :=
  match name with
  | "len" => some (.integer s.length)
  | "bytes" => some (.integer s.utf8ByteSize)
  | "is_empty" => some (.truth s.isEmpty)
  | "to_upper" => some (.text s.toUpper)
  | "to_lower" => some (.text s.toLower)
  | "to_chars" => some (.list (s.toList.map .character))
  | "split" => some (texts (Text.words s.toList))
  | "parse_int" => readInteger? 10 s
  | "parse_float" => readFloat? s
  | "pop" => some ((s.toList.getLast?.map .character).getD .unit)
  | "trim" | "clear" | "make_upper" | "make_lower" => some .unit
  | _ => none

def onTexts? (name s t : String) : Option Value :=
  match name with
  | "contains" => some (.truth (Text.occursIn t.toList s.toList))
  | "starts_with" => some (.truth (t.toList.isPrefixOf s.toList))
  | "ends_with" => some (.truth (t.toList.isSuffixOf s.toList))
  | "index_of" =>
    some (placeOf (if s.isEmpty then none else Text.occurrence? t.toList s.toList))
  | "split" => some (texts (Text.parts t.toList [] s.toList))
  | "min" => some (.text (if t < s then t else s))
  | "max" => some (.text (if s < t then t else s))
  | "remove" | "append" => some .unit
  | _ => none

def onTextAndCharacter? (name s : String) (c : Char) : Option Value :=
  match name with
  | "contains" | "index_of" | "split" | "remove" | "append" => onTexts? name s (.singleton c)
  | _ => none

def onTextAndInteger? (name s : String) (n : Int) : Option Value :=
  let cs := s.toList
  match name with
  | "get" => some (((Value.resolve? cs.length n).bind (cs[·]?)).elim .unit .character)
  | "sub_string" => some (characters (middle cs n cs.length))
  | "pop" => some (characters (if n ≤ 0 then [] else cs.drop (startOf cs.length (-n))))
  | "split" =>
    let left := startOf cs.length n
    some (texts [cs.take left, cs.drop left])
  | "parse_int" => if 2 ≤ n ∧ n ≤ 36 then readInteger? n.toNat s else none
  | "crop" | "truncate" => some .unit
  | _ => none

def onCharacter? (name : String) (c : Char) : Option Value :=
  match name with
  | "to_int" => some (.integer c.toNat)
  | "to_upper" => some (.character c.toUpper)
  | "to_lower" => some (.character c.toLower)
  | "make_upper" | "make_lower" => some .unit
  | _ => none

def onCharacters? (name : String) (c d : Char) : Option Value :=
  match name with
  | "min" => some (.character (if d < c then d else c))
  | "max" => some (.character (if c < d then d else c))
  | _ => none

end Worksheet.Function

namespace Worksheet

/-- Why an evaluation ends before its end: it fails, or it leaves with a value. -/
inductive Interruption where
  | failure
  | exit (value : Value)

abbrev Evaluation := Except Interruption Value

def Interruption.demand {α : Type} (result : Option α) : Except Interruption α :=
  result.elim (.error .failure) .ok

namespace Function

structure Description where
  name : String
  signature : String
  description : String
deriving DecidableEq

def documented : List Description :=
  [⟨"ABS", "ABS(x)", "Absolute value"⟩,
    ⟨"SQRT", "SQRT(x)", "Square root (negative input is an error)"⟩,
    ⟨"ROUND", "ROUND(x) / ROUND(x, digits)",
      "Round half away from zero, optionally to a number of decimal digits"⟩,
    ⟨"FLOOR", "FLOOR(x)", "Largest integer not above x"⟩,
    ⟨"CEIL", "CEIL(x)", "Smallest integer not below x"⟩,
    ⟨"MIN", "MIN(a, b)", "Smaller of two values"⟩,
    ⟨"MAX", "MAX(a, b)", "Larger of two values"⟩,
    ⟨"AVG", "AVG(a, b)", "Mean of two values"⟩,
    ⟨"POW", "POW(a, b)", "a raised to the power b (same as a ^ b)"⟩,
    ⟨"MOD", "MOD(a, b)", "Remainder with the sign of the divisor"⟩,
    ⟨"PI", "PI()", "The constant pi"⟩]

/-- Functions of any value. Printing gives nothing, and no value has a tag. -/
def onAny? (name : String) (v : Value) : Option Value :=
  match name with
  | "print" | "debug" => some .unit
  | "to_string" => some (.text v.printed)
  | "to_debug" => some (.text v.written)
  | "take" => some v
  | "tag" => some (.integer 0)
  | _ => none

def onPointer? (name function : String) : Option Value :=
  match name with
  | "name" => some (.text function)
  | "is_anonymous" => some (.truth false)
  | _ => none

/-- A tag is a 32-bit word. -/
def setTag? (tag : Int) : Option Value :=
  if Int32.minValue.toInt ≤ tag ∧ tag ≤ Int32.maxValue.toInt then some .unit else none

def onOne? (name : String) : Value → Option Value
  | .number x => onFloat? name x
  | .integer n => onInteger? name n
  | .character c => onCharacter? name c
  | .text s => onText? name s
  | .list items => onList? name items
  | .pointer function _ => onPointer? name function
  | .truth _ | .unit => none

def onTwo? (name : String) : Value → Value → Option Value
  | .text s, .text t => onTexts? name s t
  | .text s, .character c => onTextAndCharacter? name s c
  | .text s, .integer n => onTextAndInteger? name s n
  | .character c, .character d => onCharacters? name c d
  | .list items, v => onListAndValue? name items v
  | a, b => onNumbers? name a b

def onThree? (name : String) : Value → Value → Value → Option Value
  | .text s, .integer start, .integer length =>
    match name with
    | "sub_string" => some (characters (middle s.toList start length))
    | "crop" => some .unit
    | _ => none
  | .text _, .text _, .text _ => if name = "replace" then some .unit else none
  | _, _, _ => none

def result? (name : String) : List Value → Option Value
  | [] =>
    if name = "print" ∨ name = "debug" then some .unit else (constant? name).map .number
  | [v] => onAny? name v <|> onOne? name v
  | [a, .integer tag] => if name = "set_tag" then setTag? tag else onTwo? name a (.integer tag)
  | [a, b] => onTwo? name a b
  | [a, b, c] => onThree? name a b c
  | _ => none

def isProperty (name : String) : Bool :=
  ["tag", "len", "bytes", "is_empty", "is_zero", "is_odd", "is_even", "is_nan", "is_finite",
    "is_infinite", "floor", "ceiling", "round", "int", "fraction", "name",
    "is_anonymous"].contains name

def property? (name : String) (v : Value) : Option Value :=
  if isProperty name then result? name [v] else none

/-- A name that a pointer may have. -/
def isPointable (name : String) : Bool :=
  Grammar.isName name && name.toList.all Formula.isNameChar && name ≠ "true" && name ≠ "false"

/-- Calls a function that is no part of the language itself. -/
def apply (name : String) (arguments : List Value) : Evaluation :=
  match name, arguments with
  | "exit", [] => .error (.exit .unit)
  | "exit", [v] => .error (.exit v)
  | name, arguments => Interruption.demand (result? name arguments)

/-- There are neither variables nor functions that an expression defines. -/
def call (name : String) (arguments : List Value) : Evaluation :=
  match name, arguments with
  | "type_of", [v] => .ok (.text v.kind)
  | "is_shared", [_] => .ok (.truth false)
  | "is_def_var", [.text _] => .ok (.truth false)
  | "is_def_fn", [.text _, .integer _] => .ok (.truth false)
  | "is_def_fn", [.text _, .text _, .integer _] => .ok (.truth false)
  | "Fn", [.text s] => if isPointable s then .ok (.pointer s []) else .error .failure
  | "curry", .pointer function bound :: v :: rest => .ok (.pointer function (bound ++ v :: rest))
  | "call", .pointer function bound :: rest => apply function (bound ++ rest)
  | name, arguments => apply name arguments

/-- Calls a function as a method. A pointer may be called with the subject as its first argument. -/
def callMethod (subject : Value) (name : String) (arguments : List Value) : Evaluation :=
  match name, subject, arguments with
  | "curry", .pointer function bound, rest => .ok (.pointer function (bound ++ rest))
  | "call", .pointer function bound, rest => apply function (bound ++ rest)
  | "call", subject, .pointer function bound :: rest => apply function (subject :: bound ++ rest)
  | name, subject, arguments => call name (subject :: arguments)

end Function

end Worksheet
