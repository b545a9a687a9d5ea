import Worksheet.Formula

/-! Binary64 numbers taken apart, and rounding to them in exact arithmetic. The rank of a
non-negative number is its bit pattern: `significand · 2 ^ exponent` has rank
`(exponent + 1074) · 2 ^ 52 + significand`, for subnormal and normal numbers alike, and infinity
comes right after the largest finite number.

A number is shown by decimals `coefficient · 10 ^ exponent`: integers below 10 ^ 15 in full, every
other number by the fewest digits that read back as it, never with an exponent. As a number literal
it always has a point, and an exponent where it is very large or very small. -/
namespace Worksheet.Number

/-- `base ^ exponent`, or one when the exponent is negative. A power with any exponent is the
fraction `wholePower base exponent / wholePower base (-exponent)`. -/
def wholePower (base : Nat) (exponent : Int) : Nat := Nat.pow base exponent.toNat

end Worksheet.Number

namespace Worksheet

structure Decimal where
  coefficient : Nat
  exponent : Int
deriving DecidableEq

namespace Decimal

def places (d : Decimal) : Nat := (Nat.toDigits 10 d.coefficient).length

/-- Digits without an exponent: zeros behind them, or a point among or before them. -/
def positional (d : Decimal) : List Char :=
  let digits := Nat.toDigits 10 d.coefficient
  if 0 ≤ d.exponent then digits ++ List.replicate d.exponent.toNat '0'
  else
    let shift := (-d.exponent).toNat
    if shift < digits.length then
      digits.take (digits.length - shift) ++ '.' :: digits.drop (digits.length - shift)
    else '0' :: '.' :: List.replicate (shift - digits.length) '0' ++ digits

end Decimal

namespace Formula.Literal

def power (exponent : List Char) : Int :=
  match exponent.drop 1 with
  | '-' :: digits => -(Nat.ofDigitChars 10 digits 0 : Int)
  | '+' :: digits => Nat.ofDigitChars 10 digits 0
  | digits => Nat.ofDigitChars 10 digits 0

def decimal (l : Literal) : Decimal :=
  let fraction := l.fraction.getD []
  ⟨Nat.ofDigitChars 10 (l.whole ++ fraction) 0, power l.exponent - fraction.length⟩

end Formula.Literal

inductive Binary64 where
  | nan
  | infinite (negative : Bool)
  | finite (negative : Bool) (significand : Nat) (exponent : Int)
deriving DecidableEq

namespace Binary64

open Number (wholePower)

def leastExponent : Int := -1074

/-- The significand of a power of two. -/
def leadingBit : Nat := Nat.pow 2 52

def infinityRank : Nat := 2047 * leadingBit

def signBit : Nat := Nat.pow 2 63

def ofBits (bits : UInt64) : Binary64 :=
  let negative : Bool := signBit ≤ bits.toNat
  let field : Nat := bits.toNat / leadingBit % 2048
  let fraction := bits.toNat % leadingBit
  if field = 2047 then if fraction = 0 then infinite negative else nan
  else if field = 0 then finite negative fraction leastExponent
  else finite negative (leadingBit + fraction) ((field : Int) - 1075)

/-- The integer nearest to `num / den`, the even one of two. -/
def roundHalfEven (num den : Nat) : Nat :=
  let floor := num / den
  let rest := 2 * (num % den)
  if rest < den ∨ rest = den ∧ floor % 2 = 0 then floor else floor + 1

/-- The two sides of `num / den` over `2 ^ exponent`. -/
def scaled (num den : Nat) (exponent : Int) : Nat × Nat :=
  (num * wholePower 2 (-exponent), den * wholePower 2 exponent)

/-- The greatest `e` with `2 ^ e ≤ num / den`, for positive sides. -/
def binaryOrder (num den : Nat) : Int :=
  let estimate : Int := num.log2 - den.log2
  let (num, den) := scaled num den estimate
  if den ≤ num then estimate else estimate - 1

/-- The rank of the number nearest to `num / den`, ties to even. -/
def nearestRank (num den : Nat) : Nat :=
  if num = 0 then 0
  else
    let exponent := max leastExponent (binaryOrder num den - 52)
    let (num, den) := scaled num den exponent
    min infinityRank ((exponent - leastExponent).toNat * leadingBit + roundHalfEven num den)

/-- Numbers of 310 places before the point are beyond every finite number, and those that start
behind 324 zeros are nearest to zero, so the powers of ten stay small. -/
def rankOfDecimal (d : Decimal) : Nat :=
  if d.coefficient = 0 then 0
  else if 310 ≤ d.places + d.exponent then infinityRank
  else if d.places + d.exponent ≤ -324 then 0
  else nearestRank (d.coefficient * wholePower 10 d.exponent) (wholePower 10 (-d.exponent))

end Binary64

end Worksheet

namespace Worksheet.Binary64

open Number (wholePower)

/-- The numbers that round to `significand · 2 ^ exponent` lie between `low` and `high`, in units of
`2 ^ (exponent - 2)`. Below a power of two the gap is half as wide. The ends themselves round to an
even significand. -/
structure Interval where
  low : Nat
  high : Nat
  closed : Bool

def interval (significand : Nat) (exponent : Int) : Interval where
  low := 4 * significand -
    if significand = leadingBit ∧ leastExponent < exponent then 1 else 2
  high := 4 * significand + 2
  closed := significand % 2 = 0

/-- A quarter unit over `10 ^ grid`, as a fraction. -/
def quarterUnit (exponent grid : Int) : Nat × Nat :=
  (wholePower 2 (exponent - 2) * wholePower 10 (-grid),
    wholePower 2 (2 - exponent) * wholePower 10 grid)

def Interval.admits (i : Interval) (unit : Nat × Nat) (multiple : Nat) : Bool :=
  if i.closed then i.low * unit.1 ≤ multiple * unit.2 && multiple * unit.2 ≤ i.high * unit.1
  else i.low * unit.1 < multiple * unit.2 && multiple * unit.2 < i.high * unit.1

/-- The multiple of `10 ^ grid` next to the number that reads back as it; of two, the nearer, and
the upper one when they are equally near. -/
def onGrid? (significand : Nat) (exponent grid : Int) : Option Decimal :=
  let unit := quarterUnit exponent grid
  let bounds := interval significand exponent
  let value := 4 * significand * unit.1
  let below := value / unit.2
  let above := below + 1
  let belowFits := bounds.admits unit below
  let aboveFits := bounds.admits unit above
  if belowFits && (!aboveFits || value - below * unit.2 < above * unit.2 - value) then
    some ⟨below, grid⟩
  else if aboveFits then some ⟨above, grid⟩
  else none

/-- All digits of the number. -/
def exact (significand : Nat) (exponent : Int) : Decimal :=
  if 0 ≤ exponent then ⟨significand * wholePower 2 exponent, 0⟩
  else ⟨significand * wholePower 5 (-exponent), exponent⟩

/-- Grids from the coarsest that can hold a neighbour down to seventeen digits and beyond. -/
def grids (significand : Nat) (exponent : Int) : List Int :=
  let unit := quarterUnit exponent 0
  let top : Int := (Nat.toDigits 10 (4 * significand * unit.1)).length -
    (Nat.toDigits 10 unit.2).length + 1
  (List.range 20).map fun (i : Nat) => top - i

def shortest (significand : Nat) (exponent : Int) : Decimal :=
  ((grids significand exponent).findSome? (onGrid? significand exponent)).getD
    (exact significand exponent)

def integer? (significand : Nat) (exponent : Int) : Option Nat :=
  if 0 ≤ exponent then some (significand * wholePower 2 exponent)
  else
    let unit := wholePower 2 (-exponent)
    if significand % unit = 0 then some (significand / unit) else none

def magnitudeText (significand : Nat) (exponent : Int) : List Char :=
  match (integer? significand exponent).filter (· < Nat.pow 10 15) with
  | some n => Nat.toDigits 10 n
  | none => (shortest significand exponent).positional

def text : Binary64 → List Char
  | nan => ['N', 'a', 'N']
  | infinite negative => (if negative then ['-'] else []) ++ ['i', 'n', 'f']
  | finite negative significand exponent =>
    if significand = 0 then ['0']
    else (if negative then ['-'] else []) ++ magnitudeText significand exponent

end Worksheet.Binary64

namespace Worksheet.Number

def display (x : Float) : String := .ofList (Binary64.ofBits x.toBits).text

def ofDecimal (d : Decimal) : Float := .ofBits (.ofNat (Binary64.rankOfDecimal d))

def ofRank (negative : Bool) (rank : Nat) : Float :=
  .ofBits (.ofNat (if negative then Binary64.signBit + rank else rank))

def nan : Float := 0 / 0

/-- The exact remainder with the sign of the dividend. -/
def remainder (x y : Float) : Float :=
  match Binary64.ofBits x.toBits, Binary64.ofBits y.toBits with
  | .finite negative m e, .finite _ m' e' =>
    if m' = 0 then nan
    else
      let least := min e e'
      let rest := (m * wholePower 2 (e - least)) % (m' * wholePower 2 (e' - least))
      ofRank negative
        (Binary64.nearestRank (rest * wholePower 2 least) (wholePower 2 (-least)))
  | .finite .., .infinite _ => x
  | _, _ => nan

def truncate (x : Float) : Float := if x < 0 then x.ceil else x.floor

def naturalPower (result base : Float) (n : Nat) : Float :=
  let result := if n % 2 = 1 then result * base else result
  if n / 2 = 0 then result else naturalPower result (base * base) (n / 2)
termination_by n

/-- Ten to a power; a negative power is the inverse of the positive one. -/
def powerOfTen (n : Int) : Float :=
  let positive := naturalPower 1 10 n.natAbs
  if n < 0 then 1 / positive else positive

/-- Rounds half away from zero to so many decimal places. The count is cut to a 32-bit integer. -/
def roundTo (x places : Float) : Float :=
  let factor := powerOfTen places.toInt32.toInt
  (x * factor).round / factor

/-- The remainder with the sign of the divisor. -/
def modulo (x y : Float) : Float := x - y * (x / y).floor

/-- The lesser of two numbers, a lone NaN ignored. -/
def least (x y : Float) : Float :=
  if x.isNaN then y else if y.isNaN then x else if y < x then y else x

/-- The greater of two numbers, a lone NaN ignored. -/
def greatest (x y : Float) : Float :=
  if x.isNaN then y else if y.isNaN then x else if x < y then y else x

end Worksheet.Number

namespace Worksheet

def Decimal.exponential (d : Decimal) : List Char :=
  let digits := Nat.toDigits 10 d.coefficient
  let fraction := digits.drop 1
  digits.take 1 ++ (if fraction.isEmpty then [] else '.' :: fraction) ++
    'e' :: (toString (d.exponent + fraction.length)).toList

namespace Number

/-- The magnitudes that are written without an exponent, and whether zero keeps its sign. -/
structure LiteralForm where
  least : Float
  greatest : Float
  signedZero : Bool

/-- The form of a number that stands for itself. -/
def LiteralForm.alone : LiteralForm where
  least := .ofBits 0x3d3c25c260000000
  greatest := .ofBits 0x42a2309ce0000000
  signedZero := false

/-- The form of a number inside a list, which leaves 10 ^ 16 and what is below 10 ^ (-4) to an
exponent. -/
def LiteralForm.inside : LiteralForm where
  least := .ofBits 0x3f1a36e2eb1c432d
  greatest := .ofBits 0x4341c37937e07fff
  signedZero := true

def withPoint (digits : List Char) : List Char :=
  if digits.contains '.' then digits else digits ++ ['.', '0']

def LiteralForm.magnitude (form : LiteralForm) (x : Float) (shortest : Decimal) : List Char :=
  if form.least ≤ x.abs ∧ x.abs ≤ form.greatest then withPoint shortest.positional
  else shortest.exponential

def LiteralForm.write (form : LiteralForm) (x : Float) : String :=
  .ofList <|
    match Binary64.ofBits x.toBits with
    | .finite negative significand exponent =>
      if significand = 0 then
        (if form.signedZero && negative then ['-'] else []) ++ ['0', '.', '0']
      else
        (if negative then ['-'] else []) ++
          form.magnitude x (Binary64.shortest significand exponent)
    | other => other.text

end Number

end Worksheet
