import Worksheet.Expression.Function

/-! Evaluation of expressions without references: the text is normalized, parsed, and reduced to a
value that a cell can show. The levels of the grammar are its only bound. Operations are not
counted, so an evaluation is not given up after a number of them, such as 100000, which only a very
long expression could reach: there are no loops and no functions that an expression defines. -/
namespace Worksheet

inductive EvaluationError where
  | empty
  | syntactic
  | failed
  | noValue
  | notFinite
  | noDisplay (kind : String)
deriving DecidableEq

def EvaluationError.message? : EvaluationError → Option String
  | empty => some "Empty expression"
  | syntactic | failed => none
  | noValue => some "Expression produced no value"
  | notFinite => some "Result is not a finite number"
  | noDisplay kind => some ("Unsupported result type: " ++ kind)

def PrefixOperator.result? : PrefixOperator → Value → Option Value
  | negate, v => v.negate?
  | keep, v => v.keep?
  | not, v => v.not?

def BinaryOperator.result? : BinaryOperator → Value → Value → Option Value
  | either, a, b => return .truth ((← a.truth?) || (← b.truth?))
  | both, a, b => return .truth ((← a.truth?) && (← b.truth?))
  | bitOr, a, b => Value.or? a b
  | bitAnd, a, b => Value.and? a b
  | equal, a, b => (Value.compare? .equal a b).map .truth
  | unequal, a, b => (Value.compare? .unequal a b).map .truth
  | less, a, b => (Value.compare? .less a b).map .truth
  | atMost, a, b => (Value.compare? .atMost a b).map .truth
  | greater, a, b => (Value.compare? .greater a b).map .truth
  | atLeast, a, b => (Value.compare? .atLeast a b).map .truth
  | contained, a, b => (Value.contained? a b).map .truth
  | add, a, b => Value.add? a b
  | subtract, a, b => Value.subtract? a b
  | multiply, a, b => Value.multiply? a b
  | divide, a, b => Value.divide? a b
  | remainder, a, b => Value.remainder? a b
  | power, a, b => Value.power? a b

namespace Expression

open Interruption (demand)

mutual

/-- There are no variables, so a bare name has no value, and an assignment fails at its target.
Arguments and indices come before their subject, and a whole before what it contains. -/
def value : Expression → Evaluation
  | number x => .ok (.number x)
  | text s => .ok (.text s)
  | truth b => .ok (.truth b)
  | character c => .ok (.character c)
  | name _ => .error .failure
  | list items => (values items).map .list
  | call function arguments => do Function.call function (← values arguments)
  | method subject function arguments => do
    let arguments ← values arguments
    Function.callMethod (← value subject) function arguments
  | property subject key => do demand (Function.property? key (← value subject))
  | item subject index => do
    let index ← value index
    demand ((← value subject).item? index)
  | prefixed operator operand => do demand (operator.result? (← value operand))
  | binary .either left right => do
    if ← demand (← value left).truth? then return .truth true
    else return .truth (← demand (← value right).truth?)
  | binary .both left right => do
    if ← demand (← value left).truth? then return .truth (← demand (← value right).truth?)
    else return .truth false
  | binary .contained left right => do
    let whole ← value right
    demand (BinaryOperator.contained.result? (← value left) whole)
  | binary operator left right => do
    let a ← value left
    demand (operator.result? a (← value right))
  | choice condition yes no => do
    if ← demand (← value condition).truth? then value yes else value no
  | selection subject => do
    let _ ← value subject
    return .unit
  | assignment target source => do
    let _ ← value source
    value target
  | nothing => .ok .unit

def values : List Expression → Except Interruption (List Value)
  | [] => .ok []
  | e :: rest => do
    let v ← value e
    return v :: (← values rest)

end

/-- The value of a text. An evaluation that exits has the value that it leaves with. -/
def evaluateText (source : String) : Except EvaluationError Value :=
  match Formula.Lexeme.scan source.toList with
  | [] => .error .empty
  | lexemes =>
    match Grammar.parse? lexemes with
    | none => .error .syntactic
    | some e =>
      match e.value with
      | .ok v | .error (.exit v) => .ok v
      | .error .failure => .error .failed

end Expression

/-- The display of a value, if a cell can show it. -/
def Value.shown : Value → Except EvaluationError String
  | unit => .error .noValue
  | number x => if x.isFinite then .ok (Number.display x) else .error .notFinite
  | v => v.display?.elim (.error (.noDisplay v.kind)) .ok

def evaluate (source : String) : Except EvaluationError String := do
  (← Expression.evaluateText source).shown

end Worksheet
