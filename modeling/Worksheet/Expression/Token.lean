import Worksheet.Number
import Worksheet.Text

/-! The syntax of expressions, and their tokens, each made from one lexeme of the normal form. -/
namespace Worksheet

inductive PrefixOperator where
  | negate
  | keep
  | not
deriving DecidableEq

inductive BinaryOperator where
  | either
  | bitOr
  | both
  | bitAnd
  | equal
  | unequal
  | contained
  | less
  | atMost
  | greater
  | atLeast
  | add
  | subtract
  | multiply
  | divide
  | remainder
  | power
deriving DecidableEq

namespace BinaryOperator

def rank : BinaryOperator → Nat
  | either | bitOr => 30
  | both | bitAnd => 60
  | equal | unequal => 90
  | contained => 110
  | less | atMost | greater | atLeast => 130
  | add | subtract => 150
  | multiply | divide | remainder => 180
  | power => 190

def isRightAssociative (op : BinaryOperator) : Bool := op = power

def isLazy (op : BinaryOperator) : Bool := op = either || op = both

end BinaryOperator

inductive Expression where
  | number (value : Float)
  | text (value : String)
  | truth (value : Bool)
  | character (value : Char)
  | name (name : String)
  | list (items : List Expression)
  | call (function : String) (arguments : List Expression)
  | method (subject : Expression) (function : String) (arguments : List Expression)
  | property (subject : Expression) (name : String)
  | item (subject index : Expression)
  | prefixed (operator : PrefixOperator) (operand : Expression)
  | binary (operator : BinaryOperator) (left right : Expression)
  | choice (condition yes no : Expression)
  /-- A choice by value. It has no cases, because the normal form has no sign to write them. -/
  | selection (subject : Expression)
  | assignment (target value : Expression)
  | nothing
deriving Inhabited

namespace Expression

/-- A sign in front of a number literal belongs to the literal. -/
def applyPrefix : PrefixOperator → Expression → Expression
  | .negate, number value => number (-value)
  | .keep, number value => number value
  | operator, operand => prefixed operator operand

/-- Literals other than truth values, and lists, are never truth values. -/
def mayBeTruth : Expression → Bool
  | number _ | text _ | character _ | list _ => false
  | _ => true

/-- An operand of a lazy operator must be able to be a truth value. -/
def applyBinary? (operator : BinaryOperator) (left right : Expression) : Option Expression :=
  if operator.isLazy && !(left.mayBeTruth && right.mayBeTruth) then none
  else some (binary operator left right)

/-- There are no literals of integers, so literals are never indices; nor are results of the lazy
operators. -/
def mayBeIndex : Expression → Bool
  | number _ | text _ | truth _ | character _ => false
  | binary operator _ _ => !operator.isLazy
  | _ => true

/-- An index of a literal text or list must be able to be one. -/
def applyIndex? (subject index : Expression) : Option Expression :=
  match subject with
  | text _ | list _ => if index.mayBeIndex then some (item subject index) else none
  | _ => some (item subject index)

def isTarget : Expression → Bool
  | name _ => true
  | property subject _ => subject.isTarget
  | item subject _ => subject.isTarget
  | _ => false

def applyAssignment? (target value : Expression) : Option Expression :=
  if target.isTarget then some (assignment target value) else none

/-- A condition must be able to be a truth value. -/
def applyChoice? (condition yes no : Expression) : Option Expression :=
  if condition.mayBeTruth then some (choice condition yes no) else none

end Expression

end Worksheet

namespace Worksheet.Expression

inductive Token where
  | number (value : Float)
  | text (value : String)
  | truth (value : Bool)
  | character (value : Char)
  | name (name : String)
  | operator (operator : BinaryOperator)
  | not
  | openGroup
  | closeGroup
  | openList
  | closeList
  | openBlock
  | closeBlock
  | comma
  | point
  | assign

namespace Token

def shortEscape? : Char → Option Char
  | '"' => some '"'
  | '\\' => some '\\'
  | 'n' => some '\n'
  | 'r' => some '\r'
  | 't' => some '\t'
  | _ => none

def codeLength? : Char → Option Nat
  | 'x' => some 2
  | 'u' => some 4
  | 'U' => some 8
  | _ => none

/-- The character that a coded escape stands for, and the number of its digits. -/
def codedEscape? (letter : Char) (cs : List Char) : Option (Char × Nat) := do
  let length ← codeLength? letter
  guard (length ≤ cs.length)
  return (← Text.coded? (cs.take length), length)

/-- Reads a literal behind its opening quote, which stands in column `start`, to the closing quote
at the end. A backslash continues the literal on the next line. There `column` counts the
characters, and blanks up to the column of the quote are dropped until a character that stands for
itself; escapes do not end that. -/
def literal? (start : Nat) (column : Option Nat) (cs : List Char) : Option (List Char) :=
  match cs with
  | [] => none
  | ['"'] => some []
  | '\r' :: '\n' :: rest => literal? start (column.map (· + 1)) ('\n' :: rest)
  | '\\' :: '\r' :: '\n' :: rest => literal? start (some 0) rest
  | '\\' :: '\n' :: rest => literal? start (some 0) rest
  | '\\' :: c :: rest =>
    match shortEscape? c with
    | some escaped => (literal? start (column.map (· + 2)) rest).map (escaped :: ·)
    | none => do
      let (coded, length) ← codedEscape? c rest
      (literal? start (column.map (· + 2 + length)) (rest.drop length)).map (coded :: ·)
  | c :: rest =>
    if c = '"' || c = '\\' || c = '\n' then none
    else
      match column.filter fun column => Text.isBlank c && column < start with
      | some column => literal? start (some (column + 1)) rest
      | none => (literal? start none rest).map (c :: ·)
termination_by cs.length
decreasing_by all_goals simp; try omega

def operator? (cs : List Char) : Option Token :=
  match String.ofList cs with
  | "||" => some (operator .either)
  | "|" => some (operator .bitOr)
  | "&&" => some (operator .both)
  | "&" => some (operator .bitAnd)
  | "==" => some (operator .equal)
  | "!=" => some (operator .unequal)
  | "<" => some (operator .less)
  | "<=" => some (operator .atMost)
  | ">" => some (operator .greater)
  | ">=" => some (operator .atLeast)
  | "+" => some (operator .add)
  | "-" => some (operator .subtract)
  | "*" => some (operator .multiply)
  | "/" => some (operator .divide)
  | "%" => some (operator .remainder)
  | "**" => some (operator .power)
  | "!" => some not
  | "(" => some openGroup
  | ")" => some closeGroup
  | "[" => some openList
  | "]" => some closeList
  | "\x7b" => some openBlock
  | "\x7d" => some closeBlock
  | "," => some comma
  | "." => some point
  | "=" => some assign
  | _ => none

def word (cs : List Char) : Token :=
  match String.ofList cs with
  | "true" => truth true
  | "false" => truth false
  | "in" => operator .contained
  | other => name other

def columnAfter (column : Nat) (cs : List Char) : Nat :=
  cs.foldl (fun column c => if c = '\n' then 1 else column + 1) column

def ofLexeme? (column : Nat) : Formula.Lexeme → Option Token
  | .quoted cs => (literal? column none (cs.drop 1)).map fun cs => text (.ofList cs)
  | .number literal => some (number (Number.ofDecimal literal.decimal))
  | .name cs => some (word cs)
  | .operator cs => operator? cs

/-- Two single quotes in a row, which stand around a space in the normal form. -/
def isSpaceLiteral : List Formula.Lexeme → Bool
  | .operator ['\x27'] :: .operator ['\x27'] :: _ => true
  | _ => false

def isBacktick (lexeme : Formula.Lexeme) : Bool := lexeme = .operator ['\x60']

/-- A carriage return in front of a line feed is not part of a text. -/
def withoutReturns : List Char → List Char
  | '\r' :: '\n' :: rest => '\n' :: withoutReturns rest
  | c :: rest => c :: withoutReturns rest
  | [] => []

/-- The text of lexemes between backticks: their normal form with the spaces around it. Neither a
backtick nor what would be an expression in the text may occur in it. -/
def verbatim? (inside : List Formula.Lexeme) : Option (List Char) :=
  let cs := [' '].intercalate ([] :: inside.map Formula.Lexeme.text ++ [[]])
  if cs.contains '\x60' || Text.occursIn ['$', '\x7b'] cs then none else some cs

def ofLexemes? (column : Nat) : List Formula.Lexeme → Option (List Token)
  | [] => some []
  | lexeme :: rest => do
    if isSpaceLiteral (lexeme :: rest) then
      return character ' ' :: (← ofLexemes? (column + 4) (rest.drop 1))
    else if isBacktick lexeme then
      let inside := rest.takeWhile fun lexeme => !isBacktick lexeme
      let cs ← verbatim? inside
      match rest.drop inside.length with
      | [] => none
      | _ :: _ =>
        let tokens ← ofLexemes? (columnAfter (column + 1) cs + 2) (rest.drop (inside.length + 1))
        return text (.ofList (withoutReturns cs)) :: tokens
    else
      let token ← ofLexeme? column lexeme
      return token :: (← ofLexemes? (columnAfter column lexeme.text + 1) rest)
termination_by lexemes => lexemes.length
decreasing_by
  · rw [List.length_drop, List.length_cons]
    omega
  · rw [List.length_drop, List.length_cons]
    omega
  · exact Nat.lt_succ_self _

end Token

end Worksheet.Expression
