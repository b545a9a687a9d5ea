import Worksheet.Expression.Token

/-! The grammar of expressions, read by operator rank. Nesting is bounded: every reader is given the
number of levels that are left. An operand of a prefix and a property take one, a group, an
argument, an index and a condition two, a list one, its items and a block three, and each property,
index in a row, choice behind `else` and binary operator takes one from what follows it. -/
namespace Worksheet.Grammar

open Expression (Token applyPrefix applyBinary? applyIndex? applyChoice? applyAssignment?)

def maxLevel : Nat := 64

def reserved : List String :=
  ["if", "else", "while", "for", "in", "switch", "do", "until", "continue", "break", "throw",
    "private", "import", "export", "as", "let", "const", "fn", "return", "this", "loop", "try",
    "catch", "is_def_var", "is_def_fn", "type_of", "var", "static", "shared", "goto", "match",
    "case", "default", "void", "nil", "null", "spawn", "thread", "go", "sync", "async", "await",
    "yield", "call", "curry", "Fn", "print", "debug", "eval", "public", "protected", "super", "new",
    "use", "with", "is", "package", "module", "is_shared"]

/-- A letter comes first after any underscores. -/
def isName (name : String) : Bool :=
  !reserved.contains name && (name.toList.dropWhile (· = '_')).head?.any Char.isAlpha

/-- Some of the reserved words are functions. -/
def isFunctionName (name : String) : Bool :=
  isName name || ["print", "debug", "Fn", "is_def_var", "is_def_fn", "type_of", "is_shared", "call",
    "curry"].contains name

def isMethodName (name : String) : Bool :=
  isName name || ["type_of", "is_shared", "call", "curry"].contains name

abbrev Reader (α : Type) := List Token → Option (α × List Token)

def items (item : Reader Expression) (isClose : Token → Bool) (ts : List Token) :
    Option (List Expression × List Token) :=
  match ts with
  | [] => none
  | token :: rest =>
    if isClose token then some ([], rest)
    else
      match item (token :: rest) with
      | some (e, .comma :: after) =>
        if _h : after.length < (token :: rest).length then
          (items item isClose after).map fun r => (e :: r.1, r.2)
        else none
      | some (e, next :: after) => if isClose next then some ([e], after) else none
      | _ => none
termination_by ts.length
decreasing_by exact _h

def isCloseGroup : Token → Bool
  | .closeGroup => true
  | _ => false

def isCloseList : Token → Bool
  | .closeList => true
  | _ => false

def startsElse : List Token → Bool
  | .name "else" :: _ => true
  | _ => false

def prefixOperator? : Token → Option PrefixOperator
  | .operator .subtract => some .negate
  | .operator .add => some .keep
  | .not => some .not
  | _ => none

/-- Whether the operator at the front goes to the right operand of `left`. -/
def bindsTighter (left : BinaryOperator) : List Token → Bool
  | .operator next :: _ =>
    left.rank < next.rank || left.rank = next.rank && left.isRightAssociative
  | _ => false

mutual

/-- A primary expression, then any number of properties and items of it. -/
def primary (levels : Nat) (ts : List Token) : Option (Expression × List Token) :=
  match ts with
  | .number value :: rest => members levels 0 (.number value) rest
  | .text value :: rest => members levels 0 (.text value) rest
  | .truth value :: rest => members levels 0 (.truth value) rest
  | .character value :: rest => members levels 0 (.character value) rest
  | .name "if" :: rest =>
    match choice levels rest with
    | some (e, rest) => members levels 0 e rest
    | none => none
  | .name "switch" :: rest =>
    match selection levels rest with
    | some (e, rest) => members levels 0 e rest
    | none => none
  | .name name :: .openGroup :: rest =>
    if isFunctionName name then
      match callArguments levels rest with
      | some (arguments, rest) => members levels 0 (.call name arguments) rest
      | none => none
    else none
  | .name name :: .not :: .openGroup :: rest =>
    if isFunctionName name then
      match callArguments levels rest with
      | some (arguments, rest) => members levels 0 (.call name arguments) rest
      | none => none
    else none
  | .name name :: rest => if isName name then members levels 0 (.name name) rest else none
  | .openGroup :: rest =>
    if _h : 2 ≤ levels then
      match expression (levels - 2) rest with
      | some (e, .closeGroup :: rest) => members levels 0 e rest
      | _ => none
    else none
  | .openList :: .closeList :: rest => if 1 ≤ levels then members levels 0 (.list []) rest else none
  | .openList :: rest =>
    if _h : 3 ≤ levels then
      match items (expression (levels - 3)) isCloseList rest with
      | some (items, rest) => members levels 0 (.list items) rest
      | none => none
    else none
  | _ => none
termination_by (levels, 1, 0)

/-- Arguments behind the opening parenthesis. A call without arguments takes no level. -/
def callArguments (levels : Nat) (ts : List Token) : Option (List Expression × List Token) :=
  match ts with
  | .closeGroup :: rest => some ([], rest)
  | _ =>
    if _h : 2 ≤ levels then items (expression (levels - 2)) isCloseGroup ts else none
termination_by (levels, 0, 0)

/-- A condition and a block, and after `else` a block or another choice. -/
def choice (levels : Nat) (ts : List Token) : Option (Expression × List Token) :=
  if _h : 3 ≤ levels then
    match expression (levels - 2) ts with
    | some (condition, rest) =>
      match block (levels - 3) rest with
      | some (yes, rest) =>
        if startsElse rest then
          match alternative (levels - 1) (rest.drop 1) with
          | some (no, rest) => (applyChoice? condition yes no).map (·, rest)
          | none => none
        else (applyChoice? condition yes .nothing).map (·, rest)
      | none => none
    | none => none
  else none
termination_by (levels, 0, 0)

def selection (levels : Nat) (ts : List Token) : Option (Expression × List Token) :=
  if _h : 2 ≤ levels then
    match expression (levels - 2) ts with
    | some (subject, .openBlock :: .closeBlock :: rest) => some (.selection subject, rest)
    | _ => none
  else none
termination_by (levels, 0, 0)

def alternative (levels : Nat) (ts : List Token) : Option (Expression × List Token) :=
  match ts with
  | .name "if" :: rest => choice levels rest
  | ts => if _h : 2 ≤ levels then block (levels - 2) ts else none
termination_by (levels, 1, 0)

def block (levels : Nat) (ts : List Token) : Option (Expression × List Token) :=
  match ts with
  | .openBlock :: rest =>
    match expression levels rest with
    | some (e, .closeBlock :: rest) => some (e, rest)
    | some (target, .assign :: rest) =>
      match expression levels rest with
      | some (value, .closeBlock :: rest) => (applyAssignment? target value).map (·, rest)
      | _ => none
    | _ => none
  | _ => none
termination_by (levels, 5, 0)

/-- Properties, methods and items of a subject, behind `indices` items in a row. A property takes a
level from what follows it, and an index takes one from the indices that follow it. -/
def members (levels indices : Nat) (subject : Expression) (ts : List Token) :
    Option (Expression × List Token) :=
  match ts with
  | .point :: .name name :: .openGroup :: rest =>
    if _h : 1 ≤ levels ∧ isMethodName name then
      match callArguments (levels - 1) rest with
      | some (arguments, rest) => members (levels - 1) 0 (.method subject name arguments) rest
      | none => none
    else none
  | .point :: .name name :: rest =>
    if _h : 1 ≤ levels ∧ isName name then members (levels - 1) 0 (.property subject name) rest
    else none
  | .point :: _ => none
  | .openList :: rest =>
    if _h : indices + 2 ≤ levels then
      match expression (levels - (indices + 2)) rest with
      | some (index, .closeList :: after) =>
        if after.length ≤ rest.length then
          match applyIndex? subject index with
          | some e => members levels (indices + 1) e after
          | none => none
        else none
      | _ => none
    else none
  | ts => some (subject, ts)
termination_by (levels, 0, ts.length)

def operand (levels : Nat) (ts : List Token) : Option (Expression × List Token) :=
  match ts with
  | [] => none
  | token :: rest =>
    match prefixOperator? token with
    | some operator =>
      if _h : 1 ≤ levels then
        (operand (levels - 1) rest).map fun r => (applyPrefix operator r.1, r.2)
      else none
    | none => primary levels (token :: rest)
termination_by (levels, 2, 0)

/-- Extends `left` by the operators at the front that bind at least as tightly as `within`. -/
def operators (levels : Nat) (within : Option BinaryOperator) (left : Expression)
    (ts : List Token) : Option (Expression × List Token) :=
  match ts with
  | .operator next :: rest =>
    if (within.map (bindsTighter · (.operator next :: rest))).getD true then
      match operand levels rest with
      | some (right, rest) =>
        if _h : 1 ≤ levels then
          let right :=
            if bindsTighter next rest then operators (levels - 1) (some next) right rest
            else some (right, rest)
          match right with
          | some (right, rest) =>
            match applyBinary? next left right with
            | some left => operators (levels - 1) within left rest
            | none => none
          | none => none
        else none
      | none => none
    else some (left, .operator next :: rest)
  | ts => some (left, ts)
termination_by (levels, 3, 0)

def expression (levels : Nat) (ts : List Token) : Option (Expression × List Token) :=
  match operand levels ts with
  | some (left, rest) => operators levels none left rest
  | none => none
termination_by (levels, 4, 0)

end

/-- The first level is taken by the expression itself. -/
def parse? (lexemes : List Formula.Lexeme) : Option Expression := do
  let tokens ← Token.ofLexemes? 1 lexemes
  match expression (maxLevel - 1) tokens with
  | some (e, []) => some e
  | _ => none

end Worksheet.Grammar
