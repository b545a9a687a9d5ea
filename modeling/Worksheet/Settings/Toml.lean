import Worksheet.Settings.Basic

/-! Settings as a TOML document of top-level keys with integer or string values. A choice may also
be the only key of a table, with an empty value. Any other table and a value of any other type give
no field, so such a document is refused. -/
namespace Worksheet.Settings.Toml

abbrev Reader (α : Type) := List Char → Option (α × List Char)

def isSpace (c : Char) : Bool := c = ' ' || c = '\t'

/-- Tabs are the only controls that text and comments may hold. -/
def isText (c : Char) : Bool := c = '\t' || ' ' ≤ c && c ≠ '\x7f'

def isBareKeyChar (c : Char) : Bool := c.isAlphanum || c = '-' || c = '_'

def skipSpaces (cs : List Char) : List Char := cs.dropWhile isSpace

def lineBreak? : List Char → Option (List Char)
  | '\n' :: rest => some rest
  | '\r' :: '\n' :: rest => some rest
  | _ => none

def lineEnd? (cs : List Char) : Option (List Char) :=
  let cs := skipSpaces cs
  let cs := if cs.head? = some '#' then cs.dropWhile isText else cs
  if cs.isEmpty then some [] else lineBreak? cs

def coded? (length : Nat) (cs : List Char) : Option (Char × List Char) := do
  guard (length ≤ cs.length)
  return (← Text.coded? (cs.take length), cs.drop length)

def escape? : Reader Char
  | 'b' :: rest => some ('\x08', rest)
  | 't' :: rest => some ('\t', rest)
  | 'n' :: rest => some ('\n', rest)
  | 'f' :: rest => some ('\x0c', rest)
  | 'r' :: rest => some ('\r', rest)
  | '"' :: rest => some ('"', rest)
  | '\\' :: rest => some ('\\', rest)
  | 'u' :: rest => coded? 4 rest
  | 'U' :: rest => coded? 8 rest
  | _ => none

/-- Reads on only if something was consumed. -/
def continue? {α β : Type} (cs rest : List Char)
    (next : (rest : List Char) → rest.length < cs.length → Option (α × β)) : Option (α × β) :=
  if h : rest.length < cs.length then next rest h else none

def basic? (cs : List Char) : Option (List Char × List Char) :=
  match cs with
  | [] => none
  | '"' :: rest => some ([], rest)
  | '\\' :: rest => do
    let (c, after) ← escape? rest
    continue? ('\\' :: rest) after fun after _shorter =>
      (basic? after).map fun r => (c :: r.1, r.2)
  | c :: rest => if isText c then (basic? rest).map fun r => (c :: r.1, r.2) else none
termination_by cs.length
decreasing_by
  · exact _shorter
  · exact Nat.lt_succ_self _

def literal? : Reader (List Char)
  | [] => none
  | '\x27' :: rest => some ([], rest)
  | c :: rest => if isText c then (literal? rest).map fun r => (c :: r.1, r.2) else none

/-- Drops spaces and line breaks. A carriage return alone is no line break. -/
def skipLines (cs : List Char) : List Char :=
  match cs with
  | '\n' :: rest => skipLines rest
  | '\r' :: '\n' :: rest => skipLines rest
  | c :: rest => if isSpace c then skipLines rest else c :: rest
  | [] => []

/-- Behind a backslash at the end of a line, all up to the next text is dropped. -/
def joinLines? (cs : List Char) : Option (List Char) :=
  (lineBreak? (skipSpaces cs)).map skipLines

/-- Up to two quotes may stand before the three that close the string. -/
def closing? (quote : Char) (cs : List Char) : Option (List Char × List Char) :=
  let count := (cs.takeWhile (· = quote)).length
  if count ≤ 5 then some (List.replicate (count - 3) quote, cs.drop count) else none

def multiline? (quote : Char) (cs : List Char) : Option (List Char × List Char) :=
  match cs with
  | [] => none
  | c :: rest =>
    if c = quote ∧ [quote, quote].isPrefixOf rest then
      closing? quote (c :: rest)
    else if c = '\\' ∧ quote = '"' then
      match joinLines? rest, escape? rest with
      | some after, _ => continue? (c :: rest) after fun after _shorter => multiline? quote after
      | none, some (escaped, after) =>
        continue? (c :: rest) after fun after _shorter =>
          (multiline? quote after).map fun r => (escaped :: r.1, r.2)
      | none, none => none
    else
      match lineBreak? (c :: rest) with
      | some after =>
        continue? (c :: rest) after fun after _shorter =>
          (multiline? quote after).map fun r => ('\n' :: r.1, r.2)
      | none => if isText c then (multiline? quote rest).map fun r => (c :: r.1, r.2) else none
termination_by cs.length
decreasing_by
  · exact _shorter
  · exact _shorter
  · exact _shorter
  · exact Nat.lt_succ_self _

def opened (cs : List Char) : List Char := (lineBreak? cs).getD cs

def string? : Reader (List Char)
  | '"' :: '"' :: '"' :: rest => multiline? '"' (opened rest)
  | '\x27' :: '\x27' :: '\x27' :: rest => multiline? '\x27' (opened rest)
  | '"' :: rest => basic? rest
  | '\x27' :: rest => literal? rest
  | _ => none

def isRadixDigit (radix : Nat) (c : Char) : Bool :=
  (Text.hexDigit? c).any (· < radix)

/-- Underscores stand between digits only. -/
def grouped? (radix : Nat) (cs : List Char) : Option (List Char) := do
  let groups := cs.splitOn '_'
  guard (groups.all fun group => !group.isEmpty && group.all (isRadixDigit radix))
  return groups.flatten

def valueIn (radix : Nat) (digits : List Char) : Nat :=
  digits.foldl (fun n c => radix * n + (Text.hexDigit? c).getD 0) 0

def unsigned? (cs : List Char) : Option Nat := do
  let digits ← grouped? 10 cs
  guard (digits.length = 1 ∨ digits.head? ≠ some '0')
  return valueIn 10 digits

/-- Integers are signed 64-bit words, of which the fields take the ones that are not negative. -/
def integer? (cs : List Char) : Option UInt64 := do
  let value ← match cs with
    | '0' :: 'x' :: digits => (grouped? 16 digits).map (valueIn 16)
    | '0' :: 'o' :: digits => (grouped? 8 digits).map (valueIn 8)
    | '0' :: 'b' :: digits => (grouped? 2 digits).map (valueIn 2)
    | '+' :: digits => unsigned? digits
    | '-' :: digits => (unsigned? digits).filter (· = 0)
    | digits => unsigned? digits
  guard (value < Nat.pow 2 63)
  return .ofNat value

def isValueChar (c : Char) : Bool := !isSpace c && c ≠ '#' && c ≠ '\n' && c ≠ '\r'

def key? (cs : List Char) : Option (String × List Char) :=
  match cs with
  | '"' :: rest => (basic? rest).map fun r => (.ofList r.1, r.2)
  | '\x27' :: rest => (literal? rest).map fun r => (.ofList r.1, r.2)
  | cs => some (.ofList (cs.takeWhile isBareKeyChar), cs.dropWhile isBareKeyChar)

def path? (cs : List Char) : Option ((String × Option String) × List Char) := do
  let (key, rest) ← key? cs
  match skipSpaces rest with
  | '.' :: rest =>
    let (name, rest) ← key? (skipSpaces rest)
    return ((key, some name), skipSpaces rest)
  | rest => return ((key, none), rest)

def after? (mark : Char) : List Char → Option (List Char)
  | c :: rest => if c = mark then some rest else none
  | [] => none

def blank? : List Char → Option (List Char)
  | '\x7b' :: rest => after? '\x7d' (skipSpaces rest)
  | '[' :: rest => after? ']' (skipLines rest)
  | _ => none

/-- What follows an equals sign with spaces around it. -/
def assigned? (cs : List Char) : Option (List Char) :=
  (after? '=' (skipSpaces cs)).map skipSpaces

/-- A table on one line with one key, whose value is empty. -/
def choice? (cs : List Char) : Option (Entry × List Char) := do
  let (name, rest) ← key? (skipSpaces (← after? '\x7b' cs))
  let rest ← blank? (← assigned? rest)
  return (.choice name, ← after? '\x7d' (skipSpaces rest))

def value? (cs : List Char) : Option (Entry × List Char) :=
  match cs.head? with
  | some '"' | some '\x27' => (string? cs).map fun r => (.text (.ofList r.1), r.2)
  | some '\x7b' => choice? cs
  | _ => do
    let value ← integer? (cs.takeWhile isValueChar)
    return (.number value, cs.dropWhile isValueChar)

def entry? (cs : List Char) : Option ((String × Entry) × List Char) := do
  let (path, rest) ← path? cs
  let rest ← assigned? rest
  match path with
  | (key, none) =>
    let (value, rest) ← value? rest
    return ((key, value), ← lineEnd? rest)
  | (key, some name) => return ((key, .choice name), ← lineEnd? (← blank? rest))

def header? (cs : List Char) : Option ((String × Option String) × List Char) := do
  let (path, rest) ← path? (skipSpaces (← after? '[' (skipSpaces cs)))
  return (path, ← lineEnd? (← after? ']' (skipSpaces rest)))

def skipBlankLines (cs : List Char) : List Char :=
  match lineEnd? cs with
  | some rest => if _h : rest.length < cs.length then skipBlankLines rest else []
  | none => skipSpaces cs
termination_by cs.length

/-- A table with a header of its own: a choice, or the name of one with the choice as its only key
or as the next header. -/
def table? (cs : List Char) : Option ((String × Entry) × List Char) := do
  match ← header? cs with
  | ((field, some name), rest) => return ((field, .choice name), rest)
  | ((field, none), rest) =>
    let rest := skipBlankLines rest
    match header? rest with
    | some ((parent, some name), rest) =>
      if parent = field then return ((field, .choice name), rest) else none
    | some ((_, none), _) => none
    | none =>
      let (name, rest) ← key? (skipSpaces rest)
      return ((field, .choice name), ← lineEnd? (← blank? (← assigned? rest)))

def tables? (cs : List Char) : Option (List (String × Entry)) :=
  match skipBlankLines cs with
  | [] => some []
  | rest => do
    let (entry, after) ← table? rest
    if _h : after.length < cs.length then return entry :: (← tables? after) else none
termination_by cs.length

def entries? (cs : List Char) : Option (List (String × Entry)) :=
  match skipBlankLines cs with
  | [] => some []
  | rest =>
    match entry? rest with
    | some (entry, after) =>
      if _h : after.length < cs.length then (entries? after).map (entry :: ·) else none
    | none => tables? rest
termination_by cs.length

/-- A byte order mark may stand in front. -/
def document? (text : String) : Option (List (String × Entry)) :=
  match text.toList with
  | '\ufeff' :: rest => entries? rest
  | cs => entries? cs

end Toml

def ofToml? (text : String) : Option Settings := (Toml.document? text).bind ofEntries?

end Worksheet.Settings
