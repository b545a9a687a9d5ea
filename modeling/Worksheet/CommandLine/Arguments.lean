import Worksheet.Settings.Basic

/-! The arguments of the command line. Options may stand before and after the command; an option
after it takes precedence, and none may be repeated on one side of it. -/
namespace Worksheet.CommandLine

structure Options where
  config : Option String
  dataDirectory : Option String
  ephemeral : Bool
  rows : Option UInt64
  cols : Option UInt64
  slot : Option String
  recalculation : Option Recalculation
  strict : Bool
  raw : Bool
  verbosity : Nat
deriving DecidableEq

inductive Verb where
  | set
  | get
  | table
  | dump
  | session
  | functions
deriving DecidableEq

inductive Command where
  | set (label : String) (words : List String)
  | get (label : String) (raw : Bool)
  | table
  | dump
  | session
  | functions
deriving DecidableEq

/-- Why no command is run: the arguments are wrong, or they ask for a text about the program. -/
inductive Stop where
  | usage
  | version
  | help
deriving DecidableEq

namespace Options

def empty : Options := ⟨none, none, false, none, none, none, none, false, false, 0⟩

/-- The options of both sides of the command. -/
def merge (before after : Options) : Options where
  config := after.config <|> before.config
  dataDirectory := after.dataDirectory <|> before.dataDirectory
  ephemeral := before.ephemeral || after.ephemeral
  rows := after.rows <|> before.rows
  cols := after.cols <|> before.cols
  slot := after.slot <|> before.slot
  recalculation := after.recalculation <|> before.recalculation
  strict := before.strict || after.strict
  raw := before.raw || after.raw
  verbosity := before.verbosity + after.verbosity

/-- A sheet that is kept in memory has no directory. -/
def isConsistent (o : Options) : Bool := !(o.ephemeral && o.dataDirectory.isSome)

def once {α : Type} (earlier value : Option α) : Option (Option α) :=
  match earlier, value with
  | none, some value => some (some value)
  | _, _ => none

def path? (value : String) : Option String := if value = "" then none else some value

def setValue? (o : Options) (name value : String) : Option Options :=
  match name with
  | "config" => (once o.config (path? value)).map fun config => { o with config }
  | "data-dir" =>
    (once o.dataDirectory (path? value)).map fun dataDirectory => { o with dataDirectory }
  | "rows" => (once o.rows (Numeral.signed? value.toList)).map fun rows => { o with rows }
  | "cols" => (once o.cols (Numeral.signed? value.toList)).map fun cols => { o with cols }
  | "slot" => (once o.slot (some value)).map fun slot => { o with slot }
  | "recalc" =>
    (once o.recalculation (Recalculation.ofName? value)).map fun recalculation =>
      { o with recalculation }
  | _ => none

def takesValue (name : String) : Bool :=
  ["config", "data-dir", "rows", "cols", "slot", "recalc"].contains name

/-- Sets an option without a value. Only `verbose` may be repeated. -/
def setFlag? (o : Options) (name : String) : Option Options :=
  match name with
  | "ephemeral" => if o.ephemeral then none else some { o with ephemeral := true }
  | "strict-refs" => if o.strict then none else some { o with strict := true }
  | "raw" => if o.raw then none else some { o with raw := true }
  | "verbose" => some { o with verbosity := o.verbosity + 1 }
  | _ => none

end Options

namespace Verb

def ofName? : String → Option Verb
  | "set" => some set
  | "get" => some get
  | "show" => some table
  | "dump" => some dump
  | "repl" => some session
  | "functions" => some functions
  | _ => none

def command? (verb : Verb) (raw : Bool) (values : List String) : Option Command :=
  match verb, values with
  | set, label :: words => some (.set label words)
  | get, [label] => some (.get label raw)
  | table, [] => some .table
  | dump, [] => some .dump
  | session, [] => some .session
  | functions, [] => some .functions
  | _, _ => none

end Verb

def isDashed (argument : String) : Bool :=
  match argument.toList with
  | '-' :: _ :: _ => true
  | _ => false

def longName (cs : List Char) : String × Option String :=
  (.ofList (cs.takeWhile (· ≠ '=')),
    match cs.dropWhile (· ≠ '=') with
    | _ :: value => some (.ofList value)
    | [] => none)

inductive Scope where
  | before
  | after (verb : Verb)
deriving DecidableEq

namespace Scope

def flags : Scope → List String
  | .after .get => ["ephemeral", "strict-refs", "verbose", "raw"]
  | _ => ["ephemeral", "strict-refs", "verbose"]

/-- The options that ask for a text about the program. -/
def texts : Scope → List (String × Char × Stop)
  | before => [("help", 'h', .help), ("version", 'V', .version)]
  | after _ => [("help", 'h', .help)]

def isLong (scope : Scope) (name : String) : Bool :=
  Options.takesValue name || scope.flags.contains name || scope.texts.any fun t => t.1 = name

def isShort (scope : Scope) (c : Char) : Bool := c = 'v' || scope.texts.any fun t => t.2.1 = c

/-- Whether an argument consists of options that are known here. -/
def knows (scope : Scope) (argument : String) : Bool :=
  match argument.toList with
  | '-' :: '-' :: cs => scope.isLong (longName cs).1
  | '-' :: cs => cs.all scope.isShort
  | _ => false

/-- Whether an argument can be the value of the option in front of it. Where a dashed word may start
a text, it may be a value too, if it is neither a known option nor a double dash. -/
def isValue (scope : Scope) (startsText : Bool) (argument : String) : Bool :=
  !isDashed argument || startsText && argument ≠ "--" && !scope.knows argument

/-- Reads a long option. Its value stands behind an equals sign or is the next argument. The number
counts the further arguments that were taken. -/
def long (scope : Scope) (startsText : Bool) (o : Options) (cs : List Char)
    (next : Option String) : Except Stop (Options × Nat) :=
  let (name, attached) := longName cs
  if Options.takesValue name then
    match attached with
    | some value => (o.setValue? name value).elim (.error .usage) fun o => .ok (o, 0)
    | none =>
      ((next.filter (scope.isValue startsText)).bind (o.setValue? name)).elim (.error .usage)
        fun o => .ok (o, 1)
  else if attached.isSome then .error .usage
  else
    match scope.texts.find? fun t => t.1 = name with
    | some text => .error text.2.2
    | none =>
      if scope.flags.contains name then
        (o.setFlag? name).elim (.error .usage) fun o => .ok (o, 0)
      else .error .usage

/-- Reads short options that share one dash. -/
def short (scope : Scope) (o : Options) : List Char → Except Stop Options
  | [] => .ok o
  | c :: cs =>
    if c = 'v' then scope.short { o with verbosity := o.verbosity + 1 } cs
    else
      match scope.texts.find? fun t => t.2.1 = c with
      | some text => .error text.2.2
      | none => .error .usage

def option (scope : Scope) (startsText : Bool) (o : Options) (argument : String)
    (next : Option String) : Except Stop (Options × Nat) :=
  match argument.toList with
  | '-' :: '-' :: cs => scope.long startsText o cs next
  | '-' :: cs => (scope.short o cs).map (·, 0)
  | _ => .error .usage

end Scope

namespace Verb

/-- Whether a command takes no more values than it has. Only the text of `set` may have any number
of words. -/
def isFull (verb : Verb) (values : List String) : Bool :=
  match verb with
  | set => false
  | get => 1 ≤ values.length
  | _ => true

/-- Whether the next value starts the text of `set`, which takes all that is left. -/
def startsText (verb : Verb) (values : List String) : Bool := verb = set && values.length = 1

/-- Splits the arguments behind a command into options and values. A double dash ends the options;
so does the first word of a text, which may be dashed if it is no known option. A value too many is
refused where it stands. -/
def values (verb : Verb) (o : Options) (found : List String) :
    List String → Except Stop (Options × List String)
  | [] => .ok (o, found)
  | argument :: rest =>
    if argument = "--" then .ok (o, found ++ rest)
    else if isDashed argument && !(verb.startsText found && !(Scope.after verb).knows argument) then
      match (Scope.after verb).option (verb.startsText found) o argument rest.head? with
      | .ok (o, taken) => verb.values o found (rest.drop taken)
      | .error stop => .error stop
    else if verb.isFull found then .error .usage
    else if verb.startsText found then .ok (o, found ++ argument :: rest)
    else verb.values o (found ++ [argument]) rest
termination_by arguments => arguments.length
decreasing_by
  · rw [List.length_drop, List.length_cons]
    omega
  · exact Nat.lt_succ_self _

end Verb

def readCommand (before : Options) (verb : Verb) (arguments : List String) :
    Except Stop (Options × Command) := do
  let (after, values) ← verb.values .empty [] arguments
  match verb.command? after.raw values with
  | some command =>
    if before.isConsistent && after.isConsistent then .ok (before.merge after, command)
    else .error .usage
  | none => .error .usage

def readHelp : List String → Stop
  | [] => .help
  | [name] => if name = "help" ∨ (Verb.ofName? name).isSome then .help else .usage
  | _ => .usage

def readAfter (o : Options) : List String → Except Stop (Options × Command)
  | [] => .error .usage
  | argument :: rest =>
    if isDashed argument then
      match Scope.before.option false o argument rest.head? with
      | .ok (o, taken) => readAfter o (rest.drop taken)
      | .error stop => .error stop
    else
      match Verb.ofName? argument with
      | some verb => readCommand o verb rest
      | none => .error (if argument = "help" then readHelp rest else .usage)
termination_by arguments => arguments.length
decreasing_by
  rw [List.length_drop, List.length_cons]
  omega

def read (arguments : List String) : Except Stop (Options × Command) := readAfter .empty arguments

end Worksheet.CommandLine
