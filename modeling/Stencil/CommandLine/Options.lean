import Stencil.Decimal.Read
import Stencil.Path

/-!
# Arguments

* `Request.parse`: what the arguments of the program ask for, if they can be read.
* `Options`: the options of a command.

Options can be shortened as far as they stay unambiguous, and their values can follow an equal sign.
Options that belong to no command go before it.
-/

namespace Stencil.CommandLine

/-! ## Options -/

/-- The meaning of an option. -/
inductive Meaning where
  | help
  | version
  | verbose
  | json
  | config
  | templates
  | output
  | package
  | workers
  deriving DecidableEq, Repr

/-- The option is followed by a value. -/
def Meaning.takesValue : Meaning → Bool
  | help | version | verbose | json => false
  | config | templates | output | package | workers => true

/-- The names of options, with their meanings. -/
abbrev Table := List (String × Meaning)

/-- The options that belong to no command. -/
def generalTable : Table := [
  ("-h", .help), ("--help", .help), ("--version", .version), ("-v", .verbose),
  ("--verbose", .verbose)]

/-- The options of commands. -/
def commandTable : Table := [
  ("-h", .help), ("--help", .help), ("--config", .config), ("--templates", .templates),
  ("--output", .output), ("--package", .package), ("--workers", .workers), ("--json", .json)]

/-! ## Arguments -/

/-- What stands in one argument with the name of an option. -/
inductive Attached where
  | nothing
  /-- A value after an equal sign. -/
  | value (text : String)
  /-- The letters of further options. -/
  | letters (cs : List Char)
  deriving DecidableEq, Repr

/-- **What an argument looks like.** -/
inductive Argument where
  | word (text : String)
  /-- Two dashes: what follows are words. -/
  | dashes
  | option (meaning : Meaning) (attached : Attached)
  | unknown
  deriving DecidableEq, Repr

/-- A text cut at its first equal sign. -/
def splitEqual (cs : List Char) : List Char × Attached :=
  match cs.dropWhile (· ≠ '=') with
  | _ :: value => (cs.takeWhile (· ≠ '='), .value (String.ofList value))
  | [] => (cs, .nothing)

/-- A negative number, which is no option. -/
def isNegative : List Char → Bool
  | '-' :: cs =>
    let fraction := cs.dropWhile Text.isDigit
    match fraction with
    | [] => !cs.isEmpty
    | c :: ds => c = '.' && !ds.isEmpty && ds.all Text.isDigit
  | _ => false

/-- The options that a text can be short for, or start with. -/
def candidates (table : Table) (cs : List Char) : List Argument :=
  if ['-', '-'].isPrefixOf cs then
    let (start, attached) := splitEqual cs
    table.filterMap fun (name, m) =>
      if start.isPrefixOf name.toList then some (.option m attached) else none
  else
    table.filterMap fun (name, m) =>
      if name.toList = cs.take 2 then some (.option m (.letters (cs.drop 2)))
      else if cs.isPrefixOf name.toList then some (.option m .nothing)
      else none

/-- What an argument looks like; none if it is short for more than one option. -/
def classify (table : Table) (arg : String) : Option Argument :=
  let cs := arg.toList
  if cs.head? != some '-' then some (.word arg)
  else
    match table.lookup arg with
    | some m => some (.option m .nothing)
    | none =>
      if cs = ['-'] then some (.word arg)
      else
        let (name, attached) := splitEqual cs
        match table.lookup (String.ofList name) with
        | some m => some (.option m attached)
        | none =>
          match candidates table cs with
          | [a] => some a
          | [] =>
            if isNegative cs || cs.contains ' ' then some (.word arg) else some .unknown
          | _ => none

/-- What arguments look like. -/
def classifyAll (table : Table) : List String → Option (List Argument)
  | [] => some []
  | arg :: args =>
    if arg = "--" then some (.dashes :: args.map .word)
    else do return (← classify table arg) :: (← classifyAll table args)

/-! ## Requests -/

/-- **What is done with a package.** -/
inductive Command where
  | build
  | check
  deriving DecidableEq, Repr

/-- The command of a name. -/
def Command.ofName? (name : String) : Option Command :=
  [("build", build), ("check", check)].lookup name

/-- **The options of a command.** -/
structure Options where
  command : Command
  config : Option Path
  templates : Option Path
  output : Option Path
  package : Option String
  workers : Option Int
  json : Bool
  deriving DecidableEq, Repr

/-- **What is asked for.** -/
inductive Request where
  | help
  | version
  | run (options : Options)
  deriving DecidableEq, Repr

/-- A command without options. -/
def Options.plain (command : Command) : Options := ⟨command, none, none, none, none, none, false⟩

/-- The options with the value of one; none if it cannot be read. -/
def Options.setValue (o : Options) (m : Meaning) (value : String) : Option Options :=
  match m with
  | .config => some { o with config := some (.parse value) }
  | .templates => some { o with templates := some (.parse value) }
  | .output => some { o with output := some (.parse value) }
  | .package => some { o with package := some value }
  | .workers => (integer? value.toList).map fun n => { o with workers := some n }
  | _ => none

/-- The options of an option and the letters after it, and whether a letter names none; what follows
such a letter does not count. No letter is a dash, and none is followed by an equal sign. -/
def grouped (table : Table) (m : Meaning) : List Char → Option (List Meaning × Bool)
  | [] => some ([m], false)
  | c :: cs =>
    match c, table.lookup (String.ofList ['-', c]), cs.head? with
    | '-', _, _ => none
    | _, none, _ => some ([m], true)
    | _, some _, some '=' => none
    | _, some next, _ => (grouped table next cs).map fun (ms, strange) => (m :: ms, strange)

/-- The options of an argument whose option takes no value, and whether there is more in it that
could not be used. -/
def flags (table : Table) (m : Meaning) : Attached → Option (List Meaning × Bool)
  | .nothing => some ([m], false)
  | .value _ => none
  | .letters cs => grouped table m cs

/-- The value in the argument of an option. -/
def Attached.value? : Attached → Option String
  | value v => some v
  | _ => none

/-- Options without values are applied; none stands for asking for help. -/
def Options.setFlags (o : Options) (ms : List Meaning) : Option Options :=
  if ms.contains .help then none else some { o with json := o.json || ms.contains .json }

/-- Reads the arguments of a command. `strange` says that one could not be used, which is an error
unless help is asked for. -/
def readCommand (o : Options) (strange : Bool) : List Argument → Option Request
  | [] => if strange then none else some (.run o)
  | .option m .nothing :: .word v :: args =>
    if m.takesValue then (o.setValue m v).bind fun o => readCommand o strange args
    else
      match o.setFlags [m] with
      | some o => readCommand o true args
      | none => some .help
  | .option m attached :: args =>
    if m.takesValue then
      (attached.value?.bind (o.setValue m)).bind fun o => readCommand o strange args
    else
      (flags commandTable m attached).bind fun (ms, more) =>
        match o.setFlags ms with
        | some o => readCommand o (strange || more) args
        | none => some .help
  | _ :: args => readCommand o true args

/-- Reads the arguments before a command; what follows it belongs to it. -/
def readGeneral (strange : Bool) : List (Argument × List String) → Option Request
  | [] => none
  | (.unknown, _) :: args => readGeneral true args
  | (.option m attached, _) :: args =>
    (flags generalTable m attached).bind fun (ms, more) =>
      match ms.find? (· != .verbose) with
      | some .version => some .version
      | some _ => some .help
      | none => readGeneral (strange || more) args
  | (.word name, rest) :: _ => do
    let command ← Command.ofName? name
    readCommand (.plain command) strange (← classifyAll commandTable rest)
  | (.dashes, _) :: _ => none

/-- The ends of a list after each of its elements. -/
def restsOf {α : Type} : List α → List (List α)
  | [] => []
  | _ :: l => l :: restsOf l

/-- **What the arguments of the program ask for**; none if they cannot be read. -/
def Request.parse (args : List String) : Option Request := do
  readGeneral false ((← classifyAll generalTable args).zip (restsOf args))

end Stencil.CommandLine
