import Stencil.Text.DecimalDigit
import Stencil.Yaml.Basic

/-!
# Scalars of configuration texts

* `Yaml.readPlain`, `Yaml.readQuoted`, `Yaml.readBlock`: the text of a scalar and the place after
  it.
* `Yaml.folded`: line breaks inside a scalar: one alone counts as a space.
-/

namespace Stencil.Yaml

/-- What white space with the given number of line breaks stands for: spaces inside a line count as
they are, one line break as a space, and each further one as itself. -/
def folded (spaces : List Char) : Nat → List Char
  | 0 => spaces
  | 1 => [' ']
  | breaks + 1 => List.replicate breaks '\n'

/-- White space before something: what it stands for, whether it has a line break, and the place
after it. -/
def readSpace (c : Cursor) : List Char × Bool × Cursor :=
  let space := c.rest.takeWhile fun d => isSpace d || isBreak d
  let breaks := (space.filter isBreak).length
  (folded space breaks, breaks != 0, c.skip space.length)

/-! ## Plain scalars -/

/-- A character that means something between brackets. -/
def isFlowMark (c : Char) : Bool := [',', '[', ']', '\x7b', '\x7d'].contains c

/-- A plain scalar cannot go on with this text. -/
def endsPlain (flow : Bool) : List Char → Bool
  | [] => true
  | c :: cs =>
    isSpace c || isBreak c ||
      (c = ':' && (Cursor.isGap cs || (flow && cs.head?.any isFlowMark))) || (flow && isFlowMark c)

/-- A word of a plain scalar, and what follows it. -/
def plainWord (flow : Bool) : List Char → List Char
  | [] => []
  | c :: cs => if endsPlain flow (c :: cs) then [] else c :: plainWord flow cs

/-- A tab stands where a further line has to be indented by spaces. The column is none in the first
line. -/
def tabIndents (indent : Int) : Option Nat → List Char → Bool
  | _, [] => false
  | column, c :: cs =>
    if isBreak c then tabIndents indent (some 0) cs
    else (c = '\t' && column.any fun n => (n : Int) < indent) ||
      tabIndents indent (column.map (· + 1)) cs

/-- **A plain scalar**: its text, whether a line break follows it, and the place after both. Outside
brackets its further lines are indented at least as far as given. -/
def readPlain (flow : Bool) (indent : Int) :
    Nat → Cursor → Except Problem (List Char × Bool × Cursor)
  | 0, _ => .error .outOfSteps
  | steps + 1, c => do
    let word := plainWord flow c.rest
    let start := c.skip word.length
    let (space, broken, after) := readSpace start
    if tabIndents indent none (start.rest.take (after.position - start.position)) then
      throw (.badCharacter '\t')
    let goesOn := !(space.isEmpty || after.sees '#' || after.atDocumentMark ||
      (!flow && (after.column : Int) < indent) || endsPlain flow after.rest)
    if goesOn then
      let (more, broken, last) ← readPlain flow indent steps after
      return (word ++ space ++ more, broken, last)
    else return (word, broken, after)

/-! ## Quoted scalars -/

/-- The character of an escape of one letter. -/
def escaped? (c : Char) : Option Char :=
  [('0', '\x00'), ('a', '\x07'), ('b', '\x08'), ('t', '\t'), ('\t', '\t'), ('n', '\n'),
    ('v', '\x0b'), ('f', '\x0c'), ('r', '\r'), ('e', '\x1b'), (' ', ' '), ('"', '"'), ('/', '/'),
    ('\\', '\\'), ('N', '\u0085'), ('_', '\u00a0'), ('L', '\u2028'), ('P', '\u2029')].lookup c

/-- The number of digits of an escape by code. -/
def escapeWidth? (c : Char) : Option Nat := [('x', 2), ('u', 4), ('U', 8)].lookup c

/-- The character of a code; none if there is no such character. -/
def charOf? (digits : List Char) : Option Char := do
  let code := Text.ofDigits 16 (← digits.mapM Text.hexValue?)
  if code.isValidChar then return Char.ofNat code else none

/-- An escape, given without its backslash: what it stands for and the place after it. -/
def readEscape (c : Cursor) : Except Problem (List Char × Cursor) :=
  match c.rest with
  | [] => .error .unclosedQuote
  | d :: rest =>
    match escaped? d, escapeWidth? d with
    | some e, _ => .ok ([e], c.next)
    | none, some n =>
      match decide ((rest.take n).length = n), charOf? (rest.take n) with
      | true, some e => .ok ([e], c.skip (n + 1))
      | _, _ => .error .badEscape
    | none, none =>
      if isBreak d then
        let space := rest.takeWhile fun e => isSpace e || isBreak e
        .ok (List.replicate (space.filter isBreak).length '\n', c.skip (space.length + 1))
      else .error .badEscape

/-- **A quoted scalar**, given without its opening quote: its text and the place after it. A double
quote allows escapes; a single one stands for itself if it is doubled. -/
def readQuoted (quote : Char) : Nat → Cursor → Except Problem (List Char × Cursor)
  | 0, _ => .error .unclosedQuote
  | steps + 1, c =>
    match c.rest with
    | [] => .error .unclosedQuote
    | d :: rest =>
      if d = quote then
        if quote = '\'' && rest.head? = some quote then more steps [quote] (c.skip 2)
        else .ok ([], c.next)
      else if d = '\\' && quote = '"' then
        match readEscape c.next with
        | .ok (text, after) => more steps text after
        | .error e => .error e
      else if isSpace d || isBreak d then
        let (space, _, after) := readSpace c
        if after.atDocumentMark then .error .unclosedQuote else more steps space after
      else more steps [d] c.next
where
  /-- The rest of the scalar after a part of it. -/
  more (steps : Nat) (text : List Char) (c : Cursor) : Except Problem (List Char × Cursor) :=
    (readQuoted quote steps c).map fun (rest, after) => (text ++ rest, after)

/-! ## Block scalars -/

/-- What happens to the line breaks at the end of a block scalar. -/
inductive Chomping where
  | strip
  | clip
  | keep
  deriving DecidableEq, Repr

/-- A sign of a block header. -/
def chomping? : Char → Option Chomping
  | '-' => some .strip
  | '+' => some .keep
  | _ => none

/-- A digit of a block header. -/
def blockIndent? (c : Char) : Option Nat :=
  if '1' ≤ c ∧ c ≤ '9' then some (c.toNat - '0'.toNat) else none

/-- The signs of a block header, in any order. -/
def blockSigns : List Char → Option Chomping × Option Nat × Nat
  | a :: b :: _ =>
    match chomping? a, blockIndent? a, chomping? b, blockIndent? b with
    | some k, _, _, some n | _, some n, some k, _ => (some k, some n, 2)
    | some k, _, _, _ => (some k, none, 1)
    | _, some n, _, _ => (none, some n, 1)
    | _, _, _, _ => (none, none, 0)
  | [a] =>
    match chomping? a, blockIndent? a with
    | some k, _ => (some k, none, 1)
    | _, some n => (none, some n, 1)
    | _, _ => (none, none, 0)
  | [] => (none, none, 0)

/-- The place after the rest of a line that holds nothing but a comment. -/
def skipHeader (c : Cursor) : Except Problem Cursor :=
  let c := c.skipWhile isSpace
  let c := if c.sees '#' then c.skipWhile (!isBreak ·) else c
  if c.rest.head?.all isBreak then .ok c.next else .error .badBlockHeader

/-- The indentation of a block scalar whose header gives none: that of its first line that is not
empty, or of the longest line before the end. -/
def leadingIndent (deepest column : Nat) : List Char → Nat
  | [] => deepest
  | c :: cs =>
    if c = ' ' then leadingIndent (max deepest (column + 1)) (column + 1) cs
    else if isBreak c then leadingIndent deepest 0 cs
    else deepest

/-- Empty lines: their number and the place after them and after the indentation that follows. -/
def skipEmptyLines (indent : Nat) : Nat → Cursor → Nat × Cursor
  | 0, c => (0, c)
  | steps + 1, c =>
    let c := c.skip (min (indent - c.column) (c.rest.takeWhile (· = ' ')).length)
    if c.rest.head?.any isBreak then
      let (n, after) := skipEmptyLines indent steps c.next
      (n + 1, after)
    else (0, c)

/-- What stands between two lines of a block scalar, given whether it is folded and neither line
starts with a space, and the number of empty lines between them. -/
def between (isFolded : Bool) (empty : Nat) : List Char :=
  if isFolded then if empty = 0 then [' '] else List.replicate empty '\n'
  else List.replicate (empty + 1) '\n'

/-- What stands at the end of a block scalar: `ended` says that its last line has an end. -/
def tail (chomping : Chomping) (ended : Bool) (empty : Nat) : List Char :=
  let last := if ended then ['\n'] else []
  match chomping with
  | .strip => []
  | .clip => last
  | .keep => last ++ List.replicate empty '\n'

/-- The lines of a block scalar, from the first one that is not empty. -/
def blockLines (isFolded : Bool) (chomping : Chomping) (indent : Nat) :
    Nat → Cursor → List Char × Cursor
  | 0, c => ([], c)
  | steps + 1, c =>
    let line := c.rest.takeWhile (!isBreak ·)
    let after := c.skip line.length
    let ended := !after.rest.isEmpty
    let (empty, next) := skipEmptyLines indent steps after.next
    if next.column = indent && !next.rest.isEmpty then
      let folds := isFolded && !(line.head?.any isSpace) && !(next.rest.head?.any isSpace)
      let (more, last) := blockLines isFolded chomping indent steps next
      (line ++ between folds empty ++ more, last)
    else (line ++ tail chomping ended empty, next)

/-- **A block scalar**, given without its first character: its text and the place after it. `outer`
is the indentation of what it belongs to. -/
def readBlock (isFolded : Bool) (outer : Int) (c : Cursor) :
    Except Problem (List Char × Cursor) := do
  let (chomping, given, width) := blockSigns c.rest
  let chomping := chomping.getD .clip
  let start ← skipHeader (c.skip width)
  let least := max 1 (outer + 1).toNat
  let indent :=
    match given with
    | some n => least + n - 1
    | none => max least (leadingIndent 0 0 start.rest)
  let (empty, first) := skipEmptyLines indent start.rest.length start
  if first.column = indent && !first.rest.isEmpty then
    let (text, after) := blockLines isFolded chomping indent first.rest.length first
    return (List.replicate empty '\n' ++ text, after)
  else return (if chomping = .keep then List.replicate empty '\n' else [], first)

end Stencil.Yaml
