import Stencil.Yaml.Scalar

/-!
# Parts of configuration texts

Outside brackets, a column further to the right opens a level, and one further to the left closes
levels. What stands before a colon becomes a key only when the colon is seen, so its place is kept
as a candidate.

* `Yaml.Lexer`: the parts read so far, the open levels and the candidates.
* `Yaml.tokens`: the parts of a text.
-/

namespace Stencil.Yaml

/-- **Something that becomes a key if a colon follows on its line**: the number of parts before it,
and its place. -/
structure Candidate where
  number : Nat
  position : Nat
  line : Nat
  column : Nat
  /-- It stands where only a key can stand. -/
  required : Bool
  deriving DecidableEq, Repr

/-- The greatest length of a key. -/
def maxKeyLength : Nat := 1024

/-- **The state of reading parts.** -/
structure Lexer where
  cursor : Cursor
  /-- The parts read so far, the last one first. -/
  tokens : List Token
  /-- The number of open brackets. -/
  flow : Nat
  /-- The column of the innermost level outside brackets; -1 if there is none. -/
  indent : Int
  /-- The columns of the levels around it. -/
  outer : List Int
  /-- A key may start here. -/
  keyAllowed : Bool
  /-- The candidates inside each open bracket, the innermost one first. -/
  candidates : List (Option Candidate)
  deriving Repr

namespace Lexer

def start (text : List Char) : Lexer := ⟨⟨text, 0, 0, 0⟩, [], 0, -1, [], true, [none]⟩

def inFlow (l : Lexer) : Bool := l.flow != 0

/-- One more part. -/
def push (l : Lexer) (t : Token) : Lexer := { l with tokens := t :: l.tokens }

/-- Parts put after a number of the parts read so far. -/
def insert (l : Lexer) (number : Nat) (ts : List Token) : Lexer :=
  let later := l.tokens.length - number
  { l with tokens := l.tokens.take later ++ ts.reverse ++ l.tokens.drop later }

/-- **Closes the levels to the right of a column.** -/
def unwindFrom (column : Int) (l : Lexer) : List Int → Lexer
  | [] => l
  | i :: outer =>
    if column < l.indent then unwindFrom column { l.push .blockEnd with indent := i, outer } outer
    else l

/-- Closes the levels to the right of a column; inside brackets columns do not count. -/
def unwind (l : Lexer) (column : Int) : Lexer :=
  if l.inFlow then l else unwindFrom column l l.outer

/-- Opens a level at a column, unless it is open: the level begins with the given part, which goes
after a number of the parts read so far. -/
def openLevel (l : Lexer) (column number : Nat) (t : Token) : Lexer :=
  if l.indent < column then
    { l.insert number [t] with indent := column, outer := l.indent :: l.outer }
  else l

/-- The candidate at hand is dropped; one that is required cannot be. -/
def dropCandidate (l : Lexer) : Except Problem Lexer :=
  match l.candidates with
  | some c :: cs =>
    if c.required then .error .missingColon else .ok { l with candidates := none :: cs }
  | _ => .ok l

/-- A candidate that ends on another line or is too long. -/
def isStale (l : Lexer) (c : Candidate) : Bool :=
  c.line != l.cursor.line || l.cursor.position - c.position > maxKeyLength

/-- Drops the candidates that no colon can follow any more. -/
def dropStale (l : Lexer) : Except Problem Lexer :=
  let stale := l.candidates.filterMap fun c => c.filter l.isStale
  if stale.any (·.required) then .error .missingColon
  else .ok { l with candidates := l.candidates.map fun c => c.filter (!l.isStale ·) }

/-- What follows may be a key. -/
def addCandidate (l : Lexer) : Except Problem Lexer :=
  if l.keyAllowed then do
    let l ← l.dropCandidate
    let c := l.cursor
    let required := !l.inFlow && l.indent == (c.column : Int)
    let candidate : Candidate := ⟨l.tokens.length, c.position, c.line, c.column, required⟩
    return { l with candidates := some candidate :: l.candidates.tail }
  else .ok l

/-! ## Space -/

/-- Skips space, comments and line breaks. A tab is skipped only where no key may start. -/
def skipSpace : Nat → Lexer → Lexer
  | 0, l => l
  | steps + 1, l =>
    let tabs := l.inFlow || !l.keyAllowed
    let c := l.cursor.skipWhile fun d => d = ' ' || (tabs && d = '\t')
    let c := if c.sees '#' then c.skipWhile (!isBreak ·) else c
    if c.rest.head?.any isBreak then
      skipSpace steps { l with cursor := c.next, keyAllowed := l.keyAllowed || !l.inFlow }
    else { l with cursor := c }

/-! ## Parts -/

/-- A part of some characters, after which a key may start or not. -/
def take (l : Lexer) (width : Nat) (t : Token) (keyAllowed : Bool) : Lexer :=
  { l.push t with cursor := l.cursor.skip width, keyAllowed }

/-- A mark between documents. -/
def readMark (l : Lexer) (t : Token) : Except Problem Lexer := do
  let l ← (l.unwind (-1)).dropCandidate
  return l.take 3 t false

/-- A directive: the version of the format, which must be 1, or anything else. -/
def readDirective (l : Lexer) : Except Problem Lexer := do
  let l ← (l.unwind (-1)).dropCandidate
  let line := l.cursor.rest.takeWhile (!isBreak ·)
  let name := (line.drop 1).takeWhile (!isSpace ·)
  let argument := ((line.drop (1 + name.length)).dropWhile isSpace).takeWhile (!isSpace ·)
  if name = ['Y', 'A', 'M', 'L'] && argument != ['1', '.', '1'] && argument != ['1', '.', '2'] then
    throw .badDirective
  return l.take line.length .directive false

/-- An opening bracket. -/
def openFlow (l : Lexer) (t : Token) : Except Problem Lexer := do
  let l ← l.addCandidate
  return { l.take 1 t true with flow := l.flow + 1, candidates := none :: l.candidates }

/-- A closing bracket. -/
def closeFlow (l : Lexer) (t : Token) : Except Problem Lexer := do
  let l ← l.dropCandidate
  let candidates := if l.inFlow then l.candidates.tail else l.candidates
  return { l.take 1 t false with flow := l.flow - 1, candidates }

/-- A comma between brackets. -/
def readComma (l : Lexer) : Except Problem Lexer := do
  let l ← l.dropCandidate
  return l.take 1 .comma true

/-- The dash of an entry. -/
def readEntry (l : Lexer) : Except Problem Lexer := do
  if l.inFlow || !l.keyAllowed then throw .misplacedEntry
  let l := l.openLevel l.cursor.column l.tokens.length .sequenceStart
  let l ← l.dropCandidate
  return l.take 1 .entry true

/-- The mark of a key. -/
def readKey (l : Lexer) : Except Problem Lexer := do
  if !l.inFlow && !l.keyAllowed then throw .misplacedKey
  let l := if l.inFlow then l else l.openLevel l.cursor.column l.tokens.length .mappingStart
  let l ← l.dropCandidate
  return l.take 1 .key (!l.inFlow)

/-- The colon of a value: the candidate at hand, if there is one, becomes a key. -/
def readValue (l : Lexer) : Except Problem Lexer := do
  match l.candidates with
  | some c :: cs =>
    let l := { l.insert c.number [.key] with candidates := none :: cs }
    let l := if l.inFlow then l else l.openLevel c.column c.number .mappingStart
    return l.take 1 .value false
  | _ =>
    if !l.inFlow && !l.keyAllowed then throw .misplacedKey
    let l := if l.inFlow then l else l.openLevel l.cursor.column l.tokens.length .mappingStart
    let l ← l.dropCandidate
    return l.take 1 .value (!l.inFlow)

/-- A character of an anchor's name. -/
def isNameChar (c : Char) : Bool := c.isAlphanum || c = '-' || c = '_'

/-- The name after the mark of an anchor or a reference to one. -/
def readName (l : Lexer) (t : String → Token) : Except Problem Lexer := do
  let l ← l.addCandidate
  let name := (l.cursor.rest.drop 1).takeWhile isNameChar
  let after := l.cursor.rest.drop (1 + name.length)
  if name.isEmpty || !(Cursor.isGap after || after.head?.any "?:,]\x7d%@\x60".toList.contains) then
    throw .badName
  return l.take (1 + name.length) (t (String.ofList name)) false

/-- The name that a tag stands for; none if it cannot be read. -/
def tagName? : List Char → Option String
  | '!' :: '<' :: cs =>
    if cs.getLast? = some '>' then some (String.ofList cs.dropLast) else none
  | '!' :: '!' :: cs => if cs.isEmpty then none else some (coreTags ++ String.ofList cs)
  | cs => if (cs.drop 1).contains '!' then none else some (String.ofList cs)

/-- A tag. -/
def readTag (l : Lexer) : Except Problem Lexer := do
  let l ← l.addCandidate
  let text := l.cursor.rest.takeWhile fun c =>
    !(isSpace c || isBreak c || (l.inFlow && c = ','))
  match tagName? text with
  | some name => return l.take text.length (.tag name) false
  | none => throw .badTag

/-- A block scalar. -/
def readBlockScalar (l : Lexer) (isFolded : Bool) : Except Problem Lexer := do
  let l ← l.dropCandidate
  let (text, cursor) ← readBlock isFolded l.indent l.cursor.next
  return { l.push (.scalar text false) with cursor, keyAllowed := true }

/-- A quoted scalar. -/
def readQuotedScalar (l : Lexer) (quote : Char) : Except Problem Lexer := do
  let l ← l.addCandidate
  let (text, cursor) ← readQuoted quote l.cursor.rest.length l.cursor.next
  return { l.push (.scalar text false) with cursor, keyAllowed := false }

/-- A plain scalar. -/
def readPlainScalar (l : Lexer) : Except Problem Lexer := do
  let l ← l.addCandidate
  let (text, broken, cursor) ←
    readPlain l.inFlow (l.indent + 1) (l.cursor.rest.length + 1) l.cursor
  return { l.push (.scalar text true) with cursor, keyAllowed := broken }

/-- The characters that mean something at the start of a part. -/
def isIndicator (c : Char) : Bool := "-?:,[]\x7b\x7d#&*!|>'\"%@\x60".toList.contains c

/-- A plain scalar can start here. -/
def startsPlain (l : Lexer) (c : Char) : Bool :=
  !(isIndicator c || isSpace c) ||
    (!l.cursor.beforeGap && (c = '-' || (!l.inFlow && (c = '?' || c = ':'))))

/-- **The next part**, which starts with the given character. -/
def readToken (l : Lexer) (c : Char) : Except Problem Lexer :=
  let here := l.cursor
  if c = '%' && here.column = 0 then l.readDirective
  else if here.atMark '-' then l.readMark .documentStart
  else if here.atMark '.' then l.readMark .documentEnd
  else if c = '[' then l.openFlow .flowSequenceStart
  else if c = '\x7b' then l.openFlow .flowMappingStart
  else if c = ']' then l.closeFlow .flowSequenceEnd
  else if c = '\x7d' then l.closeFlow .flowMappingEnd
  else if c = ',' then l.readComma
  else if c = '-' && here.beforeGap then l.readEntry
  else if c = '?' && (l.inFlow || here.beforeGap) then l.readKey
  else if c = ':' && (l.inFlow || here.beforeGap) then l.readValue
  else if c = '*' then l.readName .reference
  else if c = '&' then l.readName .anchor
  else if c = '!' then l.readTag
  else if c = '|' && !l.inFlow then l.readBlockScalar false
  else if c = '>' && !l.inFlow then l.readBlockScalar true
  else if c = '\'' || c = '"' then l.readQuotedScalar c
  else if l.startsPlain c then l.readPlainScalar
  else .error (.badCharacter c)

/-- All further parts. -/
def readAll : Nat → Lexer → Except Problem (List Token)
  | 0, _ => .error .outOfSteps
  | steps + 1, l => do
    let l ← (l.skipSpace (l.cursor.rest.length + 1)).dropStale
    let l := l.unwind l.cursor.column
    match l.cursor.rest with
    | [] => return (← (l.unwind (-1)).dropCandidate).tokens.reverse
    | c :: _ => readAll steps (← l.readToken c)

end Lexer

/-- **The parts of a text.** A mark of byte order at its start does not count. -/
def tokens (text : List Char) : Except Problem (List Token) :=
  let text := if text.head? = some '\ufeff' then text.drop 1 else text
  match text.find? (!isAllowed ·) with
  | some c => .error (.badCharacter c)
  | none => (Lexer.start text).readAll (text.length + 1)

end Stencil.Yaml
