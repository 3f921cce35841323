/-!
# Configuration texts

* `Yaml.Problem`: what can be wrong with a text.
* `Yaml.Cursor`: a place in a text; lines and columns decide what belongs together.
* `Yaml.Token`: the parts of a text.
-/

namespace Stencil.Yaml

/-- **What is wrong with a text.** -/
inductive Problem where
  /-- A character that no text may hold, or that no part of a text starts with. -/
  | badCharacter (c : Char)
  | badDirective
  | badName
  | badTag
  | badEscape
  | badBlockHeader
  | unclosedQuote
  | misplacedEntry
  | misplacedKey
  | missingColon
  | unexpectedToken
  | undefinedAlias (name : String)
  | unknownTag (tag : String)
  | repeatedKey
  | mappingAsKey
  | badMerge
  | severalDocuments
  /-- A number without digits, a day that does not exist, or a number with too many digits. -/
  | unreadableNumber
  | outOfSteps
  deriving DecidableEq, Repr

/-- A character that ends a line. -/
def isBreak (c : Char) : Bool := c = '\n'

/-- A character that separates parts of a line. -/
def isSpace (c : Char) : Bool := c = ' ' || c = '\t'

/-- A character that may stand in a text. -/
def isAllowed (c : Char) : Bool :=
  let n := c.toNat
  n = 9 || n = 10 || n = 13 || n = 0x85 || (0x20 ≤ n && n ≤ 0x7e) || (0xa0 ≤ n && n ≤ 0xfffd) ||
    0x10000 ≤ n

/-- **A place in a text**: the rest of the text, its position, line and column, all from zero. -/
structure Cursor where
  rest : List Char
  position : Nat
  line : Nat
  column : Nat
  deriving DecidableEq, Repr

namespace Cursor

/-- The place after the first character of a rest. -/
def advance (c : Cursor) (first : Char) (rest : List Char) : Cursor :=
  if isBreak first then ⟨rest, c.position + 1, c.line + 1, 0⟩
  else ⟨rest, c.position + 1, c.line, c.column + 1⟩

/-- The place after the next character. -/
def next (c : Cursor) : Cursor :=
  match c.rest with
  | [] => c
  | first :: rest => c.advance first rest

/-- The place after a number of characters. -/
def skip : Nat → Cursor → Cursor
  | 0, c => c
  | n + 1, c => skip n c.next

/-- The place after the characters that pass a test. -/
def skipWhile (test : Char → Bool) (c : Cursor) : Cursor :=
  c.skip (c.rest.takeWhile test).length

/-- The next character is the given one. -/
def sees (c : Cursor) (d : Char) : Bool := c.rest.head? = some d

/-- A text ends, or goes on with a space or a line break. -/
def isGap (cs : List Char) : Bool := cs.head?.all fun c => isSpace c || isBreak c

/-- The next character stands before a gap. -/
def beforeGap (c : Cursor) : Bool := isGap (c.rest.drop 1)

/-- Three equal characters that stand alone at the start of a line. -/
def atMark (c : Cursor) (d : Char) : Bool :=
  c.column = 0 && [d, d, d].isPrefixOf c.rest && isGap (c.rest.drop 3)

/-- A mark between documents. -/
def atDocumentMark (c : Cursor) : Bool := c.atMark '-' || c.atMark '.'

end Cursor

/-- **A part of a text.** -/
inductive Token where
  | directive
  | documentStart
  | documentEnd
  | sequenceStart
  | mappingStart
  | blockEnd
  | flowSequenceStart
  | flowSequenceEnd
  | flowMappingStart
  | flowMappingEnd
  | entry
  | comma
  | key
  | value
  | reference (name : String)
  | anchor (name : String)
  | tag (name : String)
  | scalar (text : List Char) (plain : Bool)
  deriving DecidableEq, Repr

/-- The tags whose names start with two marks. -/
def coreTags : String := "tag:yaml.org,2002:"

end Stencil.Yaml
