import Stencil.Text.Blank
import Stencil.Text.DecimalDigit
import Stencil.Text.Word

/-!
# Tokens of expressions

An expression stands in the text of a template and has no end mark, so tokens are read one at a time
at a cursor. A lexeme is always a part at the start of what is left.

* `Cursor`: a position and the text from there on.
* `scan`: the kind and the lexeme of the token at the start of a text.
* `Cursor.token`, `Cursor.skipBlank`: the token at a cursor, and the cursor after white space.
-/

namespace Stencil

open Text

/-- **A position and the text from there on.** -/
structure Cursor where
  position : Nat
  rest : List Char
  deriving DecidableEq, Repr

namespace Cursor

/-- The cursor at a position of a text; a position beyond the end is the end. -/
def ofText (text : List Char) (position : Nat) : Cursor :=
  ⟨min position text.length, text.drop position⟩

/-- The cursor `n` characters further on. -/
def skip (c : Cursor) (n : Nat) : Cursor := ⟨c.position + n, c.rest.drop n⟩

/-- The cursor after the longest run of characters of a class. -/
def skipWhile (c : Cursor) (p : Char → Bool) : Cursor :=
  ⟨c.position + (c.rest.takeWhile p).length, c.rest.dropWhile p⟩

/-- The cursor at the next character that is not white space. -/
def skipBlank (c : Cursor) : Cursor := c.skipWhile isBlank

/-- The text at the cursor starts with the given one. -/
def startsWith (c : Cursor) (s : String) : Bool := s.toList.isPrefixOf c.rest

/-- A number of steps that suffices to read on from the cursor. -/
def steps (c : Cursor) : Nat := 16 * (c.rest.length + 2)

end Cursor

namespace Expr

/-- The kinds of tokens. -/
inductive TokenKind where
  | blank
  | int
  | float
  | string
  | name
  | keyword
  | op
  | unknown
  | eof
  deriving DecidableEq, Repr

/-- **A token**: its kind, its lexeme and where it starts. -/
structure Token where
  kind : TokenKind
  text : List Char
  position : Nat
  deriving DecidableEq, Repr

namespace Token

/-- The token is the given operator. -/
def isOp (t : Token) (s : String) : Bool := t.kind = .op && t.text = s.toList

/-- The token is the given keyword. -/
def isKeyword (t : Token) (s : String) : Bool := t.kind = .keyword && t.text = s.toList

/-- The lexeme as a string. -/
def value (t : Token) : String := String.ofList t.text

end Token

/-! ## Classes of lexemes -/

/-- The part of a text that a class takes from its start, if any, and the rest. -/
abbrev Split := Option (List Char × List Char)

/-- A digit or an underscore. -/
def isNumeralPart (c : Char) : Bool := isDigit c || c == '_'

/-- Digits, with underscores between and after them. -/
def numeral? : List Char → Split
  | c :: cs =>
    if isDigit c then some (c :: cs.takeWhile isNumeralPart, cs.dropWhile isNumeralPart) else none
  | [] => none

/-- Digits, at least one. -/
def digits? (cs : List Char) : Split :=
  let run := cs.takeWhile isDigit
  if run.isEmpty then none else some (run, cs.dropWhile isDigit)

/-- An exponent: its letter, an optional sign and digits. -/
def exponent? : List Char → Split
  | e :: cs =>
    if e == 'e' || e == 'E' then
      match cs with
      | s :: ds =>
        if s == '+' || s == '-' then (digits? ds).map fun (run, rest) => (e :: s :: run, rest)
        else (digits? cs).map fun (run, rest) => (e :: run, rest)
      | [] => none
    else none
  | [] => none

/-- A number with a fraction or an exponent; the fraction starts with a digit, so that two points
after a number are no part of it. -/
def float? (cs : List Char) : Split := do
  let (whole, rest) ← numeral? cs
  match rest with
  | '.' :: after =>
    let (fraction, rest) ← numeral? after
    match exponent? rest with
    | some (exponent, rest) => pure (whole ++ '.' :: fraction ++ exponent, rest)
    | none => pure (whole ++ '.' :: fraction, rest)
  | _ =>
    let (exponent, rest) ← exponent? rest
    pure (whole ++ exponent, rest)

/-- The digits of a base by its letter, underscores included. -/
def radixPart? (letter : Char) : Option (Char → Bool) :=
  if letter == 'x' || letter == 'X' then some fun c => isHexDigit c || c == '_'
  else if letter == 'o' || letter == 'O' then some fun c => '0' ≤ c && c ≤ '7' || c == '_'
  else if letter == 'b' || letter == 'B' then some fun c => c == '0' || c == '1' || c == '_'
  else none

/-- An integer in a base that is named by a letter. -/
def radix? : List Char → Split
  | '0' :: letter :: cs => do
    let p ← radixPart? letter
    if (cs.takeWhile p).isEmpty then none
    else some ('0' :: letter :: cs.takeWhile p, cs.dropWhile p)
  | _ => none

/-- An integer. -/
def int? (cs : List Char) : Split :=
  match radix? cs with
  | some s => some s
  | none => numeral? cs

/-- The inside of a string up to and including its closing quote. -/
def closing? (mark : Char) : List Char → Split
  | [] => none
  | '\\' :: c :: cs => (closing? mark cs).map fun (run, rest) => ('\\' :: c :: run, rest)
  | c :: cs =>
    if c == mark then some ([c], cs)
    else if c == '\\' then none
    else (closing? mark cs).map fun (run, rest) => (c :: run, rest)

/-- A string between quotes of either kind. -/
def string? : List Char → Split
  | c :: cs =>
    if c == '"' || c == '\'' then (closing? c cs).map fun (run, rest) => (c :: run, rest) else none
  | [] => none

/-- A character that may start a name: a word character that is no decimal digit. -/
def isNameStart (c : Char) : Bool := isWord c && !isDigit c

/-- A name. -/
def name? : List Char → Split
  | c :: cs => if isNameStart c then some (c :: cs.takeWhile isWord, cs.dropWhile isWord) else none
  | [] => none

/-- The operators, longer ones before those they start with. -/
def operators : List String := [
  "..=", "..", "::", "=>", "==", "!=", "<=", ">=", "&&", "||",
  "<", ">", "+", "-", "*", "/", "%", "!", "=", ".", ",", ":", "(", ")", "[", "]", "\x7b", "\x7d",
  "|"]

/-- An operator, the longest that fits. -/
def op? (cs : List Char) : Split :=
  (operators.find? fun o => o.toList.isPrefixOf cs).map fun o => (o.toList, cs.drop o.length)

/-- White space, at least one character. -/
def blank? (cs : List Char) : Split :=
  let run := cs.takeWhile isBlank
  if run.isEmpty then none else some (run, cs.dropWhile isBlank)

/-- The words that are not names. -/
def keywords : List String := [
  "and", "or", "not", "in", "if", "else", "let", "for", "match", "true", "false", "True", "False",
  "None"]

/-- The kind of a word. -/
def wordKind (word : List Char) : TokenKind :=
  if keywords.contains (String.ofList word) then .keyword else .name

/-! ## The token at the start of a text -/

/-- A lexeme with its kind, and the text after it. -/
structure Scan where
  kind : TokenKind
  text : List Char
  rest : List Char
  deriving DecidableEq, Repr

/-- A part taken by a class, as a lexeme of the given kind. -/
def Split.scan (s : Split) (kind : List Char → TokenKind) : Option Scan :=
  s.map fun (run, rest) => ⟨kind run, run, rest⟩

/-- **The token at the start of a text**: the first class in this order that takes a part of it;
a character that no class takes stands alone. -/
def scan (cs : List Char) : Scan :=
  match cs with
  | [] => ⟨.eof, [], []⟩
  | c :: rest =>
    ((blank? cs).scan fun _ => .blank)
      |>.or ((float? cs).scan fun _ => .float)
      |>.or ((int? cs).scan fun _ => .int)
      |>.or ((string? cs).scan fun _ => .string)
      |>.or ((name? cs).scan wordKind)
      |>.or ((op? cs).scan fun _ => .op)
      |>.getD ⟨.unknown, [c], rest⟩

end Expr

namespace Cursor

open Stencil.Expr

/-- **The token at a cursor**, and the cursor after it. -/
def token (c : Cursor) : Token × Cursor :=
  let s := scan c.rest
  (⟨s.kind, s.text, c.position⟩, ⟨c.position + s.text.length, s.rest⟩)

/-- The next token and the cursor after it, white space before it skipped if it is allowed. -/
def peek (c : Cursor) (spaced : Bool) : Token × Cursor :=
  if spaced then c.skipBlank.token else c.token

/-- The tokens from a cursor on, the end included. -/
def tokens (c : Cursor) : List Token :=
  go (c.rest.length + 1) c
where
  /-- At most `steps` tokens. -/
  go : Nat → Cursor → List Token
    | 0, _ => []
    | steps + 1, c =>
      let (t, next) := c.token
      if t.kind = .eof then [t] else t :: go steps next

end Cursor

end Stencil
