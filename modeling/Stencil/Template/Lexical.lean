import Stencil.Problem
import Stencil.Expr.Token

/-!
# Marks in the text of a template

What a template's text is cut at, apart from expressions: comments, keywords, the `else` of a
branch, the end of a declaration and the types of parameters.

* `Cursor.comment?`: a comment of either kind.
* `Cursor.keyword?`, `Cursor.elseMark?`: the words that open and continue constructs.
* `Cursor.plainRun`: text up to the next `@` or the brace that closes a block.
* `typeSpan`: the text of a parameter's type.
-/

namespace Stencil

open Stencil.Text Stencil.Expr

namespace Cursor

/-- The cursor after the line feed at the cursor, with a carriage return before it, if there is
one. -/
def skipNewline (c : Cursor) : Cursor :=
  match c.rest with
  | '\r' :: '\n' :: _ => c.skip 2
  | '\n' :: _ => c.skip 1
  | _ => c

/-- The text starts with a word that no further word character follows. -/
def atWord (c : Cursor) (word : String) : Bool :=
  c.startsWith word && !((c.skip word.length).rest.head?.any isWord)

/-- The text starts with a word that white space follows. -/
def atWordBlank (c : Cursor) (word : String) : Bool :=
  c.startsWith word && (c.skip word.length).rest.head?.any isBlank

/-- The text starts with a character that may start a name. -/
def atName (c : Cursor) : Bool := c.rest.head?.any isNameStart

/-- The words that open constructs with blocks. -/
inductive Word where
  | if
  | for
  | match
  deriving DecidableEq, Repr

/-- **The word that opens a construct**, and the cursor after the white space character that must
follow it. -/
def keyword? (c : Cursor) : Option (Word × Cursor) :=
  if c.atWordBlank "if" then some (.if, c.skip 3)
  else if c.atWordBlank "for" then some (.for, c.skip 4)
  else if c.atWordBlank "match" then some (.match, c.skip 6)
  else none

/-- What follows an `else`: its block, white space aside, or ` if ` and a condition. -/
def afterElse? (c : Cursor) : Option Cursor :=
  let next := c.skipBlank
  if next.startsWith "\x7b" then some next
  else if next.position != c.position && next.atWordBlank "if" then some (next.skip 3)
  else none

/-- **The `else` of a branch**: with an `@` after any white space, or without one on the same
line. -/
def elseMark? (c : Cursor) : Option Cursor :=
  let far := c.skipBlank
  let near := c.skipWhile isSpaceOrTab
  if far.startsWith "@else" then (far.skip 5).afterElse?
  else if near.startsWith "else" then (near.skip 4).afterElse?
  else none

/-- The block after a call: on the same line. -/
def blockMark? (c : Cursor) : Option Cursor :=
  let next := c.skipWhile isSpaceOrTab
  if next.startsWith "\x7b" then some next else none

/-- The cursor after the line end that closes a declaration, spaces before it included; where it
stands if something else follows. -/
def skipDeclarationEnd (c : Cursor) : Cursor :=
  let next := c.skipWhile isSpaceOrTab
  if next.startsWith "\r\n" || next.startsWith "\n" then next.skipNewline else c

/-! ## Comments -/

/-- The text before the first `*@` and the text after it. -/
def beforeClose : List Char → Option (List Char × List Char)
  | [] => none
  | '*' :: '@' :: cs => some ([], cs)
  | c :: cs => (beforeClose cs).map fun (inside, rest) => (c :: inside, rest)

/-- The inside of a block comment that starts at the cursor, and the cursor after it. -/
def blockComment (c : Cursor) : Except Failure (String × Cursor) :=
  match beforeClose (c.skip 2).rest with
  | some (inside, rest) => .ok (String.ofList inside, ⟨c.position + 4 + inside.length, rest⟩)
  | none => .error (.at .unclosedComment c.position)

/-- The inside of a line comment that starts at the cursor, and the cursor after it: before the line
feed that ends it, with a carriage return before that. -/
def lineComment (c : Cursor) : String × Cursor :=
  let after := c.skip 3
  let line := after.rest.takeWhile (· != '\n')
  let ended := (after.rest.dropWhile (· != '\n')).head?.isSome
  let inside := if ended && line.getLast? = some '\r' then line.dropLast else line
  (String.ofList inside, after.skip inside.length)

/-- **The comment at the cursor**, if there is one. -/
def comment? (c : Cursor) : Option (Except Failure (String × Cursor)) :=
  if c.startsWith "@*" then some c.blockComment
  else if c.startsWith "@//" then some (.ok c.lineComment)
  else none

/-- The cursor after white space and comments, in at most `steps` steps. -/
def skipCommentsIn : Nat → Cursor → Except Failure Cursor
  | 0, _ => .error .outOfSteps
  | steps + 1, c =>
    let c := c.skipBlank
    match c.comment? with
    | none => .ok c
    | some comment => do skipCommentsIn steps (← comment).2

/-- **The cursor after white space and comments.** -/
def skipComments (c : Cursor) : Except Failure Cursor := skipCommentsIn c.steps c

/-! ## Plain text -/

/-- The text up to the next `@`; in a block also only up to the first brace that closes more than
the text has opened. `braces` counts the braces that are open. -/
def plainRun (inBlock : Bool) (braces : Nat) : List Char → List Char × Nat
  | [] => ([], braces)
  | c :: cs =>
    if c = '@' then ([], braces)
    else if inBlock && c = '\x7b' then
      let (run, braces) := plainRun inBlock (braces + 1) cs
      (c :: run, braces)
    else if inBlock && c = '\x7d' then
      match braces with
      | 0 => ([], 0)
      | braces + 1 =>
        let (run, braces) := plainRun inBlock braces cs
        (c :: run, braces)
    else
      let (run, braces) := plainRun inBlock braces cs
      (c :: run, braces)

/-- The character that an escape stands for. -/
def escaped? (c : Cursor) : Option Char :=
  match c.rest with
  | '@' :: '@' :: _ => some '@'
  | '@' :: '\x7b' :: _ => some '\x7b'
  | '@' :: '\x7d' :: _ => some '\x7d'
  | _ => none

end Cursor

/-! ## Types of parameters -/

/-- The bracket that closes an opening one. -/
def closerOf? : Char → Option Char
  | '(' => some ')'
  | '[' => some ']'
  | '\x7b' => some '\x7d'
  | _ => none

/-- A closing bracket. -/
def isCloser (c : Char) : Bool := c == ')' || c == ']' || c == '\x7d'

/-- A string inside a type: its quote, where it starts, and whether a backslash was read last. -/
structure OpenString where
  mark : Char
  position : Nat
  escaped : Bool

/-- **The text of a type** up to the comma or parenthesis that ends it, and the rest. `closers` are
the brackets that are still to be closed, and `string` the string that is still open. -/
def typeSpan (start : Nat) : List Char → Option OpenString → Nat → List Char →
    Except Failure (List Char × List Char)
  | _, some s, _, [] => .error (.at .unterminatedString s.position)
  | _, none, _, [] => .error (.at .unclosedDeclaration start)
  | closers, some s, position, c :: cs => do
    let next :=
      if s.escaped then some { s with escaped := false }
      else if c = '\\' then some { s with escaped := true }
      else if c = s.mark then none
      else some s
    let (span, rest) ← typeSpan start closers next (position + 1) cs
    return (c :: span, rest)
  | closers, none, position, c :: cs => do
    if c = '"' || c = '\'' then
      let (span, rest) ← typeSpan start closers (some ⟨c, position, false⟩) (position + 1) cs
      return (c :: span, rest)
    else if let some closer := closerOf? c then
      let (span, rest) ← typeSpan start (closer :: closers) none (position + 1) cs
      return (c :: span, rest)
    else if isCloser c then
      match closers with
      | [] => if c = ')' then return ([], c :: cs) else .error (.at (.unbalancedType c) position)
      | closer :: closers =>
        if closer = c then
          let (span, rest) ← typeSpan start closers none (position + 1) cs
          return (c :: span, rest)
        else .error (.at (.unbalancedType c) position)
    else if c = ',' && closers.isEmpty then return ([], c :: cs)
    else
      let (span, rest) ← typeSpan start closers none (position + 1) cs
      return (c :: span, rest)

end Stencil
