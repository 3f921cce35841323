import Stencil.Expr.Parser
import Stencil.Pattern.Basic

/-!
# Reading patterns

```text
pattern     single ("|" single)*
single      "_" | "-" number | literal | path | path list | path "{" fields "}" | list
list        "(" (pattern | "..") ("," (pattern | ".."))* ")"
fields      NAME (":" pattern)?, separated by commas; ".." may stand at the end
```

A list with one item, no comma and no `..` is that item. Of the `..` in the data of a variant no
trace is left, as patterns by position match the first fields anyway.

* `Pattern.read`: the pattern at a cursor, white space allowed between its tokens.
-/

namespace Stencil.Pattern

open Stencil.Expr Stencil.Expr.Read

namespace Read

/-- The number after a minus sign, negated. -/
def negative (position : Nat) (c : Cursor) : Except Failure (Pattern × Cursor) := do
  let (t, next) := c.peek true
  if t.kind = .int || t.kind = .float then
    match Literal.ofToken t with
    | some v => return (.literal position (← v).neg, next)
    | none => fail .expectedPatternNumber t
  else fail .expectedPatternNumber t

/-- What a bracketed list of patterns holds: its items, the number of items before its `..`, and
whether a comma stands before its closing bracket. -/
structure Listed where
  items : List Pattern
  rest : Option Nat
  trailing : Bool

/-- The pattern of a parenthesized list. -/
def Listed.pattern (l : Listed) (position : Nat) : Pattern :=
  match l with
  | ⟨[p], none, false⟩ => p
  | ⟨items, rest, _⟩ => .tuple position items rest

/-- A path without anything after it: a name or a variant. -/
def ofPath (position : Nat) : List String → Pattern
  | [n] => .binding position n
  | parts => .value position parts

mutual

/-- A pattern with its alternatives. -/
def pattern : Nat → Nat → Cursor → Except Failure (Pattern × Cursor)
  | 0, _, _ => .error .outOfSteps
  | steps + 1, depth, c => do
    let (first, c) ← single steps depth c
    let (more, c) ← alternatives steps depth c
    if more.isEmpty then return (first, c) else return (.or first.position (first :: more), c)
termination_by structural x => x

/-- Further alternatives, each after its bar. -/
def alternatives : Nat → Nat → Cursor → Except Failure (List Pattern × Cursor)
  | 0, _, _ => .error .outOfSteps
  | steps + 1, depth, c => do
    let (t, next) := c.peek true
    if t.isOp "|" then
      let (p, c) ← single steps depth next
      let (more, c) ← alternatives steps depth c
      return (p :: more, c)
    else return ([], c)
termination_by structural x => x

/-- A pattern without alternatives at its top. -/
def single : Nat → Nat → Cursor → Except Failure (Pattern × Cursor)
  | 0, _, _ => .error .outOfSteps
  | steps + 1, depth, c => do
    let (t, next) := c.peek true
    if t.kind = .name && t.text = ['_'] then return (.wildcard t.position, next)
    else if t.isOp "-" then negative t.position next
    else
      match Literal.ofToken t with
      | some v => return (.literal t.position (← v), next)
      | none =>
        if t.isOp "(" then
          let (l, c) ← listed steps (← enter depth t) 0 none false next
          return (l.pattern t.position, c)
        else if t.kind = .name then
          let (parts, c) ← path steps true c
          let (t', next) := c.peek true
          if t'.isOp "(" then
            let (l, c) ← listed steps (← enter depth t') 0 none false next
            return (.variant t.position parts l.items, c)
          else if t'.isOp "\x7b" then
            let (fs, o, c) ← fields steps (← enter depth t') next
            return (.struct t.position parts fs o, c)
          else return (ofPath t.position parts, c)
        else fail .expectedPattern t
termination_by structural x => x

/-- The items of a list up to its closing parenthesis; `count` of them and perhaps the `..` have
been read, and `trailing` tells whether a comma was the last thing. -/
def listed : Nat → Nat → Nat → Option Nat → Bool → Cursor → Except Failure (Listed × Cursor)
  | 0, _, _, _, _, _ => .error .outOfSteps
  | steps + 1, depth, count, rest, trailing, c => do
    let (t, next) := c.peek true
    if t.isOp ")" then return (⟨[], rest, trailing⟩, next)
    else if t.isOp ".." then
      if rest.isSome then fail .secondRest t
      else listedEnd steps depth count (some count) next
    else
      let (p, c) ← pattern steps depth c
      let (l, c) ← listedEnd steps depth (count + 1) rest c
      return ({ l with items := p :: l.items }, c)
termination_by structural x => x

/-- The comma or the closing parenthesis after an item, and the items after it. -/
def listedEnd : Nat → Nat → Nat → Option Nat → Cursor → Except Failure (Listed × Cursor)
  | 0, _, _, _, _ => .error .outOfSteps
  | steps + 1, depth, count, rest, c => do
    let (t, next) := c.peek true
    if t.isOp "," then listed steps depth count rest true next
    else if t.isOp ")" then return (⟨[], rest, false⟩, next)
    else fail (.expectedPatternItemEnd ')') t
termination_by structural x => x

/-- The fields of a structure up to its closing brace, and whether they end in `..`. -/
def fields : Nat → Nat → Cursor → Except Failure (List (String × Pattern) × Bool × Cursor)
  | 0, _, _ => .error .outOfSteps
  | steps + 1, depth, c => do
    let (t, next) := c.peek true
    if t.isOp "\x7d" then return ([], false, next)
    else if t.isOp ".." then
      let (t, next) := next.peek true
      if t.isOp "\x7d" then return ([], true, next) else fail .restNotLast t
    else if t.kind = .name then
      let name ← checkName t
      let (colon, afterColon) := next.peek true
      let (p, c) ←
        if colon.isOp ":" then pattern steps depth afterColon
        else pure (.binding t.position name, next)
      let (t, next) := c.peek true
      if t.isOp "," then
        let (fs, o, c) ← fields steps depth next
        return ((name, p) :: fs, o, c)
      else if t.isOp "\x7d" then return ([(name, p)], false, next)
      else fail .expectedFieldEnd t
    else fail .expectedField t
termination_by structural x => x

end

end Read

/-- **The pattern at a cursor**, white space allowed between its tokens. -/
def read (c : Cursor) : Except Failure (Pattern × Cursor) := Read.pattern c.steps 0 c

end Stencil.Pattern
