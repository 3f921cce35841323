import Stencil.Expr.Literal
import Stencil.Text.Identifier

/-!
# Reading expressions

An expression has no end mark: reading starts at a cursor and stops where the grammar does.

```text
expression  or ((".." | "..=") or)?
or, and, comparison, sum, product   left-associative, from the loosest level to the tightest
unary       ("not" | "!" | "-") unary | postfix
postfix     primary ("." NAME | "." NAME arguments | arguments | "[" expression "]")*
primary     literal | path | "(" ... ")" | "[" ... "]"
path        NAME ("::" NAME)*
```

* `readExpression`: a full expression, white space allowed between its tokens.
* `readChain`: a postfix expression without white space outside brackets; one that starts with a
  parenthesis ends with the matching one.
* `readPath`: a path without white space.
* `parse`: a whole text as one expression.
-/

namespace Stencil.Expr

open Text

namespace Read

/-- The deepest nesting of parentheses, lists, arguments and unary operators in one expression. -/
def maxDepth : Nat := 32

/-- A failure at a token. -/
def fail {α : Type} (problem : Problem) (t : Token) : Except Failure α :=
  .error (.at problem t.position)

/-- **One level deeper**, at the token that opens it. -/
def enter (depth : Nat) (t : Token) : Except Failure Nat :=
  if depth < maxDepth then .ok (depth + 1) else fail .expressionTooDeep t

/-- A token that is to serve as a name must not be reserved. -/
def checkName (t : Token) : Except Failure String :=
  if isReserved t.value then fail (.reservedName t.value) t else .ok t.value

/-! ## Paths -/

/-- The parts of a path after its first one. -/
def pathRest : Nat → Cursor → Except Failure (List String × Cursor)
  | 0, _ => .error .outOfSteps
  | steps + 1, c =>
    let (mark, afterMark) := c.token
    if mark.isOp "::" then do
      let (t, next) := afterMark.token
      if t.kind = .name then
        let name ← checkName t
        let (parts, c) ← pathRest steps next
        return (name :: parts, c)
      else fail .expectedPathName t
    else .ok ([], c)

/-- A path: its first part may have white space before it if `spaced`. -/
def path (steps : Nat) (spaced : Bool) (c : Cursor) : Except Failure (List String × Cursor) := do
  let (t, next) := c.peek spaced
  if t.kind = .name then
    let name ← checkName t
    let (parts, c) ← pathRest steps next
    return (name :: parts, c)
  else fail .expectedName t

/-! ## Operators -/

/-- The binary operator that a token stands for. -/
def binaryOp? (t : Token) : Option BinaryOp :=
  if t.isKeyword "or" || t.isOp "||" then some .or
  else if t.isKeyword "and" || t.isOp "&&" then some .and
  else if t.isOp "==" then some .eq
  else if t.isOp "!=" then some .ne
  else if t.isOp "<" then some .lt
  else if t.isOp "<=" then some .le
  else if t.isOp ">" then some .gt
  else if t.isOp ">=" then some .ge
  else if t.isOp "+" then some .add
  else if t.isOp "-" then some .sub
  else if t.isOp "*" then some .mul
  else if t.isOp "/" then some .div
  else if t.isOp "%" then some .mod
  else none

/-- The unary operator that a token stands for. -/
def unaryOp? (t : Token) : Option UnaryOp :=
  if t.isKeyword "not" || t.isOp "!" then some .not else if t.isOp "-" then some .neg else none

/-- The binary operator of the given level that a token stands for. -/
def binaryOpAt? (level : Nat) (t : Token) : Option BinaryOp :=
  (binaryOp? t).filter (·.level == level)

/-! ## Expressions -/

/-- The path as an expression. -/
def ofPath (position : Nat) : List String → Expr
  | [n] => .name position n
  | parts => .path position parts

mutual

/-- An expression with its optional range. -/
def expression : Nat → Bool → Nat → Cursor → Except Failure (Expr × Cursor)
  | 0, _, _, _ => .error .outOfSteps
  | steps + 1, spaced, depth, c => do
    let (start, c) ← binary steps spaced depth 0 c
    let (t, next) := c.peek spaced
    if t.isOp ".." || t.isOp "..=" then
      let (stop, c) ← binary steps spaced depth 0 next
      return (.range start.position start stop (t.isOp "..="), c)
    else return (start, c)
termination_by structural x => x

/-- Operands of tighter levels joined by the operators of one level. -/
def binary : Nat → Bool → Nat → Nat → Cursor → Except Failure (Expr × Cursor)
  | 0, _, _, _, _ => .error .outOfSteps
  | steps + 1, spaced, depth, level, c =>
    if level < BinaryOp.levels then do
      let (left, c) ← binary steps spaced depth (level + 1) c
      binaryRest steps spaced depth level left c
    else unary steps spaced depth c
termination_by structural x => x

/-- The operators of one level after a left operand, with their right operands. -/
def binaryRest : Nat → Bool → Nat → Nat → Expr → Cursor → Except Failure (Expr × Cursor)
  | 0, _, _, _, _, _ => .error .outOfSteps
  | steps + 1, spaced, depth, level, left, c =>
    let (t, next) := c.peek spaced
    match binaryOpAt? level t with
    | none => .ok (left, c)
    | some op => do
      let (right, c) ← binary steps spaced depth (level + 1) next
      binaryRest steps spaced depth level (.binary left.position op left right) c
termination_by structural x => x

/-- A postfix expression below its unary operators. -/
def unary : Nat → Bool → Nat → Cursor → Except Failure (Expr × Cursor)
  | 0, _, _, _ => .error .outOfSteps
  | steps + 1, spaced, depth, c =>
    let (t, next) := c.peek spaced
    match unaryOp? t with
    | some op => do
      let (operand, c) ← unary steps spaced (← enter depth t) next
      return (.unary t.position op operand, c)
    | none => postfixed steps spaced depth c
termination_by structural x => x

/-- A primary expression with the links after it. -/
def postfixed : Nat → Bool → Nat → Cursor → Except Failure (Expr × Cursor)
  | 0, _, _, _ => .error .outOfSteps
  | steps + 1, spaced, depth, c => do
    let (base, c) ← primary steps spaced depth c
    links steps spaced depth base c
termination_by structural x => x

/-- The links after an expression: fields, methods, calls and indices. A point that no name follows
is no link where white space is not allowed. -/
def links : Nat → Bool → Nat → Expr → Cursor → Except Failure (Expr × Cursor)
  | 0, _, _, _, _ => .error .outOfSteps
  | steps + 1, spaced, depth, base, c => do
    let (t, next) := c.peek spaced
    if t.isOp "." then
      let (n, afterName) := next.token
      if n.kind = .name then
        let name ← checkName n
        if (afterName.peek spaced).1.isOp "(" then
          let (args, c) ← items steps spaced depth ')' afterName
          links steps spaced depth (.method base.position base name args) c
        else links steps spaced depth (.field base.position base name) afterName
      else if spaced then fail .expectedMember n
      else return (base, c)
    else if t.isOp "(" then
      let (args, c) ← items steps spaced depth ')' c
      links steps spaced depth (.call base.position base args) c
    else if t.isOp "[" then
      let (place, c) ← expression steps true depth next
      let (close, c) := c.peek true
      if close.isOp "]" then links steps spaced depth (.index base.position base place) c
      else fail .expectedIndexEnd close
    else return (base, c)
termination_by structural x => x

/-- A literal, a path, or an expression in brackets. -/
def primary : Nat → Bool → Nat → Cursor → Except Failure (Expr × Cursor)
  | 0, _, _, _ => .error .outOfSteps
  | steps + 1, spaced, depth, c => do
    let (t, next) := c.peek spaced
    match Literal.ofToken t with
    | some value => return (.literal t.position (← value), next)
    | none =>
      if t.kind = .name then
        let (parts, c) ← path steps spaced c
        return (ofPath t.position parts, c)
      else if t.isOp "(" then parenthesized steps (← enter depth t) t.position next
      else if t.isOp "[" then
        let (items, c) ← items steps spaced depth ']' c
        return (.list t.position items, c)
      else if t.kind = .unknown && (t.text = ['"'] || t.text = ['\'']) then
        fail .unterminatedString t
      else fail .expectedExpression t
termination_by structural x => x

/-- A group or a tuple after its opening parenthesis. -/
def parenthesized : Nat → Nat → Nat → Cursor → Except Failure (Expr × Cursor)
  | 0, _, _, _ => .error .outOfSteps
  | steps + 1, depth, position, c => do
    let (t, next) := c.peek true
    if t.isOp ")" then return (.tuple position [], next)
    else
      let (first, c) ← expression steps true depth c
      let (t, next) := c.peek true
      if t.isOp "," then
        let (rest, c) ← tupleRest steps depth c
        return (.tuple position (first :: rest), c)
      else if t.isOp ")" then return (.group position first, next)
      else fail .expectedGroupEnd t
termination_by structural x => x

/-- The items of a tuple after its first one, each after its comma; the last comma may stand before
the closing parenthesis. -/
def tupleRest : Nat → Nat → Cursor → Except Failure (List Expr × Cursor)
  | 0, _, _ => .error .outOfSteps
  | steps + 1, depth, c => do
    let (t, next) := c.peek true
    if t.isOp "," then
      let (close, afterClose) := next.peek true
      if close.isOp ")" then return ([], afterClose)
      else
        let (item, c) ← expression steps true depth next
        let (rest, c) ← tupleRest steps depth c
        return (item :: rest, c)
    else if t.isOp ")" then return ([], next)
    else fail .expectedTupleEnd t
termination_by structural x => x

/-- A bracketed list from its opening bracket on. -/
def items : Nat → Bool → Nat → Char → Cursor → Except Failure (List Expr × Cursor)
  | 0, _, _, _, _ => .error .outOfSteps
  | steps + 1, spaced, depth, closing, c => do
    let (t, next) := c.peek spaced
    itemsRest steps (← enter depth t) closing next
termination_by structural x => x

/-- The items of a list up to its closing bracket; a comma may stand before it. -/
def itemsRest : Nat → Nat → Char → Cursor → Except Failure (List Expr × Cursor)
  | 0, _, _, _ => .error .outOfSteps
  | steps + 1, depth, closing, c => do
    let (t, next) := c.peek true
    if t.isOp closing.toString then return ([], next)
    else
      let (item, c) ← expression steps true depth c
      let (t, next) := c.peek true
      if t.isOp "," then
        let (rest, c) ← itemsRest steps depth closing next
        return (item :: rest, c)
      else if t.isOp closing.toString then return ([item], next)
      else fail (.expectedItemEnd closing) t
termination_by structural x => x

end

end Read

/-! ## Entry points -/

/-- **A full expression**, with white space allowed between its tokens. -/
def readExpression (c : Cursor) : Except Failure (Expr × Cursor) :=
  Read.expression c.steps true 0 c

/-- **A chain**: a postfix expression without white space outside brackets. One that starts with a
parenthesis ends with the matching one. -/
def readChain (c : Cursor) : Except Failure (Expr × Cursor) :=
  if c.token.1.isOp "(" then Read.primary c.steps false 0 c else Read.postfixed c.steps false 0 c

/-- **A path** without white space. -/
def readPath (c : Cursor) : Except Failure (List String × Cursor) :=
  Read.path c.steps false c

/-- **A whole text as one expression.** -/
def parse (text : List Char) : Except Failure Expr := do
  let (e, c) ← readExpression (Cursor.ofText text 0)
  let c := c.skipBlank
  if c.rest.isEmpty then return e else .error (.at .unexpectedText c.position)

end Stencil.Expr
