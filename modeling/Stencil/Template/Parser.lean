import Stencil.Pattern.Parser
import Stencil.Template.Lexical
import Stencil.Template.Name

/-!
# Reading templates

A template starts with import statements and comments, then declares its parameters in `@(...)`; all
that follows is its body.

```text
@@  @{  @}                                   the characters @ { }
@expr  @(expr)                               a value, escaped
@!expr  @!(expr)                             a value, not escaped
@if cond {..} @else if cond {..} @else {..}  a branch; a condition may be  let pattern = expr
@for pattern in expr {..}                    a loop
@match expr { pattern if guard => {..} .. }  cases
@:name(args) {..}                            a call
@* .. *@   @// ..                            comments
```

* `Outline.parse`: the import statements, parameters and body of a text.
* `Read.body`: a body up to its end; in a block that is the first brace that closes more than the
  text of the block has opened.
-/

namespace Stencil

open Stencil.Text Stencil.Expr

/-- The deepest nesting of blocks. -/
def maxNesting : Nat := 64

namespace Template.Read

/-- **One block deeper**, at the brace that opens it. -/
def enter (depth position : Nat) : Except Failure Nat :=
  if depth < maxNesting then .ok (depth + 1) else .error (.at (.blocksTooDeep maxNesting) position)

/-! ## The preamble -/

/-- An import statement without white space around it and without one semicolon at its end. -/
def statement (text : List Char) : List Char :=
  let text := trim text
  if text.getLast? = some ';' then trimEnd text.dropLast else text

/-- The import statement at a cursor: up to the end of its line. -/
def import? (c : Cursor) : Option (String × Cursor) :=
  let after := c.skip 1
  let length :=
    if after.atWordBlank "import" then some 7 else if after.atWordBlank "from" then some 5 else none
  if c.startsWith "@" then
    length.map fun n =>
      let last := (after.skip n).skipWhile fun c => c != '\r' && c != '\n'
      (String.ofList (statement (after.rest.take (last.position - after.position))), last)
  else none

/-- The import statements before a declaration, comments skipped. -/
def preamble : Nat → Cursor → Except Failure (List String × Cursor)
  | 0, _ => .error .outOfSteps
  | steps + 1, c => do
    let c := c.skipBlank
    match c.comment? with
    | some comment => preamble steps (← comment).2
    | none =>
      match import? c with
      | some (s, c) =>
        let (ss, c) ← preamble steps c
        return (s :: ss, c)
      | none =>
        if c.startsWith "@(" then return ([], c) else .error (.at .expectedDeclaration c.position)

/-- A parameter's name must be free to use in the code, and not stand twice. -/
def checkParam (name : String) (seen : List String) (position : Nat) : Except Failure Unit :=
  if isReserved name then .error (.at (.reservedParameter name) position)
  else if ownPrefix.toList.isPrefixOf name.toList then
    .error (.at (.ownParameter ownPrefix) position)
  else if seen.contains name then .error (.at (.duplicateParameter name) position)
  else .ok ()

/-- The type of a parameter: its text with white space collapsed. -/
def paramType (c : Cursor) : Except Failure (String × Cursor) := do
  let (span, rest) ← typeSpan c.position [] none c.position c.rest
  let type := collapse span
  if type.isEmpty then .error (.at .expectedType c.position)
  else return (String.ofList type, ⟨c.position + span.length, rest⟩)

/-- The parameters up to the closing parenthesis; `seen` are the names before them. -/
def params : Nat → List String → Cursor → Except Failure (List Param × Cursor)
  | 0, _, _ => .error .outOfSteps
  | steps + 1, seen, c => do
    let c := c.skipBlank
    if c.startsWith ")" then return ([], c.skip 1)
    else
      match name? c.rest with
      | none => .error (.at .expectedParameter c.position)
      | some (word, _) =>
        let name := String.ofList word
        checkParam name seen c.position
        let c := (c.skip word.length).skipBlank
        if c.startsWith ":" then
          let (type, c) ← paramType (c.skip 1)
          let c := c.skipBlank
          let (ps, c) ← params steps (name :: seen) (if c.startsWith "," then c.skip 1 else c)
          return (⟨name, type⟩ :: ps, c)
        else .error (.at (.expectedColon name) c.position)

/-! ## Conditions -/

/-- The condition of a branch. -/
def condition (c : Cursor) : Except Failure (Condition × Cursor) := do
  let c := c.skipBlank
  if c.atWordBlank "let" then
    let (p, c) ← Pattern.read (c.skip 3)
    let c := c.skipBlank
    if c.startsWith "=" && !c.startsWith "==" then
      let (e, c) ← readExpression (c.skip 1)
      return (.matches p e, c)
    else .error (.at .expectedLetValue c.position)
  else
    let (e, c) ← readExpression c
    return (.holds e, c)

/-- The guard of a case, if it has one. -/
def guard? (c : Cursor) : Except Failure (Option Expr × Cursor) := do
  if c.atWord "if" then
    let (e, c) ← readExpression (c.skip 2)
    return (some e, c.skipBlank)
  else return (none, c)

/-! ## Bodies -/

/-- Text that has been read and not yet become a node: where it starts, and what it is. -/
structure Pending where
  position : Nat
  text : List Char

/-- More text after what is pending; the start is that of the first text that is not empty. -/
def Pending.add (p : Pending) (position : Nat) (text : List Char) : Pending :=
  if p.text.isEmpty then ⟨position, text⟩ else ⟨p.position, p.text ++ text⟩

/-- The pending text as a node, if there is any. -/
def Pending.nodes (p : Pending) : List Node :=
  if p.text.isEmpty then [] else [.text p.position (String.ofList p.text)]

mutual

/-- **A body up to its end.** `braces` counts the braces that its text has opened. -/
def body : Nat → Bool → Nat → Nat → Pending → Cursor → Except Failure (Body × Cursor)
  | 0, _, _, _, _, _ => .error .outOfSteps
  | steps + 1, inBlock, depth, braces, pending, c => do
    let (run, braces) := Cursor.plainRun inBlock braces c.rest
    let pending := pending.add c.position run
    let c := c.skip run.length
    match c.escaped? with
    | some ch => body steps inBlock depth braces (pending.add c.position [ch]) (c.skip 2)
    | none =>
      if c.startsWith "@" then
        let (node, c) ← construct steps depth c
        let (nodes, c) ← body steps inBlock depth braces ⟨c.position, []⟩ c
        return (pending.nodes ++ node :: nodes, c)
      else return (pending.nodes, c)
termination_by structural x => x

/-- A block between braces; white space may stand before it. -/
def block : Nat → Nat → Cursor → Except Failure (Body × Cursor)
  | 0, _, _ => .error .outOfSteps
  | steps + 1, depth, c => do
    let c := c.skipBlank
    if c.startsWith "\x7b" then
      let (nodes, close) ← body steps true (← enter depth c.position) 0 ⟨c.position, []⟩ (c.skip 1)
      if close.startsWith "\x7d" then return (nodes, close.skip 1)
      else .error (.at .unclosedBlock c.position)
    else .error (.at .expectedBlock c.position)
termination_by structural x => x

/-- The construct at an `@`. -/
def construct : Nat → Nat → Cursor → Except Failure (Node × Cursor)
  | 0, _, _ => .error .outOfSteps
  | steps + 1, depth, c => do
    let start := c.position
    let after := c.skip 1
    match c.comment? with
    | some comment =>
      let (text, c) ← comment
      return (.comment start text, c)
    | none =>
      if after.startsWith ":" then call steps depth start (after.skip 1)
      else if after.startsWith "!" then
        let (e, c) ← readChain (after.skip 1)
        return (.value start e true, c)
      else
        match after.keyword? with
        | some (.if, c) =>
          let (arms, otherwise, c) ← branches steps depth c
          return (.branch start arms otherwise, c.skipNewline)
        | some (.for, c) =>
          let (p, c) ← Pattern.read c.skipBlank
          let c := c.skipBlank
          if c.atWord "in" then
            let (e, c) ← readExpression (c.skip 2)
            let (nodes, c) ← block steps depth c
            return (.loop start p e nodes, c.skipNewline)
          else .error (.at .expectedIn c.position)
        | some (.match, c) =>
          let (e, c) ← readExpression c
          let c := c.skipBlank
          if c.startsWith "\x7b" then
            let (arms, last) ← cases steps (← enter depth c.position) c.position (c.skip 1)
            return (.cases start e arms, last.skipNewline)
          else .error (.at .expectedMatchBlock c.position)
        | none =>
          if after.startsWith "else" && !(after.skip 4).atName then
            .error (.at .elseWithoutIf start)
          else if after.startsWith "(" || after.atName then
            let (e, c) ← readChain after
            return (.value start e false, c)
          else .error (.at .expectedConstruct start)
termination_by structural x => x

/-- A condition with its block, and the branches after it. -/
def branches : Nat → Nat → Cursor →
    Except Failure (List (Condition × Body) × Option Body × Cursor)
  | 0, _, _ => .error .outOfSteps
  | steps + 1, depth, c => do
    let (cond, c) ← condition c
    let (nodes, c) ← block steps depth c
    match c.elseMark? with
    | none => return ([(cond, nodes)], none, c)
    | some next =>
      if next.startsWith "\x7b" then
        let (last, c) ← block steps depth next
        return ([(cond, nodes)], some last, c)
      else
        let (arms, otherwise, c) ← branches steps depth next
        return ((cond, nodes) :: arms, otherwise, c)
termination_by structural x => x

/-- The cases up to the closing brace of a match that opened at `start`. -/
def cases : Nat → Nat → Nat → Cursor →
    Except Failure (List (Pattern × Option Expr × Body) × Cursor)
  | 0, _, _, _ => .error .outOfSteps
  | steps + 1, depth, start, c => do
    let c ← c.skipComments
    if c.rest.isEmpty then .error (.at .unclosedMatch start)
    else if c.startsWith "\x7d" then return ([], c.skip 1)
    else
      let (p, c) ← Pattern.read c
      let (guard, c) ← guard? c.skipBlank
      if c.startsWith "=>" then
        let (nodes, c) ← block steps depth (c.skip 2)
        let c ← c.skipComments
        let (arms, c) ← cases steps depth start (if c.startsWith "," then c.skip 1 else c)
        return ((p, guard, nodes) :: arms, c)
      else .error (.at .expectedArrow c.position)
termination_by structural x => x

/-- A call after its mark: a path, arguments and blocks. -/
def call : Nat → Nat → Nat → Cursor → Except Failure (Node × Cursor)
  | 0, _, _, _ => .error .outOfSteps
  | steps + 1, depth, start, c => do
    let (path, c) ← readPath c
    if c.startsWith "(" then
      let (args, c) ← arguments steps depth (c.skip 1)
      let (blocks, c) ← blocks steps depth c
      return (.call start path args blocks, if blocks.isEmpty then c else c.skipNewline)
    else .error (.at .expectedArguments c.position)
termination_by structural x => x

/-- The arguments of a call up to the closing parenthesis. -/
def arguments : Nat → Nat → Cursor → Except Failure (List (Expr ⊕ Body) × Cursor)
  | 0, _, _ => .error .outOfSteps
  | steps + 1, depth, c => do
    let c := c.skipBlank
    if c.startsWith ")" then return ([], c.skip 1)
    else
      let (arg, c) ← argument steps depth c
      let c := c.skipBlank
      if c.startsWith "," then
        let (args, c) ← arguments steps depth (c.skip 1)
        return (arg :: args, c)
      else if c.startsWith ")" then return ([arg], c.skip 1)
      else .error (.at .expectedArgumentEnd c.position)
termination_by structural x => x

/-- One argument of a call: a block or an expression. -/
def argument : Nat → Nat → Cursor → Except Failure ((Expr ⊕ Body) × Cursor)
  | 0, _, _ => .error .outOfSteps
  | steps + 1, depth, c => do
    if c.startsWith "\x7b" then
      let (nodes, c) ← block steps depth c
      return (.inr nodes, c)
    else
      let (e, c) ← readExpression c
      return (.inl e, c)
termination_by structural x => x

/-- The blocks after a call. -/
def blocks : Nat → Nat → Cursor → Except Failure (List Body × Cursor)
  | 0, _, _ => .error .outOfSteps
  | steps + 1, depth, c => do
    match c.blockMark? with
    | none => return ([], c)
    | some next =>
      let (nodes, c) ← block steps depth next
      let (more, c) ← blocks steps depth c
      return (nodes :: more, c)
termination_by structural x => x

end

end Template.Read

/-- **The import statements, the parameters and the body of a template text.** -/
def Outline.parse (text : List Char) : Except Failure Outline := do
  let c := Cursor.ofText text 0
  let (imports, c) ← Template.Read.preamble c.steps c
  let (params, c) ← Template.Read.params c.steps [] (c.skip 2)
  let c := c.skipDeclarationEnd
  let (body, _) ← Template.Read.body c.steps false 0 0 ⟨c.position, []⟩ c
  return ⟨imports, params, body⟩

/-- **The template of a text** with the given name; `file` is its name in messages. -/
def Template.parse (name : TemplateName) (path : Path) (file : String) (text : List Char) :
    Except Error Template := do
  let outline ← Source.lift ⟨text, file⟩ (Outline.parse text)
  return { name, outline with path, text }

end Stencil
