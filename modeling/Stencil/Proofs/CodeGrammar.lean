import Stencil.Proofs.CodeTokens
import Stencil.Text.Identifier

/-!
# Grammar of generated expressions and cases

The generated language has more operators than templates do, and its own levels: `not` binds more
loosely than comparisons, comparisons in a row form a chain, and what has links after it stands on
the tightest level. What is read here is a part of that language: conditional expressions, functions
without a name, assignments, comprehensions, slices and arguments by name are not read at all.

```text
levels      or | and | not | comparisons | "|" | "^" | "&" | shifts | sums | products | signs | "**"
primary     atom ("." NAME | "(" items ")" | "[" expression "]")*
atom        NUMBER | TEXT+ | NAME | "(" expression ")" | "(" items ")" | "[" items "]"
```

A case has a pattern of its own grammar: a bare name takes any value, a name with points is compared,
and a name with parentheses after it is a class. Patterns of mappings, sequences between brackets,
names for a part that matches or for the items that a star takes, and complex numbers are not read
at all. Names are taken as they are written. What the language checks after reading is left out: that
a name is bound once, that alternatives bind the same names, and that none but the last of them takes
every value.

```text
choices     closed ("|" closed)*
closed      literal | "_" | NAME | NAME ("." NAME)+ | NAME ("." NAME)* "(" parts ")" | "(" parts ")"
literal     "-"? NUMBER | TEXT+ | "None" | "True" | "False"
parts       (part ("," part)* ","?)?
part        "*" "_" | NAME "=" choices | choices
```

* `CodeExpr`: the trees of expressions; `CodeExpr.Level`, `CodeExpr.levels`: the operators.
* `CodeExpr.level`: an expression whose operators are of given levels.
* `CodePattern`: the trees of patterns; `CodePattern.choices`: alternatives at the start of tokens.
* `CodeExpr.read`, `CodePattern.read`: the trees of whole texts.
-/

namespace Stencil

open Text

/-- **An expression of generated code**, without the parentheses that group it. -/
inductive CodeExpr where
  | null
  | bool (b : Bool)
  | int (n : Nat)
  | float (x : Binary64)
  | text (points : List CodePoint)
  | name (name : String)
  | member (value : CodeExpr) (name : String)
  | call (func : CodeExpr) (args : List CodeExpr)
  | subscript (value index : CodeExpr)
  | tuple (items : List CodeExpr)
  | list (items : List CodeExpr)
  | unary (op : String) (operand : CodeExpr)
  | binary (op : String) (left right : CodeExpr)
  /-- Operands joined by `or` or by `and`; there are at least two. -/
  | junction (op : String) (operands : List CodeExpr)
  /-- A chain: each operand is compared with the one before it. -/
  | compare (first : CodeExpr) (rest : List (String × CodeExpr))

namespace CodeExpr

/-- **A level of operators.** -/
inductive Level where
  /-- Operands joined by a word. -/
  | junction (word : String)
  | inversion
  | comparison
  /-- Left-associative operators. -/
  | binary (ops : List String)
  | sign
  | power
  deriving DecidableEq, Repr

/-- **The levels of operators**, from the loosest to the tightest. -/
def levels : List Level := [
  .junction "or", .junction "and", .inversion, .comparison, .binary ["|"], .binary ["^"],
  .binary ["&"], .binary ["<<", ">>"], .binary ["+", "-"], .binary ["*", "@", "/", "//", "%"],
  .sign, .power]

/-- The signs before an operand. -/
def signs : List String := ["+", "-", "~"]

/-- The comparisons that are no words. -/
def comparisons : List String := ["==", "!=", "<", "<=", ">", ">="]

/-- The operator at the start of tokens, if it is one of the given ones. -/
def operator? (ops : List String) : List CodeToken → Option String
  | .op o :: _ => if o ∈ ops then some o else none
  | _ => none

/-- A comparison at the start of tokens, and the tokens after it. -/
def comparison? : List CodeToken → Option (String × List CodeToken)
  | .op o :: ts => if o ∈ comparisons then some (o, ts) else none
  | .word "in" :: ts => some ("in", ts)
  | .word "not" :: .word "in" :: ts => some ("not in", ts)
  | .word "is" :: .word "not" :: ts => some ("is not", ts)
  | .word "is" :: ts => some ("is", ts)
  | _ => none

/-- The texts at the start of tokens in a row, and the tokens after them. -/
def texts : List CodeToken → List CodePoint × List CodeToken
  | .text ps :: ts => (ps ++ (texts ts).1, (texts ts).2)
  | ts => ([], ts)

/-- What a word stands for by itself. -/
def ofWord? (w : String) : Option CodeExpr :=
  if w = "None" then some null
  else if w = "True" then some (bool true)
  else if w = "False" then some (bool false)
  else if isReserved w then none
  else some (name w)

/-- A tree at the start of tokens, and the tokens after it. -/
abbrev Split (α : Type) := Option (α × List CodeToken)

mutual

/-- **An expression whose operators are of the given levels**, read in at most the given number of
steps. -/
def level : Nat → List Level → List CodeToken → Split CodeExpr
  | 0, _, _ => none
  | steps + 1, [], ts => (atom steps ts).bind fun s => trailers steps s.1 s.2
  | steps + 1, .junction w :: ls, ts =>
    (level steps ls ts).bind fun s => (operands steps w ls s.2).map fun r =>
      (if r.1.isEmpty then s.1 else junction w (s.1 :: r.1), r.2)
  | steps + 1, .inversion :: ls, ts =>
    if ts.head? = some (.word "not") then
      (level steps (.inversion :: ls) ts.tail).map fun s => (unary "not" s.1, s.2)
    else level steps ls ts
  | steps + 1, .comparison :: ls, ts =>
    (level steps ls ts).bind fun s => (compared steps ls s.2).map fun r =>
      (if r.1.isEmpty then s.1 else compare s.1 r.1, r.2)
  | steps + 1, .binary ops :: ls, ts =>
    (level steps ls ts).bind fun s => chained steps ops ls s.1 s.2
  | steps + 1, .sign :: ls, ts =>
    match operator? signs ts with
    | some o => (level steps (.sign :: ls) ts.tail).map fun s => (unary o s.1, s.2)
    | none => level steps ls ts
  | steps + 1, .power :: ls, ts =>
    (level steps ls ts).bind fun s =>
      if s.2.head? = some (.op "**") then
        (level steps (.sign :: .power :: ls) s.2.tail).map fun r => (binary "**" s.1 r.1, r.2)
      else some s
termination_by structural x => x

/-- The operands after the first one, each after the word that joins them. -/
def operands : Nat → String → List Level → List CodeToken → Split (List CodeExpr)
  | 0, _, _, _ => none
  | steps + 1, w, ls, ts =>
    if ts.head? = some (.word w) then
      (level steps ls ts.tail).bind fun s => (operands steps w ls s.2).map fun r =>
        (s.1 :: r.1, r.2)
    else some ([], ts)
termination_by structural x => x

/-- The comparisons after the first operand, each with its right operand. -/
def compared : Nat → List Level → List CodeToken → Split (List (String × CodeExpr))
  | 0, _, _ => none
  | steps + 1, ls, ts =>
    match comparison? ts with
    | some (o, ts) =>
      (level steps ls ts).bind fun s => (compared steps ls s.2).map fun r =>
        ((o, s.1) :: r.1, r.2)
    | none => some ([], ts)
termination_by structural x => x

/-- The operators of one level after a left operand, with their right operands. -/
def chained : Nat → List String → List Level → CodeExpr → List CodeToken → Split CodeExpr
  | 0, _, _, _, _ => none
  | steps + 1, ops, ls, left, ts =>
    match operator? ops ts with
    | some o =>
      (level steps ls ts.tail).bind fun s => chained steps ops ls (binary o left s.1) s.2
    | none => some (left, ts)
termination_by structural x => x

/-- The links after an expression: attributes, calls and subscripts. -/
def trailers : Nat → CodeExpr → List CodeToken → Split CodeExpr
  | 0, _, _ => none
  | steps + 1, e, ts =>
    match ts with
    | .op "." :: .word n :: ts => if isReserved n then none else trailers steps (member e n) ts
    | .op "(" :: ts => (items steps ")" ts).bind fun s => trailers steps (call e s.1) s.2
    | .op "[" :: ts =>
      (level steps levels ts).bind fun s =>
        if s.2.head? = some (.op "]") then trailers steps (subscript e s.1) s.2.tail else none
    | ts => some (e, ts)
termination_by structural x => x

/-- A literal, a name, or an expression in brackets. -/
def atom : Nat → List CodeToken → Split CodeExpr
  | 0, _ => none
  | steps + 1, ts =>
    match ts with
    | .int n :: ts => some (int n, ts)
    | .float x :: ts => some (float x, ts)
    | .text ps :: ts => some (text (ps ++ (texts ts).1), (texts ts).2)
    | .word w :: ts => (ofWord? w).map (·, ts)
    | .op "(" :: .op ")" :: ts => some (tuple [], ts)
    | .op "(" :: ts =>
      (level steps levels ts).bind fun s =>
        if s.2.head? = some (.op ")") then some (s.1, s.2.tail)
        else if s.2.head? = some (.op ",") then
          (items steps ")" s.2.tail).map fun r => (tuple (s.1 :: r.1), r.2)
        else none
    | .op "[" :: ts => (items steps "]" ts).map fun r => (list r.1, r.2)
    | _ => none
termination_by structural x => x

/-- Items with commas between them up to the closing bracket; a comma may stand before it. -/
def items : Nat → String → List CodeToken → Split (List CodeExpr)
  | 0, _, _ => none
  | steps + 1, closing, ts =>
    if ts.head? = some (.op closing) then some ([], ts.tail)
    else
      (level steps levels ts).bind fun s =>
        if s.2.head? = some (.op ",") then
          (items steps closing s.2.tail).map fun r => (s.1 :: r.1, r.2)
        else if s.2.head? = some (.op closing) then some ([s.1], s.2.tail)
        else none
termination_by structural x => x

end

/-- **The tree of tokens**, if they are one expression. -/
def ofTokens (ts : List CodeToken) : Option CodeExpr :=
  match level (16 * (ts.length + 1)) levels ts with
  | some (e, []) => some e
  | _ => none

/-- **The tree of a text**, if it is one expression. -/
def read (cs : List Char) : Option CodeExpr := (CodeToken.lex cs.length cs).bind ofTokens

/-! ## Levels that are passed -/

section Pass

variable {n : Nat} {l : Level} {ls : List Level} {ts rest : List CodeToken} {e : CodeExpr}

/-- A token that makes what starts with it an operation of a level. -/
def Level.opens : Level → CodeToken → Bool
  | inversion, t => t = .word "not"
  | sign, .op o => o ∈ signs
  | _, _ => false

/-- A token after an operand that makes it an operation of a level. -/
def Level.continues : Level → CodeToken → Bool
  | junction w, t => t = .word w
  | comparison, .op o => o ∈ comparisons
  | comparison, .word w => w ∈ ["in", "not", "is"]
  | binary ops, .op o => o ∈ ops
  | power, t => t = .op "**"
  | _, _ => false

/-- No token of the given kind stands at the start. -/
def Avoids (p : CodeToken → Bool) (ts : List CodeToken) : Prop :=
  ∀ t, ts.head? = some t → p t = false

theorem operator?_eq_none {ops : List String} (h : ∀ o, ts.head? = some (.op o) → o ∉ ops) :
    operator? ops ts = none := by
  unfold operator?
  split
  · rw [if_neg (h _ rfl)]
  · rfl

theorem comparison?_eq_none (h : Avoids Level.comparison.continues rest) :
    comparison? rest = none := by
  unfold comparison?
  split
  · rename_i o ts
    have := h (.op o) rfl
    simp only [Level.continues, decide_eq_false_iff_not] at this
    rw [if_neg this]
  · exact absurd (h _ rfl) (by decide)
  · exact absurd (h _ rfl) (by decide)
  · exact absurd (h _ rfl) (by decide)
  · exact absurd (h _ rfl) (by decide)
  · rfl

/-- **A level without an operator of its own is passed.** -/
theorem level_pass (h : level n ls ts = some (e, rest)) (hopen : Avoids l.opens ts)
    (hcont : Avoids l.continues rest) : level (n + 1) (l :: ls) ts = some (e, rest) := by
  obtain ⟨n, rfl⟩ : ∃ k, n = k + 1 := by
    cases n with
    | zero => rw [level] at h; cases h
    | succ n => exact ⟨n, rfl⟩
  cases l with
  | junction w =>
    have hw : rest.head? ≠ some (.word w) := fun hw => by
      simpa [Level.continues] using hcont _ hw
    rw [level, h, Option.bind_some, operands, if_neg hw]
    rfl
  | inversion =>
    have hw : ts.head? ≠ some (.word "not") := fun hw => by
      simpa [Level.opens] using hopen _ hw
    rw [level, if_neg hw, h]
  | comparison =>
    rw [level, h, Option.bind_some, compared, comparison?_eq_none hcont]
    rfl
  | binary ops =>
    have hnone : operator? ops rest = none := operator?_eq_none fun o ho => by
      simpa [Level.continues] using hcont _ ho
    rw [level, h, Option.bind_some, chained, hnone]
  | sign =>
    have hnone : operator? signs ts = none := operator?_eq_none fun o ho => by
      simpa [Level.opens] using hopen _ ho
    rw [level, hnone, h]
  | power =>
    have hw : rest.head? ≠ some (.op "**") := fun hw => by
      simpa [Level.continues] using hcont _ hw
    rw [level, h, Option.bind_some, if_neg hw]

end Pass

end CodeExpr

/-! ## Cases -/

/-- **A pattern of generated code**, without the parentheses that group it. -/
inductive CodePattern where
  | wildcard
  | capture (name : String)
  | literal (value : Literal)
  /-- The value that a name with points stands for. -/
  | value (path : List String)
  /-- A sequence; `star` is the number of items before its `*_`, if it has one. -/
  | sequence (items : List CodePattern) (star : Option Nat)
  /-- The values of a class, with patterns for their fields by position and by name. -/
  | object (path : List String) (positional : List CodePattern)
    (named : List (String × CodePattern))
  /-- Two alternatives or more. -/
  | or (alternatives : List CodePattern)

namespace CodePattern

/-- **What stands between two commas.** -/
inductive Part where
  | star
  | plain (pattern : CodePattern)
  | named (name : String) (pattern : CodePattern)

namespace Part

/-- The mark of the rest. -/
def isStar : Part → Bool
  | star => true
  | _ => false

/-- A pattern with a name. -/
def isNamed : Part → Bool
  | named _ _ => true
  | _ => false

/-- A pattern without a name. -/
def plain? : Part → Option CodePattern
  | plain c => some c
  | _ => none

/-- A pattern with a name. -/
def named? : Part → Option (String × CodePattern)
  | named n c => some (n, c)
  | _ => none

end Part

/-! ## Reading -/

/-- A tree at the start of tokens, and the tokens after it. -/
abbrev Split (α : Type) := Option (α × List CodeToken)

/-- A word that is a name. -/
def isName (w : String) : Bool := isIdentifier w && !isReserved w

/-- A word that is a literal. -/
def constant? (w : String) : Option Literal :=
  if w = "None" then some .null
  else if w = "True" then some (.bool true)
  else if w = "False" then some (.bool false)
  else none

/-- A literal at the start of tokens. -/
def literal? : List CodeToken → Split Literal
  | .int n :: ts => some (.int n, ts)
  | .float x :: ts => some (.float x, ts)
  | .op "-" :: .int n :: ts => some (.int (-n), ts)
  | .op "-" :: .float x :: ts => some (.float x.neg, ts)
  | .text ps :: ts => some (.text (ps ++ (CodeExpr.texts ts).1), (CodeExpr.texts ts).2)
  | .word w :: ts => (constant? w).map (·, ts)
  | _ => none

/-- A name at the start of tokens, with the names that points join to it. -/
def path? : List CodeToken → Split (List String)
  | .word n :: .op "." :: ts => if isName n then (path? ts).map fun s => (n :: s.1, s.2) else none
  | .word n :: ts => if isName n then some ([n], ts) else none
  | _ => none

/-- A name alone takes any value, one with points is compared. -/
def ofPath : List String → CodePattern
  | [n] => capture n
  | path => value path

/-- One alternative is itself. -/
def joined : List CodePattern → CodePattern
  | [c] => c
  | cs => or cs

/-- A sequence has no names among its parts, and one star at most. -/
def sequenceOf (ps : List Part) : Option CodePattern :=
  if ps.any Part.isNamed ∨ 1 < ps.countP Part.isStar then none
  else some (sequence (ps.filterMap Part.plain?) (ps.findIdx? Part.isStar))

/-- What parentheses hold: one pattern without a comma is itself, and a star needs a comma. -/
def grouped : List Part → Bool → Option CodePattern
  | [.plain c], false => some c
  | [.star], false => none
  | ps, _ => sequenceOf ps

/-- The parts of a class: those by position come first. -/
def objectOf (path : List String) (ps : List Part) : Option CodePattern :=
  let named := ps.dropWhile fun p => p.plain?.isSome
  if named.all Part.isNamed then
    some (object path (ps.filterMap Part.plain?) (named.filterMap Part.named?))
  else none

mutual

/-- Alternatives, read in at most the given number of steps. -/
def choices : Nat → List CodeToken → Split (List CodePattern)
  | 0, _ => none
  | steps + 1, ts =>
    (closed steps ts).bind fun s =>
      if s.2.head? = some (.op "|") then
        (choices steps s.2.tail).map fun r => (s.1 :: r.1, r.2)
      else some ([s.1], s.2)
termination_by structural x => x

/-- A pattern without alternatives at its top. -/
def closed : Nat → List CodeToken → Split CodePattern
  | 0, _ => none
  | steps + 1, ts =>
    match literal? ts with
    | some (v, ts) => some (literal v, ts)
    | none =>
      if ts.head? = some (.op "(") then
        (parts steps ts.tail).bind fun s => (grouped s.1.1 s.1.2).map (·, s.2)
      else if ts.head? = some (.word "_") then some (wildcard, ts.tail)
      else
        (path? ts).bind fun s =>
          if s.2.head? = some (.op "(") then
            (parts steps s.2.tail).bind fun r => (objectOf s.1 r.1.1).map (·, r.2)
          else if s.2.head? = some (.op "=") then none
          else some (ofPath s.1, s.2)
termination_by structural x => x

/-- Parts with commas between them up to the closing parenthesis, and whether nothing stands before
it, or a comma. -/
def parts : Nat → List CodeToken → Split (List Part × Bool)
  | 0, _ => none
  | steps + 1, ts =>
    if ts.head? = some (.op ")") then some (([], true), ts.tail)
    else
      (part steps ts).bind fun s =>
        if s.2.head? = some (.op ",") then
          (parts steps s.2.tail).map fun r => ((s.1 :: r.1.1, r.1.2), r.2)
        else if s.2.head? = some (.op ")") then some (([s.1], false), s.2.tail)
        else none
termination_by structural x => x

/-- What stands before a comma or the closing parenthesis. -/
def part : Nat → List CodeToken → Split Part
  | 0, _ => none
  | steps + 1, ts =>
    match ts with
    | .op "*" :: .word "_" :: ts => some (.star, ts)
    | .word n :: .op "=" :: ts =>
      if isName n then (choices steps ts).map fun s => (.named n (joined s.1), s.2) else none
    | ts => (choices steps ts).map fun s => (.plain (joined s.1), s.2)
termination_by structural x => x

end

/-- **The tree of tokens**, if they are one pattern. -/
def ofTokens (ts : List CodeToken) : Option CodePattern :=
  match choices (4 * ts.length + 1) ts with
  | some (cs, []) => some (joined cs)
  | _ => none

/-- **The tree of a text**, if it is one pattern. -/
def read (cs : List Char) : Option CodePattern := (CodeToken.lex cs.length cs).bind ofTokens

end CodePattern

end Stencil
