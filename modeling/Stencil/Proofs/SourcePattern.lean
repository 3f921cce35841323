import Stencil.Proofs.PatternRoundTrip

/-!
# Patterns as their texts have them

A variant may have a `..` among its data, before which and after which patterns stand. Of its place
no trace is left in the pattern that is read. Here the same texts are read with it.

* `SourcePattern`: patterns in which a variant keeps the place of its `..`.
* `SourcePattern.read`: the reader of patterns that keeps it, too.
* `SourcePattern.plain`: the pattern that is left without it.
* **`SourcePattern.map_plain_read`**: apart from that, both readers say the same of every text.
-/

namespace Stencil

/-- **A pattern as its text has it.** It is as `Pattern` is, but for the `..` of a variant. -/
inductive SourcePattern where
  | wildcard (position : Nat)
  | binding (position : Nat) (name : String)
  | literal (position : Nat) (value : Literal)
  | value (position : Nat) (path : List String)
  | tuple (position : Nat) (items : List SourcePattern) (rest : Option Nat)
  /-- A variant with data by position; `rest` is the number of items before its `..`, if it has
  one. -/
  | variant (position : Nat) (path : List String) (items : List SourcePattern) (rest : Option Nat)
  | struct (position : Nat) (path : List String) (fields : List (String × SourcePattern))
    (open_ : Bool)
  | or (position : Nat) (alternatives : List SourcePattern)

namespace SourcePattern

mutual

/-- **The pattern without the `..` of its variants.** -/
def plain : SourcePattern → Pattern
  | wildcard p => .wildcard p
  | binding p n => .binding p n
  | literal p v => .literal p v
  | value p path => .value p path
  | tuple p items rest => .tuple p (plainAll items) rest
  | variant p path items _ => .variant p path (plainAll items)
  | struct p path fields o => .struct p path (plainFields fields) o
  | or p alternatives => .or p (plainAll alternatives)

/-- The patterns without the `..` of their variants. -/
def plainAll : List SourcePattern → List Pattern
  | [] => []
  | q :: qs => q.plain :: plainAll qs

/-- The fields without the `..` of variants in their patterns. -/
def plainFields : List (String × SourcePattern) → List (String × Pattern)
  | [] => []
  | (n, q) :: fs => (n, q.plain) :: plainFields fs

end

/-- Where a pattern starts. -/
def position : SourcePattern → Nat
  | wildcard p | binding p _ | literal p _ | value p _ | tuple p _ _ | variant p _ _ _
  | struct p _ _ _ | or p _ => p

theorem position_plain (q : SourcePattern) : q.plain.position = q.position := by
  cases q <;> rw [plain] <;> rfl

/-! ## Reading -/

namespace Read

open Expr Expr.Read

/-- The number after a minus sign, negated. -/
def negative (position : Nat) (c : Cursor) : Except Failure (SourcePattern × Cursor) := do
  let (t, next) := c.peek true
  if t.kind = .int || t.kind = .float then
    match Literal.ofToken t with
    | some v => return (.literal position (← v).neg, next)
    | none => fail .expectedPatternNumber t
  else fail .expectedPatternNumber t

/-- What a bracketed list of patterns holds: its items, the number of items before its `..`, and
whether a comma stands before its closing bracket. -/
structure Listed where
  items : List SourcePattern
  rest : Option Nat
  trailing : Bool

/-- The pattern of a parenthesized list. -/
def Listed.pattern (l : Listed) (position : Nat) : SourcePattern :=
  match l with
  | ⟨[q], none, false⟩ => q
  | ⟨items, rest, _⟩ => .tuple position items rest

/-- The list without the `..` of variants in it. -/
def Listed.plain (l : Listed) : Pattern.Read.Listed := ⟨plainAll l.items, l.rest, l.trailing⟩

/-- A path without anything after it: a name or a variant. -/
def ofPath (position : Nat) : List String → SourcePattern
  | [n] => .binding position n
  | parts => .value position parts

mutual

/-- A pattern with its alternatives. -/
def pattern : Nat → Nat → Cursor → Except Failure (SourcePattern × Cursor)
  | 0, _, _ => .error .outOfSteps
  | steps + 1, depth, c => do
    let (first, c) ← single steps depth c
    let (more, c) ← alternatives steps depth c
    if more.isEmpty then return (first, c) else return (.or first.position (first :: more), c)
termination_by structural x => x

/-- Further alternatives, each after its bar. -/
def alternatives : Nat → Nat → Cursor → Except Failure (List SourcePattern × Cursor)
  | 0, _, _ => .error .outOfSteps
  | steps + 1, depth, c => do
    let (t, next) := c.peek true
    if t.isOp "|" then
      let (q, c) ← single steps depth next
      let (more, c) ← alternatives steps depth c
      return (q :: more, c)
    else return ([], c)
termination_by structural x => x

/-- A pattern without alternatives at its top. -/
def single : Nat → Nat → Cursor → Except Failure (SourcePattern × Cursor)
  | 0, _, _ => .error .outOfSteps
  | steps + 1, depth, c => do
    let (t, next) := c.peek true
    if t.kind = .name && t.text = ['_'] then return (.wildcard t.position, next)
    else if t.isOp "-" then negative t.position next
    else
      match Literal.ofToken t with
      | some v => return (.literal t.position (← v), next)
      | none =>
        if t.isOp "(" then
          let (l, c) ← listed steps (← enter depth t) 0 none false next
          return (l.pattern t.position, c)
        else if t.kind = .name then
          let (parts, c) ← path steps true c
          let (t', next) := c.peek true
          if t'.isOp "(" then
            let (l, c) ← listed steps (← enter depth t') 0 none false next
            return (.variant t.position parts l.items l.rest, c)
          else if t'.isOp "\x7b" then
            let (fs, o, c) ← fields steps (← enter depth t') next
            return (.struct t.position parts fs o, c)
          else return (ofPath t.position parts, c)
        else fail .expectedPattern t
termination_by structural x => x

/-- The items of a list up to its closing parenthesis; `count` of them and perhaps the `..` have
been read, and `trailing` tells whether a comma was the last thing. -/
def listed : Nat → Nat → Nat → Option Nat → Bool → Cursor → Except Failure (Listed × Cursor)
  | 0, _, _, _, _, _ => .error .outOfSteps
  | steps + 1, depth, count, rest, trailing, c => do
    let (t, next) := c.peek true
    if t.isOp ")" then return (⟨[], rest, trailing⟩, next)
    else if t.isOp ".." then
      if rest.isSome then fail .secondRest t
      else listedEnd steps depth count (some count) next
    else
      let (q, c) ← pattern steps depth c
      let (l, c) ← listedEnd steps depth (count + 1) rest c
      return ({ l with items := q :: l.items }, c)
termination_by structural x => x

/-- The comma or the closing parenthesis after an item, and the items after it. -/
def listedEnd : Nat → Nat → Nat → Option Nat → Cursor → Except Failure (Listed × Cursor)
  | 0, _, _, _, _ => .error .outOfSteps
  | steps + 1, depth, count, rest, c => do
    let (t, next) := c.peek true
    if t.isOp "," then listed steps depth count rest true next
    else if t.isOp ")" then return (⟨[], rest, false⟩, next)
    else fail (.expectedPatternItemEnd ')') t
termination_by structural x => x

/-- The fields of a structure up to its closing brace, and whether they end in `..`. -/
def fields : Nat → Nat → Cursor → Except Failure (List (String × SourcePattern) × Bool × Cursor)
  | 0, _, _ => .error .outOfSteps
  | steps + 1, depth, c => do
    let (t, next) := c.peek true
    if t.isOp "\x7d" then return ([], false, next)
    else if t.isOp ".." then
      let (t, next) := next.peek true
      if t.isOp "\x7d" then return ([], true, next) else fail .restNotLast t
    else if t.kind = .name then
      let name ← checkName t
      let (colon, afterColon) := next.peek true
      let (q, c) ←
        if colon.isOp ":" then pattern steps depth afterColon
        else pure (.binding t.position name, next)
      let (t, next) := c.peek true
      if t.isOp "," then
        let (fs, o, c) ← fields steps depth next
        return ((name, q) :: fs, o, c)
      else if t.isOp "\x7d" then return ([(name, q)], false, next)
      else fail .expectedFieldEnd t
    else fail .expectedField t
termination_by structural x => x

end

end Read

open Expr

/-- **The pattern at a cursor**, white space allowed between its tokens. -/
def read (c : Cursor) : Except Failure (SourcePattern × Cursor) := Read.pattern c.steps 0 c

/-! ## Both readers -/

namespace Read

open Expr.Read

/-- **A step of one reader is a step of the other**, if the second is run on what the first gave. -/
theorem map_bind {α α' β β' : Type} {e : α → α'} {e' : β → β'} {x : Except Failure α}
    {y : Except Failure α'} {f : α → Except Failure β} {g : α' → Except Failure β'}
    (h : x.map e = y) (hf : ∀ a, (f a).map e' = g (e a)) : (x >>= f).map e' = y >>= g := by
  subst h
  cases x with
  | error _ => rfl
  | ok a => exact hf a

theorem map_bind_same {α β β' : Type} {e' : β → β'} (x : Except Failure α)
    {f : α → Except Failure β} {g : α → Except Failure β'} (hf : ∀ a, (f a).map e' = g a) :
    (x >>= f).map e' = x >>= g := by
  cases x with
  | error _ => rfl
  | ok a => exact hf a

/-- **What both readers say in a number of steps is the same.** -/
structure Alike (s : Nat) : Prop where
  pattern : ∀ d c, (pattern s d c).map (Prod.map plain id) = Pattern.Read.pattern s d c
  alternatives : ∀ d c,
    (alternatives s d c).map (Prod.map plainAll id) = Pattern.Read.alternatives s d c
  single : ∀ d c, (single s d c).map (Prod.map plain id) = Pattern.Read.single s d c
  listed : ∀ d count rest trailing c, (listed s d count rest trailing c).map
    (Prod.map Listed.plain id) = Pattern.Read.listed s d count rest trailing c
  listedEnd : ∀ d count rest c, (listedEnd s d count rest c).map (Prod.map Listed.plain id) =
    Pattern.Read.listedEnd s d count rest c
  fields : ∀ d c,
    (fields s d c).map (Prod.map plainFields id) = Pattern.Read.fields s d c

section Step

variable {s : Nat} (ih : Alike s) (d count : Nat) (rest : Option Nat) (trailing : Bool) (c : Cursor)

theorem isEmpty_plainAll (qs : List SourcePattern) : (plainAll qs).isEmpty = qs.isEmpty := by
  cases qs <;> rfl

theorem plain_listed_pattern (l : Listed) (position : Nat) :
    (l.pattern position).plain = l.plain.pattern position := by
  obtain ⟨items, rest, trailing⟩ := l
  match items, rest, trailing with
  | [], _, _ => rfl
  | [q], none, false => rfl
  | [q], none, true => rfl
  | [q], some _, _ => rfl
  | q :: q' :: qs, _, _ => rfl

theorem plain_ofPath (position : Nat) (parts : List String) :
    (ofPath position parts).plain = Pattern.Read.ofPath position parts := by
  match parts with
  | [] => rfl
  | [n] => rfl
  | _ :: _ :: _ => rfl

theorem map_plain_negative (position : Nat) :
    (negative position c).map (Prod.map plain id) = Pattern.Read.negative position c := by
  unfold negative Pattern.Read.negative
  dsimp only
  split
  · cases Literal.ofToken (c.peek true).1 with
    | some v => exact map_bind_same _ fun v => rfl
    | none => rfl
  · rfl

include ih

theorem map_plain_pattern :
    (pattern (s + 1) d c).map (Prod.map plain id) = Pattern.Read.pattern (s + 1) d c := by
  rw [pattern, Pattern.Read.pattern]
  refine map_bind (ih.single d c) fun first => ?_
  refine map_bind (ih.alternatives d first.2) fun more => ?_
  simp only [Prod.map, id_eq, isEmpty_plainAll]
  split
  · rfl
  · show Except.ok _ = Except.ok _
    rw [Prod.map, plain, plainAll, position_plain]
    rfl

theorem map_plain_alternatives : (alternatives (s + 1) d c).map (Prod.map plainAll id) =
    Pattern.Read.alternatives (s + 1) d c := by
  rw [alternatives, Pattern.Read.alternatives]
  dsimp only
  split
  · exact map_bind (ih.single d _) fun q => map_bind (ih.alternatives d q.2) fun _ => rfl
  · rfl

theorem map_plain_single :
    (single (s + 1) d c).map (Prod.map plain id) = Pattern.Read.single (s + 1) d c := by
  rw [single, Pattern.Read.single]
  dsimp only
  split
  · rfl
  · split
    · exact map_plain_negative _ _
    · cases Literal.ofToken (c.peek true).1 with
      | some v => exact map_bind_same _ fun v => rfl
      | none =>
        dsimp only
        split
        · refine map_bind_same _ fun d' => map_bind (ih.listed d' _ _ _ _) fun l => ?_
          show Except.ok _ = Except.ok _
          rw [Prod.map, plain_listed_pattern]
          rfl
        · split
          · refine map_bind_same _ fun parts => ?_
            split
            · exact map_bind_same _ fun d' => map_bind (ih.listed d' _ _ _ _) fun _ => rfl
            · split
              · exact map_bind_same _ fun d' => map_bind (ih.fields d' _) fun _ => rfl
              · show Except.ok _ = Except.ok _
                rw [Prod.map, plain_ofPath]
                rfl
          · rfl

theorem map_plain_listed : (listed (s + 1) d count rest trailing c).map
    (Prod.map Listed.plain id) = Pattern.Read.listed (s + 1) d count rest trailing c := by
  rw [listed, Pattern.Read.listed]
  dsimp only
  split
  · rfl
  · split
    · split
      · rfl
      · exact ih.listedEnd _ _ _ _
    · exact map_bind (ih.pattern d c) fun q => map_bind (ih.listedEnd _ _ _ q.2) fun _ => rfl

theorem map_plain_listedEnd : (listedEnd (s + 1) d count rest c).map (Prod.map Listed.plain id) =
    Pattern.Read.listedEnd (s + 1) d count rest c := by
  rw [listedEnd, Pattern.Read.listedEnd]
  dsimp only
  split
  · exact ih.listed _ _ _ _ _
  · split <;> rfl

/-- What is read after a field. -/
def fieldEnd (s d : Nat) (n : String) (q : SourcePattern) (c : Cursor) :
    Except Failure (List (String × SourcePattern) × Bool × Cursor) :=
  if (c.peek true).1.isOp "," then do
    let (fs, o, c) ← fields s d (c.peek true).2
    return ((n, q) :: fs, o, c)
  else if (c.peek true).1.isOp "\x7d" then return ([(n, q)], false, (c.peek true).2)
  else fail .expectedFieldEnd (c.peek true).1

theorem map_plain_fieldEnd (n : String) (q : SourcePattern) :
    (fieldEnd s d n q c).map (Prod.map plainFields id) =
      Pattern.Read.fieldEnd s d n q.plain c := by
  unfold fieldEnd Pattern.Read.fieldEnd
  split
  · exact map_bind (ih.fields d _) fun _ => rfl
  · split <;> rfl

theorem map_plain_fields : (fields (s + 1) d c).map (Prod.map plainFields id) =
    Pattern.Read.fields (s + 1) d c := by
  rw [fields, Pattern.Read.fields]
  dsimp only
  split
  · rfl
  · split
    · split <;> rfl
    · split
      · refine map_bind_same _ fun n => ?_
        split
        · exact map_bind (ih.pattern d _) fun q => map_plain_fieldEnd ih d q.2 n q.1
        · exact map_plain_fieldEnd ih d (c.peek true).2 n (.binding (c.peek true).1.position n)
      · rfl

end Step

theorem alike : ∀ s, Alike s
  | 0 => by constructor <;> intros <;> rfl
  | s + 1 => by
    have ih := alike s
    exact ⟨map_plain_pattern ih, map_plain_alternatives ih, map_plain_single ih,
      map_plain_listed ih, map_plain_listedEnd ih, map_plain_fields ih⟩

end Read

/-- **Both readers say the same of every text**: the same failures, and patterns that differ in the
`..` of variants only. -/
theorem map_plain_read (c : Cursor) : (read c).map (Prod.map plain id) = Pattern.read c :=
  (Read.alike _).pattern 0 c

/-- What one reader reads the other one reads, too. -/
theorem exists_of_read {c c' : Cursor} {p : Pattern} (h : Pattern.read c = .ok (p, c')) :
    ∃ q, read c = .ok (q, c') ∧ q.plain = p := by
  rw [← map_plain_read] at h
  cases hq : read c with
  | error e => rw [hq] at h; cases h
  | ok r =>
    rw [hq] at h
    cases h
    exact ⟨r.1, rfl, rfl⟩

end SourcePattern

end Stencil
