import Mathlib.Logic.Relation
import Stencil.Proofs.EnoughSteps

/-!
# Readers that call themselves

The functions that read a text call one another on what is left of it, some of them without having
taken anything. What makes them end is a rank: a call at the same place goes to a function of a
lower one, so that a function that is called again inside itself is called further on.

* `Failure.IsOrdinary`: the failures of the text itself.
* `Reader`: functions that call one another, with the calls that each call makes.
* `Reader.LeadsTo`: a call makes another one, at any depth.
* `Reader.position_lt`: a call leads to no call of its rank or a higher one at its own place.
* **`Reader.agree`**: reading ends, as more steps than the text allows for make no difference.
* **`Expr.Read.reader`**, **`Pattern.Read.reader`**: the functions that read expressions and
  patterns. The levels of an expression call one another where they stand, from the range down to
  the links, and so do a list of patterns, a pattern and its first alternative; everything else is
  called behind a token.
-/

namespace Stencil

open Text Expr

/-- **A failure other than** the end of the steps and blocks that are nested too deeply. -/
def Failure.IsOrdinary : Failure → Prop
  | .at (.blocksTooDeep _) _ | .outOfSteps => False
  | _ => True

theorem Failure.IsOrdinary.ne_outOfSteps {f : Failure} (h : f.IsOrdinary) : f ≠ .outOfSteps := by
  rintro rfl
  exact h

namespace Cursor

variable {c d e : Cursor} {part : List Char}

/-- What has been taken is what is missing. -/
theorem Reaches.position_add (h : c.Reaches d) :
    c.position + c.rest.length = d.position + d.rest.length := by
  obtain ⟨part, h⟩ := h
  rw [h.length_eq, h.2, Nat.add_assoc]

/-- **A cursor is further on, and not at the same place.** -/
def Advances (c d : Cursor) : Prop := c.Reaches d ∧ c.position < d.position

/-- Going on advances if it leaves less. -/
theorem Reaches.advances_of_lt (h : c.Reaches d) (hlt : d.rest.length < c.rest.length) :
    c.Advances d := by
  have := h.position_add
  exact ⟨h, by omega⟩

theorem Reaches.advances (h : c.Reaches d) (h' : d.Advances e) : c.Advances e :=
  ⟨h.trans h'.1, Nat.lt_of_le_of_lt h.position_le h'.2⟩

theorem Advances.trans_reaches (h : c.Advances d) (h' : d.Reaches e) : c.Advances e :=
  ⟨h.1.trans h', Nat.lt_of_lt_of_le h.2 h'.position_le⟩

theorem Past.advances {x : Char} (h : c.Past (x :: part) d) : c.Advances d :=
  ⟨h.reaches, h.position_lt (List.cons_ne_nil _ _)⟩

theorem Ends.advances (h : c.Ends d) : c.Advances d := h.reaches.advances_of_lt h.length_lt

theorem Reads.advances (h : c.Reads d) : c.Advances d := h.ends.advances

end Cursor

/-- **Functions that call one another as they read**, with a number of steps for how deep. -/
structure Reader where
  /-- A call of one of the functions, its number of steps aside. -/
  Call : Type
  /-- What a call returns. -/
  Outcome : Call → Type
  /-- What a call does in a number of steps. -/
  run : Nat → (t : Call) → Except Failure (Outcome t)
  /-- The calls that a call makes, which have the given number of steps. -/
  Starts : Nat → Call → Call → Prop
  /-- Where a call reads. -/
  cursor : Call → Cursor
  /-- The rank of the function that is called. -/
  rank : Call → Nat
  /-- What is known where the function is called. -/
  Proper : Call → Prop
  /-- The failures of a call that are not those of a call it makes. -/
  Raises : Call → Failure → Prop
  rank_lt : ∀ t, rank t < 16
  ne_outOfSteps : ∀ {t f}, Raises t f → f ≠ .outOfSteps
  /-- What a call does is determined by the calls that it makes. -/
  determined : ∀ {P : Failure → Prop} {s s' t}, (∀ f, Raises t f → P f) →
    (∀ u, Starts s t u → Agree P (run s u) (run s' u)) →
    Agree P (run (s + 1) t) (run (s' + 1) t)
  /-- A call is made further on, or at the same place and of a lower rank. -/
  forward : ∀ {s t u}, Proper t → Starts s t u → Proper u ∧ (cursor t).Reaches (cursor u) ∧
    ((cursor t).position < (cursor u).position ∨ rank u < rank t)

namespace Reader

variable (R : Reader)

/-- **A call makes another one**, or makes one that leads to it, in any numbers of steps. -/
def LeadsTo : R.Call → R.Call → Prop := Relation.TransGen fun t u => ∃ s, R.Starts s t u

/-- A number of steps that is enough for a call. -/
def size (t : R.Call) : Nat := 16 * (R.cursor t).rest.length + R.rank t

variable {R} {s s' : Nat} {t u : R.Call} {P : Failure → Prop} {f : Failure}

/-- **A call leads on in the text**, and at its own place to lower ranks. -/
theorem LeadsTo.forward (h : R.LeadsTo t u) (ht : R.Proper t) :
    R.Proper u ∧ (R.cursor t).Reaches (R.cursor u) ∧
      ((R.cursor t).position < (R.cursor u).position ∨ R.rank u < R.rank t) := by
  induction h with
  | single h =>
    obtain ⟨s, h⟩ := h
    exact R.forward ht h
  | tail _ h ih =>
    obtain ⟨s, h⟩ := h
    obtain ⟨hu, hreaches, hlower⟩ := ih
    obtain ⟨hv, hreaches', hlower'⟩ := R.forward hu h
    have hle := hreaches.position_le
    have hle' := hreaches'.position_le
    exact ⟨hv, hreaches.trans hreaches', by omega⟩

/-- **A call leads to no call of its rank or a higher one at its own place**: a function that is
called inside itself is called further on. -/
theorem LeadsTo.position_lt (h : R.LeadsTo t u) (ht : R.Proper t) (hrank : R.rank t ≤ R.rank u) :
    (R.cursor t).position < (R.cursor u).position := by
  obtain ⟨-, -, hlower⟩ := h.forward ht
  omega

/-- A call has fewer steps left to make than its caller. -/
theorem size_lt (ht : R.Proper t) (h : R.Starts s t u) : R.size u < R.size t := by
  obtain ⟨-, hreaches, hlower⟩ := R.forward ht h
  have hle := hreaches.length_le
  have hsame := hreaches.position_add
  have hrank := R.rank_lt u
  unfold size
  omega

/-- **Reading ends**: with enough steps, their number makes no difference, and a call fails only in
ways that calls have of their own. -/
theorem agree (hP : ∀ t f, R.Raises t f → P f) (ht : R.Proper t) (hs : R.size t < s)
    (hs' : R.size t < s') : Agree P (R.run s t) (R.run s' t) := by
  induction s generalizing t s' with
  | zero => omega
  | succ s ih =>
    obtain ⟨s', rfl⟩ : ∃ k, s' = k + 1 := Nat.exists_eq_succ_of_ne_zero (by omega)
    refine R.determined (hP t) fun u hu => ?_
    have hlt := size_lt ht hu
    exact ih (R.forward ht hu).1 (by omega) (by omega)

/-- The steps that the text allows for are enough. -/
theorem size_lt_steps (t : R.Call) : R.size t < (R.cursor t).steps := by
  have hrank := R.rank_lt t
  unfold size Cursor.steps
  omega

/-- With the steps that the text allows for, a call fails only in ways that calls have of their
own. -/
theorem failsOnly_run (hP : ∀ t f, R.Raises t f → P f) (ht : R.Proper t)
    (hs : (R.cursor t).steps ≤ s) : FailsOnly P (R.run s t) := by
  have hlt := size_lt_steps t
  exact (agree hP ht (by omega) (Nat.lt_succ_self _)).fails

/-- **A call that fails does so on its own, or a call fails that it makes.** -/
theorem raises_or_starts (h : R.run (s + 1) t = .error f) :
    R.Raises t f ∨ ∃ u, R.Starts s t u ∧ R.run s u = .error f := by
  have hfails : FailsOnly (fun f => R.Raises t f ∨ ∃ u, R.Starts s t u ∧ R.run s u = .error f)
      (R.run (s + 1) t) :=
    (R.determined (fun f hf => .inl hf) fun u hu => .refl (failsOnly_iff.mpr fun f hf =>
      .inr ⟨u, hu, hf⟩)).fails
  exact failsOnly_iff.mp hfails f h

/-- **A reader ends**: the steps that the text allows for are enough for a call, a call leads to
calls on in the same text, and strictly so if the function is the same. -/
structure Ends (R : Reader) : Prop where
  enough : ∀ t s, R.Proper t → (R.cursor t).steps ≤ s →
    R.run s t = R.run (R.cursor t).steps t ∧ R.run s t ≠ .error .outOfSteps
  reaches : ∀ t u, R.Proper t → R.LeadsTo t u → (R.cursor t).Reaches (R.cursor u)
  forward : ∀ t u, R.Proper t → R.LeadsTo t u → R.rank t ≤ R.rank u →
    (R.cursor t).position < (R.cursor u).position

theorem ends (R : Reader) : R.Ends where
  enough t s ht hs := by
    have hlt := size_lt_steps t
    have hagree := agree (P := (· ≠ .outOfSteps)) (fun t f => R.ne_outOfSteps) ht
      (Nat.lt_of_lt_of_le hlt hs) hlt
    exact ⟨hagree.same, fun h => failsOnly_iff.mp hagree.fails _ h rfl⟩
  reaches t u ht h := (h.forward ht).2.1
  forward t u ht h hrank := h.position_lt ht hrank

end Reader

/-! ## Expressions -/

/-! ### Literals -/

namespace Literal

variable {position s : Nat} {cs text : List Char} {t : Token}

theorem failsOnly_escape : FailsOnly Failure.IsOrdinary (escape position cs) := by
  unfold escape
  split
  · trivial
  · split
    · split <;> trivial
    · trivial
  · split <;> trivial
  · split <;> trivial

theorem failsOnly_unescape {cs : List Char} (hs : cs.length < s) :
    FailsOnly Failure.IsOrdinary (unescape s position cs) := by
  fun_induction unescape s position cs with
  | case1 => cases hs
  | case2 => trivial
  | case3 position s cs ih =>
    refine failsOnly_escape.bind ?_
    rintro ⟨p, rest⟩ he
    have hlt := length_lt_of_escape he
    exact (ih rest (by simp only [List.length_cons] at hs; omega)).bind fun _ _ => trivial
  | case4 position s c cs _ ih =>
    exact (ih (Nat.lt_of_succ_lt_succ hs)).bind fun _ _ => trivial

/-- A literal fails as such. -/
theorem failsOnly_ofToken {v : Except Failure Literal} (h : ofToken t = some v) :
    FailsOnly Failure.IsOrdinary v := by
  unfold ofToken at h
  split at h
  · cases h
    cases hint : ofInt t.text with
    | ok n => trivial
    | error f =>
      obtain ⟨rfl, -⟩ := ofInt_error.mp hint
      trivial
  · cases h
    trivial
  · cases h
    have hof : FailsOnly Failure.IsOrdinary (ofString t.position t.text) :=
      failsOnly_unescape (Nat.lt_succ_self _)
    cases hs : ofString t.position t.text with
    | ok ps => trivial
    | error f =>
      rw [hs] at hof
      exact hof
  · split at h
    · cases h
      trivial
    · split at h
      · cases h
        trivial
      · split at h
        · cases h
          trivial
        · cases h
  · cases h

end Literal

namespace Expr.Read

theorem ordinary_enter {d : Nat} {k : Token} : FailsOnly Failure.IsOrdinary (enter d k) := by
  unfold enter
  split <;> trivial

theorem ordinary_checkName {k : Token} : FailsOnly Failure.IsOrdinary (checkName k) := by
  unfold checkName
  split <;> trivial

/-- A path depends on the parts after its first one. -/
theorem agree_path_of_rest {s s' : Nat} {spaced : Bool} {c : Cursor} {P : Failure → Prop}
    (hP : ∀ f, f.IsOrdinary → P f) (h : (c.peek spaced).1.kind = .name →
      Agree P (pathRest s (c.peek spaced).2) (pathRest s' (c.peek spaced).2)) :
    Agree P (path s spaced c) (path s' spaced c) := by
  rw [path, path]
  simp only
  split
  · refine .seq (ordinary_checkName.mono hP) fun _ _ => ?_
    refine .bind (h ‹_›) fun _ _ => ?_
    exact .ok _
  · exact .refl (hP _ trivial)

/-! ### Calls of the reader of expressions -/

/-- **A call of one of the functions that read expressions**, its number of steps aside. -/
inductive Call where
  | expression (spaced : Bool) (depth : Nat) (c : Cursor)
  | binary (spaced : Bool) (depth level : Nat) (c : Cursor)
  | binaryRest (spaced : Bool) (depth level : Nat) (left : Expr) (c : Cursor)
  | unary (spaced : Bool) (depth : Nat) (c : Cursor)
  | postfixed (spaced : Bool) (depth : Nat) (c : Cursor)
  | links (spaced : Bool) (depth : Nat) (base : Expr) (c : Cursor)
  | primary (spaced : Bool) (depth : Nat) (c : Cursor)
  | parenthesized (depth position : Nat) (c : Cursor)
  | tupleRest (depth : Nat) (c : Cursor)
  | items (spaced : Bool) (depth : Nat) (closing : Char) (c : Cursor)
  | itemsRest (depth : Nat) (closing : Char) (c : Cursor)
  | pathRest (c : Cursor)

namespace Call

/-- What a call returns. -/
def Outcome : Call → Type
  | tupleRest .. | items .. | itemsRest .. => List Expr × Cursor
  | pathRest _ => List String × Cursor
  | _ => Expr × Cursor

/-- What a call does in a number of steps. -/
def run (s : Nat) : (t : Call) → Except Failure t.Outcome
  | expression spaced d c => Read.expression s spaced d c
  | binary spaced d level c => Read.binary s spaced d level c
  | binaryRest spaced d level left c => Read.binaryRest s spaced d level left c
  | unary spaced d c => Read.unary s spaced d c
  | postfixed spaced d c => Read.postfixed s spaced d c
  | links spaced d base c => Read.links s spaced d base c
  | primary spaced d c => Read.primary s spaced d c
  | parenthesized d position c => Read.parenthesized s d position c
  | tupleRest d c => Read.tupleRest s d c
  | items spaced d closing c => Read.items s spaced d closing c
  | itemsRest d closing c => Read.itemsRest s d closing c
  | pathRest c => Read.pathRest s c

/-- Where a call reads. -/
def cursor : Call → Cursor
  | expression _ _ c | binary _ _ _ c | binaryRest _ _ _ _ c | unary _ _ c | postfixed _ _ c
  | links _ _ _ c | primary _ _ c | parenthesized _ _ c | tupleRest _ c | items _ _ _ c
  | itemsRest _ _ c | pathRest c => c

/-- **The rank of a function**: the looser a level, the higher. -/
def rank : Call → Nat
  | parenthesized .. | itemsRest .. => 12
  | expression .. => 11
  | binary _ _ level _ => 5 + (BinaryOp.levels - level)
  | unary .. => 4
  | postfixed .. => 3
  | links .. | primary .. => 2
  | binaryRest .. | tupleRest .. | items .. | pathRest _ => 1

/-- A bracketed list is read at its bracket. -/
def AtBracket : Call → Prop
  | items spaced _ _ c => (c.peek spaced).1.kind.isSolid = true
  | _ => True

/-- **The calls that a call makes**, which have `s` steps. -/
inductive Starts (s : Nat) : Call → Call → Prop
  | start {spaced d c} : Starts s (expression spaced d c) (binary spaced d 0 c)
  | stop {spaced d c e c'} : Read.binary s spaced d 0 c = .ok (e, c') →
    ((c'.peek spaced).1.isOp ".." || (c'.peek spaced).1.isOp "..=") = true →
    Starts s (expression spaced d c) (binary spaced d 0 (c'.peek spaced).2)
  | operand {spaced d level c} : level < BinaryOp.levels →
    Starts s (binary spaced d level c) (binary spaced d (level + 1) c)
  | operators {spaced d level c e c'} : level < BinaryOp.levels →
    Read.binary s spaced d (level + 1) c = .ok (e, c') →
    Starts s (binary spaced d level c) (binaryRest spaced d level e c')
  | tightest {spaced d level c} : ¬ level < BinaryOp.levels →
    Starts s (binary spaced d level c) (unary spaced d c)
  | right {spaced d level left c op} : binaryOpAt? level (c.peek spaced).1 = some op →
    Starts s (binaryRest spaced d level left c) (binary spaced d (level + 1) (c.peek spaced).2)
  | moreOperators {spaced d level left c op e c'} :
    binaryOpAt? level (c.peek spaced).1 = some op →
    Read.binary s spaced d (level + 1) (c.peek spaced).2 = .ok (e, c') →
    Starts s (binaryRest spaced d level left c)
      (binaryRest spaced d level (.binary left.position op left e) c')
  | negated {spaced d d' c op} : unaryOp? (c.peek spaced).1 = some op →
    enter d (c.peek spaced).1 = .ok d' →
    Starts s (unary spaced d c) (unary spaced d' (c.peek spaced).2)
  | notNegated {spaced d c} : unaryOp? (c.peek spaced).1 = none →
    Starts s (unary spaced d c) (postfixed spaced d c)
  | base {spaced d c} : Starts s (postfixed spaced d c) (primary spaced d c)
  | firstLink {spaced d c e c'} : Read.primary s spaced d c = .ok (e, c') →
    Starts s (postfixed spaced d c) (links spaced d e c')
  | methodItems {spaced d base c} : (c.peek spaced).1.isOp "." = true →
    (c.peek spaced).2.token.1.kind = .name →
    ((c.peek spaced).2.token.2.peek spaced).1.isOp "(" = true →
    Starts s (links spaced d base c) (items spaced d ')' (c.peek spaced).2.token.2)
  | afterMethod {spaced d base c name es c'} : (c.peek spaced).1.isOp "." = true →
    (c.peek spaced).2.token.1.kind = .name →
    ((c.peek spaced).2.token.2.peek spaced).1.isOp "(" = true →
    Read.items s spaced d ')' (c.peek spaced).2.token.2 = .ok (es, c') →
    Starts s (links spaced d base c) (links spaced d (.method base.position base name es) c')
  | afterField {spaced d base c name} : (c.peek spaced).1.isOp "." = true →
    (c.peek spaced).2.token.1.kind = .name →
    Starts s (links spaced d base c)
      (links spaced d (.field base.position base name) (c.peek spaced).2.token.2)
  | callItems {spaced d base c} : (c.peek spaced).1.isOp "(" = true →
    Starts s (links spaced d base c) (items spaced d ')' c)
  | afterCall {spaced d base c es c'} : (c.peek spaced).1.isOp "(" = true →
    Read.items s spaced d ')' c = .ok (es, c') →
    Starts s (links spaced d base c) (links spaced d (.call base.position base es) c')
  | index {spaced d base c} : (c.peek spaced).1.isOp "[" = true →
    Starts s (links spaced d base c) (expression true d (c.peek spaced).2)
  | afterIndex {spaced d base c e c'} : (c.peek spaced).1.isOp "[" = true →
    Read.expression s true d (c.peek spaced).2 = .ok (e, c') →
    (c'.peek true).1.isOp "]" = true →
    Starts s (links spaced d base c)
      (links spaced d (.index base.position base e) (c'.peek true).2)
  | pathParts {spaced d c} : (c.peek spaced).1.kind = .name →
    Starts s (primary spaced d c) (pathRest (c.peek spaced).2)
  | group {spaced d d' c} : (c.peek spaced).1.isOp "(" = true →
    enter d (c.peek spaced).1 = .ok d' →
    Starts s (primary spaced d c)
      (parenthesized d' (c.peek spaced).1.position (c.peek spaced).2)
  | list {spaced d c} : (c.peek spaced).1.isOp "[" = true →
    Starts s (primary spaced d c) (items spaced d ']' c)
  | grouped {d position c} : Starts s (parenthesized d position c) (expression true d c)
  | tuple {d position c e c'} : Read.expression s true d c = .ok (e, c') →
    Starts s (parenthesized d position c) (tupleRest d c')
  | tupleItem {d c} : (c.peek true).1.isOp "," = true →
    Starts s (tupleRest d c) (expression true d (c.peek true).2)
  | moreTuple {d c e c'} : (c.peek true).1.isOp "," = true →
    Read.expression s true d (c.peek true).2 = .ok (e, c') →
    Starts s (tupleRest d c) (tupleRest d c')
  | opened {spaced d d' closing c} : enter d (c.peek spaced).1 = .ok d' →
    Starts s (items spaced d closing c) (itemsRest d' closing (c.peek spaced).2)
  | item {d closing c} : Starts s (itemsRest d closing c) (expression true d c)
  | moreItems {d closing c e c'} : Read.expression s true d c = .ok (e, c') →
    (c'.peek true).1.isOp "," = true →
    Starts s (itemsRest d closing c) (itemsRest d closing (c'.peek true).2)
  | part {c} : c.token.1.isOp "::" = true → c.token.2.token.1.kind = .name →
    Starts s (pathRest c) (pathRest c.token.2.token.2)

variable {s : Nat} {t u : Call}

/-- **A call is made further on**, or at the same place and of a lower rank. -/
theorem Starts.forward (h : Starts s t u) (ht : t.AtBracket) :
    u.AtBracket ∧ t.cursor.Reaches u.cursor ∧
      (t.cursor.position < u.cursor.position ∨ u.rank < t.rank) := by
  have hlevels : BinaryOp.levels = 5 := rfl
  -- A call behind something that has been read.
  have hread {c c' : Cursor} {P Q : Prop} (hp : P) (h : c.Reads c') :
      P ∧ c.Reaches c' ∧ (c.position < c'.position ∨ Q) :=
    ⟨hp, h.reaches, .inl h.advances.2⟩
  cases h with
  | start => exact ⟨trivial, .refl _, .inr (by simp only [rank]; omega)⟩
  | stop hstart hop =>
    have hsolid := (Bool.or_eq_true_iff.mp hop).elim Token.isSolid_of_isOp Token.isSolid_of_isOp
    exact hread trivial (((moves s).binary hstart).trans (Cursor.reads_peek hsolid))
  | operand hlevel => exact ⟨trivial, .refl _, .inr (by simp only [rank]; omega)⟩
  | operators _ hleft => exact hread trivial ((moves s).binary hleft)
  | tightest => exact ⟨trivial, .refl _, .inr (by simp only [rank]; omega)⟩
  | right hop =>
    have hsolid := isSolid_of_binaryOp? (Option.filter_eq_some_iff.mp hop).1
    exact hread trivial (Cursor.reads_peek hsolid)
  | moreOperators hop hright =>
    have hsolid := isSolid_of_binaryOp? (Option.filter_eq_some_iff.mp hop).1
    exact hread trivial ((Cursor.reads_peek hsolid).trans ((moves s).binary hright))
  | negated hop => exact hread trivial (Cursor.reads_peek (isSolid_of_unaryOp? hop))
  | notNegated => exact ⟨trivial, .refl _, .inr (by simp [rank])⟩
  | base => exact ⟨trivial, .refl _, .inr (by simp [rank])⟩
  | firstLink hbase => exact hread trivial ((moves s).primary hbase)
  | methodItems hpoint hk hparen =>
    exact hread (Token.isSolid_of_isOp hparen)
      ((Cursor.reads_peek_op hpoint).trans (Cursor.reads_token (Token.isSolid_of_kind hk rfl)))
  | afterMethod hpoint hk hparen hitems =>
    have hname := (Cursor.reads_peek_op hpoint).trans
      (Cursor.reads_token (Token.isSolid_of_kind hk rfl))
    exact hread trivial (hname.trans ((moves s).items (Token.isSolid_of_isOp hparen) hitems))
  | afterField hpoint hk =>
    exact hread trivial
      ((Cursor.reads_peek_op hpoint).trans (Cursor.reads_token (Token.isSolid_of_kind hk rfl)))
  | callItems hparen => exact ⟨Token.isSolid_of_isOp hparen, .refl _, .inr (by simp [rank])⟩
  | afterCall hparen hitems =>
    exact hread trivial ((moves s).items (Token.isSolid_of_isOp hparen) hitems)
  | index hbracket => exact hread trivial (Cursor.reads_peek_op hbracket)
  | afterIndex hbracket hplace hclose =>
    exact hread trivial ((Cursor.reads_peek_op hbracket).trans
      (((moves s).expression hplace).trans (Cursor.reads_peek_op hclose)))
  | pathParts hk => exact hread trivial (Cursor.reads_peek (Token.isSolid_of_kind hk rfl))
  | group hparen => exact hread trivial (Cursor.reads_peek_op hparen)
  | list hbracket => exact ⟨Token.isSolid_of_isOp hbracket, .refl _, .inr (by simp [rank])⟩
  | grouped => exact ⟨trivial, .refl _, .inr (by simp [rank])⟩
  | tuple hfirst => exact hread trivial ((moves s).expression hfirst)
  | tupleItem hcomma => exact hread trivial (Cursor.reads_peek_op hcomma)
  | moreTuple hcomma hitem =>
    exact hread trivial ((Cursor.reads_peek_op hcomma).trans ((moves s).expression hitem))
  | opened => exact hread trivial (Cursor.reads_peek ht)
  | item => exact ⟨trivial, .refl _, .inr (by simp [rank])⟩
  | moreItems hitem hcomma =>
    exact hread trivial (((moves s).expression hitem).trans (Cursor.reads_peek_op hcomma))
  | part hmark hk =>
    exact hread trivial ((Cursor.reads_token (Token.isSolid_of_isOp hmark)).trans
      (Cursor.reads_token (Token.isSolid_of_kind hk rfl)))

theorem rank_lt (t : Call) : t.rank < 16 := by
  have hlevels : BinaryOp.levels = 5 := rfl
  cases t <;> simp only [rank] <;> omega

end Call

/-! ### What a call of the reader of expressions depends on -/

section Determined

variable {s s' d level position : Nat} {spaced : Bool} {closing : Char} {c : Cursor}
variable {left base : Expr} {P : Failure → Prop}

theorem determined_expression
    (h : ∀ u, Call.Starts s (.expression spaced d c) u → Agree P (u.run s) (u.run s')) :
    Agree P (expression (s + 1) spaced d c) (expression (s' + 1) spaced d c) := by
  rw [expression, expression]
  refine .bind (h _ .start) ?_
  rintro ⟨start, c₁⟩ hstart
  simp only
  split
  · refine .bind (h _ (.stop hstart ‹_›)) fun _ _ => ?_
    exact .ok _
  · exact .ok _

theorem determined_binary
    (h : ∀ u, Call.Starts s (.binary spaced d level c) u → Agree P (u.run s) (u.run s')) :
    Agree P (binary (s + 1) spaced d level c) (binary (s' + 1) spaced d level c) := by
  rw [binary, binary]
  split
  · refine .bind (h _ (.operand ‹_›)) ?_
    rintro ⟨left, c₁⟩ hleft
    exact h _ (.operators ‹_› hleft)
  · exact h _ (.tightest ‹_›)

theorem determined_binaryRest
    (h : ∀ u, Call.Starts s (.binaryRest spaced d level left c) u → Agree P (u.run s) (u.run s')) :
    Agree P (binaryRest (s + 1) spaced d level left c)
      (binaryRest (s' + 1) spaced d level left c) := by
  rw [binaryRest, binaryRest]
  simp only
  cases hop : binaryOpAt? level (c.peek spaced).1 with
  | none => exact .ok _
  | some op =>
    refine .bind (h _ (.right hop)) ?_
    rintro ⟨right, c₁⟩ hright
    exact h _ (.moreOperators hop hright)

theorem determined_postfixed
    (h : ∀ u, Call.Starts s (.postfixed spaced d c) u → Agree P (u.run s) (u.run s')) :
    Agree P (postfixed (s + 1) spaced d c) (postfixed (s' + 1) spaced d c) := by
  rw [postfixed, postfixed]
  refine .bind (h _ .base) ?_
  rintro ⟨base, c₁⟩ hbase
  exact h _ (.firstLink hbase)

variable (hP : ∀ f, f.IsOrdinary → P f)
include hP

theorem determined_unary
    (h : ∀ u, Call.Starts s (.unary spaced d c) u → Agree P (u.run s) (u.run s')) :
    Agree P (unary (s + 1) spaced d c) (unary (s' + 1) spaced d c) := by
  rw [unary, unary]
  simp only
  cases hop : unaryOp? (c.peek spaced).1 with
  | none => exact h _ (.notNegated hop)
  | some op =>
    refine .seq (ordinary_enter.mono hP) fun d' hd => ?_
    refine .bind (h _ (.negated hop hd)) fun _ _ => ?_
    exact .ok _

theorem determined_links
    (h : ∀ u, Call.Starts s (.links spaced d base c) u → Agree P (u.run s) (u.run s')) :
    Agree P (links (s + 1) spaced d base c) (links (s' + 1) spaced d base c) := by
  rw [links, links]
  simp only
  split
  · rename_i hpoint
    split
    · rename_i hk
      refine .seq (ordinary_checkName.mono hP) fun name _ => ?_
      split
      · rename_i hparen
        refine .bind (h _ (.methodItems hpoint hk hparen)) ?_
        rintro ⟨args, c₁⟩ hargs
        exact h _ (.afterMethod hpoint hk hparen hargs)
      · exact h _ (.afterField hpoint hk)
    · split
      · exact .refl (hP _ trivial)
      · exact .ok _
  · split
    · rename_i hparen
      refine .bind (h _ (.callItems hparen)) ?_
      rintro ⟨args, c₁⟩ hargs
      exact h _ (.afterCall hparen hargs)
    · split
      · rename_i hbracket
        refine .bind (h _ (.index hbracket)) ?_
        rintro ⟨place, c₁⟩ hplace
        simp only
        split
        · exact h _ (.afterIndex hbracket hplace ‹_›)
        · exact .refl (hP _ trivial)
      · exact .ok _

theorem determined_primary
    (h : ∀ u, Call.Starts s (.primary spaced d c) u → Agree P (u.run s) (u.run s')) :
    Agree P (primary (s + 1) spaced d c) (primary (s' + 1) spaced d c) := by
  rw [primary, primary]
  simp only
  cases hvalue : Literal.ofToken (c.peek spaced).1 with
  | some value =>
    refine .seq ((Literal.failsOnly_ofToken hvalue).mono hP) fun _ _ => ?_
    exact .ok _
  | none =>
    simp only
    split
    · refine .bind (agree_path_of_rest hP fun hk => h _ (.pathParts hk)) fun _ _ => ?_
      exact .ok _
    · split
      · refine .seq (ordinary_enter.mono hP) fun d' hd => ?_
        exact h _ (.group ‹_› hd)
      · split
        · refine .bind (h _ (.list ‹_›)) fun _ _ => ?_
          exact .ok _
        · split <;> exact .refl (hP _ trivial)

theorem determined_parenthesized
    (h : ∀ u, Call.Starts s (.parenthesized d position c) u → Agree P (u.run s) (u.run s')) :
    Agree P (parenthesized (s + 1) d position c) (parenthesized (s' + 1) d position c) := by
  rw [parenthesized, parenthesized]
  simp only
  split
  · exact .ok _
  · refine .bind (h _ .grouped) ?_
    rintro ⟨first, c₁⟩ hfirst
    simp only
    split
    · refine .bind (h _ (.tuple hfirst)) fun _ _ => ?_
      exact .ok _
    · split
      · exact .ok _
      · exact .refl (hP _ trivial)

theorem determined_tupleRest
    (h : ∀ u, Call.Starts s (.tupleRest d c) u → Agree P (u.run s) (u.run s')) :
    Agree P (tupleRest (s + 1) d c) (tupleRest (s' + 1) d c) := by
  rw [tupleRest, tupleRest]
  simp only
  split
  · rename_i hcomma
    split
    · exact .ok _
    · refine .bind (h _ (.tupleItem hcomma)) ?_
      rintro ⟨item, c₁⟩ hitem
      refine .bind (h _ (.moreTuple hcomma hitem)) fun _ _ => ?_
      exact .ok _
  · split
    · exact .ok _
    · exact .refl (hP _ trivial)

theorem determined_items
    (h : ∀ u, Call.Starts s (.items spaced d closing c) u → Agree P (u.run s) (u.run s')) :
    Agree P (items (s + 1) spaced d closing c) (items (s' + 1) spaced d closing c) := by
  rw [items, items]
  refine .seq (ordinary_enter.mono hP) fun d' hd => ?_
  exact h _ (.opened hd)

theorem determined_itemsRest
    (h : ∀ u, Call.Starts s (.itemsRest d closing c) u → Agree P (u.run s) (u.run s')) :
    Agree P (itemsRest (s + 1) d closing c) (itemsRest (s' + 1) d closing c) := by
  rw [itemsRest, itemsRest]
  simp only
  split
  · exact .ok _
  · refine .bind (h _ .item) ?_
    rintro ⟨item, c₁⟩ hitem
    simp only
    split
    · refine .bind (h _ (.moreItems hitem ‹_›)) fun _ _ => ?_
      exact .ok _
    · split
      · exact .ok _
      · exact .refl (hP _ trivial)

theorem determined_pathRest
    (h : ∀ u, Call.Starts s (.pathRest c) u → Agree P (u.run s) (u.run s')) :
    Agree P (pathRest (s + 1) c) (pathRest (s' + 1) c) := by
  rw [pathRest, pathRest]
  simp only
  split
  · split
    · refine .seq (ordinary_checkName.mono hP) fun _ _ => ?_
      refine .bind (h _ (.part ‹_› ‹_›)) fun _ _ => ?_
      exact .ok _
    · exact .refl (hP _ trivial)
  · exact .ok _

end Determined

/-- **The functions that read expressions.** -/
def reader : Reader where
  Call := Call
  Outcome := Call.Outcome
  run := Call.run
  Starts := Call.Starts
  cursor := Call.cursor
  rank := Call.rank
  Proper := Call.AtBracket
  Raises _ f := f.IsOrdinary
  rank_lt := Call.rank_lt
  ne_outOfSteps := Failure.IsOrdinary.ne_outOfSteps
  determined {P s s' t} hP h := by
    cases t with
    | expression => exact determined_expression h
    | binary => exact determined_binary h
    | binaryRest => exact determined_binaryRest h
    | unary => exact determined_unary hP h
    | postfixed => exact determined_postfixed h
    | links => exact determined_links hP h
    | primary => exact determined_primary hP h
    | parenthesized => exact determined_parenthesized hP h
    | tupleRest => exact determined_tupleRest hP h
    | items => exact determined_items hP h
    | itemsRest => exact determined_itemsRest hP h
    | pathRest => exact determined_pathRest hP h
  forward ht h := h.forward ht

end Expr.Read

/-! ## Patterns -/

namespace Pattern.Read

open Expr.Read

/-- The number after a minus sign fails as a literal does. -/
theorem ordinary_negative {position : Nat} {c : Cursor} :
    FailsOnly Failure.IsOrdinary (negative position c) := by
  unfold negative
  simp only
  split
  · cases hvalue : Literal.ofToken (c.peek true).1 with
    | some v => exact (Literal.failsOnly_ofToken hvalue).bind fun _ _ => trivial
    | none => trivial
  · trivial

/-! ### Calls of the reader of patterns -/

/-- **A call of one of the functions that read patterns**, its number of steps aside. -/
inductive Call where
  | pattern (depth : Nat) (c : Cursor)
  | alternatives (depth : Nat) (c : Cursor)
  | single (depth : Nat) (c : Cursor)
  | listed (depth count : Nat) (rest : Option Nat) (trailing : Bool) (c : Cursor)
  | listedEnd (depth count : Nat) (rest : Option Nat) (c : Cursor)
  | fields (depth : Nat) (c : Cursor)
  | pathRest (c : Cursor)

namespace Call

/-- What a call returns. -/
def Outcome : Call → Type
  | pattern .. | single .. => Pattern × Cursor
  | alternatives .. => List Pattern × Cursor
  | listed .. | listedEnd .. => Listed × Cursor
  | fields .. => List (String × Pattern) × Bool × Cursor
  | pathRest _ => List String × Cursor

/-- What a call does in a number of steps. -/
def run (s : Nat) : (t : Call) → Except Failure t.Outcome
  | pattern d c => Read.pattern s d c
  | alternatives d c => Read.alternatives s d c
  | single d c => Read.single s d c
  | listed d count rest trailing c => Read.listed s d count rest trailing c
  | listedEnd d count rest c => Read.listedEnd s d count rest c
  | fields d c => Read.fields s d c
  | pathRest c => Expr.Read.pathRest s c

/-- Where a call reads. -/
def cursor : Call → Cursor
  | pattern _ c | alternatives _ c | single _ c | listed _ _ _ _ c | listedEnd _ _ _ c | fields _ c
  | pathRest c => c

/-- **The rank of a function**: that of a list is the highest. -/
def rank : Call → Nat
  | listed .. => 3
  | pattern .. => 2
  | alternatives .. | single .. | listedEnd .. | fields .. | pathRest _ => 1

/-- **The calls that a call makes**, which have `s` steps. -/
inductive Starts (s : Nat) : Call → Call → Prop
  | first {d c} : Starts s (pattern d c) (single d c)
  | more {d c p c'} : Read.single s d c = .ok (p, c') →
    Starts s (pattern d c) (alternatives d c')
  | alternative {d c} : (c.peek true).1.isOp "|" = true →
    Starts s (alternatives d c) (single d (c.peek true).2)
  | moreAlternatives {d c p c'} : (c.peek true).1.isOp "|" = true →
    Read.single s d (c.peek true).2 = .ok (p, c') →
    Starts s (alternatives d c) (alternatives d c')
  | tuple {d d' c} : (c.peek true).1.isOp "(" = true → enter d (c.peek true).1 = .ok d' →
    Starts s (single d c) (listed d' 0 none false (c.peek true).2)
  | pathParts {d c} : (c.peek true).1.kind = .name →
    Starts s (single d c) (pathRest (c.peek true).2)
  | variant {d d' c parts c'} : path s true c = .ok (parts, c') →
    (c'.peek true).1.isOp "(" = true → enter d (c'.peek true).1 = .ok d' →
    Starts s (single d c) (listed d' 0 none false (c'.peek true).2)
  | struct {d d' c parts c'} : path s true c = .ok (parts, c') →
    (c'.peek true).1.isOp "\x7b" = true → enter d (c'.peek true).1 = .ok d' →
    Starts s (single d c) (fields d' (c'.peek true).2)
  | rest {d count rest trailing c} : (c.peek true).1.isOp ".." = true →
    Starts s (listed d count rest trailing c) (listedEnd d count (some count) (c.peek true).2)
  | item {d count rest trailing c} : Starts s (listed d count rest trailing c) (pattern d c)
  | afterItem {d count rest trailing c p c'} : Read.pattern s d c = .ok (p, c') →
    Starts s (listed d count rest trailing c) (listedEnd d (count + 1) rest c')
  | moreItems {d count rest c} : (c.peek true).1.isOp "," = true →
    Starts s (listedEnd d count rest c) (listed d count rest true (c.peek true).2)
  | value {d c} : (c.peek true).1.kind = .name → ((c.peek true).2.peek true).1.isOp ":" = true →
    Starts s (fields d c) (pattern d ((c.peek true).2.peek true).2)
  | afterValue {d c p c'} : (c.peek true).1.kind = .name →
    ((c.peek true).2.peek true).1.isOp ":" = true →
    Read.pattern s d ((c.peek true).2.peek true).2 = .ok (p, c') →
    (c'.peek true).1.isOp "," = true → Starts s (fields d c) (fields d (c'.peek true).2)
  | afterName {d c} : (c.peek true).1.kind = .name →
    ((c.peek true).2.peek true).1.isOp "," = true →
    Starts s (fields d c) (fields d ((c.peek true).2.peek true).2)
  | part {c} : c.token.1.isOp "::" = true → c.token.2.token.1.kind = .name →
    Starts s (pathRest c) (pathRest c.token.2.token.2)

variable {s : Nat} {t u : Call}

/-- **A call is made further on**, or at the same place and of a lower rank. -/
theorem Starts.forward (h : Starts s t u) : t.cursor.Reaches u.cursor ∧
    (t.cursor.position < u.cursor.position ∨ u.rank < t.rank) := by
  -- A call behind something that has been read.
  have hread {c c' : Cursor} {Q : Prop} (h : c.Reads c') :
      c.Reaches c' ∧ (c.position < c'.position ∨ Q) := ⟨h.reaches, .inl h.advances.2⟩
  cases h with
  | first => exact ⟨.refl _, .inr (by simp [rank])⟩
  | more hfirst => exact hread ((moves s).single hfirst)
  | alternative hbar => exact hread (Cursor.reads_peek_op hbar)
  | moreAlternatives hbar hp =>
    exact hread ((Cursor.reads_peek_op hbar).trans ((moves s).single hp))
  | tuple hparen => exact hread (Cursor.reads_peek_op hparen)
  | pathParts hk => exact hread (Cursor.reads_peek (Token.isSolid_of_kind hk rfl))
  | variant hparts hparen => exact hread ((moves_path hparts).trans (Cursor.reads_peek_op hparen))
  | struct hparts hbrace => exact hread ((moves_path hparts).trans (Cursor.reads_peek_op hbrace))
  | rest hrest => exact hread (Cursor.reads_peek_op hrest)
  | item => exact ⟨.refl _, .inr (by simp [rank])⟩
  | afterItem hp => exact hread ((moves s).pattern hp)
  | moreItems hcomma => exact hread (Cursor.reads_peek_op hcomma)
  | value hk hcolon =>
    exact hread ((Cursor.reads_peek (Token.isSolid_of_kind hk rfl)).trans
      (Cursor.reads_peek_op hcolon))
  | afterValue hk hcolon hp hcomma =>
    have hcolon := (Cursor.reads_peek (Token.isSolid_of_kind hk rfl)).trans
      (Cursor.reads_peek_op hcolon)
    exact hread (hcolon.trans (((moves s).pattern hp).trans (Cursor.reads_peek_op hcomma)))
  | afterName hk hcomma =>
    exact hread ((Cursor.reads_peek (Token.isSolid_of_kind hk rfl)).trans
      (Cursor.reads_peek_op hcomma))
  | part hmark hk =>
    exact hread ((Cursor.reads_token (Token.isSolid_of_isOp hmark)).trans
      (Cursor.reads_token (Token.isSolid_of_kind hk rfl)))

theorem rank_lt (t : Call) : t.rank < 16 := by cases t <;> simp [rank]

end Call

/-! ### What a call of the reader of patterns depends on -/

section Determined

variable {s s' d count position : Nat} {rest : Option Nat} {trailing : Bool} {c c' : Cursor}
variable {p : Pattern} {parts : List String} {n : String} {P : Failure → Prop}

theorem determined_pattern
    (h : ∀ u, Call.Starts s (.pattern d c) u → Agree P (u.run s) (u.run s')) :
    Agree P (pattern (s + 1) d c) (pattern (s' + 1) d c) := by
  rw [pattern, pattern]
  refine .bind (h _ .first) ?_
  rintro ⟨first, c₁⟩ hfirst
  refine .bind (h _ (.more hfirst)) ?_
  rintro ⟨more, c₂⟩ _
  simp only
  split <;> exact .ok _

theorem determined_alternatives
    (h : ∀ u, Call.Starts s (.alternatives d c) u → Agree P (u.run s) (u.run s')) :
    Agree P (alternatives (s + 1) d c) (alternatives (s' + 1) d c) := by
  rw [alternatives, alternatives]
  simp only
  split
  · refine .bind (h _ (.alternative ‹_›)) ?_
    rintro ⟨p, c₁⟩ hp
    refine .bind (h _ (.moreAlternatives ‹_› hp)) fun _ _ => ?_
    exact .ok _
  · exact .ok _

variable (hP : ∀ f, f.IsOrdinary → P f)
include hP

theorem determined_listed
    (h : ∀ u, Call.Starts s (.listed d count rest trailing c) u → Agree P (u.run s) (u.run s')) :
    Agree P (listed (s + 1) d count rest trailing c) (listed (s' + 1) d count rest trailing c) := by
  rw [listed, listed]
  simp only
  split
  · exact .ok _
  · split
    · split
      · exact .refl (hP _ trivial)
      · exact h _ (.rest ‹_›)
    · refine .bind (h _ .item) ?_
      rintro ⟨p, c₁⟩ hp
      refine .bind (h _ (.afterItem hp)) fun _ _ => ?_
      exact .ok _

theorem determined_listedEnd
    (h : ∀ u, Call.Starts s (.listedEnd d count rest c) u → Agree P (u.run s) (u.run s')) :
    Agree P (listedEnd (s + 1) d count rest c) (listedEnd (s' + 1) d count rest c) := by
  rw [listedEnd, listedEnd]
  simp only
  split
  · exact h _ (.moreItems ‹_›)
  · split
    · exact .ok _
    · exact .refl (hP _ trivial)

theorem determined_afterPath (hparts : path s true c = .ok (parts, c'))
    (h : ∀ u, Call.Starts s (.single d c) u → Agree P (u.run s) (u.run s')) :
    Agree P (afterPath s d position parts c') (afterPath s' d position parts c') := by
  unfold afterPath
  split
  · refine .seq (ordinary_enter.mono hP) fun d' hd => ?_
    refine .bind (h _ (.variant hparts ‹_› hd)) fun _ _ => ?_
    exact .ok _
  · split
    · refine .seq (ordinary_enter.mono hP) fun d' hd => ?_
      refine .bind (h _ (.struct hparts ‹_› hd)) fun _ _ => ?_
      exact .ok _
    · exact .ok _

theorem determined_single
    (h : ∀ u, Call.Starts s (.single d c) u → Agree P (u.run s) (u.run s')) :
    Agree P (single (s + 1) d c) (single (s' + 1) d c) := by
  rw [single, single]
  simp only
  split
  · exact .ok _
  · split
    · exact .refl (ordinary_negative.mono hP)
    · cases hvalue : Literal.ofToken (c.peek true).1 with
      | some v =>
        refine .seq ((Literal.failsOnly_ofToken hvalue).mono hP) fun _ _ => ?_
        exact .ok _
      | none =>
        simp only
        split
        · refine .seq (ordinary_enter.mono hP) fun d' hd => ?_
          refine .bind (h _ (.tuple ‹_› hd)) fun _ _ => ?_
          exact .ok _
        · split
          · refine .bind (agree_path_of_rest hP fun hk => h _ (.pathParts hk)) ?_
            rintro ⟨parts, c₁⟩ hparts
            exact determined_afterPath hP hparts h
          · exact .refl (hP _ trivial)

theorem determined_fieldEnd (h : (c'.peek true).1.isOp "," = true →
      Agree P (fields s d (c'.peek true).2) (fields s' d (c'.peek true).2)) :
    Agree P (fieldEnd s d n p c') (fieldEnd s' d n p c') := by
  unfold fieldEnd
  split
  · refine .bind (h ‹_›) fun _ _ => ?_
    exact .ok _
  · split
    · exact .ok _
    · exact .refl (hP _ trivial)

theorem determined_fields
    (h : ∀ u, Call.Starts s (.fields d c) u → Agree P (u.run s) (u.run s')) :
    Agree P (fields (s + 1) d c) (fields (s' + 1) d c) := by
  rw [fields, fields]
  simp only
  split
  · exact .ok _
  · split
    · split
      · exact .ok _
      · exact .refl (hP _ trivial)
    · split
      · rename_i hk
        refine .seq (ordinary_checkName.mono hP) fun n _ => ?_
        split
        · rename_i hcolon
          refine .bind (h _ (.value hk hcolon)) ?_
          rintro ⟨p, c₁⟩ hp
          exact determined_fieldEnd hP fun hcomma => h _ (.afterValue hk hcolon hp hcomma)
        · exact determined_fieldEnd (p := .binding (c.peek true).1.position n) hP
            fun hcomma => h _ (.afterName hk hcomma)
      · exact .refl (hP _ trivial)

end Determined

/-- **The functions that read patterns.** -/
def reader : Reader where
  Call := Call
  Outcome := Call.Outcome
  run := Call.run
  Starts := Call.Starts
  cursor := Call.cursor
  rank := Call.rank
  Proper _ := True
  Raises _ f := f.IsOrdinary
  rank_lt := Call.rank_lt
  ne_outOfSteps := Failure.IsOrdinary.ne_outOfSteps
  determined {P s s' t} hP h := by
    cases t with
    | pattern => exact determined_pattern h
    | alternatives => exact determined_alternatives h
    | single => exact determined_single hP h
    | listed => exact determined_listed hP h
    | listedEnd => exact determined_listedEnd hP h
    | fields => exact determined_fields hP h
    | pathRest =>
      exact Expr.Read.determined_pathRest hP fun
        | _, .part hmark hk => h _ (.part hmark hk)
  forward _ h := ⟨trivial, h.forward⟩

end Pattern.Read

end Stencil
