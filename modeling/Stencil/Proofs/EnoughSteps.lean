import Stencil.Proofs.Advance

/-!
# Enough steps

The readers of expressions and patterns are given a number of steps that grows with what is left of
the text. That number is enough: more steps make no difference, and reading fails only at a position
or at an integer that has no value.

* `Literal.IsUnreadable`: an integer lexeme without a value.
* `Cursor.Admits`: the failures that the text from a cursor on accounts for.
* `FailsOnly`, `Agree`: results whose failures are of a class, and pairs of such results that are
  the same.
* `Expr.Read.Enough`, `Pattern.Read.Enough`: what the functions of the readers do in enough steps.
* **`Expr.agree_expression`**, **`Expr.failsOnly_readChain`**, **`Pattern.failsOnly_read`**: how
  reading an expression, a chain and a pattern fails.
-/

namespace Stencil

open Text Expr

/-! ## Literals -/

namespace Literal

variable {text cs rest : List Char} {f : Failure} {p : CodePoint} {position s : Nat}

/-- **An integer lexeme without a value**: a base without digits, or more decimal digits than can be
read. -/
def IsUnreadable (text : List Char) : Prop :=
  (∃ letter, withoutUnderscores text = ['0', letter] ∧ (radixOf? letter).isSome = true) ∨
  (∀ letter digits, withoutUnderscores text = '0' :: letter :: digits → radixOf? letter = none) ∧
    maxDecimalDigits < (withoutUnderscores text).length

theorem ofDecimal_error {ds : List Char} : ofInt.ofDecimal ds = .error f ↔
    f = .unreadableNumber ∧ maxDecimalDigits < ds.length := by
  unfold ofInt.ofDecimal
  split <;> simp [*, eq_comm]

/-- **Only an unreadable integer fails**, and it does. -/
theorem ofInt_error : ofInt text = .error f ↔ f = .unreadableNumber ∧ IsUnreadable text := by
  unfold ofInt IsUnreadable
  split
  · rename_i letter digits heq
    cases hradix : radixOf? letter with
    | some base =>
      cases digits with
      | nil =>
        have hleft : ∃ l, withoutUnderscores text = ['0', l] ∧ (radixOf? l).isSome = true :=
          ⟨letter, heq, by rw [hradix]; rfl⟩
        simp only [hleft, true_or, and_true]
        exact ⟨fun h => by cases h; rfl, fun h => by rw [h]; rfl⟩
      | cons d ds =>
        refine ⟨fun h => (by cases h), ?_⟩
        rintro ⟨-, ⟨l, he, -⟩ | ⟨hbase, -⟩⟩
        · rw [heq] at he
          cases he
        · rw [hbase _ _ heq] at hradix
          cases hradix
    | none =>
      rw [ofDecimal_error, heq]
      refine and_congr_right fun _ => ⟨fun hl => .inr ⟨fun l ds he => ?_, hl⟩, ?_⟩
      · cases he
        exact hradix
      · rintro (⟨l, he, hs⟩ | ⟨-, hl⟩)
        · cases he
          rw [hradix] at hs
          cases hs
        · exact hl
  · rename_i hne
    have hbase : ∀ letter digits, withoutUnderscores text = '0' :: letter :: digits →
        radixOf? letter = none := fun letter digits he => absurd he (hne letter digits)
    have hnone : ¬ ∃ letter, withoutUnderscores text = ['0', letter] ∧
        (radixOf? letter).isSome = true := by
      rintro ⟨letter, he, -⟩
      exact hne letter [] he
    rw [ofDecimal_error]
    simp only [hnone, false_or, and_iff_right hbase]

/-- An escape takes something. -/
theorem length_lt_of_escape (h : escape position cs = .ok (p, rest)) : rest.length < cs.length := by
  unfold escape at h
  split at h
  · cases h
  · split at h
    · split at h
      · cases h
        simp only [List.length_cons]
        omega
      · cases h
    · cases h
  · rename_i cs
    split at h
    · rename_i hdrop
      cases h
      have := (cs.dropWhile_sublist (· != '\x7d')).length_le
      rw [hdrop, List.length_cons] at this
      simp only [List.length_cons]
      omega
    · cases h
  · split at h
    · cases h
      exact Nat.lt_succ_self _
    · cases h

/-- An escape that stands for nothing is reported at its position. -/
theorem escape_error (h : escape position cs = .error f) : ∃ q, f = .at q position := by
  unfold escape at h
  split at h
  · cases h
    exact ⟨_, rfl⟩
  · split at h
    · split at h
      · cases h
      · cases h
        exact ⟨_, rfl⟩
    · cases h
      exact ⟨_, rfl⟩
  · split at h
    · cases h
    · cases h
      exact ⟨_, rfl⟩
  · split at h
    · cases h
    · cases h
      exact ⟨_, rfl⟩

/-- With a step for each character, only an escape fails. -/
theorem unescape_error {cs : List Char} (hs : cs.length < s)
    (h : unescape s position cs = .error f) :
    ∃ q p, f = .at q p := by
  fun_induction unescape s position cs with
  | case1 => cases hs
  | case2 => cases h
  | case3 position s cs ih =>
    rcases Except.bind_error.mp h with he | ⟨⟨p, rest⟩, he, h⟩
    · obtain ⟨q, rfl⟩ := escape_error he
      exact ⟨q, _, rfl⟩
    · rcases Except.bind_error.mp h with h | ⟨ps, -, h⟩
      · have := length_lt_of_escape he
        exact ih rest (by simp only [List.length_cons] at hs; omega) h
      · cases h
  | case4 position s c cs _ ih =>
    rcases Except.bind_error.mp h with h | ⟨ps, -, h⟩
    · exact ih (Nat.lt_of_succ_lt_succ hs) h
    · cases h

theorem ofString_error (h : ofString position text = .error f) : ∃ q p, f = .at q p :=
  unescape_error (Nat.lt_succ_self _) h

end Literal

/-! ## Failures -/

/-- A failure at a position of the text. -/
def Failure.IsPlaced : Failure → Prop
  | .at _ _ => True
  | _ => False

namespace Cursor

/-- **A number further on in the text that cannot be read.** -/
def HasUnreadable (c : Cursor) : Prop :=
  ∃ d, c.Reaches d ∧ d.token.1.kind = .int ∧ Literal.IsUnreadable d.token.1.text

/-- **The failures that the text from a cursor on accounts for**: those at a position, and that of a
number if there is such a number. -/
def Admits (c : Cursor) : Failure → Prop
  | .at _ _ => True
  | .unreadableNumber => c.HasUnreadable
  | .outOfSteps => False

end Cursor

/-- **A result that fails only in the given ways**, if it fails. -/
def FailsOnly {α : Type} (P : Failure → Prop) : Except Failure α → Prop
  | .ok _ => True
  | .error f => P f

/-- **Two results that are the same**, and that fail only in the given ways. -/
structure Agree {α : Type} (P : Failure → Prop) (r r' : Except Failure α) : Prop where
  same : r = r'
  fails : FailsOnly P r

section Agree

variable {α β : Type} {P Q : Failure → Prop} {r r' : Except Failure α} {f : Failure}

theorem failsOnly_iff : FailsOnly P r ↔ ∀ f, r = .error f → P f := by
  cases r with
  | ok a => exact ⟨fun _ f h => (by cases h), fun _ => trivial⟩
  | error f => exact ⟨fun h g hg => (by cases hg; exact h), fun h => h f rfl⟩

theorem FailsOnly.mono (hr : FailsOnly P r) (h : ∀ f, P f → Q f) : FailsOnly Q r :=
  failsOnly_iff.mpr fun f hf => h f (failsOnly_iff.mp hr f hf)

theorem FailsOnly.bind {k : α → Except Failure β} (hr : FailsOnly P r)
    (hk : ∀ a, r = .ok a → FailsOnly P (k a)) : FailsOnly P (r >>= k) := by
  cases r with
  | ok a => exact hk a rfl
  | error f => exact hr

namespace Agree

theorem refl (h : FailsOnly P r) : Agree P r r := ⟨rfl, h⟩

theorem ok (a : α) : Agree P (.ok a : Except Failure α) (.ok a) := ⟨rfl, trivial⟩

theorem mono (hr : Agree P r r') (h : ∀ f, P f → Q f) : Agree Q r r' := ⟨hr.same, hr.fails.mono h⟩

theorem bind {k k' : α → Except Failure β} (hr : Agree P r r')
    (hk : ∀ a, r = .ok a → Agree P (k a) (k' a)) : Agree P (r >>= k) (r' >>= k') := by
  obtain ⟨rfl, hr⟩ := hr
  refine ⟨?_, hr.bind fun a ha => (hk a ha).fails⟩
  cases r with
  | ok a => exact (hk a rfl).same
  | error f => rfl

/-- A step that takes no number of steps. -/
theorem seq {k k' : α → Except Failure β} (hr : FailsOnly P r)
    (hk : ∀ a, r = .ok a → Agree P (k a) (k' a)) : Agree P (r >>= k) (r >>= k') :=
  (refl hr).bind hk

end Agree

end Agree

namespace Cursor

variable {α : Type} {c d : Cursor} {r r' : Except Failure α} {f : Failure}

theorem Admits.of_placed (h : f.IsPlaced) : c.Admits f := by
  cases f with
  | «at» => trivial
  | unreadableNumber => exact h.elim
  | outOfSteps => exact h

theorem Reaches.admits (h : c.Reaches d) (f : Failure) (hf : d.Admits f) : c.Admits f := by
  cases f with
  | «at» => trivial
  | unreadableNumber =>
    obtain ⟨e, he, hint⟩ := hf
    exact ⟨e, h.trans he, hint⟩
  | outOfSteps => exact hf

/-- A step further on in the text. -/
theorem Reaches.agree (h : c.Reaches d) (hr : Agree d.Admits r r') : Agree c.Admits r r' :=
  hr.mono h.admits

/-- **A literal fails at an escape, or is an integer without a value.** -/
theorem failsOnly_ofToken {spaced : Bool} {v : Except Failure Literal}
    (h : Literal.ofToken (c.peek spaced).1 = some v) : FailsOnly c.Admits v := by
  obtain ⟨d, hd, hp⟩ : ∃ d, c.Reaches d ∧ c.peek spaced = d.token := by
    cases spaced with
    | true => exact ⟨c.skipBlank, c.reaches_skipBlank, rfl⟩
    | false => exact ⟨c, .refl c, rfl⟩
  rw [hp] at h
  unfold Literal.ofToken at h
  split at h
  · rename_i hk
    cases h
    cases hint : Literal.ofInt d.token.1.text with
    | ok n => trivial
    | error f =>
      obtain ⟨rfl, hu⟩ := Literal.ofInt_error.mp hint
      exact ⟨d, hd, hk, hu⟩
  · cases h
    trivial
  · cases h
    cases hstring : Literal.ofString d.token.1.position d.token.1.text with
    | ok ps => trivial
    | error f =>
      obtain ⟨q, p, rfl⟩ := Literal.ofString_error hstring
      trivial
  · split at h
    · cases h
      trivial
    · split at h
      · cases h
        trivial
      · split at h
        · cases h
          trivial
        · cases h
  · cases h

end Cursor

/-! ## Expressions -/

namespace Expr

namespace Read

variable {s t d level position : Nat} {spaced : Bool} {closing : Char} {c : Cursor}
variable {left base : Expr} {P : Failure → Prop}

theorem failsOnly_enter (d : Nat) (k : Token) : FailsOnly c.Admits (enter d k) := by
  unfold enter
  split <;> trivial

theorem failsOnly_checkName (k : Token) : FailsOnly Failure.IsPlaced (checkName k) := by
  unfold checkName
  split <;> trivial

/-- The parts of a path, with more steps than there are characters. -/
theorem agree_pathRest (h : c.rest.length < min s t) :
    Agree Failure.IsPlaced (pathRest s c) (pathRest t c) := by
  induction s generalizing t c with
  | zero => omega
  | succ s ih =>
    obtain ⟨t, rfl⟩ : ∃ k, t = k + 1 := Nat.exists_eq_succ_of_ne_zero (by omega)
    rw [pathRest, pathRest]
    simp only
    split
    · split
      · rename_i hk
        have hmark := Cursor.reads_token (Token.isSolid_of_isOp ‹_›)
        have hname := hmark.trans (Cursor.reads_token (Token.isSolid_of_kind hk rfl))
        have hlt := hname.length_lt
        refine .seq (failsOnly_checkName _) fun name _ => ?_
        refine .bind (ih (by omega)) ?_
        rintro ⟨parts, c₁⟩ _
        exact .ok _
      · exact .refl trivial
    · exact .ok _

/-- A path, with a step for each character. -/
theorem agree_path (h : c.rest.length ≤ min s t) :
    Agree Failure.IsPlaced (path s spaced c) (path t spaced c) := by
  rw [path, path]
  simp only
  split
  · rename_i hk
    have hlt := (Cursor.reads_peek (Token.isSolid_of_kind hk rfl)).length_lt
    refine .seq (failsOnly_checkName _) fun name _ => ?_
    refine .bind (agree_pathRest (by omega)) ?_
    rintro ⟨parts, c₁⟩ _
    exact .ok _
  · exact .refl trivial

/-- **What the functions of the reader do in enough steps**: the number of them makes no difference,
and the text accounts for a failure. -/
structure Enough (s t : Nat) : Prop where
  expression : ∀ {spaced d} {c : Cursor}, 16 * c.rest.length + 11 ≤ min s t →
    Agree c.Admits (expression s spaced d c) (expression t spaced d c)
  binary : ∀ {spaced d level} {c : Cursor}, level ≤ BinaryOp.levels →
    16 * c.rest.length + 10 ≤ min s t + level →
    Agree c.Admits (binary s spaced d level c) (binary t spaced d level c)
  binaryRest : ∀ {spaced d level left} {c : Cursor}, 16 * c.rest.length + 1 ≤ min s t →
    Agree c.Admits (binaryRest s spaced d level left c) (binaryRest t spaced d level left c)
  unary : ∀ {spaced d} {c : Cursor}, 16 * c.rest.length + 4 ≤ min s t →
    Agree c.Admits (unary s spaced d c) (unary t spaced d c)
  postfixed : ∀ {spaced d} {c : Cursor}, 16 * c.rest.length + 3 ≤ min s t →
    Agree c.Admits (postfixed s spaced d c) (postfixed t spaced d c)
  links : ∀ {spaced d base} {c : Cursor}, 16 * c.rest.length + 2 ≤ min s t →
    Agree c.Admits (links s spaced d base c) (links t spaced d base c)
  primary : ∀ {spaced d} {c : Cursor}, 16 * c.rest.length + 2 ≤ min s t →
    Agree c.Admits (primary s spaced d c) (primary t spaced d c)
  parenthesized : ∀ {d position} {c : Cursor}, 16 * c.rest.length + 12 ≤ min s t →
    Agree c.Admits (parenthesized s d position c) (parenthesized t d position c)
  tupleRest : ∀ {d} {c : Cursor}, 16 * c.rest.length + 1 ≤ min s t →
    Agree c.Admits (tupleRest s d c) (tupleRest t d c)
  items : ∀ {spaced d closing} {c : Cursor}, (c.peek spaced).1.kind.isSolid = true →
    16 * c.rest.length + 1 ≤ min s t →
    Agree c.Admits (items s spaced d closing c) (items t spaced d closing c)
  itemsRest : ∀ {d closing} {c : Cursor}, 16 * c.rest.length + 12 ≤ min s t →
    Agree c.Admits (itemsRest s d closing c) (itemsRest t d closing c)

section Step

variable (ih : Enough s t)
include ih

theorem agree_expression (h : 16 * c.rest.length + 11 ≤ min (s + 1) (t + 1)) :
    Agree c.Admits (expression (s + 1) spaced d c) (expression (t + 1) spaced d c) := by
  rw [expression, expression]
  refine .bind (ih.binary (Nat.zero_le _) (by omega)) ?_
  rintro ⟨start, c₁⟩ hstart
  have hfirst := (moves s).binary hstart
  simp only
  split
  · have hnext := hfirst.reaches.trans (c₁.reaches_peek spaced)
    have hlt := hfirst.length_lt
    have hle := (c₁.reaches_peek spaced).length_le
    refine .bind (hnext.agree (ih.binary (Nat.zero_le _) (by omega))) ?_
    rintro ⟨stop, c₂⟩ _
    exact .ok _
  · exact .ok _

theorem agree_binary (hl : level ≤ BinaryOp.levels)
    (h : 16 * c.rest.length + 10 ≤ min (s + 1) (t + 1) + level) :
    Agree c.Admits (binary (s + 1) spaced d level c) (binary (t + 1) spaced d level c) := by
  have hlevels : BinaryOp.levels = 5 := rfl
  rw [binary, binary]
  split
  · refine .bind (ih.binary (by omega) (by omega)) ?_
    rintro ⟨left, c₁⟩ hleft
    have hfirst := (moves s).binary hleft
    have hlt := hfirst.length_lt
    exact hfirst.reaches.agree (ih.binaryRest (by omega))
  · exact ih.unary (by omega)

theorem agree_binaryRest (h : 16 * c.rest.length + 1 ≤ min (s + 1) (t + 1)) :
    Agree c.Admits (binaryRest (s + 1) spaced d level left c)
      (binaryRest (t + 1) spaced d level left c) := by
  have hlevels : BinaryOp.levels = 5 := rfl
  rw [binaryRest, binaryRest]
  simp only
  cases hop : binaryOpAt? level (c.peek spaced).1 with
  | none => exact .ok _
  | some op =>
    obtain ⟨hop, hlevel⟩ := Option.filter_eq_some_iff.mp hop
    have hlevel := eq_of_beq hlevel ▸ op.level_lt
    have hends := Cursor.reads_peek (isSolid_of_binaryOp? hop)
    have hlt := hends.length_lt
    refine .bind (hends.reaches.agree (ih.binary hlevel (by omega))) ?_
    rintro ⟨right, c₁⟩ hright
    have hnext := hends.trans ((moves s).binary hright)
    have hlt' := hnext.length_lt
    exact hnext.reaches.agree (ih.binaryRest (by omega))

theorem agree_unary (h : 16 * c.rest.length + 4 ≤ min (s + 1) (t + 1)) :
    Agree c.Admits (unary (s + 1) spaced d c) (unary (t + 1) spaced d c) := by
  rw [unary, unary]
  simp only
  cases hop : unaryOp? (c.peek spaced).1 with
  | none => exact ih.postfixed (by omega)
  | some op =>
    have hends := Cursor.reads_peek (isSolid_of_unaryOp? hop)
    have hlt := hends.length_lt
    refine .seq (failsOnly_enter _ _) fun d' _ => ?_
    refine .bind (hends.reaches.agree (ih.unary (by omega))) ?_
    rintro ⟨operand, c₁⟩ _
    exact .ok _

theorem agree_postfixed (h : 16 * c.rest.length + 3 ≤ min (s + 1) (t + 1)) :
    Agree c.Admits (postfixed (s + 1) spaced d c) (postfixed (t + 1) spaced d c) := by
  rw [postfixed, postfixed]
  refine .bind (ih.primary (by omega)) ?_
  rintro ⟨base, c₁⟩ hbase
  have hfirst := (moves s).primary hbase
  have hlt := hfirst.length_lt
  exact hfirst.reaches.agree (ih.links (by omega))

theorem agree_links (h : 16 * c.rest.length + 2 ≤ min (s + 1) (t + 1)) :
    Agree c.Admits (links (s + 1) spaced d base c) (links (t + 1) spaced d base c) := by
  rw [links, links]
  simp only
  split
  · split
    · rename_i hdot hk
      have hname := (Cursor.reads_peek_op hdot).trans
        (Cursor.reads_token (Token.isSolid_of_kind hk rfl))
      have hlt := hname.length_lt
      refine .seq ((failsOnly_checkName _).mono fun _ => .of_placed) fun name _ => ?_
      split
      · rename_i hparen
        have hitems : Agree _ (items s _ d ')' _) (items t _ d ')' _) :=
          ih.items (Token.isSolid_of_isOp hparen) (by omega)
        refine .bind (hname.reaches.agree hitems) ?_
        rintro ⟨args, c₁⟩ hargs
        have hnext := hname.trans ((moves s).items (Token.isSolid_of_isOp hparen) hargs)
        have hlt' := hnext.length_lt
        exact hnext.reaches.agree (ih.links (by omega))
      · exact hname.reaches.agree (ih.links (by omega))
    · split
      · exact .refl trivial
      · exact .ok _
  · split
    · rename_i hparen
      refine .bind (ih.items (Token.isSolid_of_isOp hparen) (by omega)) ?_
      rintro ⟨args, c₁⟩ hargs
      have hnext := (moves s).items (Token.isSolid_of_isOp hparen) hargs
      have hlt := hnext.length_lt
      exact hnext.reaches.agree (ih.links (by omega))
    · split
      · rename_i hopening
        have hends := Cursor.reads_peek_op hopening
        have hlt := hends.length_lt
        refine .bind (hends.reaches.agree (ih.expression (by omega))) ?_
        rintro ⟨place, c₁⟩ hplace
        have hplace' := hends.trans ((moves s).expression hplace)
        simp only
        split
        · have hnext := hplace'.trans (Cursor.reads_peek_op ‹_›)
          have hlt' := hnext.length_lt
          exact hnext.reaches.agree (ih.links (by omega))
        · exact .refl trivial
      · exact .ok _

theorem agree_primary (h : 16 * c.rest.length + 2 ≤ min (s + 1) (t + 1)) :
    Agree c.Admits (primary (s + 1) spaced d c) (primary (t + 1) spaced d c) := by
  rw [primary, primary]
  simp only
  cases hvalue : Literal.ofToken (c.peek spaced).1 with
  | some value =>
    refine .seq (Cursor.failsOnly_ofToken hvalue) fun v _ => ?_
    exact .ok _
  | none =>
    simp only
    split
    · refine .bind ((agree_path (by omega)).mono fun _ => .of_placed) ?_
      rintro ⟨parts, c₁⟩ _
      exact .ok _
    · split
      · rename_i hopening
        have hends := Cursor.reads_peek_op hopening
        have hlt := hends.length_lt
        refine .seq (failsOnly_enter _ _) fun d' _ => ?_
        exact hends.reaches.agree (ih.parenthesized (by omega))
      · split
        · rename_i hopening
          refine .bind (ih.items (Token.isSolid_of_isOp hopening) (by omega)) ?_
          rintro ⟨is, c₁⟩ _
          exact .ok _
        · split <;> exact .refl trivial

theorem agree_parenthesized (h : 16 * c.rest.length + 12 ≤ min (s + 1) (t + 1)) :
    Agree c.Admits (parenthesized (s + 1) d position c) (parenthesized (t + 1) d position c) := by
  rw [parenthesized, parenthesized]
  simp only
  split
  · exact .ok _
  · refine .bind (ih.expression (by omega)) ?_
    rintro ⟨first, c₁⟩ hfirst
    have hends := (moves s).expression hfirst
    have hlt := hends.length_lt
    simp only
    split
    · refine .bind (hends.reaches.agree (ih.tupleRest (by omega))) ?_
      rintro ⟨more, c₂⟩ _
      exact .ok _
    · split
      · exact .ok _
      · exact .refl trivial

theorem agree_tupleRest (h : 16 * c.rest.length + 1 ≤ min (s + 1) (t + 1)) :
    Agree c.Admits (tupleRest (s + 1) d c) (tupleRest (t + 1) d c) := by
  rw [tupleRest, tupleRest]
  simp only
  split
  · rename_i hcomma
    have hends := Cursor.reads_peek_op hcomma
    have hlt := hends.length_lt
    split
    · exact .ok _
    · refine .bind (hends.reaches.agree (ih.expression (by omega))) ?_
      rintro ⟨item, c₁⟩ hitem
      have hnext := hends.trans ((moves s).expression hitem)
      have hlt' := hnext.length_lt
      refine .bind (hnext.reaches.agree (ih.tupleRest (by omega))) ?_
      rintro ⟨more, c₂⟩ _
      exact .ok _
  · split
    · exact .ok _
    · exact .refl trivial

theorem agree_items (hopening : (c.peek spaced).1.kind.isSolid = true)
    (h : 16 * c.rest.length + 1 ≤ min (s + 1) (t + 1)) :
    Agree c.Admits (items (s + 1) spaced d closing c) (items (t + 1) spaced d closing c) := by
  have hends := Cursor.reads_peek hopening
  have hlt := hends.length_lt
  rw [items, items]
  refine .seq (failsOnly_enter _ _) fun d' _ => ?_
  exact hends.reaches.agree (ih.itemsRest (by omega))

theorem agree_itemsRest (h : 16 * c.rest.length + 12 ≤ min (s + 1) (t + 1)) :
    Agree c.Admits (itemsRest (s + 1) d closing c) (itemsRest (t + 1) d closing c) := by
  rw [itemsRest, itemsRest]
  simp only
  split
  · exact .ok _
  · refine .bind (ih.expression (by omega)) ?_
    rintro ⟨item, c₁⟩ hitem
    have hends := (moves s).expression hitem
    simp only
    split
    · have hnext := hends.trans (Cursor.reads_peek_op ‹_›)
      have hlt := hnext.length_lt
      refine .bind (hnext.reaches.agree (ih.itemsRest (by omega))) ?_
      rintro ⟨more, c₂⟩ _
      exact .ok _
    · split
      · exact .ok _
      · exact .refl trivial

end Step

/-- **Enough steps are enough.** -/
theorem enough : ∀ s t, Enough s t
  | 0, _ | _ + 1, 0 => by
    have hlevels : BinaryOp.levels = 5 := rfl
    constructor <;> intros <;> omega
  | s + 1, t + 1 => by
    have ih := enough s t
    exact ⟨agree_expression ih, agree_binary ih, agree_binaryRest ih, agree_unary ih,
      agree_postfixed ih, agree_links ih, agree_primary ih, agree_parenthesized ih,
      agree_tupleRest ih, agree_items ih, agree_itemsRest ih⟩

end Read

variable {c : Cursor} {s : Nat}

theorem le_steps (c : Cursor) {k : Nat} (hk : k ≤ 32) :
    16 * c.rest.length + k ≤ min c.steps c.steps := by
  unfold Cursor.steps
  omega

/-- **Reading an expression** fails only as the text accounts for. -/
theorem failsOnly_readExpression (c : Cursor) : FailsOnly c.Admits (readExpression c) :=
  ((Read.enough _ _).expression (le_steps c (by decide))).fails

/-- **Reading a chain** fails only as the text accounts for. -/
theorem failsOnly_readChain (c : Cursor) : FailsOnly c.Admits (readChain c) := by
  unfold readChain
  split
  · exact ((Read.enough _ _).primary (le_steps c (by decide))).fails
  · exact ((Read.enough _ _).postfixed (le_steps c (by decide))).fails

/-- **Reading a path** fails only at a position. -/
theorem failsOnly_readPath (c : Cursor) : FailsOnly Failure.IsPlaced (readPath c) :=
  (Read.agree_path (Nat.le_trans (by omega) (le_steps c (k := 0) (by decide)))).fails

/-- **Reading a whole text as an expression** fails only as the text accounts for. -/
theorem failsOnly_parse (text : List Char) :
    FailsOnly (Cursor.ofText text 0).Admits (parse text) := by
  refine (failsOnly_readExpression _).bind ?_
  rintro ⟨e, c⟩ _
  simp only
  split <;> trivial

end Expr

/-! ## Patterns -/

namespace Pattern

namespace Read

open Expr.Read

variable {s t d count position : Nat} {rest : Option Nat} {trailing : Bool} {c : Cursor}
variable {p : Pattern} {parts : List String}

theorem failsOnly_negative (position : Nat) (c : Cursor) :
    FailsOnly c.Admits (negative position c) := by
  unfold negative
  simp only
  split
  · cases hvalue : Literal.ofToken (c.peek true).1 with
    | some v => exact (Cursor.failsOnly_ofToken hvalue).bind fun _ _ => trivial
    | none => trivial
  · trivial

/-- **What the functions of the reader of patterns do in enough steps**: the number of them makes no
difference, and the text accounts for a failure. -/
structure Enough (s t : Nat) : Prop where
  pattern : ∀ {d} {c : Cursor}, 16 * c.rest.length + 2 ≤ min s t →
    Agree c.Admits (pattern s d c) (pattern t d c)
  alternatives : ∀ {d} {c : Cursor}, 16 * c.rest.length + 1 ≤ min s t →
    Agree c.Admits (alternatives s d c) (alternatives t d c)
  single : ∀ {d} {c : Cursor}, 16 * c.rest.length + 1 ≤ min s t →
    Agree c.Admits (single s d c) (single t d c)
  listed : ∀ {d count rest trailing} {c : Cursor}, 16 * c.rest.length + 3 ≤ min s t →
    Agree c.Admits (listed s d count rest trailing c) (listed t d count rest trailing c)
  listedEnd : ∀ {d count rest} {c : Cursor}, 16 * c.rest.length + 1 ≤ min s t →
    Agree c.Admits (listedEnd s d count rest c) (listedEnd t d count rest c)
  fields : ∀ {d} {c : Cursor}, 16 * c.rest.length + 1 ≤ min s t →
    Agree c.Admits (fields s d c) (fields t d c)

section Step

variable (ih : Enough s t)
include ih

theorem agree_pattern (h : 16 * c.rest.length + 2 ≤ min (s + 1) (t + 1)) :
    Agree c.Admits (pattern (s + 1) d c) (pattern (t + 1) d c) := by
  rw [pattern, pattern]
  refine .bind (ih.single (by omega)) ?_
  rintro ⟨first, c₁⟩ hfirst
  have hends := (moves s).single hfirst
  have hlt := hends.length_lt
  refine .bind (hends.reaches.agree (ih.alternatives (by omega))) ?_
  rintro ⟨more, c₂⟩ _
  simp only
  split <;> exact .ok _

theorem agree_alternatives (h : 16 * c.rest.length + 1 ≤ min (s + 1) (t + 1)) :
    Agree c.Admits (alternatives (s + 1) d c) (alternatives (t + 1) d c) := by
  rw [alternatives, alternatives]
  simp only
  split
  · rename_i hbar
    have hends := Cursor.reads_peek_op hbar
    have hlt := hends.length_lt
    refine .bind (hends.reaches.agree (ih.single (by omega))) ?_
    rintro ⟨p, c₁⟩ hp
    have hnext := hends.trans ((moves s).single hp)
    have hlt' := hnext.length_lt
    refine .bind (hnext.reaches.agree (ih.alternatives (by omega))) ?_
    rintro ⟨more, c₂⟩ _
    exact .ok _
  · exact .ok _

theorem agree_listed (h : 16 * c.rest.length + 3 ≤ min (s + 1) (t + 1)) :
    Agree c.Admits (listed (s + 1) d count rest trailing c)
      (listed (t + 1) d count rest trailing c) := by
  rw [listed, listed]
  simp only
  split
  · exact .ok _
  · split
    · split
      · exact .refl trivial
      · have hends := Cursor.reads_peek_op ‹_›
        have hlt := hends.length_lt
        exact hends.reaches.agree (ih.listedEnd (by omega))
    · refine .bind (ih.pattern (by omega)) ?_
      rintro ⟨p, c₁⟩ hp
      have hends := (moves s).pattern hp
      have hlt := hends.length_lt
      refine .bind (hends.reaches.agree (ih.listedEnd (by omega))) ?_
      rintro ⟨l, c₂⟩ _
      exact .ok _

theorem agree_listedEnd (h : 16 * c.rest.length + 1 ≤ min (s + 1) (t + 1)) :
    Agree c.Admits (listedEnd (s + 1) d count rest c) (listedEnd (t + 1) d count rest c) := by
  rw [listedEnd, listedEnd]
  simp only
  split
  · have hends := Cursor.reads_peek_op ‹_›
    have hlt := hends.length_lt
    exact hends.reaches.agree (ih.listed (by omega))
  · split
    · exact .ok _
    · exact .refl trivial

theorem agree_afterPath (h : 16 * c.rest.length ≤ min s t) :
    Agree c.Admits (afterPath s d position parts c) (afterPath t d position parts c) := by
  unfold afterPath
  split
  · have hends := Cursor.reads_peek_op ‹_›
    have hlt := hends.length_lt
    refine .seq (failsOnly_enter _ _) fun d' _ => ?_
    refine .bind (hends.reaches.agree (ih.listed (by omega))) ?_
    rintro ⟨l, c₁⟩ _
    exact .ok _
  · split
    · have hends := Cursor.reads_peek_op ‹_›
      have hlt := hends.length_lt
      refine .seq (failsOnly_enter _ _) fun d' _ => ?_
      refine .bind (hends.reaches.agree (ih.fields (by omega))) ?_
      rintro ⟨fs, o, c₁⟩ _
      exact .ok _
    · exact .ok _

theorem agree_single (h : 16 * c.rest.length + 1 ≤ min (s + 1) (t + 1)) :
    Agree c.Admits (single (s + 1) d c) (single (t + 1) d c) := by
  rw [single, single]
  simp only
  split
  · exact .ok _
  · split
    · have hminus := (c.reaches_peek true)
      exact hminus.agree (.refl (failsOnly_negative _ _))
    · cases hvalue : Literal.ofToken (c.peek true).1 with
      | some v =>
        refine .seq (Cursor.failsOnly_ofToken hvalue) fun v _ => ?_
        exact .ok _
      | none =>
        simp only
        split
        · have hends := Cursor.reads_peek_op ‹_›
          have hlt := hends.length_lt
          refine .seq (failsOnly_enter _ _) fun d' _ => ?_
          refine .bind (hends.reaches.agree (ih.listed (by omega))) ?_
          rintro ⟨l, c₁⟩ _
          exact .ok _
        · split
          · refine .bind ((agree_path (by omega)).mono fun _ => .of_placed) ?_
            rintro ⟨parts, c₁⟩ hparts
            have hends := moves_path hparts
            have hlt := hends.length_lt
            exact hends.reaches.agree (agree_afterPath ih (by omega))
          · exact .refl trivial

theorem agree_fieldEnd {n : String} (h : 16 * c.rest.length ≤ min s t) :
    Agree c.Admits (fieldEnd s d n p c) (fieldEnd t d n p c) := by
  unfold fieldEnd
  split
  · have hends := Cursor.reads_peek_op ‹_›
    have hlt := hends.length_lt
    refine .bind (hends.reaches.agree (ih.fields (by omega))) ?_
    rintro ⟨fs, o, c₁⟩ _
    exact .ok _
  · split
    · exact .ok _
    · exact .refl trivial

theorem agree_fields (h : 16 * c.rest.length + 1 ≤ min (s + 1) (t + 1)) :
    Agree c.Admits (fields (s + 1) d c) (fields (t + 1) d c) := by
  rw [fields, fields]
  simp only
  split
  · exact .ok _
  · split
    · split
      · exact .ok _
      · exact .refl trivial
    · split
      · rename_i hk
        have hends := Cursor.reads_peek (Token.isSolid_of_kind hk rfl)
        have hlt := hends.length_lt
        refine .seq ((failsOnly_checkName _).mono fun _ => .of_placed) fun n _ => ?_
        split
        · have hcolon := hends.trans (Cursor.reads_peek_op ‹_›)
          have hlt' := hcolon.length_lt
          refine .bind (hcolon.reaches.agree (ih.pattern (by omega))) ?_
          rintro ⟨p, c₁⟩ hp
          have hnext := hcolon.trans ((moves s).pattern hp)
          have hlt'' := hnext.length_lt
          exact hnext.reaches.agree (agree_fieldEnd ih (by omega))
        · exact hends.reaches.agree
            (agree_fieldEnd (p := .binding (c.peek true).1.position n) ih (by omega))
      · exact .refl trivial

end Step

/-- **Enough steps are enough** for patterns. -/
theorem enough : ∀ s t, Enough s t
  | 0, _ | _ + 1, 0 => by constructor <;> intros <;> omega
  | s + 1, t + 1 => by
    have ih := enough s t
    exact ⟨agree_pattern ih, agree_alternatives ih, agree_single ih, agree_listed ih,
      agree_listedEnd ih, agree_fields ih⟩

end Read

/-- **Reading a pattern** fails only as the text accounts for. -/
theorem failsOnly_read (c : Cursor) : FailsOnly c.Admits (Pattern.read c) :=
  ((Read.enough _ _).pattern (le_steps c (by decide))).fails

end Pattern

end Stencil
