import Stencil.Proofs.Embedding

/-!
# Reading alike texts

Two texts that differ in their white space have the same tokens at different places. Where the
tokens are found to be the same wherever the reader of expressions looks for them, the same is read
from both texts, positions aside. The reader skips white space before most tokens; it does not
behind the point of a field and around the marks of a path.

* `Expr.Token.Alike`: tokens that differ in where they stand.
* `Cursor.Follows`: cursors at which the reader sees alike tokens.
* `Expr.Read.Follows`: what the functions of the reader do at such cursors.
* **`Expr.Read.follows`**: they read the same.
-/

namespace Stencil

open Text Expr

namespace Expr.Token

/-- **Tokens that differ in where they stand.** -/
def Alike (t u : Token) : Prop := t.kind = u.kind ∧ t.text = u.text

namespace Alike

variable {t u : Token}

theorem refl (t : Token) : t.Alike t := ⟨rfl, rfl⟩

theorem isOp (h : t.Alike u) (o : String) : u.isOp o = t.isOp o := by
  rw [Token.isOp, Token.isOp, h.1, h.2]

theorem isKeyword (h : t.Alike u) (w : String) : u.isKeyword w = t.isKeyword w := by
  rw [Token.isKeyword, Token.isKeyword, h.1, h.2]

theorem value (h : t.Alike u) : u.value = t.value := by rw [Token.value, Token.value, h.2]

theorem checkName {n : String} (h : t.Alike u) (hn : Read.checkName t = .ok n) :
    Read.checkName u = .ok n := by
  rw [Read.checkName, h.value]
  unfold Read.checkName at hn
  split at hn
  · cases hn
  · rwa [if_neg ‹_›]

theorem enter {d d' : Nat} (ht : Read.enter d t = .ok d') (u : Token) :
    Read.enter d u = .ok d' := by
  unfold Read.enter at ht ⊢
  split at ht
  · rwa [if_pos ‹_›]
  · cases ht

theorem binaryOpAt? (h : t.Alike u) (level : Nat) :
    Read.binaryOpAt? level u = Read.binaryOpAt? level t := by
  simp only [Read.binaryOpAt?, Read.binaryOp?, h.isOp, h.isKeyword]

theorem unaryOp? (h : t.Alike u) : Read.unaryOp? u = Read.unaryOp? t := by
  simp only [Read.unaryOp?, h.isOp, h.isKeyword]

theorem eq_at (h : t.Alike u) : u = { t with position := u.position } := by
  obtain ⟨hk, ht⟩ := h
  cases u
  simp only at hk ht
  rw [← hk, ← ht]

theorem ofToken {v : Literal} (h : t.Alike u) (hv : Literal.ofToken t = some (.ok v)) :
    Literal.ofToken u = some (.ok v) := by
  rw [h.eq_at]
  exact Literal.ofToken_at hv _

theorem ofToken_none (h : t.Alike u) (hv : Literal.ofToken t = none) :
    Literal.ofToken u = none := by
  rw [h.eq_at]
  exact Literal.ofToken_at_none hv _

end Alike

end Expr.Token

/-- **Cursors at which the reader sees alike tokens**, and goes on to such cursors: the next token
with white space before it skipped, the token directly behind a point, and the mark of a path with
the token directly behind it. -/
structure Cursor.Follows (R : Cursor → Cursor → Prop) : Prop where
  peek : ∀ {c d}, R c d → (c.peek true).1.Alike (d.peek true).1
  after : ∀ {c d}, R c d → (c.peek true).1.kind.isSolid = true → R (c.peek true).2 (d.peek true).2
  point : ∀ {c d}, R c d → (c.peek true).1.isOp "." = true →
    (c.peek true).2.token.1.kind = .name →
    (c.peek true).2.token.1.Alike (d.peek true).2.token.1 ∧
      R (c.peek true).2.token.2 (d.peek true).2.token.2
  mark : ∀ {c d}, R c d → d.token.1.isOp "::" = c.token.1.isOp "::"
  afterMark : ∀ {c d}, R c d → c.token.1.isOp "::" = true → c.token.2.token.1.kind = .name →
    c.token.2.token.1.Alike d.token.2.token.1 ∧ R c.token.2.token.2 d.token.2.token.2

namespace Expr

namespace Read

variable {R : Cursor → Cursor → Prop}

/-- **The same expression is read**, positions aside, up to such a cursor. -/
def Same (R : Cursor → Cursor → Prop) (e : Expr) (c : Cursor)
    (r : Except Failure (Expr × Cursor)) : Prop :=
  ∃ e₂ c₂, r = .ok (e₂, c₂) ∧ e₂.unplaced = e.unplaced ∧ R c c₂

/-- The same expressions are read. -/
def SameAll (R : Cursor → Cursor → Prop) (es : List Expr) (c : Cursor)
    (r : Except Failure (List Expr × Cursor)) : Prop :=
  ∃ es₂ c₂, r = .ok (es₂, c₂) ∧ unplacedAll es₂ = unplacedAll es ∧ R c c₂

section Path

variable {s : Nat} {c c₂ c' : Cursor} {ns : List String}

theorem follows_pathRest (hR : Cursor.Follows R) (hc : R c c₂) (h : pathRest s c = .ok (ns, c')) :
    ∃ c₂', pathRest s c₂ = .ok (ns, c₂') ∧ R c' c₂' := by
  induction s generalizing c c₂ ns with
  | zero => cases h
  | succ s ih =>
    rw [pathRest] at h ⊢
    simp only [hR.mark hc] at h ⊢
    split at h
    · rename_i hmark
      rw [if_pos hmark]
      split at h
      · rename_i hk
        obtain ⟨halike, hnext⟩ := hR.afterMark hc hmark hk
        obtain ⟨name, hname, h⟩ := Except.bind_ok.mp h
        obtain ⟨⟨parts, c₁⟩, hparts, h⟩ := Except.bind_ok.mp h
        cases h
        obtain ⟨c₂', hparts₂, hc'⟩ := ih hnext hparts
        refine ⟨c₂', ?_, hc'⟩
        simp only [halike.1 ▸ hk, if_true, halike.checkName hname, Except.ok_bind, hparts₂]
        rfl
      · cases h
    · rename_i hmark
      cases h
      rw [if_neg hmark]
      exact ⟨c₂, rfl, hc⟩

theorem follows_path (hR : Cursor.Follows R) (hc : R c c₂) (h : path s true c = .ok (ns, c')) :
    ∃ c₂', path s true c₂ = .ok (ns, c₂') ∧ R c' c₂' := by
  have ht := hR.peek hc
  rw [path] at h ⊢
  simp only at h ⊢
  split at h
  · rename_i hk
    obtain ⟨name, hname, h⟩ := Except.bind_ok.mp h
    obtain ⟨⟨parts, c₁⟩, hparts, h⟩ := Except.bind_ok.mp h
    cases h
    obtain ⟨c₂', hparts₂, hc'⟩ :=
      follows_pathRest hR (hR.after hc (Token.isSolid_of_kind hk rfl)) hparts
    refine ⟨c₂', ?_, hc'⟩
    simp only [ht.1 ▸ hk, if_true, ht.checkName hname, Except.ok_bind, hparts₂]
    rfl
  · cases h

end Path

/-- **What the functions of the reader do at cursors with alike tokens**: they read the same. -/
structure Follows (R : Cursor → Cursor → Prop) (s : Nat) : Prop where
  expression : ∀ {d c c₂ e c'}, R c c₂ → expression s true d c = .ok (e, c') →
    Same R e c' (expression s true d c₂)
  binary : ∀ {d level c c₂ e c'}, R c c₂ → binary s true d level c = .ok (e, c') →
    Same R e c' (binary s true d level c₂)
  binaryRest : ∀ {d level left left₂ c c₂ e c'}, R c c₂ → left₂.unplaced = left.unplaced →
    binaryRest s true d level left c = .ok (e, c') →
    Same R e c' (binaryRest s true d level left₂ c₂)
  unary : ∀ {d c c₂ e c'}, R c c₂ → unary s true d c = .ok (e, c') →
    Same R e c' (unary s true d c₂)
  postfixed : ∀ {d c c₂ e c'}, R c c₂ → postfixed s true d c = .ok (e, c') →
    Same R e c' (postfixed s true d c₂)
  links : ∀ {d base base₂ c c₂ e c'}, R c c₂ → base₂.unplaced = base.unplaced →
    links s true d base c = .ok (e, c') → Same R e c' (links s true d base₂ c₂)
  primary : ∀ {d c c₂ e c'}, R c c₂ → primary s true d c = .ok (e, c') →
    Same R e c' (primary s true d c₂)
  parenthesized : ∀ {d position position₂ c c₂ e c'}, R c c₂ →
    parenthesized s d position c = .ok (e, c') → Same R e c' (parenthesized s d position₂ c₂)
  tupleRest : ∀ {d c c₂ es c'}, R c c₂ → tupleRest s d c = .ok (es, c') →
    SameAll R es c' (tupleRest s d c₂)
  items : ∀ {d closing c c₂ es c'}, R c c₂ → (c.peek true).1.kind.isSolid = true →
    items s true d closing c = .ok (es, c') → SameAll R es c' (items s true d closing c₂)
  itemsRest : ∀ {d closing c c₂ es c'}, R c c₂ → itemsRest s d closing c = .ok (es, c') →
    SameAll R es c' (itemsRest s d closing c₂)

section Step

variable {s d level position position₂ : Nat} {closing : Char} {c c₂ c' : Cursor}
variable {e left left₂ base base₂ : Expr} {es : List Expr}
variable (hR : Cursor.Follows R) (ih : Follows R s) (hc : R c c₂)
include hR ih hc

theorem follows_expression (h : expression (s + 1) true d c = .ok (e, c')) :
    Same R e c' (expression (s + 1) true d c₂) := by
  rw [expression] at h ⊢
  obtain ⟨⟨start, c₁⟩, hstart, h⟩ := Except.bind_ok.mp h
  obtain ⟨start₂, d₁, hstart₂, hus, hc₁⟩ := ih.binary hc hstart
  have ht := hR.peek hc₁
  rw [hstart₂, Except.ok_bind]
  simp only [ht.isOp] at h ⊢
  split at h
  · rename_i hop
    obtain ⟨⟨stop, c₃⟩, hstop, h⟩ := Except.bind_ok.mp h
    have hsolid : (c₁.peek true).1.kind.isSolid = true :=
      (Bool.or_eq_true_iff.mp hop).elim Token.isSolid_of_isOp Token.isSolid_of_isOp
    obtain ⟨stop₂, d₃, hstop₂, hue, hc₃⟩ := ih.binary (hR.after hc₁ hsolid) hstop
    cases h
    refine ⟨_, d₃, by rw [if_pos hop, hstop₂]; rfl, ?_, hc₃⟩
    simp only [unplaced, hus, hue]
  · rename_i hop
    cases h
    exact ⟨start₂, d₁, by rw [if_neg hop]; rfl, hus, hc₁⟩

omit hR in
theorem follows_binary (h : binary (s + 1) true d level c = .ok (e, c')) :
    Same R e c' (binary (s + 1) true d level c₂) := by
  rw [binary] at h ⊢
  split at h
  · rename_i hlt
    obtain ⟨⟨left, c₁⟩, hleft, h⟩ := Except.bind_ok.mp h
    obtain ⟨left₂, d₁, hleft₂, hu, hc₁⟩ := ih.binary hc hleft
    rw [if_pos hlt, hleft₂, Except.ok_bind]
    exact ih.binaryRest hc₁ hu h
  · rename_i hlt
    rw [if_neg hlt]
    exact ih.unary hc h

theorem follows_binaryRest (hl : left₂.unplaced = left.unplaced)
    (h : binaryRest (s + 1) true d level left c = .ok (e, c')) :
    Same R e c' (binaryRest (s + 1) true d level left₂ c₂) := by
  have ht := hR.peek hc
  rw [binaryRest] at h ⊢
  simp only [ht.binaryOpAt?] at h ⊢
  cases hop : binaryOpAt? level (c.peek true).1 with
  | none =>
    rw [hop] at h
    cases h
    exact ⟨left₂, c₂, rfl, hl, hc⟩
  | some op =>
    rw [hop] at h
    obtain ⟨⟨right, c₁⟩, hright, h⟩ := Except.bind_ok.mp h
    have hsolid := isSolid_of_binaryOp? (Option.filter_eq_some_iff.mp hop).1
    obtain ⟨right₂, d₁, hright₂, hu, hc₁⟩ := ih.binary (hR.after hc hsolid) hright
    simp only [hright₂, Except.ok_bind]
    exact ih.binaryRest hc₁ (by simp only [unplaced, hl, hu]) h

theorem follows_unary (h : unary (s + 1) true d c = .ok (e, c')) :
    Same R e c' (unary (s + 1) true d c₂) := by
  have ht := hR.peek hc
  rw [unary] at h ⊢
  simp only [ht.unaryOp?] at h ⊢
  cases hop : unaryOp? (c.peek true).1 with
  | none =>
    rw [hop] at h
    exact ih.postfixed hc h
  | some op =>
    rw [hop] at h
    obtain ⟨d', hd', h⟩ := Except.bind_ok.mp h
    obtain ⟨⟨operand, c₁⟩, hoperand, h⟩ := Except.bind_ok.mp h
    obtain ⟨operand₂, d₁, hoperand₂, hu, hc₁⟩ :=
      ih.unary (hR.after hc (isSolid_of_unaryOp? hop)) hoperand
    cases h
    refine ⟨.unary (c₂.peek true).1.position op operand₂, d₁, ?_, ?_, hc₁⟩
    · simp only [Token.Alike.enter hd' (c₂.peek true).1, Except.ok_bind, hoperand₂]
      rfl
    · simp only [unplaced, hu]

omit hR in
theorem follows_postfixed (h : postfixed (s + 1) true d c = .ok (e, c')) :
    Same R e c' (postfixed (s + 1) true d c₂) := by
  rw [postfixed] at h ⊢
  obtain ⟨⟨base, c₁⟩, hbase, h⟩ := Except.bind_ok.mp h
  obtain ⟨base₂, d₁, hbase₂, hu, hc₁⟩ := ih.primary hc hbase
  rw [hbase₂, Except.ok_bind]
  exact ih.links hc₁ hu h

theorem follows_items (hsolid : (c.peek true).1.kind.isSolid = true)
    (h : items (s + 1) true d closing c = .ok (es, c')) :
    SameAll R es c' (items (s + 1) true d closing c₂) := by
  rw [items] at h ⊢
  obtain ⟨d', hd', h⟩ := Except.bind_ok.mp h
  simp only [Token.Alike.enter hd' (c₂.peek true).1, Except.ok_bind]
  exact ih.itemsRest (hR.after hc hsolid) h

theorem follows_itemsRest (h : itemsRest (s + 1) d closing c = .ok (es, c')) :
    SameAll R es c' (itemsRest (s + 1) d closing c₂) := by
  have ht := hR.peek hc
  rw [itemsRest] at h ⊢
  simp only [ht.isOp] at h ⊢
  split at h
  · rename_i hclose
    cases h
    exact ⟨[], _, by rw [if_pos hclose]; rfl, rfl, hR.after hc (Token.isSolid_of_isOp hclose)⟩
  · rename_i hclose
    obtain ⟨⟨item, c₁⟩, hitem, h⟩ := Except.bind_ok.mp h
    obtain ⟨item₂, d₁, hitem₂, hu, hc₁⟩ := ih.expression hc hitem
    have ht₁ := hR.peek hc₁
    rw [if_neg hclose, hitem₂, Except.ok_bind]
    simp only [ht₁.isOp] at h ⊢
    split at h
    · rename_i hcomma
      obtain ⟨⟨more, c₃⟩, hmore, h⟩ := Except.bind_ok.mp h
      obtain ⟨more₂, d₃, hmore₂, hus, hc₃⟩ :=
        ih.itemsRest (hR.after hc₁ (Token.isSolid_of_isOp hcomma)) hmore
      cases h
      refine ⟨_, d₃, by rw [if_pos hcomma, hmore₂]; rfl, ?_, hc₃⟩
      simp only [unplacedAll, hu, hus]
    · rename_i hcomma
      split at h
      · rename_i hend
        cases h
        refine ⟨[item₂], _, by rw [if_neg hcomma, if_pos hend]; rfl, ?_,
          hR.after hc₁ (Token.isSolid_of_isOp hend)⟩
        simp only [unplacedAll, hu]
      · cases h

theorem follows_tupleRest (h : tupleRest (s + 1) d c = .ok (es, c')) :
    SameAll R es c' (tupleRest (s + 1) d c₂) := by
  have ht := hR.peek hc
  rw [tupleRest] at h ⊢
  simp only [ht.isOp] at h ⊢
  split at h
  · rename_i hcomma
    have hc₁ := hR.after hc (Token.isSolid_of_isOp hcomma)
    have ht₁ := hR.peek hc₁
    rw [if_pos hcomma]
    simp only [ht₁.isOp] at h ⊢
    split at h
    · rename_i hclose
      cases h
      exact ⟨[], _, by rw [if_pos hclose]; rfl, rfl, hR.after hc₁ (Token.isSolid_of_isOp hclose)⟩
    · rename_i hclose
      obtain ⟨⟨item, c₃⟩, hitem, h⟩ := Except.bind_ok.mp h
      obtain ⟨⟨more, c₄⟩, hmore, h⟩ := Except.bind_ok.mp h
      obtain ⟨item₂, d₃, hitem₂, hu, hc₃⟩ := ih.expression hc₁ hitem
      obtain ⟨more₂, d₄, hmore₂, hus, hc₄⟩ := ih.tupleRest hc₃ hmore
      cases h
      refine ⟨_, d₄, by rw [if_neg hclose, hitem₂, Except.ok_bind, hmore₂]; rfl, ?_, hc₄⟩
      simp only [unplacedAll, hu, hus]
  · rename_i hcomma
    split at h
    · rename_i hclose
      cases h
      exact ⟨[], _, by rw [if_neg hcomma, if_pos hclose]; rfl, rfl,
        hR.after hc (Token.isSolid_of_isOp hclose)⟩
    · cases h

theorem follows_parenthesized (h : parenthesized (s + 1) d position c = .ok (e, c')) :
    Same R e c' (parenthesized (s + 1) d position₂ c₂) := by
  have ht := hR.peek hc
  rw [parenthesized] at h ⊢
  simp only [ht.isOp] at h ⊢
  split at h
  · rename_i hclose
    cases h
    exact ⟨.tuple position₂ [], _, by rw [if_pos hclose]; rfl, rfl,
      hR.after hc (Token.isSolid_of_isOp hclose)⟩
  · rename_i hclose
    obtain ⟨⟨first, c₁⟩, hfirst, h⟩ := Except.bind_ok.mp h
    obtain ⟨first₂, d₁, hfirst₂, hu, hc₁⟩ := ih.expression hc hfirst
    have ht₁ := hR.peek hc₁
    rw [if_neg hclose, hfirst₂, Except.ok_bind]
    simp only [ht₁.isOp] at h ⊢
    split at h
    · rename_i hcomma
      obtain ⟨⟨more, c₃⟩, hmore, h⟩ := Except.bind_ok.mp h
      obtain ⟨more₂, d₃, hmore₂, hus, hc₃⟩ := ih.tupleRest hc₁ hmore
      cases h
      refine ⟨_, d₃, by rw [if_pos hcomma, hmore₂]; rfl, ?_, hc₃⟩
      simp only [unplaced, unplacedAll, hu, hus]
    · rename_i hcomma
      split at h
      · rename_i hend
        cases h
        refine ⟨.group position₂ first₂, _, by rw [if_neg hcomma, if_pos hend]; rfl, ?_,
          hR.after hc₁ (Token.isSolid_of_isOp hend)⟩
        simp only [unplaced, hu]
      · cases h

theorem follows_links (hb : base₂.unplaced = base.unplaced)
    (h : links (s + 1) true d base c = .ok (e, c')) :
    Same R e c' (links (s + 1) true d base₂ c₂) := by
  have ht := hR.peek hc
  rw [links] at h ⊢
  simp only [ht.isOp] at h ⊢
  split at h
  · rename_i hpoint
    rw [if_pos hpoint]
    split at h
    · rename_i hk
      obtain ⟨halike, hc₁⟩ := hR.point hc hpoint hk
      obtain ⟨name, hname, h⟩ := Except.bind_ok.mp h
      rw [if_pos (halike.1 ▸ hk), halike.checkName hname, Except.ok_bind]
      have ht₁ := hR.peek hc₁
      simp only [ht₁.isOp] at h ⊢
      split at h
      · rename_i hparen
        obtain ⟨⟨args, c₃⟩, hargs, h⟩ := Except.bind_ok.mp h
        obtain ⟨args₂, d₃, hargs₂, hus, hc₃⟩ :=
          ih.items hc₁ (Token.isSolid_of_isOp hparen) hargs
        rw [if_pos hparen, hargs₂, Except.ok_bind]
        exact ih.links hc₃ (by simp only [unplaced, hb, hus]) h
      · rename_i hparen
        rw [if_neg hparen]
        exact ih.links hc₁ (by simp only [unplaced, hb]) h
    · simp at h
      cases h
  · rename_i hpoint
    rw [if_neg hpoint]
    split at h
    · rename_i hparen
      obtain ⟨⟨args, c₁⟩, hargs, h⟩ := Except.bind_ok.mp h
      obtain ⟨args₂, d₁, hargs₂, hus, hc₁⟩ := ih.items hc (Token.isSolid_of_isOp hparen) hargs
      rw [if_pos hparen, hargs₂, Except.ok_bind]
      exact ih.links hc₁ (by simp only [unplaced, hb, hus]) h
    · rename_i hparen
      rw [if_neg hparen]
      split at h
      · rename_i hbracket
        obtain ⟨⟨place, c₁⟩, hplace, h⟩ := Except.bind_ok.mp h
        obtain ⟨place₂, d₁, hplace₂, hu, hc₁⟩ :=
          ih.expression (hR.after hc (Token.isSolid_of_isOp hbracket)) hplace
        have ht₁ := hR.peek hc₁
        rw [if_pos hbracket, hplace₂, Except.ok_bind]
        simp only [ht₁.isOp] at h ⊢
        split at h
        · rename_i hend
          rw [if_pos hend]
          exact ih.links (hR.after hc₁ (Token.isSolid_of_isOp hend))
            (by simp only [unplaced, hb, hu]) h
        · cases h
      · rename_i hbracket
        cases h
        exact ⟨base₂, c₂, by rw [if_neg hbracket]; rfl, hb, hc⟩

theorem follows_primary (h : primary (s + 1) true d c = .ok (e, c')) :
    Same R e c' (primary (s + 1) true d c₂) := by
  have ht := hR.peek hc
  rw [primary] at h ⊢
  cases hvalue : Literal.ofToken (c.peek true).1 with
  | some value =>
    simp only [hvalue] at h
    obtain ⟨v, rfl, h⟩ := Except.bind_ok.mp h
    cases h
    simp only [ht.ofToken hvalue, Except.ok_bind]
    exact ⟨_, _, rfl, rfl, hR.after hc (Token.isSolid_of_ofToken hvalue)⟩
  | none =>
    simp only [hvalue] at h
    simp only [ht.ofToken_none hvalue, ht.isOp, ← ht.1] at h ⊢
    split at h
    · rename_i hk
      obtain ⟨⟨parts, c₁⟩, hparts, h⟩ := Except.bind_ok.mp h
      obtain ⟨d₁, hparts₂, hc₁⟩ := follows_path hR hc hparts
      cases h
      refine ⟨_, d₁, by rw [if_pos hk, hparts₂]; rfl, ?_, hc₁⟩
      rcases parts with _ | ⟨n, _ | ⟨m, ms⟩⟩ <;> rfl
    · rename_i hk
      rw [if_neg hk]
      split at h
      · rename_i hparen
        obtain ⟨d', hd', h⟩ := Except.bind_ok.mp h
        rw [if_pos hparen, Token.Alike.enter hd' _, Except.ok_bind]
        exact ih.parenthesized (hR.after hc (Token.isSolid_of_isOp hparen)) h
      · rename_i hparen
        rw [if_neg hparen]
        split at h
        · rename_i hbracket
          obtain ⟨⟨is, c₁⟩, his, h⟩ := Except.bind_ok.mp h
          obtain ⟨is₂, d₁, his₂, hus, hc₁⟩ := ih.items hc (Token.isSolid_of_isOp hbracket) his
          cases h
          refine ⟨_, d₁, by rw [if_pos hbracket, his₂]; rfl, ?_, hc₁⟩
          simp only [unplaced, hus]
        · split at h <;> cases h

end Step

/-- **The same is read at cursors with alike tokens**, in any number of steps. -/
theorem follows (hR : Cursor.Follows R) : ∀ s, Follows R s
  | 0 => by constructor <;> intros <;> contradiction
  | s + 1 => by
    have ih := follows hR s
    exact ⟨follows_expression hR ih, follows_binary ih, follows_binaryRest hR ih,
      follows_unary hR ih, follows_postfixed ih, follows_links hR ih, follows_primary hR ih,
      follows_parenthesized hR ih, follows_tupleRest hR ih, follows_items hR ih,
      follows_itemsRest hR ih⟩

end Read

end Expr

end Stencil
