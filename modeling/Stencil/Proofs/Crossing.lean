import Stencil.Proofs.Advance

/-!
# What the reader of expressions crosses

The tokens between two cursors, as the grammar of expressions has them: single tokens, a point with
the name of a field directly behind it, the names of a path with their marks directly between them,
and brackets around what stands in them, where white space is allowed.

* `Expr.Token.Single`: a token that stands by itself.
* `Cursor.Crosses`: whole tokens between two cursors, brackets with what stands in them.
* `Expr.Read.Crossing`: what the functions of the reader cross.
* **`Expr.Read.crossing`**: they cross whole tokens and whole brackets.
-/

namespace Stencil

open Text Expr

/-! ## Tokens -/

namespace Expr.Token

/-- The point of a field or the mark of a path. -/
def isMark (t : Token) : Bool := t.isOp "." || t.isOp "::"

/-- The bracket that a closing one belongs to. -/
def Opens (closing : Char) (t : Token) : Prop :=
  closing = ')' ∧ t.isOp "(" = true ∨ closing = ']' ∧ t.isOp "[" = true

/-- The operators that do not stand by themselves. -/
def marks : List String := [".", "::", "(", ")", "[", "]"]

/-- **A token that stands by itself.** -/
structure Single (t : Token) : Prop where
  solid : t.kind.isSolid = true
  not_op : ∀ o ∈ marks, t.isOp o = false

variable {t : Token}

theorem isOp_eq_false {o : String} (h : t.kind ≠ .op) : t.isOp o = false := by
  rw [isOp, decide_eq_false h, Bool.false_and]

theorem isMark_eq_false (h : t.kind ≠ .op) : t.isMark = false := by
  rw [isMark, isOp_eq_false h, isOp_eq_false h, Bool.or_false]

theorem isSolid_of_isMark (h : t.isMark = true) : t.kind.isSolid = true :=
  (Bool.or_eq_true_iff.mp h).elim isSolid_of_isOp isSolid_of_isOp

/-- A token that is no operator. -/
theorem Single.of_kind (hs : t.kind.isSolid = true) (h : t.kind ≠ .op) : t.Single :=
  ⟨hs, fun _ _ => isOp_eq_false h⟩

/-- An operator of another kind. -/
theorem Single.of_isOp {o : String} (h : t.isOp o = true) (ho : o ∉ marks) : t.Single :=
  ⟨isSolid_of_isOp h, fun _ hm => isOp_of_ne h fun he => ho (he ▸ hm)⟩

theorem Single.not_mark (h : t.Single) : t.isMark = false := by
  rw [isMark, h.not_op "." (by decide), h.not_op "::" (by decide), Bool.or_false]

end Expr.Token

/-! ## Cursors -/

namespace Cursor

/-- The marks and names of a path behind its first name, all directly behind one another. -/
inductive Parts : Cursor → Cursor → Prop
  | nil (c) : Parts c c
  | cons {c c'} : c.token.1.isOp "::" = true → c.token.2.token.1.kind = .name →
    Parts c.token.2.token.2 c' → Parts c c'

/-- **Whole tokens between two cursors**, with what stands in brackets; white space before a token
that does not stand directly behind another one is allowed if `spaced`, and in brackets. -/
inductive Crosses : Bool → Cursor → Cursor → Prop
  | refl (spaced c) : Crosses spaced c c
  | token {spaced c} : (c.peek spaced).1.Single → Crosses spaced c (c.peek spaced).2
  | field {spaced c} : (c.peek spaced).1.isOp "." = true →
    (c.peek spaced).2.token.1.kind = .name → Crosses spaced c (c.peek spaced).2.token.2
  | path {spaced c c'} : (c.peek spaced).1.kind = .name → Parts (c.peek spaced).2 c' →
    Crosses spaced c c'
  | nest {spaced closing c c'} : (c.peek spaced).1.Opens closing →
    Crosses true (c.peek spaced).2 c' → (c'.peek true).1.isOp closing.toString = true →
    Crosses spaced c (c'.peek true).2
  | trans {spaced c d e} : Crosses spaced c d → Crosses spaced d e → Crosses spaced c e

/-- What stands in brackets, up to behind the closing one. -/
def Encloses (closing : Char) (c c' : Cursor) : Prop :=
  ∃ d, Crosses true c d ∧ (d.peek true).1.isOp closing.toString = true ∧ c' = (d.peek true).2

variable {c d e : Cursor} {closing : Char} {spaced : Bool}

theorem Encloses.here (closing : Char) {c : Cursor}
    (h : (c.peek true).1.isOp closing.toString = true) : Encloses closing c (c.peek true).2 := ⟨c, .refl _ c, h, rfl⟩

theorem Encloses.behind (h : Crosses true c d) (h' : Encloses closing d e) :
    Encloses closing c e := by
  obtain ⟨d', hd', hclose⟩ := h'
  exact ⟨d', h.trans hd', hclose⟩

theorem Encloses.crosses (ho : (c.peek spaced).1.Opens closing)
    (h : Encloses closing (c.peek spaced).2 e) : Crosses spaced c e := by
  obtain ⟨d, hd, hclose, rfl⟩ := h
  exact .nest ho hd hclose

theorem crosses_op {o : String} (h : (c.peek spaced).1.isOp o = true)
    (ho : o ∉ Token.marks) : Crosses spaced c (c.peek spaced).2 :=
  .token (.of_isOp h ho)

end Cursor

/-! ## The reader -/

namespace Expr

namespace Read

section Tokens

variable {t : Token}

/-- The operators that do not stand by themselves join nothing. -/
theorem operator_of_mark {o : String} (ho : o ∈ Token.marks) (h : t.isOp o = true) :
    binaryOp? t = none ∧ unaryOp? t = none := by
  obtain ⟨kind, text, position⟩ := t
  rw [Token.isOp, Bool.and_eq_true, decide_eq_true_eq, decide_eq_true_eq] at h
  obtain ⟨rfl, rfl⟩ := h
  simp only [Token.marks, List.mem_cons, List.not_mem_nil, or_false] at ho
  rcases ho with rfl | rfl | rfl | rfl | rfl | rfl <;> exact ⟨rfl, rfl⟩

theorem single_of_binaryOp? {op : BinaryOp} (h : binaryOp? t = some op) : t.Single where
  solid := isSolid_of_binaryOp? h
  not_op o ho := by
    rw [← Bool.not_eq_true]
    intro hop
    rw [(operator_of_mark ho hop).1] at h
    cases h

theorem single_of_unaryOp? {op : UnaryOp} (h : unaryOp? t = some op) : t.Single where
  solid := isSolid_of_unaryOp? h
  not_op o ho := by
    rw [← Bool.not_eq_true]
    intro hop
    rw [(operator_of_mark ho hop).2] at h
    cases h

end Tokens

open Cursor (Crosses Encloses Parts)

variable {s d level position : Nat} {spaced : Bool} {closing : Char} {c c' : Cursor}
variable {e left base : Expr} {es : List Expr} {ns : List String}

theorem crosses_pathRest (h : pathRest s c = .ok (ns, c')) : Parts c c' := by
  induction s generalizing c ns with
  | zero => cases h
  | succ s ih =>
    rw [pathRest] at h
    simp only at h
    split at h
    · rename_i hmark
      split at h
      · rename_i hk
        obtain ⟨name, -, h⟩ := Except.bind_ok.mp h
        obtain ⟨⟨parts, c₁⟩, hparts, h⟩ := Except.bind_ok.mp h
        cases h
        exact .cons hmark hk (ih hparts)
      · cases h
    · cases h
      exact .nil _

theorem crosses_path (h : path s spaced c = .ok (ns, c')) : Crosses spaced c c' := by
  rw [path] at h
  simp only at h
  split at h
  · rename_i hk
    obtain ⟨name, -, h⟩ := Except.bind_ok.mp h
    obtain ⟨⟨parts, c₁⟩, hparts, h⟩ := Except.bind_ok.mp h
    cases h
    exact .path hk (crosses_pathRest hparts)
  · cases h

/-- **What the functions of the reader cross.** -/
structure Crossing (s : Nat) : Prop where
  expression : ∀ {spaced d c e c'}, expression s spaced d c = .ok (e, c') → Crosses spaced c c'
  binary : ∀ {spaced d level c e c'}, binary s spaced d level c = .ok (e, c') →
    Crosses spaced c c'
  binaryRest : ∀ {spaced d level left c e c'}, binaryRest s spaced d level left c = .ok (e, c') →
    Crosses spaced c c'
  unary : ∀ {spaced d c e c'}, unary s spaced d c = .ok (e, c') → Crosses spaced c c'
  postfixed : ∀ {spaced d c e c'}, postfixed s spaced d c = .ok (e, c') → Crosses spaced c c'
  links : ∀ {spaced d base c e c'}, links s spaced d base c = .ok (e, c') → Crosses spaced c c'
  primary : ∀ {spaced d c e c'}, primary s spaced d c = .ok (e, c') → Crosses spaced c c'
  parenthesized : ∀ {d position c e c'}, parenthesized s d position c = .ok (e, c') →
    Encloses ')' c c'
  tupleRest : ∀ {d c es c'}, tupleRest s d c = .ok (es, c') → Encloses ')' c c'
  items : ∀ {spaced d closing c es c'}, items s spaced d closing c = .ok (es, c') →
    Encloses closing (c.peek spaced).2 c'
  itemsRest : ∀ {d closing c es c'}, itemsRest s d closing c = .ok (es, c') →
    Encloses closing c c'

section Step

variable (ih : Crossing s)
include ih

theorem crosses_expression (h : expression (s + 1) spaced d c = .ok (e, c')) :
    Crosses spaced c c' := by
  rw [expression] at h
  obtain ⟨⟨start, c₁⟩, hstart, h⟩ := Except.bind_ok.mp h
  simp only at h
  split at h
  · rename_i hop
    obtain ⟨⟨stop, c₂⟩, hstop, h⟩ := Except.bind_ok.mp h
    cases h
    have hdots : Crosses spaced c₁ (c₁.peek spaced).2 :=
      (Bool.or_eq_true_iff.mp hop).elim (Cursor.crosses_op · (by decide))
        (Cursor.crosses_op · (by decide))
    exact (ih.binary hstart).trans (hdots.trans (ih.binary hstop))
  · cases h
    exact ih.binary hstart

theorem crosses_binary (h : binary (s + 1) spaced d level c = .ok (e, c')) :
    Crosses spaced c c' := by
  rw [binary] at h
  split at h
  · obtain ⟨⟨left, c₁⟩, hleft, h⟩ := Except.bind_ok.mp h
    exact (ih.binary hleft).trans (ih.binaryRest h)
  · exact ih.unary h

theorem crosses_binaryRest (h : binaryRest (s + 1) spaced d level left c = .ok (e, c')) :
    Crosses spaced c c' := by
  rw [binaryRest] at h
  simp only at h
  split at h
  · cases h
    exact .refl _ _
  · rename_i op hop
    obtain ⟨⟨right, c₁⟩, hright, h⟩ := Except.bind_ok.mp h
    have hsign := single_of_binaryOp? (Option.filter_eq_some_iff.mp hop).1
    exact (Crosses.token hsign).trans ((ih.binary hright).trans (ih.binaryRest h))

theorem crosses_unary (h : unary (s + 1) spaced d c = .ok (e, c')) : Crosses spaced c c' := by
  rw [unary] at h
  simp only at h
  split at h
  · rename_i op hop
    obtain ⟨d', -, h⟩ := Except.bind_ok.mp h
    obtain ⟨⟨operand, c₁⟩, hoperand, h⟩ := Except.bind_ok.mp h
    cases h
    exact (Crosses.token (single_of_unaryOp? hop)).trans (ih.unary hoperand)
  · exact ih.postfixed h

theorem crosses_postfixed (h : postfixed (s + 1) spaced d c = .ok (e, c')) :
    Crosses spaced c c' := by
  rw [postfixed] at h
  obtain ⟨⟨base, c₁⟩, hbase, h⟩ := Except.bind_ok.mp h
  exact (ih.primary hbase).trans (ih.links h)

theorem crosses_items (h : items (s + 1) spaced d closing c = .ok (es, c')) :
    Encloses closing (c.peek spaced).2 c' := by
  rw [items] at h
  obtain ⟨d', -, h⟩ := Except.bind_ok.mp h
  exact ih.itemsRest h

theorem crosses_itemsRest (h : itemsRest (s + 1) d closing c = .ok (es, c')) :
    Encloses closing c c' := by
  rw [itemsRest] at h
  simp only at h
  split at h
  · rename_i hclose
    cases h
    exact .here _ hclose
  · obtain ⟨⟨item, c₁⟩, hitem, h⟩ := Except.bind_ok.mp h
    have hfirst := ih.expression hitem
    simp only at h
    split at h
    · rename_i hcomma
      obtain ⟨⟨more, c₂⟩, hmore, h⟩ := Except.bind_ok.mp h
      cases h
      exact (ih.itemsRest hmore).behind (hfirst.trans (Cursor.crosses_op hcomma (by decide)))
    · split at h
      · rename_i hclose
        cases h
        exact (Encloses.here _ hclose).behind hfirst
      · cases h

theorem crosses_tupleRest (h : tupleRest (s + 1) d c = .ok (es, c')) : Encloses ')' c c' := by
  rw [tupleRest] at h
  simp only at h
  split at h
  · rename_i hcomma
    have hfirst := Cursor.crosses_op hcomma (by decide)
    split at h
    · rename_i hclose
      cases h
      exact (Encloses.here ')' hclose).behind hfirst
    · obtain ⟨⟨item, c₁⟩, hitem, h⟩ := Except.bind_ok.mp h
      obtain ⟨⟨more, c₂⟩, hmore, h⟩ := Except.bind_ok.mp h
      cases h
      exact (ih.tupleRest hmore).behind (hfirst.trans (ih.expression hitem))
  · split at h
    · rename_i hclose
      cases h
      exact .here ')' hclose
    · cases h

theorem crosses_parenthesized (h : parenthesized (s + 1) d position c = .ok (e, c')) :
    Encloses ')' c c' := by
  rw [parenthesized] at h
  simp only at h
  split at h
  · rename_i hclose
    cases h
    exact .here ')' hclose
  · obtain ⟨⟨first, c₁⟩, hfirst, h⟩ := Except.bind_ok.mp h
    simp only at h
    split at h
    · obtain ⟨⟨more, c₂⟩, hmore, h⟩ := Except.bind_ok.mp h
      cases h
      exact (ih.tupleRest hmore).behind (ih.expression hfirst)
    · split at h
      · rename_i hclose
        cases h
        exact (Encloses.here ')' hclose).behind (ih.expression hfirst)
      · cases h

theorem crosses_links (h : links (s + 1) spaced d base c = .ok (e, c')) : Crosses spaced c c' := by
  rw [links] at h
  simp only at h
  split at h
  · rename_i hpoint
    split at h
    · rename_i hk
      have hfield := Crosses.field hpoint hk
      obtain ⟨name, -, h⟩ := Except.bind_ok.mp h
      split at h
      · rename_i hparen
        obtain ⟨⟨args, c₁⟩, hargs, h⟩ := Except.bind_ok.mp h
        exact hfield.trans (((ih.items hargs).crosses (.inl ⟨rfl, hparen⟩)).trans (ih.links h))
      · exact hfield.trans (ih.links h)
    · split at h
      · cases h
      · cases h
        exact .refl _ _
  · split at h
    · rename_i hparen
      obtain ⟨⟨args, c₁⟩, hargs, h⟩ := Except.bind_ok.mp h
      exact ((ih.items hargs).crosses (.inl ⟨rfl, hparen⟩)).trans (ih.links h)
    · split at h
      · rename_i hbracket
        obtain ⟨⟨place, c₁⟩, hplace, h⟩ := Except.bind_ok.mp h
        simp only at h
        split at h
        · rename_i hclose
          have hindex := (Encloses.here ']' hclose).behind (ih.expression hplace)
          exact (hindex.crosses (.inr ⟨rfl, hbracket⟩)).trans (ih.links h)
        · cases h
      · cases h
        exact .refl _ _

theorem crosses_primary (h : primary (s + 1) spaced d c = .ok (e, c')) : Crosses spaced c c' := by
  rw [primary] at h
  simp only at h
  split at h
  · rename_i value hvalue
    obtain ⟨v, -, h⟩ := Except.bind_ok.mp h
    cases h
    exact .token (.of_kind (Token.isSolid_of_ofToken hvalue) (Token.not_op_of_ofToken hvalue))
  · split at h
    · obtain ⟨⟨parts, c₁⟩, hparts, h⟩ := Except.bind_ok.mp h
      cases h
      exact crosses_path hparts
    · split at h
      · rename_i hparen
        obtain ⟨d', -, h⟩ := Except.bind_ok.mp h
        exact (ih.parenthesized h).crosses (.inl ⟨rfl, hparen⟩)
      · split at h
        · rename_i hbracket
          obtain ⟨⟨is, c₁⟩, his, h⟩ := Except.bind_ok.mp h
          cases h
          exact (ih.items his).crosses (.inr ⟨rfl, hbracket⟩)
        · split at h <;> cases h

end Step

/-- **The functions of the reader cross whole tokens and whole brackets**, in any number of
steps. -/
theorem crossing : ∀ s, Crossing s
  | 0 => by constructor <;> intros <;> contradiction
  | s + 1 => by
    have ih := crossing s
    exact ⟨crosses_expression ih, crosses_binary ih, crosses_binaryRest ih, crosses_unary ih,
      crosses_postfixed ih, crosses_links ih, crosses_primary ih, crosses_parenthesized ih,
      crosses_tupleRest ih, crosses_items ih, crosses_itemsRest ih⟩

end Read

end Expr

end Stencil
