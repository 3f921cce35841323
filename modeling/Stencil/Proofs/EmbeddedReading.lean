import Stencil.Proofs.Embedding

/-!
# Reading embedded texts

What is read does not depend on the text around it: of a text that is cut where reading ends, the
same is read, and with more text in front only positions move. The two are shown together. The
functions of a reader do the same at an embedded cursor if the cut does not split the token where
they end; as they go on by whole tokens, the cut splits none of those in between.

* `Expr.Read.Embeds`, `Pattern.Read.Embeds`: the functions of the readers at an embedded cursor.
* `Expr.embed_readChain`, `Pattern.embed_read`: the readers with their own numbers of steps.
* `IsLocal`: a reader that the text around does not matter to.
* **`reading_isLocal`**: all readers are local.
-/

namespace Stencil

open Text Expr

/-! ## Expressions -/

namespace Expr

namespace Read

variable {k n s d level position : Nat} {spaced : Bool} {closing : Char} {c c' : Cursor}
variable {e left base : Expr} {es : List Expr} {ns : List String} {t : Token}

theorem enter_moved {d' : Nat} (h : enter d t = .ok d') : enter d (t.moved k) = .ok d' := by
  unfold enter at h ⊢
  split at h
  · rwa [if_pos ‹_›]
  · cases h

theorem checkName_moved {name : String} (h : checkName t = .ok name) :
    checkName (t.moved k) = .ok name := by
  unfold checkName at h ⊢
  split at h
  · cases h
  · rw [if_neg ‹_›]
    exact h

theorem embed_pathRest (h : pathRest s c = .ok (ns, c')) (hc : c'.Clear n) :
    pathRest s (c.embed k n) = .ok (ns, c'.embed k n) := by
  induction s generalizing c ns with
  | zero => cases h
  | succ s ih =>
    have hclear := (moves_pathRest h).clear hc
    rw [pathRest] at h ⊢
    simp only at h ⊢
    split at h
    · rename_i hmark
      split at h
      · rename_i hk
        obtain ⟨name, hname, h⟩ := Except.bind_ok.mp h
        obtain ⟨⟨parts, c₁⟩, hparts, h⟩ := Except.bind_ok.mp h
        cases h
        have hnext := ((moves_pathRest hparts).clear hc).position_le
        have hbetween := Nat.le_trans (Cursor.reaches_token _).position_le hnext
        simp only [Cursor.token_embed hbetween, Cursor.token_embed hnext, Token.isOp_moved,
          Token.kind_moved, hmark, hk, if_true]
        simp only [checkName_moved hname, Except.ok_bind, ih hparts]
        rfl
      · cases h
    · rename_i hmark
      have hother : ¬ ((c.embed k n).peek false).1.isOp "::" = true :=
        @Cursor.Clear.not_op k n c false hclear "::" hmark
      cases h
      exact if_neg hother

theorem embed_path (h : path s spaced c = .ok (ns, c')) (hc : c'.Clear n) :
    path s spaced (c.embed k n) = .ok (ns, c'.embed k n) := by
  rw [path] at h ⊢
  simp only at h ⊢
  split at h
  · rename_i hk
    obtain ⟨name, hname, h⟩ := Except.bind_ok.mp h
    obtain ⟨⟨parts, c₁⟩, hparts, h⟩ := Except.bind_ok.mp h
    cases h
    simp only [Cursor.peek_embed ((moves_pathRest hparts).clear hc).position_le, Token.kind_moved,
      hk, if_true]
    simp only [checkName_moved hname, Except.ok_bind, embed_pathRest hparts hc]
    rfl
  · cases h

/-- **The functions of the reader do the same at an embedded cursor** if the cut does not split the
token where they end. Without white space a point is no link unless a name follows, so there the
cut must be made where the links end, or not at all. -/
structure Embeds (k n s : Nat) : Prop where
  expression : ∀ {d c e c'}, expression s true d c = .ok (e, c') → c'.Clear n →
    expression s true d (c.embed k n) = .ok (e.moved k, c'.embed k n)
  binary : ∀ {d level c e c'}, binary s true d level c = .ok (e, c') → c'.Clear n →
    binary s true d level (c.embed k n) = .ok (e.moved k, c'.embed k n)
  binaryRest : ∀ {d level left c e c'}, binaryRest s true d level left c = .ok (e, c') →
    c'.Clear n →
    binaryRest s true d level (left.moved k) (c.embed k n) = .ok (e.moved k, c'.embed k n)
  unary : ∀ {d c e c'}, unary s true d c = .ok (e, c') → c'.Clear n →
    unary s true d (c.embed k n) = .ok (e.moved k, c'.embed k n)
  postfixed : ∀ {spaced d c e c'}, postfixed s spaced d c = .ok (e, c') → c'.Clear n →
    (spaced = false → c'.Final n) →
    postfixed s spaced d (c.embed k n) = .ok (e.moved k, c'.embed k n)
  links : ∀ {spaced d base c e c'}, links s spaced d base c = .ok (e, c') → c'.Clear n →
    (spaced = false → c'.Final n) →
    links s spaced d (base.moved k) (c.embed k n) = .ok (e.moved k, c'.embed k n)
  primary : ∀ {spaced d c e c'}, primary s spaced d c = .ok (e, c') → c'.Clear n →
    primary s spaced d (c.embed k n) = .ok (e.moved k, c'.embed k n)
  parenthesized : ∀ {d position c e c'}, parenthesized s d position c = .ok (e, c') → c'.Clear n →
    parenthesized s d (position + k) (c.embed k n) = .ok (e.moved k, c'.embed k n)
  tupleRest : ∀ {d c es c'}, tupleRest s d c = .ok (es, c') → c'.Clear n →
    tupleRest s d (c.embed k n) = .ok (movedAll k es, c'.embed k n)
  items : ∀ {spaced d closing c es c'}, items s spaced d closing c = .ok (es, c') → c'.Clear n →
    items s spaced d closing (c.embed k n) = .ok (movedAll k es, c'.embed k n)
  itemsRest : ∀ {d closing c es c'}, itemsRest s d closing c = .ok (es, c') → c'.Clear n →
    itemsRest s d closing (c.embed k n) = .ok (movedAll k es, c'.embed k n)

/-- Without white space, a point that no name follows ends the links. -/
theorem embed_links_point (hpoint : (c.peek false).1.isOp "." = true)
    (hk : ¬ (c.peek false).2.token.1.kind = .name) (hc : c.Final n) :
    links (s + 1) false d base (c.embed k n) = .ok (base, c.embed k n) := by
  rcases hc with rfl | hc
  · rw [Cursor.embed, Nat.sub_self, List.take_zero]
    rfl
  · obtain ⟨point, hpoint'⟩ := Cursor.reaches_peek c false
    obtain ⟨next, hnext⟩ := Cursor.reaches_token (c.peek false).2
    have hlen := (hpoint'.append hnext).length_eq
    have hposition := (hpoint'.append hnext).2
    have hafter : (c.peek false).2.token.2.position ≤ n := by omega
    have hbetween := Nat.le_trans hnext.position_le hafter
    rw [links]
    simp only [Cursor.peek_embed hbetween, Cursor.token_embed hafter, Token.isOp_moved,
      Token.kind_moved, hpoint, hk, if_true, if_false, Bool.false_eq_true]
    rfl

section Step

variable (ih : Embeds k n s)
include ih

theorem embed_expression (h : expression (s + 1) true d c = .ok (e, c')) (hc : c'.Clear n) :
    expression (s + 1) true d (c.embed k n) = .ok (e.moved k, c'.embed k n) := by
  rw [expression] at h ⊢
  obtain ⟨⟨start, c₁⟩, hstart, h⟩ := Except.bind_ok.mp h
  simp only at h
  split at h
  · rename_i hop
    obtain ⟨⟨stop, c₂⟩, hstop, h⟩ := Except.bind_ok.mp h
    cases h
    have hnext := ((moves s).binary hstop).clear hc
    have hsolid : (c₁.peek true).1.kind.isSolid = true :=
      (Bool.or_eq_true_iff.mp hop).elim Token.isSolid_of_isOp Token.isSolid_of_isOp
    rw [ih.binary hstart ((Cursor.reads_peek hsolid).clear hnext), Except.ok_bind]
    simp only [Cursor.peek_embed hnext.position_le, position_moved, Token.isOp_moved]
    rw [if_pos hop, ih.binary hstop hc]
    rfl
  · rename_i hop
    cases h
    rw [ih.binary hstart hc, Except.ok_bind]
    have hcut := hc.peek (k := k) (P := fun t => ¬ (t.isOp ".." || t.isOp "..=") = true) hop
      (fun _ ht => ht) fun _ ht => by cases ht
    simp only
    rw [if_neg hcut]
    rfl

theorem embed_binary (h : binary (s + 1) true d level c = .ok (e, c')) (hc : c'.Clear n) :
    binary (s + 1) true d level (c.embed k n) = .ok (e.moved k, c'.embed k n) := by
  rw [binary] at h ⊢
  split at h
  · rename_i hl
    obtain ⟨⟨left, c₁⟩, hleft, h⟩ := Except.bind_ok.mp h
    rw [if_pos hl, ih.binary hleft (((moves s).binaryRest h).clear hc), Except.ok_bind]
    exact ih.binaryRest h hc
  · rename_i hl
    rw [if_neg hl]
    exact ih.unary h hc

theorem embed_binaryRest (h : binaryRest (s + 1) true d level left c = .ok (e, c'))
    (hc : c'.Clear n) : binaryRest (s + 1) true d level (left.moved k) (c.embed k n) =
      .ok (e.moved k, c'.embed k n) := by
  rw [binaryRest] at h ⊢
  simp only at h ⊢
  split at h
  · rename_i hop
    cases h
    have hcut := hc.peek (k := k) (P := fun t => binaryOpAt? level t = none) hop
      (fun _ ht => ht) fun _ => rfl
    rw [hcut]
  · rename_i op hop
    obtain ⟨⟨right, c₁⟩, hright, h⟩ := Except.bind_ok.mp h
    have hrest := ((moves s).binaryRest h).clear hc
    have hnext := ((moves s).binary hright).clear hrest
    rw [Cursor.peek_embed hnext.position_le]
    have hop' : binaryOpAt? level ((c.peek true).1.moved k) = some op := hop
    simp only [hop', ih.binary hright hrest, Except.ok_bind, position_moved]
    exact ih.binaryRest h hc

theorem embed_unary (h : unary (s + 1) true d c = .ok (e, c')) (hc : c'.Clear n) :
    unary (s + 1) true d (c.embed k n) = .ok (e.moved k, c'.embed k n) := by
  rw [unary] at h ⊢
  simp only at h ⊢
  split at h
  · rename_i op hop
    obtain ⟨d', hd, h⟩ := Except.bind_ok.mp h
    obtain ⟨⟨operand, c₁⟩, hoperand, h⟩ := Except.bind_ok.mp h
    cases h
    have hnext := ((moves s).unary hoperand).clear hc
    rw [Cursor.peek_embed hnext.position_le]
    have hop' : unaryOp? ((c.peek true).1.moved k) = some op := hop
    simp only [hop', enter_moved hd, Except.ok_bind, ih.unary hoperand hc]
    rfl
  · rename_i hop
    have hclear := ((moves s).postfixed h).clear hc
    have hcut := hclear.peek (k := k) (P := fun t => unaryOp? t = none) hop
      (fun _ ht => ht) fun _ => rfl
    rw [hcut]
    exact ih.postfixed h hc fun hs => by cases hs

theorem embed_postfixed (h : postfixed (s + 1) spaced d c = .ok (e, c')) (hc : c'.Clear n)
    (hfinal : spaced = false → c'.Final n) :
    postfixed (s + 1) spaced d (c.embed k n) = .ok (e.moved k, c'.embed k n) := by
  rw [postfixed] at h ⊢
  obtain ⟨⟨base, c₁⟩, hbase, h⟩ := Except.bind_ok.mp h
  rw [ih.primary hbase (((moves s).links h).clear hc), Except.ok_bind]
  exact ih.links h hc hfinal

theorem embed_items (h : items (s + 1) spaced d closing c = .ok (es, c')) (hc : c'.Clear n) :
    items (s + 1) spaced d closing (c.embed k n) = .ok (movedAll k es, c'.embed k n) := by
  rw [items] at h ⊢
  simp only at h ⊢
  obtain ⟨d', hd, h⟩ := Except.bind_ok.mp h
  have hnext := ((moves s).itemsRest h).clear hc
  simp only [Cursor.peek_embed hnext.position_le, enter_moved hd, Except.ok_bind]
  exact ih.itemsRest h hc

theorem embed_itemsRest (h : itemsRest (s + 1) d closing c = .ok (es, c')) (hc : c'.Clear n) :
    itemsRest (s + 1) d closing (c.embed k n) = .ok (movedAll k es, c'.embed k n) := by
  rw [itemsRest] at h ⊢
  simp only at h ⊢
  split at h
  · rename_i hclose
    cases h
    simp only [Cursor.peek_embed hc.position_le, Token.isOp_moved, hclose, if_true]
    rfl
  · rename_i hclose
    obtain ⟨⟨item, c₁⟩, hitem, h⟩ := Except.bind_ok.mp h
    simp only at h
    split at h
    · rename_i hcomma
      obtain ⟨⟨more, c₂⟩, hmore, h⟩ := Except.bind_ok.mp h
      cases h
      have hnext := ((moves s).itemsRest hmore).clear hc
      have hafter := (Cursor.reads_peek_op hcomma).clear hnext
      have hstart := ((moves s).expression hitem).clear hafter
      rw [if_neg (hstart.not_op hclose), ih.expression hitem hafter, Except.ok_bind]
      simp only [Cursor.peek_embed hnext.position_le, Token.isOp_moved, hcomma, if_true,
        ih.itemsRest hmore hc]
      rfl
    · rename_i hcomma
      split at h
      · rename_i hend
        cases h
        have hafter := (Cursor.reads_peek_op hend).clear hc
        have hstart := ((moves s).expression hitem).clear hafter
        rw [if_neg (hstart.not_op hclose), ih.expression hitem hafter, Except.ok_bind]
        simp only [Cursor.peek_embed hc.position_le, Token.isOp_moved]
        rw [if_neg hcomma, if_pos hend]
        rfl
      · cases h

theorem embed_tupleRest (h : tupleRest (s + 1) d c = .ok (es, c')) (hc : c'.Clear n) :
    tupleRest (s + 1) d (c.embed k n) = .ok (movedAll k es, c'.embed k n) := by
  rw [tupleRest] at h ⊢
  simp only at h ⊢
  split at h
  · rename_i hcomma
    split at h
    · rename_i hclose
      cases h
      have hafter := (Cursor.reads_peek_op hclose).clear hc
      simp only [Cursor.peek_embed hafter.position_le, Cursor.peek_embed hc.position_le,
        Token.isOp_moved, hcomma, hclose, if_true]
      rfl
    · rename_i hclose
      obtain ⟨⟨item, c₁⟩, hitem, h⟩ := Except.bind_ok.mp h
      obtain ⟨⟨more, c₂⟩, hmore, h⟩ := Except.bind_ok.mp h
      cases h
      have hnext := ((moves s).tupleRest hmore).clear hc
      have hafter := ((moves s).expression hitem).clear hnext
      simp only [Cursor.peek_embed hafter.position_le, Token.isOp_moved, hcomma, if_true]
      rw [if_neg (hafter.not_op hclose), ih.expression hitem hnext, Except.ok_bind]
      simp only [ih.tupleRest hmore hc]
      rfl
  · rename_i hcomma
    split at h
    · rename_i hclose
      cases h
      simp only [Cursor.peek_embed hc.position_le, Token.isOp_moved]
      rw [if_neg hcomma, if_pos hclose]
      rfl
    · cases h

theorem embed_parenthesized (h : parenthesized (s + 1) d position c = .ok (e, c'))
    (hc : c'.Clear n) : parenthesized (s + 1) d (position + k) (c.embed k n) =
      .ok (e.moved k, c'.embed k n) := by
  rw [parenthesized] at h ⊢
  simp only at h ⊢
  split at h
  · rename_i hclose
    cases h
    simp only [Cursor.peek_embed hc.position_le, Token.isOp_moved, hclose, if_true]
    rfl
  · rename_i hclose
    obtain ⟨⟨first, c₁⟩, hfirst, h⟩ := Except.bind_ok.mp h
    simp only at h
    split at h
    · rename_i hcomma
      obtain ⟨⟨more, c₂⟩, hmore, h⟩ := Except.bind_ok.mp h
      cases h
      have hafter := ((moves s).tupleRest hmore).clear hc
      have hstart := ((moves s).expression hfirst).clear hafter
      have hpeek := ((moves s).tupleRest hmore).peek_le hc true
      rw [if_neg (hstart.not_op hclose), ih.expression hfirst hafter, Except.ok_bind]
      simp only [Cursor.peek_embed hpeek, Token.isOp_moved, hcomma, if_true,
        ih.tupleRest hmore hc]
      rfl
    · rename_i hcomma
      split at h
      · rename_i hend
        cases h
        have hafter := (Cursor.reads_peek_op hend).clear hc
        have hstart := ((moves s).expression hfirst).clear hafter
        rw [if_neg (hstart.not_op hclose), ih.expression hfirst hafter, Except.ok_bind]
        simp only [Cursor.peek_embed hc.position_le, Token.isOp_moved]
        rw [if_neg hcomma, if_pos hend]
        rfl
      · cases h

theorem embed_primary (h : primary (s + 1) spaced d c = .ok (e, c')) (hc : c'.Clear n) :
    primary (s + 1) spaced d (c.embed k n) = .ok (e.moved k, c'.embed k n) := by
  have hpeek := (moves_primary (moves s) h).peek_le hc spaced
  rw [primary] at h ⊢
  simp only [Cursor.peek_embed hpeek, Token.isOp_moved, Token.kind_moved, Token.text_moved] at h ⊢
  split at h
  · rename_i value hvalue
    obtain ⟨v, rfl, h⟩ := Except.bind_ok.mp h
    cases h
    simp only [Literal.ofToken_moved hvalue]
    rfl
  · rename_i hvalue
    simp only [Literal.ofToken_moved_none hvalue]
    split at h
    · rename_i hk
      obtain ⟨⟨parts, c₁⟩, hparts, h⟩ := Except.bind_ok.mp h
      cases h
      rw [if_pos hk, embed_path hparts hc]
      rcases parts with _ | ⟨p, _ | ⟨q, qs⟩⟩ <;> rfl
    · rename_i hk
      rw [if_neg hk]
      split at h
      · rename_i hparen
        obtain ⟨d', hd, h⟩ := Except.bind_ok.mp h
        rw [if_pos hparen, enter_moved hd, Except.ok_bind]
        exact ih.parenthesized h hc
      · rename_i hparen
        rw [if_neg hparen]
        split at h
        · rename_i hbracket
          obtain ⟨⟨is, c₁⟩, his, h⟩ := Except.bind_ok.mp h
          cases h
          rw [if_pos hbracket, ih.items his hc]
          rfl
        · split at h <;> cases h

theorem embed_links (h : links (s + 1) spaced d base c = .ok (e, c')) (hc : c'.Clear n)
    (hfinal : spaced = false → c'.Final n) :
    links (s + 1) spaced d (base.moved k) (c.embed k n) = .ok (e.moved k, c'.embed k n) := by
  rw [links] at h
  simp only at h
  split at h
  · rename_i hpoint
    split at h
    · rename_i hk
      obtain ⟨name, hname, h⟩ := Except.bind_ok.mp h
      split at h
      · rename_i hparen
        obtain ⟨⟨args, c₁⟩, hargs, h⟩ := Except.bind_ok.mp h
        have hlinks := ((moves s).links h).clear hc
        have hitems := (moves s).items (Token.isSolid_of_isOp hparen) hargs
        have hafter := (hitems.clear hlinks).position_le
        have hbetween := Nat.le_trans (Cursor.reaches_token _).position_le hafter
        rw [links]
        simp only [Cursor.peek_embed hbetween, Cursor.token_embed hafter, Token.isOp_moved,
          Token.kind_moved, hpoint, hk, if_true, checkName_moved hname, Except.ok_bind,
          Cursor.peek_embed (hitems.peek_le hlinks spaced), hparen, ih.items hargs hlinks,
          position_moved]
        exact ih.links h hc hfinal
      · rename_i hparen
        have hlinks := ((moves s).links h).clear hc
        have hafter := hlinks.position_le
        have hbetween := Nat.le_trans (Cursor.reaches_token _).position_le hafter
        rw [links]
        simp only [Cursor.peek_embed hbetween, Cursor.token_embed hafter, Token.isOp_moved,
          Token.kind_moved, hpoint, hk, if_true, checkName_moved hname, Except.ok_bind,
          position_moved]
        rw [if_neg (hlinks.not_op hparen)]
        exact ih.links h hc hfinal
    · rename_i hk
      split at h
      · cases h
      · rename_i hspaced
        cases h
        obtain rfl : spaced = false := Bool.not_eq_true _ ▸ hspaced
        exact embed_links_point hpoint hk (hfinal rfl)
  · rename_i hpoint
    split at h
    · rename_i hparen
      obtain ⟨⟨args, c₁⟩, hargs, h⟩ := Except.bind_ok.mp h
      have hlinks := ((moves s).links h).clear hc
      have hitems := (moves s).items (Token.isSolid_of_isOp hparen) hargs
      rw [links]
      simp only [Cursor.peek_embed (hitems.peek_le hlinks spaced), Token.isOp_moved]
      rw [if_neg hpoint, if_pos hparen, ih.items hargs hlinks, Except.ok_bind]
      simp only [position_moved]
      exact ih.links h hc hfinal
    · rename_i hparen
      split at h
      · rename_i hbracket
        obtain ⟨⟨place, c₁⟩, hplace, h⟩ := Except.bind_ok.mp h
        simp only at h
        split at h
        · rename_i hclose
          have hlinks := ((moves s).links h).clear hc
          have hafter := (Cursor.reads_peek_op hclose).clear hlinks
          have hnext := ((moves s).expression hplace).clear hafter
          rw [links]
          simp only [Cursor.peek_embed hnext.position_le, Token.isOp_moved]
          rw [if_neg hpoint, if_neg hparen, if_pos hbracket, ih.expression hplace hafter,
            Except.ok_bind]
          simp only [Cursor.peek_embed hlinks.position_le, Token.isOp_moved, hclose, if_true,
            position_moved]
          exact ih.links h hc hfinal
        · cases h
      · rename_i hbracket
        cases h
        rw [links]
        simp only
        rw [if_neg (hc.not_op hpoint), if_neg (hc.not_op hparen), if_neg (hc.not_op hbracket)]
        rfl

end Step

/-- **The functions of the reader do the same at an embedded cursor**, in any number of steps. -/
theorem embeds (k n : Nat) : ∀ s, Embeds k n s
  | 0 => by constructor <;> intros <;> contradiction
  | s + 1 => by
    have ih := embeds k n s
    exact ⟨embed_expression ih, embed_binary ih, embed_binaryRest ih, embed_unary ih,
      embed_postfixed ih, embed_links ih, embed_primary ih, embed_parenthesized ih,
      embed_tupleRest ih, embed_items ih, embed_itemsRest ih⟩

end Read

end Expr

/-! ## Patterns -/

namespace Pattern

namespace Read

open Expr.Read

/-- What a list holds, with its positions moved. -/
def Listed.moved (k : Nat) (l : Listed) : Listed := { l with items := movedAll k l.items }

variable {k n s d count position : Nat} {rest : Option Nat} {trailing o : Bool} {c c' : Cursor}
variable {p : Pattern} {ps : List Pattern} {fs : List (String × Pattern)} {l : Listed}
variable {parts : List String}

theorem Listed.pattern_moved (l : Listed) (position k : Nat) :
    (l.moved k).pattern (position + k) = (l.pattern position).moved k := by
  obtain ⟨items, rest, trailing⟩ := l
  rcases items with _ | ⟨p, _ | ⟨q, qs⟩⟩
  · rfl
  · cases rest <;> cases trailing <;> rfl
  · rfl

theorem moved_ofPath (position : Nat) (parts : List String) (k : Nat) :
    (ofPath position parts).moved k = ofPath (position + k) parts := by
  rcases parts with _ | ⟨n, _ | ⟨m, ms⟩⟩ <;> rfl

theorem embed_negative (h : negative position c = .ok (p, c')) (hc : c'.position ≤ n) :
    negative (position + k) (c.embed k n) = .ok (p.moved k, c'.embed k n) := by
  unfold negative at h ⊢
  simp only at h ⊢
  split at h
  · rename_i hnumber
    split at h
    · rename_i value hvalue
      obtain ⟨v, rfl, h⟩ := Except.bind_ok.mp h
      cases h
      simp only [Cursor.peek_embed hc, Token.kind_moved]
      rw [if_pos hnumber]
      simp only [Literal.ofToken_moved hvalue]
      rfl
    · cases h
  · cases h

/-- **The functions of the reader of patterns do the same at an embedded cursor** if the cut does
not split the token where they end. -/
structure Embeds (k n s : Nat) : Prop where
  pattern : ∀ {d c p c'}, pattern s d c = .ok (p, c') → c'.Clear n →
    pattern s d (c.embed k n) = .ok (p.moved k, c'.embed k n)
  alternatives : ∀ {d c ps c'}, alternatives s d c = .ok (ps, c') → c'.Clear n →
    alternatives s d (c.embed k n) = .ok (movedAll k ps, c'.embed k n)
  single : ∀ {d c p c'}, single s d c = .ok (p, c') → c'.Clear n →
    single s d (c.embed k n) = .ok (p.moved k, c'.embed k n)
  listed : ∀ {d count rest trailing c l c'}, listed s d count rest trailing c = .ok (l, c') →
    c'.Clear n →
    listed s d count rest trailing (c.embed k n) = .ok (l.moved k, c'.embed k n)
  listedEnd : ∀ {d count rest c l c'}, listedEnd s d count rest c = .ok (l, c') → c'.Clear n →
    listedEnd s d count rest (c.embed k n) = .ok (l.moved k, c'.embed k n)
  fields : ∀ {d c fs o c'}, fields s d c = .ok (fs, o, c') → c'.Clear n →
    fields s d (c.embed k n) = .ok (movedFields k fs, o, c'.embed k n)

section Step

variable (ih : Embeds k n s)
include ih

theorem embed_pattern (h : pattern (s + 1) d c = .ok (p, c')) (hc : c'.Clear n) :
    pattern (s + 1) d (c.embed k n) = .ok (p.moved k, c'.embed k n) := by
  rw [pattern] at h ⊢
  obtain ⟨⟨first, c₁⟩, hfirst, h⟩ := Except.bind_ok.mp h
  obtain ⟨⟨more, c₂⟩, hmore, h⟩ := Except.bind_ok.mp h
  cases more with
  | nil =>
    cases h
    have hnext := ((moves s).alternatives hmore).clear hc
    rw [ih.single hfirst hnext, Except.ok_bind]
    simp only [ih.alternatives hmore hc]
    rfl
  | cons q qs =>
    cases h
    have hnext := ((moves s).alternatives hmore).clear hc
    rw [ih.single hfirst hnext, Except.ok_bind]
    simp only [ih.alternatives hmore hc, moved, ← position_moved first]
    rfl

theorem embed_alternatives (h : alternatives (s + 1) d c = .ok (ps, c')) (hc : c'.Clear n) :
    alternatives (s + 1) d (c.embed k n) = .ok (movedAll k ps, c'.embed k n) := by
  rw [alternatives] at h ⊢
  simp only at h ⊢
  split at h
  · rename_i hbar
    obtain ⟨⟨q, c₁⟩, hq, h⟩ := Except.bind_ok.mp h
    obtain ⟨⟨more, c₂⟩, hmore, h⟩ := Except.bind_ok.mp h
    cases h
    have hnext := ((moves s).alternatives hmore).clear hc
    have hafter := ((moves s).single hq).clear hnext
    simp only [Cursor.peek_embed hafter.position_le, Token.isOp_moved, hbar, if_true,
      ih.single hq hnext, Except.ok_bind, ih.alternatives hmore hc]
    rfl
  · rename_i hbar
    cases h
    rw [if_neg (hc.not_op hbar)]
    rfl

theorem embed_listed (h : listed (s + 1) d count rest trailing c = .ok (l, c')) (hc : c'.Clear n) :
    listed (s + 1) d count rest trailing (c.embed k n) = .ok (l.moved k, c'.embed k n) := by
  have hpeek := (moves_listed (moves s) h).peek_le hc true
  rw [listed] at h ⊢
  simp only [Cursor.peek_embed hpeek, Token.isOp_moved] at h ⊢
  split at h
  · rename_i hclose
    cases h
    rw [if_pos hclose]
    rfl
  · rename_i hclose
    rw [if_neg hclose]
    split at h
    · rename_i hdots
      rw [if_pos hdots]
      split at h
      · cases h
      · rename_i hsecond
        rw [if_neg hsecond]
        exact ih.listedEnd h hc
    · rename_i hdots
      obtain ⟨⟨q, c₁⟩, hq, h⟩ := Except.bind_ok.mp h
      obtain ⟨⟨m, c₂⟩, hm, h⟩ := Except.bind_ok.mp h
      cases h
      have hnext := ((moves s).listedEnd hm).clear hc
      rw [if_neg hdots, ih.pattern hq hnext, Except.ok_bind]
      simp only [ih.listedEnd hm hc]
      rfl

theorem embed_listedEnd (h : listedEnd (s + 1) d count rest c = .ok (l, c')) (hc : c'.Clear n) :
    listedEnd (s + 1) d count rest (c.embed k n) = .ok (l.moved k, c'.embed k n) := by
  have hpeek := (moves_listedEnd (moves s) h).peek_le hc true
  rw [listedEnd] at h ⊢
  simp only [Cursor.peek_embed hpeek, Token.isOp_moved] at h ⊢
  split at h
  · rename_i hcomma
    rw [if_pos hcomma]
    exact ih.listed h hc
  · rename_i hcomma
    split at h
    · rename_i hclose
      cases h
      rw [if_neg hcomma, if_pos hclose]
      rfl
    · cases h

theorem embed_afterPath (h : afterPath s d position parts c = .ok (p, c')) (hc : c'.Clear n) :
    afterPath s d (position + k) parts (c.embed k n) = .ok (p.moved k, c'.embed k n) := by
  unfold afterPath at h ⊢
  split at h
  · rename_i hparen
    obtain ⟨d', hd, h⟩ := Except.bind_ok.mp h
    obtain ⟨⟨m, c₁⟩, hm, h⟩ := Except.bind_ok.mp h
    cases h
    have hafter := ((moves s).listed hm).clear hc
    simp only [Cursor.peek_embed hafter.position_le, Token.isOp_moved, hparen, if_true,
      enter_moved hd, Except.ok_bind, ih.listed hm hc]
    rfl
  · rename_i hparen
    split at h
    · rename_i hbrace
      obtain ⟨d', hd, h⟩ := Except.bind_ok.mp h
      obtain ⟨⟨fs, o, c₁⟩, hfs, h⟩ := Except.bind_ok.mp h
      cases h
      have hafter := ((moves s).fields hfs).clear hc
      simp only [Cursor.peek_embed hafter.position_le, Token.isOp_moved]
      rw [if_neg hparen, if_pos hbrace, enter_moved hd, Except.ok_bind, ih.fields hfs hc]
      rfl
    · rename_i hbrace
      cases h
      rw [if_neg (hc.not_op hparen), if_neg (hc.not_op hbrace), moved_ofPath]
      rfl

theorem embed_single (h : single (s + 1) d c = .ok (p, c')) (hc : c'.Clear n) :
    single (s + 1) d (c.embed k n) = .ok (p.moved k, c'.embed k n) := by
  have hpeek := (moves_single (moves s) h).peek_le hc true
  rw [single] at h ⊢
  simp only [Cursor.peek_embed hpeek, Token.isOp_moved, Token.kind_moved, Token.text_moved] at h ⊢
  split at h
  · rename_i hword
    cases h
    rw [if_pos hword]
    rfl
  · rename_i hword
    rw [if_neg hword]
    split at h
    · rename_i hminus
      rw [if_pos hminus]
      exact embed_negative h hc.position_le
    · rename_i hminus
      rw [if_neg hminus]
      split at h
      · rename_i value hvalue
        obtain ⟨v, rfl, h⟩ := Except.bind_ok.mp h
        cases h
        simp only [Literal.ofToken_moved hvalue]
        rfl
      · rename_i hvalue
        simp only [Literal.ofToken_moved_none hvalue]
        split at h
        · rename_i hparen
          obtain ⟨d', hd, h⟩ := Except.bind_ok.mp h
          obtain ⟨⟨m, c₁⟩, hm, h⟩ := Except.bind_ok.mp h
          cases h
          rw [if_pos hparen, enter_moved hd, Except.ok_bind, ih.listed hm hc]
          exact congrArg (fun q => Except.ok (q, _)) (m.pattern_moved _ k)
        · rename_i hparen
          rw [if_neg hparen]
          split at h
          · rename_i hk
            obtain ⟨⟨parts, c₁⟩, hparts, h⟩ := Except.bind_ok.mp h
            have hnext := (moves_afterPath (moves s) h).clear hc
            rw [if_pos hk, embed_path hparts hnext]
            exact embed_afterPath ih h hc
          · cases h

theorem embed_fieldEnd {name : String} (h : fieldEnd s d name p c = .ok (fs, o, c'))
    (hc : c'.Clear n) :
    fieldEnd s d name (p.moved k) (c.embed k n) = .ok (movedFields k fs, o, c'.embed k n) := by
  have hpeek := (moves_fieldEnd (moves s) h).peek_le hc true
  unfold fieldEnd at h ⊢
  simp only [Cursor.peek_embed hpeek, Token.isOp_moved] at h ⊢
  split at h
  · rename_i hcomma
    obtain ⟨⟨more, o', c₁⟩, hmore, h⟩ := Except.bind_ok.mp h
    cases h
    rw [if_pos hcomma, ih.fields hmore hc]
    rfl
  · rename_i hcomma
    split at h
    · rename_i hclose
      cases h
      rw [if_neg hcomma, if_pos hclose]
      rfl
    · cases h

theorem embed_fields (h : fields (s + 1) d c = .ok (fs, o, c')) (hc : c'.Clear n) :
    fields (s + 1) d (c.embed k n) = .ok (movedFields k fs, o, c'.embed k n) := by
  have hpeek := (moves_fields (moves s) h).peek_le hc true
  rw [fields] at h ⊢
  simp only [Cursor.peek_embed hpeek, Token.isOp_moved, Token.kind_moved] at h ⊢
  split at h
  · rename_i hclose
    cases h
    rw [if_pos hclose]
    rfl
  · rename_i hclose
    rw [if_neg hclose]
    split at h
    · rename_i hdots
      rw [if_pos hdots]
      split at h
      · rename_i hend
        cases h
        simp only [Cursor.peek_embed hc.position_le, Token.isOp_moved]
        rw [if_pos hend]
        rfl
      · cases h
    · rename_i hdots
      rw [if_neg hdots]
      split at h
      · rename_i hk
        obtain ⟨name, hname, h⟩ := Except.bind_ok.mp h
        rw [if_pos hk, checkName_moved hname, Except.ok_bind]
        split at h
        · rename_i hcolon
          obtain ⟨⟨q, c₁⟩, hq, h⟩ := Except.bind_ok.mp h
          have hnext := (moves_fieldEnd (moves s) h).clear hc
          have hafter := ((moves s).pattern hq).clear hnext
          simp only [Cursor.peek_embed hafter.position_le, Token.isOp_moved, hcolon, if_true,
            ih.pattern hq hnext, Except.ok_bind]
          exact embed_fieldEnd ih h hc
        · rename_i hcolon
          have hnext := (moves_fieldEnd (moves s)
            (p := .binding (c.peek true).1.position name) h).clear hc
          rw [if_neg (hnext.not_op hcolon)]
          exact embed_fieldEnd ih (p := .binding (c.peek true).1.position name) h hc
      · cases h

end Step

/-- **The functions of the reader of patterns do the same at an embedded cursor**, in any number of
steps. -/
theorem embeds (k n : Nat) : ∀ s, Embeds k n s
  | 0 => by constructor <;> intros <;> contradiction
  | s + 1 => by
    have ih := embeds k n s
    exact ⟨embed_pattern ih, embed_alternatives ih, embed_single ih, embed_listed ih,
      embed_listedEnd ih, embed_fields ih⟩

end Read

end Pattern

/-! ## Entry points -/

section Entry

variable {k n : Nat} {c c' : Cursor}

namespace Cursor

theorem le_steps_embed (c : Cursor) (k n : Nat) {l : Nat} (hl : l ≤ 32) :
    16 * (c.embed k n).rest.length + l ≤ min (c.embed k n).steps c.steps := by
  have hlen : (c.embed k n).rest.length ≤ c.rest.length := List.length_take_le' _ _
  unfold steps
  omega

theorem embed_cut (c : Cursor) : c.embed 0 c.position = ⟨c.position, []⟩ := by
  rw [embed, Nat.sub_self, List.take_zero]
  rfl

theorem embed_uncut (h : c.position + c.rest.length ≤ n) (k : Nat) :
    c.embed k n = ⟨c.position + k, c.rest⟩ := by
  rw [embed, List.take_of_length_le (by omega)]

theorem position_add_length_ofText (text : List Char) (start : Nat) :
    (ofText text start).position + (ofText text start).rest.length = text.length := by
  simp only [ofText, List.length_drop]
  omega

theorem ofText_cut {text : List Char} {start stop : Nat} (h : (ofText text start).position ≤ stop) :
    (ofText text start).embed 0 stop = ofText (text.take stop) start := by
  simp only [ofText, embed, List.drop_take, List.length_take] at h ⊢
  by_cases hstart : start ≤ text.length
  · rw [Nat.min_eq_left hstart] at h ⊢
    rw [Nat.min_eq_left (Nat.le_min.mpr ⟨h, hstart⟩), Nat.add_zero]
  · rw [List.drop_eq_nil_of_le (by omega), List.take_nil, List.take_nil]
    congr 1
    omega

theorem ofText_append (before text : List Char) (start : Nat) :
    (ofText text start).embed before.length text.length =
      ofText (before ++ text) (start + before.length) := by
  rw [embed_uncut (Nat.le_of_eq (position_add_length_ofText text start))]
  simp only [ofText, List.length_append, Nat.add_comm start, List.drop_length_add_append]
  congr 1
  omega

end Cursor

namespace Expr

theorem embed_readExpression {e : Expr} (h : readExpression c = .ok (e, c')) (hc : c'.Clear n) :
    readExpression (c.embed k n) = .ok (e.moved k, c'.embed k n) := by
  have hsteps := c.le_steps_embed k n (l := 11) (by decide)
  exact ((Read.enough _ _).expression hsteps).same.trans ((Read.embeds k n _).expression h hc)

theorem embed_readChain {e : Expr} (h : readChain c = .ok (e, c')) (hc : c'.Final n) :
    readChain (c.embed k n) = .ok (e.moved k, c'.embed k n) := by
  have htoken := Cursor.token_embed (k := k) ((reads_of_readChain h).peek_le hc.clear false)
  unfold readChain at h ⊢
  rw [htoken, Token.isOp_moved]
  split at h
  · rename_i hparen
    have hsteps := c.le_steps_embed k n (l := 2) (by decide)
    rw [if_pos hparen]
    exact ((Read.enough _ _).primary hsteps).same.trans ((Read.embeds k n _).primary h hc.clear)
  · rename_i hparen
    have hsteps := c.le_steps_embed k n (l := 3) (by decide)
    rw [if_neg hparen]
    exact ((Read.enough _ _).postfixed hsteps).same.trans
      ((Read.embeds k n _).postfixed h hc.clear fun _ => hc)

theorem embed_readPath {ns : List String} (h : readPath c = .ok (ns, c')) (hc : c'.Clear n) :
    readPath (c.embed k n) = .ok (ns, c'.embed k n) := by
  have hsteps := c.le_steps_embed k n (l := 0) (by decide)
  exact (Read.agree_path (by omega)).same.trans (Read.embed_path h hc)

end Expr

theorem Pattern.embed_read {p : Pattern} (h : Pattern.read c = .ok (p, c')) (hc : c'.Clear n) :
    Pattern.read (c.embed k n) = .ok (p.moved k, c'.embed k n) := by
  have hsteps := c.le_steps_embed k n (l := 2) (by decide)
  exact ((Read.enough _ _).pattern hsteps).same.trans ((Read.embeds k n _).pattern h hc)

end Entry

/-- **What is read does not depend on the text around it**, whatever the text and wherever reading
starts in it. -/
structure IsLocal {α : Type} (moved : Nat → α → α) (read : Cursor → Except Failure (α × Cursor)) :
    Prop where
  /-- Of the text that is cut at the end, the same is read. -/
  cut : ∀ {text : List Char} {start : Nat} {a : α} {c : Cursor},
    read (.ofText text start) = .ok (a, c) →
    read (.ofText (text.take c.position) start) = .ok (a, ⟨c.position, []⟩)
  /-- The end lies directly behind the last token. -/
  reads : ∀ {text : List Char} {start : Nat} {a : α} {c : Cursor},
    read (.ofText text start) = .ok (a, c) → (Cursor.ofText text start).Reads c
  /-- With a text in front, the same is read further on. -/
  append : ∀ (before : List Char) {text : List Char} {start : Nat} {a : α} {c : Cursor},
    read (.ofText text start) = .ok (a, c) →
    read (.ofText (before ++ text) (start + before.length)) =
      .ok (moved before.length a, ⟨c.position + before.length, c.rest⟩)

theorem isLocal_of_embeds {α : Type} {moved : Nat → α → α}
    {read : Cursor → Except Failure (α × Cursor)} (hzero : ∀ a, moved 0 a = a)
    (hreads : ∀ {c a c'}, read c = .ok (a, c') → c.Reads c')
    (h : ∀ {k n c a c'}, read c = .ok (a, c') → c'.Final n →
      read (c.embed k n) = .ok (moved k a, c'.embed k n)) : IsLocal moved read where
  cut {text start a c} hread := by
    have hcut := h (k := 0) hread (.inl rfl)
    rwa [Cursor.ofText_cut (hreads hread).reaches.position_le, hzero, Cursor.embed_cut] at hcut
  reads hread := hreads hread
  append before {text start a c} hread := by
    obtain ⟨part, hpart⟩ := (hreads hread).reaches
    have hend : c.position + c.rest.length = text.length := by
      rw [← Cursor.position_add_length_ofText text start, hpart.2, hpart.length_eq, Nat.add_assoc]
    have happend := h (k := before.length) hread (.inr (Nat.le_of_eq hend))
    rwa [Cursor.ofText_append, Cursor.embed_uncut (Nat.le_of_eq hend)] at happend

/-- **Expressions, chains, patterns and paths mean the same wherever they are embedded**: what is
read and where it ends do not depend on the text behind it, and with more text in front only
positions move. -/
theorem reading_isLocal : IsLocal Expr.moved readExpression ∧ IsLocal Expr.moved readChain ∧
    IsLocal Pattern.moved Pattern.read ∧ IsLocal (fun _ ns => ns) readPath :=
  ⟨isLocal_of_embeds Expr.moved_zero reads_of_readExpression fun h hc =>
      embed_readExpression h hc.clear,
    isLocal_of_embeds Expr.moved_zero reads_of_readChain embed_readChain,
    isLocal_of_embeds Pattern.moved_zero Pattern.reads_of_read fun h hc =>
      Pattern.embed_read h hc.clear,
    isLocal_of_embeds (fun _ => rfl) Read.moves_path fun h hc => embed_readPath h hc.clear⟩

/-- A chain in a sentence: the full stop behind it belongs to the text. -/
theorem reading_isLocal_chainInSentence :
    readChain (.ofText "b(1). x".toList 0) =
        .ok (.call 0 (.name 0 "b") [.literal 2 (.int 1)], ⟨4, ". x".toList⟩) ∧
      readChain (.ofText "b(1)".toList 0) =
        .ok (.call 0 (.name 0 "b") [.literal 2 (.int 1)], ⟨4, []⟩) ∧
      readChain (.ofText "See @b(1). x".toList 5) =
        .ok (.call 5 (.name 5 "b") [.literal 7 (.int 1)], ⟨9, ". x".toList⟩) := by
  have hread : readChain (.ofText "b(1). x".toList 0) =
      .ok (.call 0 (.name 0 "b") [.literal 2 (.int 1)], ⟨4, ". x".toList⟩) := by rfl
  exact ⟨hread, reading_isLocal.2.1.cut hread, reading_isLocal.2.1.append "See @".toList hread⟩

end Stencil
