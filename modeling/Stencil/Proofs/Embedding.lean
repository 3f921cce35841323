import Stencil.Proofs.CutText
import Stencil.Proofs.EnoughSteps

/-!
# Embedded texts

An expression stands in the text of a template, so it is read with text before and behind it. Here
is what a reader sees at a cursor that stands further on, in a longer text that is cut somewhere: as
long as the cut does not split a token, the same token with its position moved.

* `Expr.moved`, `Pattern.moved`: trees with their positions moved.
* `Cursor.embed`: a cursor in a longer text that is cut.
* `Cursor.Clear`: the cut does not split the next token.
* `Cursor.peek_embed`, `Cursor.Clear.not_op`: the next token at an embedded cursor.
* `Literal.ofToken_moved`: the value of a literal that stands further on.
-/

namespace Stencil

open Text Expr

/-! ## Moved positions -/

namespace Expr

/-- The token further on. -/
def Token.moved (t : Token) (k : Nat) : Token := { t with position := t.position + k }

section Token

variable (t : Token) (k : Nat)

@[simp] theorem Token.kind_moved : (t.moved k).kind = t.kind := rfl

@[simp] theorem Token.text_moved : (t.moved k).text = t.text := rfl

@[simp] theorem Token.position_moved : (t.moved k).position = t.position + k := rfl

@[simp] theorem Token.value_moved : (t.moved k).value = t.value := rfl

@[simp] theorem Token.isOp_moved (o : String) : (t.moved k).isOp o = t.isOp o := rfl

end Token

mutual

/-- **The tree with its positions moved.** -/
def moved (k : Nat) : Expr → Expr
  | literal p v => literal (p + k) v
  | name p n => name (p + k) n
  | path p ps => path (p + k) ps
  | field p v n => field (p + k) (v.moved k) n
  | method p r n as => method (p + k) (r.moved k) n (movedAll k as)
  | call p f as => call (p + k) (f.moved k) (movedAll k as)
  | index p v i => index (p + k) (v.moved k) (i.moved k)
  | tuple p is => tuple (p + k) (movedAll k is)
  | list p is => list (p + k) (movedAll k is)
  | range p s e i => range (p + k) (s.moved k) (e.moved k) i
  | unary p o e => unary (p + k) o (e.moved k)
  | binary p o l r => binary (p + k) o (l.moved k) (r.moved k)
  | group p e => group (p + k) (e.moved k)

/-- The trees with their positions moved. -/
def movedAll (k : Nat) : List Expr → List Expr
  | [] => []
  | e :: es => e.moved k :: movedAll k es

end

theorem position_moved (e : Expr) (k : Nat) : (e.moved k).position = e.position + k := by
  cases e <;> rw [moved] <;> rfl

mutual

theorem moved_zero : ∀ e : Expr, e.moved 0 = e
  | literal .. | name .. | path .. => by rw [moved, Nat.add_zero]
  | field _ v _ => by rw [moved, Nat.add_zero, v.moved_zero]
  | method _ r _ as => by rw [moved, Nat.add_zero, r.moved_zero, movedAll_zero as]
  | call _ f as => by rw [moved, Nat.add_zero, f.moved_zero, movedAll_zero as]
  | index _ v i => by rw [moved, Nat.add_zero, v.moved_zero, i.moved_zero]
  | tuple _ is | list _ is => by rw [moved, Nat.add_zero, movedAll_zero is]
  | range _ s e _ => by rw [moved, Nat.add_zero, s.moved_zero, e.moved_zero]
  | unary _ _ e | group _ e => by rw [moved, Nat.add_zero, e.moved_zero]
  | binary _ _ l r => by rw [moved, Nat.add_zero, l.moved_zero, r.moved_zero]

theorem movedAll_zero : ∀ es : List Expr, movedAll 0 es = es
  | [] => rfl
  | e :: es => by rw [movedAll, e.moved_zero, movedAll_zero es]

end

end Expr

namespace Pattern

mutual

/-- **The pattern with its positions moved.** -/
def moved (k : Nat) : Pattern → Pattern
  | wildcard p => wildcard (p + k)
  | binding p n => binding (p + k) n
  | literal p v => literal (p + k) v
  | value p ps => value (p + k) ps
  | tuple p items rest => tuple (p + k) (movedAll k items) rest
  | variant p ps items => variant (p + k) ps (movedAll k items)
  | struct p ps fields o => struct (p + k) ps (movedFields k fields) o
  | or p alternatives => or (p + k) (movedAll k alternatives)

/-- The patterns with their positions moved. -/
def movedAll (k : Nat) : List Pattern → List Pattern
  | [] => []
  | p :: ps => p.moved k :: movedAll k ps

/-- The fields with their positions moved. -/
def movedFields (k : Nat) : List (String × Pattern) → List (String × Pattern)
  | [] => []
  | (n, p) :: fs => (n, p.moved k) :: movedFields k fs

end

theorem position_moved (p : Pattern) (k : Nat) : (p.moved k).position = p.position + k := by
  cases p <;> rw [moved] <;> rfl

mutual

theorem moved_zero : ∀ p : Pattern, p.moved 0 = p
  | wildcard _ | binding .. | literal .. | value .. => by rw [moved, Nat.add_zero]
  | tuple _ is _ | variant _ _ is | or _ is => by rw [moved, Nat.add_zero, movedAll_zero is]
  | struct _ _ fs _ => by rw [moved, Nat.add_zero, movedFields_zero fs]

theorem movedAll_zero : ∀ ps : List Pattern, movedAll 0 ps = ps
  | [] => rfl
  | p :: ps => by rw [movedAll, p.moved_zero, movedAll_zero ps]

theorem movedFields_zero : ∀ fs : List (String × Pattern), movedFields 0 fs = fs
  | [] => rfl
  | (n, p) :: fs => by rw [movedFields, p.moved_zero, movedFields_zero fs]

end

end Pattern

/-! ## Embedded cursors -/

namespace Cursor

variable {k n : Nat} {c d : Cursor} {spaced : Bool}

/-- **A cursor `k` characters further on**, in a text that is cut at the position that was `n`. -/
def embed (c : Cursor) (k n : Nat) : Cursor := ⟨c.position + k, c.rest.take (n - c.position)⟩

theorem skipWhile_embed {p : Char → Bool} (h : (c.skipWhile p).position ≤ n) :
    (c.embed k n).skipWhile p = (c.skipWhile p).embed k n := by
  have hrun : (c.rest.takeWhile p).length ≤ n - c.position := by
    simp only [skipWhile] at h
    omega
  simp only [skipWhile, embed, takeWhile_take, List.take_of_length_le hrun, dropWhile_take hrun,
    Nat.sub_add_eq, Nat.add_right_comm]

/-- **A token that ends before the cut** is the same. -/
theorem token_embed (h : c.token.2.position ≤ n) :
    (c.embed k n).token = (c.token.1.moved k, c.token.2.embed k n) := by
  have hrun : (scan c.rest).text.length ≤ n - c.position := by
    simp only [token] at h
    omega
  simp only [token, embed, scan_take hrun, Token.moved, Nat.sub_add_eq, Nat.add_right_comm]

theorem peek_embed (h : (c.peek spaced).2.position ≤ n) :
    (c.embed k n).peek spaced = ((c.peek spaced).1.moved k, (c.peek spaced).2.embed k n) := by
  cases spaced with
  | true =>
    have hblank : c.skipBlank.position ≤ n :=
      Nat.le_trans (reaches_token c.skipBlank).position_le h
    show (c.embed k n).skipBlank.token = _
    rw [skipBlank, skipWhile_embed hblank]
    exact token_embed h
  | false => exact token_embed h

/-- **The cut does not split the next token**: it lies at the cursor or behind the token. -/
def Clear (c : Cursor) (n : Nat) : Prop := c.position = n ∨ c.skipBlank.token.2.position ≤ n

theorem Clear.position_le (h : c.Clear n) : c.position ≤ n := by
  rcases h with h | h
  · exact Nat.le_of_eq h
  · exact Nat.le_trans (c.reaches_skipBlank.trans (reaches_token _)).position_le h

/-- Where whole tokens follow before the cut, it splits none of them. -/
theorem Reads.clear (h : c.Reads d) (hd : d.Clear n) : c.Clear n := by
  have hn := hd.position_le
  cases h with
  | one => exact .inr hn
  | more _ hrest => exact .inr (Nat.le_trans hrest.reaches.position_le hn)

theorem StaysOrReads.clear (h : c.StaysOrReads d) (hd : d.Clear n) : c.Clear n := by
  rcases h with rfl | h
  · exact hd
  · exact h.clear hd

/-- A token and white space before it end where the token does. -/
theorem position_peek_le (c : Cursor) (spaced : Bool) :
    (c.peek spaced).2.position ≤ c.skipBlank.token.2.position := by
  cases spaced with
  | true => exact Nat.le_refl _
  | false =>
    obtain ⟨position, rest⟩ := c
    cases rest with
    | nil => exact Nat.le_refl _
    | cons x rest =>
      cases hx : isBlank x with
      | false =>
        have : (⟨position, x :: rest⟩ : Cursor).skipBlank = ⟨position, x :: rest⟩ := by
          simp [skipBlank, skipWhile, hx]
        rw [this]
        exact Nat.le_refl _
      | true =>
        have hscan : (scan (x :: rest)).text = (x :: rest).takeWhile isBlank := by
          rw [scan, blank?, List.takeWhile_cons_of_pos hx]
          rfl
        have hblank : (peek ⟨position, x :: rest⟩ false).2.position =
            (⟨position, x :: rest⟩ : Cursor).skipBlank.position := by
          show position + (scan (x :: rest)).text.length = _
          rw [hscan]
          rfl
        rw [hblank]
        exact (reaches_token _).position_le

/-- Where whole tokens follow before the cut, the next one ends before it. -/
theorem Reads.peek_le (h : c.Reads d) (hd : d.Clear n) (spaced : Bool) :
    (c.peek spaced).2.position ≤ n := by
  refine Nat.le_trans (c.position_peek_le spaced) ?_
  cases h with
  | one => exact hd.position_le
  | more _ hrest => exact Nat.le_trans hrest.reaches.position_le hd.position_le

/-- **What is seen of the next token if the cut does not split it**: the token or the end. -/
theorem Clear.peek (h : c.Clear n) {P : Token → Prop} (hp : P (c.peek spaced).1)
    (hmoved : ∀ t, P t → P (t.moved k)) (heof : ∀ position, P ⟨.eof, [], position⟩) :
    P ((c.embed k n).peek spaced).1 := by
  rcases h with h | h
  · have hempty : c.embed k n = ⟨c.position + k, []⟩ := by
      rw [embed, h, Nat.sub_self, List.take_zero]
    rw [hempty]
    cases spaced <;> exact heof _
  · rw [peek_embed (Nat.le_trans (c.position_peek_le spaced) h)]
    exact hmoved _ hp

theorem Clear.not_op (h : c.Clear n) {o : String} (hp : ¬ (c.peek spaced).1.isOp o = true) :
    ¬ ((c.embed k n).peek spaced).1.isOp o = true :=
  h.peek (P := fun t => ¬ t.isOp o = true) hp (fun _ ht => ht) fun _ ht => by cases ht

/-- **The cut is made at the cursor, or not at all.** -/
def Final (c : Cursor) (n : Nat) : Prop := c.position = n ∨ c.position + c.rest.length ≤ n

theorem Final.clear (h : c.Final n) : c.Clear n := by
  rcases h with h | h
  · exact .inl h
  · obtain ⟨part, hpart⟩ := c.reaches_skipBlank.trans (reaches_token c.skipBlank)
    have hlen := hpart.length_eq
    have hposition := hpart.2
    exact .inr (by omega)

end Cursor

/-! ## Literals -/

namespace Literal

variable {t : Token} {cs : List Char} {k position s : Nat}

/-- Where a string stands does not matter unless an escape of it is wrong. -/
theorem escape_at {x : CodePoint × List Char} (h : escape position cs = .ok x) (q : Nat) :
    escape q cs = .ok x := by
  unfold escape at h ⊢
  split at h
  · cases h
  · split at h
    · split at h
      · exact h
      · cases h
    · cases h
  · split at h
    · exact h
    · cases h
  · split at h
    · exact h
    · cases h

theorem unescape_at {ps : List CodePoint} (h : unescape s position cs = .ok ps) (q : Nat) :
    unescape s q cs = .ok ps := by
  fun_induction unescape s position cs generalizing ps q with
  | case1 => cases h
  | case2 s position hs =>
    rw [unescape]
    · exact h
    · exact hs
  | case3 s position cs ih =>
    obtain ⟨⟨p, rest⟩, hp, h⟩ := Except.bind_ok.mp h
    obtain ⟨more, hmore, h⟩ := Except.bind_ok.mp h
    rw [unescape, escape_at hp q, Except.ok_bind]
    simp only
    rw [ih rest hmore]
    exact h
  | case4 s position c cs hc ih =>
    obtain ⟨more, hmore, h⟩ := Except.bind_ok.mp h
    rw [unescape]
    · rw [ih hmore]
      exact h
    · exact hc

/-- **The value of a literal does not depend on where it stands.** -/
theorem ofToken_at {v : Literal} (h : ofToken t = some (.ok v)) (q : Nat) :
    ofToken { t with position := q } = some (.ok v) := by
  unfold ofToken at h ⊢
  simp only
  split at h
  · exact h
  · exact h
  · cases hstring : ofString t.position t.text with
    | ok ps =>
      rw [hstring] at h
      rw [show ofString q t.text = .ok ps from unescape_at hstring _]
      exact h
    | error f =>
      rw [hstring] at h
      cases h
  · exact h
  · cases h

theorem ofToken_at_none (h : ofToken t = none) (q : Nat) :
    ofToken { t with position := q } = none := by
  unfold ofToken at h ⊢
  simp only
  split at h
  · cases h
  · cases h
  · cases h
  · exact h
  · rfl

theorem ofToken_moved {v : Literal} (h : ofToken t = some (.ok v)) :
    ofToken (t.moved k) = some (.ok v) := ofToken_at h _

theorem ofToken_moved_none (h : ofToken t = none) : ofToken (t.moved k) = none :=
  ofToken_at_none h _

end Literal

end Stencil
