import Stencil.Proofs.AlikeReading
import Stencil.Proofs.Brackets
import Stencil.Proofs.EmbeddedReading
import Stencil.Proofs.ExprRoundTrip

/-!
# Chains are expressions

A chain is read by the functions that read full expressions, told not to skip white space. What they
read as a chain, they read as an expression too where the text ends behind it: up to there they
look for white space only where they have found a token, and at the end there is none.

* `Expr.Read.postfixed_spaced`: a chain up to the end of a text, read with white space skipped.
* `Expr.Read.expression_of_postfixed`: a postfix expression up to the end, read as an expression.
* **`Expr.readChain_parse`**: the text of a chain is an expression, and where it ends.
-/

namespace Stencil

open Text Expr

namespace Cursor

variable {c d : Cursor}

theorem peek_spaced (h : (c.peek false).1.kind.isSolid = true) : c.peek true = c.peek false :=
  peek_of_isSolid h

theorem kind_of_nil (h : c.rest = []) : c.token.1.kind = .eof := by
  show (scan c.rest).kind = _
  rw [h]
  rfl

theorem token_of_rest (h : c.rest = d.rest) :
    c.token.1.Alike d.token.1 ∧ c.token.2.rest = d.token.2.rest := by
  rw [token, token, h]
  exact ⟨⟨rfl, rfl⟩, rfl⟩

/-- **Cursors with the same text left** show the reader the same tokens. -/
theorem follows_rest : Follows fun c d : Cursor => c.rest = d.rest := by
  have hpeek : ∀ {c d : Cursor}, c.rest = d.rest → (c.peek true).1.Alike (d.peek true).1 ∧
      (c.peek true).2.rest = (d.peek true).2.rest := fun {c d} h =>
    token_of_rest (congrArg (List.dropWhile isBlank) h)
  exact
    { peek := fun h => (hpeek h).1
      after := fun h _ => (hpeek h).2
      point := fun h _ _ => token_of_rest (hpeek h).2
      mark := fun h => (token_of_rest h).1.isOp _
      afterMark := fun h _ _ => token_of_rest (token_of_rest h).2 }

end Cursor

namespace Expr

namespace Read

variable {s d : Nat} {closing : Char} {spaced : Bool} {c c' : Cursor} {e base : Expr}

/-- A literal is no unary operator. -/
theorem unaryOp?_of_ofToken {t : Token} {v : Except Failure Literal}
    (h : Literal.ofToken t = some v) : unaryOp? t = none := by
  obtain ⟨kind, text, position⟩ := t
  by_cases hnot : kind = .keyword ∧ text = "not".toList
  · obtain ⟨rfl, rfl⟩ := hnot
    cases h
  · have hop : kind ≠ .op := Token.not_op_of_ofToken h
    simp only [unaryOp?, Token.isKeyword, Token.isOp, decide_eq_false hop, Bool.false_and,
      Bool.or_false, ← Bool.decide_and, decide_eq_false hnot]
    rfl

/-- A primary expression starts with a token that is no unary operator. -/
theorem starts_of_primary (h : primary s spaced d c = .ok (e, c')) :
    (c.peek spaced).1.kind.isSolid = true ∧ unaryOp? (c.peek spaced).1 = none := by
  cases s with
  | zero => cases h
  | succ s =>
    rw [primary] at h
    simp only at h
    split at h
    · rename_i hvalue
      exact ⟨Token.isSolid_of_ofToken hvalue, unaryOp?_of_ofToken hvalue⟩
    · split at h
      · rename_i hk
        refine ⟨Token.isSolid_of_kind hk rfl, ?_⟩
        simp [unaryOp?, Token.isOp, Token.isKeyword, hk]
      · split at h
        · rename_i hparen
          exact ⟨Token.isSolid_of_isOp hparen, (operator_of_mark (by decide) hparen).2⟩
        · split at h
          · rename_i hbracket
            exact ⟨Token.isSolid_of_isOp hbracket, (operator_of_mark (by decide) hbracket).2⟩
          · split at h <;> cases h

section Same

variable (hpeek : c.peek true = c.peek false)
include hpeek

theorem path_spaced : path s true c = path s false c := by rw [path, path, hpeek]

theorem items_spaced : items s true d closing c = items s false d closing c := by
  cases s with
  | zero => rfl
  | succ s => rw [items, items, hpeek]

theorem primary_spaced : primary s true d c = primary s false d c := by
  cases s with
  | zero => rfl
  | succ s => rw [primary, primary, hpeek, path_spaced hpeek, items_spaced hpeek]

end Same

/-- Where links are read up to the end of the text, no white space stands before them. -/
theorem peek_of_links (h : links s false d base c = .ok (e, c')) (hend : c'.rest = []) :
    c.peek true = c.peek false := by
  by_cases hb : c.token.1.kind = .blank
  · cases s with
    | zero => cases h
    | succ s =>
      have hop : ∀ o, (c.peek false).1.isOp o = false := fun o =>
        Token.isOp_eq_false (by show c.token.1.kind ≠ _; rw [hb]; decide)
      rw [links] at h
      simp only [hop] at h
      cases h
      rw [Cursor.kind_of_nil hend] at hb
      cases hb
  · show c.skipBlank.token = c.token
    rw [Cursor.skipBlank_of_kind hb]

/-- **Links up to the end of the text** are the same with white space skipped. -/
theorem links_spaced (h : links s false d base c = .ok (e, c')) (hend : c'.rest = []) :
    links s true d base c = .ok (e, c') := by
  induction s generalizing base c with
  | zero => cases h
  | succ s ih =>
    have hpeek := peek_of_links h hend
    rw [links] at h ⊢
    rw [hpeek]
    simp only at h ⊢
    split at h
    · rename_i hpoint
      rw [if_pos hpoint]
      split at h
      · rename_i hk
        rw [if_pos hk]
        obtain ⟨name, hname, h⟩ := Except.bind_ok.mp h
        rw [hname, Except.ok_bind]
        split at h
        · rename_i hparen
          have hnext := Cursor.peek_spaced (Token.isSolid_of_isOp hparen)
          obtain ⟨⟨args, c₁⟩, hargs, h⟩ := Except.bind_ok.mp h
          rw [hnext, if_pos hparen, items_spaced hnext, hargs, Except.ok_bind]
          exact ih h
        · rename_i hparen
          rw [peek_of_links h hend, if_neg hparen]
          exact ih h
      · -- the point would be left behind the chain
        cases h
        rw [Token.isOp_eq_false (fun hk => by
          rw [Cursor.peek, if_neg Bool.false_ne_true, Cursor.kind_of_nil hend] at hk
          cases hk)] at hpoint
        cases hpoint
    · rename_i hpoint
      rw [if_neg hpoint]
      split at h
      · rename_i hparen
        obtain ⟨⟨args, c₁⟩, hargs, h⟩ := Except.bind_ok.mp h
        rw [if_pos hparen, items_spaced hpeek, hargs, Except.ok_bind]
        exact ih h
      · rename_i hparen
        rw [if_neg hparen]
        split at h
        · rename_i hbracket
          obtain ⟨⟨place, c₁⟩, hplace, h⟩ := Except.bind_ok.mp h
          rw [if_pos hbracket, hplace, Except.ok_bind]
          simp only at h ⊢
          split at h
          · rename_i hclose
            rw [if_pos hclose]
            exact ih h
          · cases h
        · rename_i hbracket
          rw [if_neg hbracket]
          exact h

/-- **A chain up to the end of the text** is the same with white space skipped. -/
theorem postfixed_spaced (h : postfixed s false d c = .ok (e, c')) (hend : c'.rest = []) :
    postfixed s true d c = .ok (e, c') := by
  cases s with
  | zero => cases h
  | succ s =>
    rw [postfixed] at h ⊢
    obtain ⟨⟨base, c₁⟩, hbase, h⟩ := Except.bind_ok.mp h
    rw [primary_spaced (Cursor.peek_spaced (starts_of_primary hbase).1), hbase, Except.ok_bind]
    exact links_spaced h hend

/-- **A postfix expression up to the end of the text** is an expression. -/
theorem expression_of_postfixed {s pos pos' : Nat} {cs : List Char}
    (h : postfixed (s + 1) true d ⟨pos, cs⟩ = .ok (e, ⟨pos', []⟩)) :
    expression (s + 9) true d ⟨pos, cs⟩ = .ok (e, ⟨pos', []⟩) := by
  have hunary : unary (s + 2) true d ⟨pos, cs⟩ = .ok (e, ⟨pos', []⟩) := by
    have hstart := h
    rw [postfixed] at hstart
    obtain ⟨⟨base, c₁⟩, hbase, -⟩ := Except.bind_ok.mp hstart
    rw [unary_of_postfixed (starts_of_primary hbase).2, h]
  have hlevel : ∀ n level, level + n = BinaryOp.levels →
      binary (s + n + 3) true d level ⟨pos, cs⟩ = .ok (e, ⟨pos', []⟩) := fun n => by
    induction n with
    | zero =>
      rintro level rfl
      exact (binary_unary _).trans hunary
    | succ n ih =>
      intro level hl
      show binary (s + n + 3 + 1) true d level ⟨pos, cs⟩ = _
      rw [binary_level (by omega), ih (level + 1) (by omega), Except.ok_bind]
      exact binaryRest_end (closes_nil.toEnds.mono (Nat.zero_le _))
  exact expression_end closes_nil (hlevel 5 0 rfl)

end Read

section Chain

variable {text : List Char} {start p : Nat} {c : Cursor} {e : Expr}

/-- What is read up to the end of a text somewhere is read from that text alone. -/
theorem parse_of_readExpression {cs : List Char} (h : readExpression ⟨p, cs⟩ = .ok (e, c))
    (hend : c.rest = []) : ∃ e₀, parse cs = .ok e₀ ∧ e = e₀.moved p := by
  have hsame : (⟨p, cs⟩ : Cursor).rest = (⟨0, cs⟩ : Cursor).rest := rfl
  have hexpression : Read.expression _ true 0 ⟨p, cs⟩ = .ok (e, c) := h
  obtain ⟨e₀, c₀, hread, -, hrest⟩ :=
    (Read.follows Cursor.follows_rest _).expression hsame hexpression
  have hread : readExpression ⟨0, cs⟩ = .ok (e₀, c₀) := hread
  rw [hend] at hrest
  refine ⟨e₀, ?_, ?_⟩
  · rw [parse, Cursor.ofText_zero, hread]
    simp only [Except.ok_bind, Cursor.skipBlank, Cursor.skipWhile, ← hrest]
    rfl
  · have hposition : c₀.position = cs.length := by
      obtain ⟨part, hpart⟩ := (reads_of_readExpression hread).reaches
      have hlen := hpart.length_eq
      rw [← hrest] at hlen
      have hstart := hpart.2
      simp only [List.length_nil] at hlen hstart
      omega
    have hmoved := embed_readExpression (k := p) hread (.inl hposition)
    rw [Cursor.embed_uncut (by simp), Nat.zero_add, h] at hmoved
    cases hmoved
    rfl

/-- A chain that ends with the text is an expression. -/
theorem readExpression_of_readChain (h : readChain c = .ok (e, ⟨p, []⟩)) :
    readExpression c = .ok (e, ⟨p, []⟩) := by
  have hpostfixed : ∃ s, c.steps ≤ s + 1 ∧
      Read.postfixed (s + 1) true 0 c = .ok (e, ⟨p, []⟩) := by
    unfold readChain at h
    split at h
    · -- an expression in parentheses, with no links behind it
      refine ⟨c.steps, Nat.le_succ _, ?_⟩
      have hpeek := Cursor.peek_spaced (Read.starts_of_primary h).1
      rw [Read.postfixed, Read.primary_spaced hpeek, h, Except.ok_bind]
      exact Read.links_end closes_nil.toEnds
    · exact ⟨c.steps - 1, Nat.le_refl _, Read.postfixed_spaced h rfl⟩
  obtain ⟨s, hs, hpostfixed⟩ := hpostfixed
  have hexpression := Read.expression_of_postfixed hpostfixed
  rwa [← ((Read.enough c.steps (s + 9)).expression (by
    simp only [Cursor.steps] at hs ⊢
    omega)).same] at hexpression

/-- **The text of a chain.** What is read as a chain is read as a full expression from its text
alone, with positions moved; no white space stands in it outside of brackets and string literals; and if it
starts with a parenthesis, it ends with the one that matches, brackets in string literals not
counting. -/
theorem readChain_parse (h : readChain (.ofText text start) = .ok (e, c)) :
    (∃ e₀, parse ((text.take c.position).drop start) = .ok e₀ ∧ e = e₀.moved start) ∧
    (∀ a x r, (text.take c.position).drop start = a ++ x :: r → Balanced a → isBlank x = false) ∧
    (((text.take c.position).drop start).head? = some '(' →
      Balanced ((text.take c.position).drop start) ∧
      ∀ a r, (text.take c.position).drop start = a ++ r → a ≠ [] → r ≠ [] →
        ((Within.outside []).after a).brackets ≠ []) := by
  have hcut := embed_readChain (k := 0) h (.inl rfl)
  rw [Cursor.ofText_cut (reads_of_readChain h).reaches.position_le, moved_zero,
    Cursor.embed_cut] at hcut
  have hpos : start < (text.take c.position).length := by
    have hlt := (reads_of_readChain hcut).length_lt
    simp only [Cursor.ofText, List.length_drop] at hlt
    omega
  rw [Cursor.ofText, Nat.min_eq_left (Nat.le_of_lt hpos)] at hcut
  generalize (text.take c.position).drop start = chain at hcut
  refine ⟨parse_of_readExpression (readExpression_of_readChain hcut) rfl, ?_, ?_⟩
  · obtain ⟨part, hpart, hnested⟩ := spans_of_readChain hcut
    obtain rfl : chain = part := hpart.1.trans (List.append_nil part)
    exact fun a x r heq ha => hnested.solid rfl [] a x r heq ha
  · intro hhead
    rcases chain with _ | ⟨x, chain⟩
    · cases hhead
    · cases hhead
      obtain ⟨v, hnested, hpart⟩ := parentheses_of_readChain rfl hcut
      have htext : '(' :: chain = '(' :: v ++ [')'] := hpart.1.trans (List.append_nil _)
      have hmatch : Nested.Matches '(' ')' := .inl ⟨rfl, rfl⟩
      rw [htext]
      refine ⟨(Nested.bracket hmatch true hnested).ends [], fun a r heq ha hr => ?_⟩
      obtain ⟨x, r, rfl⟩ := List.exists_cons_of_ne_nil hr
      have hopen := Nested.bracket_inside hmatch hnested [] heq ha
      intro hnil
      rw [hnil] at hopen
      cases List.suffix_nil.mp hopen

/-- A group with a parenthesis in a string literal, and text behind it. -/
theorem readChain_parse_quoted :
    readChain (.ofText "@(f(')', 1)).x".toList 1) =
      .ok (.group 1 (.call 2 (.name 2 "f") [.literal 4 (.text [.ofChar ')']),
        .literal 9 (.int 1)]), ⟨12, ".x".toList⟩) ∧
    ∃ e₀, parse "(f(')', 1))".toList = .ok e₀ ∧
      Expr.group 1 (.call 2 (.name 2 "f") [.literal 4 (.text [.ofChar ')']),
        .literal 9 (.int 1)]) = e₀.moved 1 := by
  have hread : readChain (.ofText "@(f(')', 1)).x".toList 1) =
      .ok (.group 1 (.call 2 (.name 2 "f") [.literal 4 (.text [.ofChar ')']),
        .literal 9 (.int 1)]), ⟨12, ".x".toList⟩) := by rfl
  exact ⟨hread, (readChain_parse hread).1⟩

end Chain

end Expr

end Stencil
