import Stencil.Proofs.Crossing
import Stencil.Proofs.GapTokens
import Stencil.Proofs.ExprRoundTrip

/-!
# Tokens that stand together

The name of a field is looked for directly behind its point, and the marks of a path directly behind
a name, with the next name directly behind them. So in a text that is read as an expression no white
space stands behind a point, and none around the marks of a path; nor is there a character in it
that no class of lexemes takes.

* `Expr.Token.Fits`: a token that may stand directly behind another one.
* `Cursor.Tight`: the tokens from a cursor on fit one another.
* `Cursor.Joins`: what is read between two cursors is tight.
* `Cursor.Crosses.joins`: so is whatever the reader crosses.
* **`Expr.tight_of_parse`**: a text that is read as an expression is tight.
-/

namespace Stencil

open Text Expr

/-! ## Tokens -/

namespace Expr.Token

/-- **A token that may stand directly behind another one.** Behind a point and behind the mark of a
path stands a name, before the mark of a path too; white space is a token here. -/
structure Fits (t u : Token) : Prop where
  known : u.kind ≠ .unknown
  behind : t.isMark = true → u.kind = .name
  before : u.isOp "::" = true → t.kind = .name

variable {t u : Token}

/-- Behind a token that is no mark stands whatever is known and no mark of a path. -/
theorem Fits.plain (ht : t.isMark = false) (hu : u.kind ≠ .unknown) (hm : u.isOp "::" = false) :
    t.Fits u where
  known := hu
  behind h := by rw [ht] at h; cases h
  before h := by rw [hm] at h; cases h

end Expr.Token

/-! ## Tight texts -/

namespace Cursor

variable {c d e : Cursor} {t last : Token}

/-- **The tokens from a cursor on fit one another**, behind the given token. -/
def Tight (last : Token) (c : Cursor) : Prop := (last :: c.tokens).IsChain Token.Fits

theorem tight_iff : Tight last c ↔
    last.Fits c.token.1 ∧ (c.token.1.kind ≠ .eof → Tight c.token.1 c.token.2) := by
  rw [Tight, tokens_eq]
  split
  · rename_i hk
    simp [hk]
  · rename_i hk
    simp [hk, Tight]

/-- **What is read between two cursors is tight**: what stands behind it may follow a token that is
no mark. -/
def Joins (c d : Cursor) : Prop :=
  ∀ last : Token, last.isMark = false →
    ∃ last' : Token, last'.isMark = false ∧ (Tight last' d → Tight last c)

theorem Joins.refl (c : Cursor) : c.Joins c := fun last h => ⟨last, h, id⟩

theorem Joins.trans (h : c.Joins d) (h' : d.Joins e) : c.Joins e := fun last hl => by
  obtain ⟨last', hl', hback⟩ := h last hl
  obtain ⟨last'', hl'', hback'⟩ := h' last' hl'
  exact ⟨last'', hl'', hback ∘ hback'⟩

/-- White space is one token. -/
theorem token_of_blank (h : c.token.1.kind = .blank) : c.token.2 = c.skipBlank := by
  obtain ⟨position, rest⟩ := c
  have hscanned := scanned rest
  have hkind : (scan rest).kind = .blank := h
  rw [token, skipBlank, skipWhile]
  simp only
  generalize scan rest = s at hkind hscanned
  cases hscanned with
  | eof | float | int | string | op | unknown => cases hkind
  | name => exact absurd hkind (wordKind_ne (by decide) _)
  | blank hrun =>
    unfold blank? at hrun
    dsimp only at hrun
    split at hrun
    · cases hrun
    · cases hrun
      rfl

/-- A token that fits behind white space fits behind a token that is no mark, with white space
between them or not. -/
theorem tight_peek (hl : last.isMark = false) (hu : (c.peek true).1.kind ≠ .unknown)
    (hm : (c.peek true).1.isOp "::" = false)
    (h : (c.peek true).1.kind ≠ .eof → Tight (c.peek true).1 (c.peek true).2) : Tight last c := by
  by_cases hb : c.token.1.kind = .blank
  · have hop : ∀ o, c.token.1.isOp o = false := fun o => Token.isOp_eq_false (by rw [hb]; decide)
    refine tight_iff.mpr ⟨.plain hl (by rw [hb]; decide) (hop _), fun _ => ?_⟩
    rw [token_of_blank hb]
    exact tight_iff.mpr ⟨.plain (by rw [Token.isMark, hop, hop]; rfl) hu hm, h⟩
  · have hstart : c.skipBlank = c := skipBlank_of_kind hb
    have hpeek : c.peek true = c.token := by
      show c.skipBlank.token = _
      rw [hstart]
    rw [hpeek] at hu hm h
    exact tight_iff.mpr ⟨.plain hl hu hm, h⟩

theorem known_of_isSolid (h : t.kind.isSolid = true) : t.kind ≠ .unknown := by
  rintro hk
  rw [hk] at h
  cases h

/-- A name that stands directly behind the given token. -/
theorem tight_name (hk : c.token.1.kind = .name) (h : Tight c.token.1 c.token.2) :
    Tight last c :=
  tight_iff.mpr ⟨⟨by rw [hk]; decide, fun _ => hk, fun hm => by
    rw [Token.isOp_eq_false (by rw [hk]; decide)] at hm
    cases hm⟩, fun _ => h⟩

/-- A token that is no mark. -/
theorem joins_peek (hs : (c.peek true).1.kind.isSolid = true)
    (hm : (c.peek true).1.isMark = false) : c.Joins (c.peek true).2 := fun _ hl =>
  ⟨_, hm, fun h => tight_peek hl (known_of_isSolid hs) (Bool.or_eq_false_iff.mp hm).2 fun _ => h⟩

/-- A bracket is no mark. -/
theorem joins_bracket {o : String} (h : (c.peek true).1.isOp o = true)
    (ho : o ∈ ["(", "[", ")", "]"]) : c.Joins (c.peek true).2 := by
  have hne : ∀ o ∈ ["(", "[", ")", "]"], o ≠ "." ∧ o ≠ "::" := by decide
  obtain ⟨hp, hc⟩ := hne o ho
  refine joins_peek (Token.isSolid_of_isOp h) ?_
  rw [Token.isMark, Token.isOp_of_ne h hp, Token.isOp_of_ne h hc, Bool.or_false]

/-- The parts of a path stand together. -/
theorem joins_parts (h : Parts c d) : ∀ last : Token, last.kind = .name →
    ∃ last' : Token, last'.kind = .name ∧ (Tight last' d → Tight last c) := by
  induction h with
  | nil c => exact fun last hl => ⟨last, hl, id⟩
  | @cons c c' hmark hk _ ih =>
    intro last hl
    obtain ⟨last', hl', hback⟩ := ih c.token.2.token.1 hk
    refine ⟨last', hl', fun h => tight_iff.mpr ⟨⟨?_, ?_, fun _ => hl⟩, fun _ => ?_⟩⟩
    · exact known_of_isSolid (Token.isSolid_of_isOp hmark)
    · intro hbad
      rw [Token.isMark_eq_false (by rw [hl]; decide)] at hbad
      cases hbad
    · exact tight_name hk (hback h)

/-- **What is crossed is tight.** -/
theorem Crosses.joins {spaced : Bool} (h : Crosses spaced c d) (hs : spaced = true) :
    c.Joins d := by
  have hname : ∀ {t : Token}, t.kind = .name → t.kind ≠ .op := fun h => by rw [h]; decide
  induction h with
  | refl => exact .refl _
  | token ht =>
    subst hs
    exact joins_peek ht.solid ht.not_mark
  | field hp hk =>
    subst hs
    exact fun last hl => ⟨_, Token.isMark_eq_false (hname hk), fun h =>
      tight_peek hl (known_of_isSolid (Token.isSolid_of_isOp hp)) (Token.isOp_of_ne hp (by decide))
        fun _ => tight_name hk h⟩
  | path hk hparts =>
    subst hs
    intro last hl
    obtain ⟨last', hl', hback⟩ := joins_parts hparts _ hk
    exact ⟨last', Token.isMark_eq_false (hname hl'), fun h =>
      tight_peek hl (by rw [hk]; decide) (Token.isOp_eq_false (hname hk)) fun _ => hback h⟩
  | nest ho _ hclose ih =>
    subst hs
    rcases ho with ⟨rfl, ho⟩ | ⟨rfl, ho⟩ <;>
      exact (joins_bracket ho (by decide)).trans
        ((ih rfl).trans (joins_bracket hclose (by decide)))
  | trans _ _ ih ih' => exact (ih hs).trans (ih' hs)

end Cursor

namespace Expr

/-- **A text that is read as an expression is tight**: each token of it may stand directly behind
the one before it. -/
theorem tight_of_parse {text : List Char} {e : Expr} {last : Token} (h : parse text = .ok e)
    (hl : last.isMark = false) : Cursor.Tight last (.ofText text 0) := by
  obtain ⟨c, hread, hend⟩ := readExpression_of_parse h
  obtain ⟨last', hl', hback⟩ := ((Read.crossing _).expression hread).joins rfl last hl
  have heof : c.skipBlank.token.1 = ⟨.eof, [], c.skipBlank.position⟩ := by
    rw [Cursor.token, hend]
    rfl
  refine hback (Cursor.tight_peek hl' ?_ ?_ fun hne => ?_)
  · show c.skipBlank.token.1.kind ≠ _
    rw [heof]
    exact TokenKind.noConfusion
  · show c.skipBlank.token.1.isOp _ = _
    rw [heof]
    rfl
  · exact absurd (congrArg Token.kind heof) hne

end Expr

end Stencil
