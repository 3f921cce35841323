import Stencil.Proofs.Declarations

/-!
# Recorded types

The type of a parameter is recorded with its white space collapsed. The runs of white space outside
of string literals become one space each, and those at the ends are dropped; the same is done to
white space inside of the literals, which is part of their values. A type is recorded with its
literals as they are written if and only if all white space in them is single spaces.

* `Pieces`: a text as its string literals and the characters outside of them.
* `kept`: the text with the white space between its pieces collapsed and the pieces as they are.
* **`collapse_pieces`**, **`collapse_eq_kept_iff`**: what becomes of the pieces, and when they stay.
* **`Outline.types_recorded`**: the types of a template that is read.
-/

namespace Stencil

open Text Expr

/-! ## Pieces -/

/-- A string literal. -/
def IsLiteral (p : List Char) : Prop :=
  ∃ mark inside, Inside (QuoteMark.char mark) inside ∧ p = literalText mark inside

/-- **The pieces of a text**: its string literals, and the characters outside of them one by one. -/
inductive Pieces : List Char → List (List Char) → Prop
  | nil : Pieces [] []
  | char {c cs ps} : c ≠ '"' → c ≠ '\'' → Pieces cs ps → Pieces (c :: cs) ([c] :: ps)
  | literal {mark inside cs ps} : Inside (QuoteMark.char mark) inside → Pieces cs ps →
    Pieces (literalText mark inside ++ cs) (literalText mark inside :: ps)

/-- Pieces with one space for white space between two others; `gap` says that some stands before
them. -/
def joinPieces : Bool → List (List Char) → List Char
  | _, [] => []
  | gap, p :: ps =>
    if p.all isBlank then joinPieces true ps else gapText gap ++ (p ++ joinPieces false ps)

/-- **Pieces as they are**, with one space for each run of white space between two of them and none
at the ends. -/
def kept (ps : List (List Char)) : List Char := joinPieces false (ps.dropWhile fun p => p.all isBlank)

variable {gap enclosed : Bool} {cs ds p inside : List Char} {ps qs : List (List Char)}
  {mark : QuoteMark}

theorem Pieces.append (h : Pieces cs ps) (h' : Pieces ds qs) : Pieces (cs ++ ds) (ps ++ qs) := by
  induction h with
  | nil => exact h'
  | char hd hs _ ih => exact ih.char hd hs
  | literal hinside _ ih =>
    rw [List.append_assoc]
    exact ih.literal hinside

theorem Pieces.of_plain (h : ∀ c ∈ cs, c ≠ '"' ∧ c ≠ '\'') : Pieces cs (cs.map ([·])) := by
  induction cs with
  | nil => exact .nil
  | cons c cs ih =>
    obtain ⟨hd, hs⟩ := h c List.mem_cons_self
    exact (ih fun d hd => h d (List.mem_cons_of_mem _ hd)).char hd hs

/-- **The text of a type has pieces.** -/
theorem TypeText.exists_pieces (h : TypeText enclosed cs) : ∃ ps, Pieces cs ps := by
  have hchar {c : Char} {cs : List Char} {ps : List (List Char)} (hc : ¬ (c = '"' ∨ c = '\''))
      (h : Pieces cs ps) : Pieces (c :: cs) ([c] :: ps) :=
    h.char (fun he => hc (.inl he)) fun he => hc (.inr he)
  induction h with
  | nil => exact ⟨[], .nil⟩
  | char hc _ _ ih =>
    obtain ⟨ps, h⟩ := ih
    exact ⟨_, hchar (not_mem_typeMarks.mp hc).1 h⟩
  | string hinside _ ih =>
    obtain ⟨ps, h⟩ := ih
    exact ⟨_, h.literal hinside⟩
  | @bracket _ opening closing _ _ hk _ _ ihinside ih =>
    obtain ⟨ps, h⟩ := ih
    obtain ⟨qs, h'⟩ := ihinside
    have hquote : ¬ (opening = '"' ∨ opening = '\'') ∧ ¬ (closing = '"' ∨ closing = '\'') := by
      rcases closerOf?_eq_some hk with ⟨rfl, rfl⟩ | ⟨rfl, rfl⟩ | ⟨rfl, rfl⟩ <;> decide
    exact ⟨_, hchar hquote.1 (h'.append (hchar hquote.2 h))⟩

/-! ## Literals -/

theorem all_literalText (mark : QuoteMark) (inside : List Char) :
    (literalText mark inside).all isBlank = false := by
  rw [literalText, List.all_cons, mark.isBlank_char, Bool.false_and]

/-- A literal stays in one piece. -/
theorem squeeze_literalText_append (gap : Bool) (mark : QuoteMark) (inside ds : List Char) :
    squeeze gap (literalText mark inside ++ ds) =
      gapText gap ++ (squeeze false (literalText mark inside) ++ squeeze false ds) := by
  have hmark := mark.isBlank_char
  obtain ⟨gap', h⟩ := exists_squeeze_append false inside
  have hclosing (ds : List Char) : squeeze false (inside ++ mark.char :: ds) =
      squeeze false inside ++ (gapText gap' ++ mark.char :: squeeze false ds) := by
    rw [h, squeeze_cons hmark]
  rw [literalText_append, squeeze_cons hmark, hclosing, literalText, squeeze_cons hmark, hclosing]
  simp [gapText, squeeze]

theorem all_squeeze_literalText (mark : QuoteMark) (inside : List Char) :
    (squeeze false (literalText mark inside)).all isBlank = false := by
  rw [literalText, squeeze_cons mark.isBlank_char]
  simp [gapText, mark.isBlank_char]

/-- **The literals that squeezing leaves.** -/
theorem squeeze_literalText (mark : QuoteMark) (inside : List Char) :
    squeeze false (literalText mark inside) = literalText mark inside ↔
      SingleSpaced (literalText mark inside) := by
  have h : squeeze false (mark.char :: inside ++ [mark.char]) =
      gapText false ++ (mark.char :: inside ++ [mark.char]) ↔ _ := squeeze_eq_iff mark.isBlank_char
  exact h

/-! ## What becomes of pieces -/

theorem joinPieces_blank (hp : p.all isBlank = true) :
    joinPieces gap (p :: ps) = joinPieces true ps := if_pos hp

theorem joinPieces_cons (hp : p.all isBlank = false) :
    joinPieces gap (p :: ps) = gapText gap ++ (p ++ joinPieces false ps) :=
  if_neg (Bool.eq_false_iff.mp hp)

theorem kept_blank (hp : p.all isBlank = true) : kept (p :: ps) = kept ps :=
  congrArg (joinPieces false) (List.dropWhile_cons_of_pos hp)

theorem kept_cons (hp : p.all isBlank = false) : kept (p :: ps) = joinPieces false (p :: ps) :=
  congrArg (joinPieces false) (List.dropWhile_cons_of_neg (Bool.eq_false_iff.mp hp))

theorem squeeze_singleton {c : Char} (hc : isBlank c = false) : squeeze false [c] = [c] :=
  squeeze_cons hc

theorem all_singleton (c : Char) : [c].all isBlank = isBlank c := by simp

/-- **Squeezing goes over the pieces one by one.** -/
theorem squeeze_pieces (h : Pieces cs ps) (gap : Bool) :
    squeeze gap cs = joinPieces gap (ps.map (squeeze false)) := by
  induction h generalizing gap with
  | nil => rfl
  | @char c cs ps _ _ _ ih =>
    cases hc : isBlank c with
    | true => rw [squeeze_blank hc, ih, List.map_cons, squeeze_blank hc, joinPieces_blank rfl]
    | false =>
      rw [squeeze_cons hc, ih, List.map_cons, squeeze_singleton hc,
        joinPieces_cons (hc ▸ all_singleton c)]
      rfl
  | @literal mark inside cs ps _ _ ih =>
    rw [squeeze_literalText_append, ih, List.map_cons,
      joinPieces_cons (all_squeeze_literalText mark inside)]

/-- **What becomes of a text when its white space is collapsed**: its pieces are kept, but for the
white space in them. -/
theorem collapse_pieces (h : Pieces cs ps) : collapse cs = kept (ps.map (squeeze false)) := by
  have hall := squeeze_pieces h false
  rw [collapse_eq]
  induction h with
  | nil => rfl
  | @char c cs ps _ _ h ih =>
    cases hc : isBlank c with
    | true =>
      rw [trimStart_blank hc, ih (squeeze_pieces h false), List.map_cons, squeeze_blank hc,
        kept_blank rfl]
    | false =>
      rw [trimStart_cons hc, hall, List.map_cons, squeeze_singleton hc,
        kept_cons (hc ▸ all_singleton c)]
  | @literal mark inside cs ps =>
    rw [List.map_cons, kept_cons (all_squeeze_literalText mark inside), ← List.map_cons, ← hall,
      literalText_append, trimStart_cons mark.isBlank_char]

/-- Squeezed pieces are not longer. -/
theorem length_joinPieces_le (h : Pieces cs ps) (gap : Bool) :
    (joinPieces gap (ps.map (squeeze false))).length ≤ (joinPieces gap ps).length := by
  induction h generalizing gap with
  | nil => exact Nat.le_refl _
  | @char c cs ps _ _ _ ih =>
    cases hc : isBlank c with
    | true =>
      rw [List.map_cons, squeeze_blank hc, joinPieces_blank rfl,
        joinPieces_blank ((all_singleton c).trans hc)]
      exact ih true
    | false =>
      rw [List.map_cons, squeeze_singleton hc, joinPieces_cons (hc ▸ all_singleton c),
        joinPieces_cons (hc ▸ all_singleton c)]
      simpa using ih false
  | @literal mark inside cs ps _ _ ih =>
    rw [List.map_cons, joinPieces_cons (all_squeeze_literalText mark inside),
      joinPieces_cons (all_literalText mark inside)]
    have hliteral := length_squeeze_false_le (literalText mark inside)
    have hrest := ih false
    simp only [List.length_append]
    omega

/-- A single character is no literal. -/
theorem not_isLiteral_singleton (c : Char) : ¬ IsLiteral [c] := by
  rintro ⟨mark, inside, -, h⟩
  have hlength := congrArg List.length h
  simp [literalText] at hlength

/-- **Pieces are joined as they are** if and only if squeezing leaves all literals. -/
theorem joinPieces_eq_iff (h : Pieces cs ps) (gap : Bool) :
    joinPieces gap (ps.map (squeeze false)) = joinPieces gap ps ↔
      ∀ p ∈ ps, IsLiteral p → SingleSpaced p := by
  induction h generalizing gap with
  | nil => simp
  | @char c cs ps _ _ _ ih =>
    rw [List.forall_mem_cons, iff_true_intro fun hp => absurd hp (not_isLiteral_singleton c),
      true_and]
    cases hc : isBlank c with
    | true =>
      rw [List.map_cons, squeeze_blank hc, joinPieces_blank rfl,
        joinPieces_blank ((all_singleton c).trans hc)]
      exact ih true
    | false =>
      rw [List.map_cons, squeeze_singleton hc, joinPieces_cons (hc ▸ all_singleton c),
        joinPieces_cons (hc ▸ all_singleton c), List.append_right_inj, List.append_right_inj]
      exact ih false
  | @literal mark inside cs ps hinside h ih =>
    rw [List.forall_mem_cons, List.map_cons,
      joinPieces_cons (all_squeeze_literalText mark inside),
      joinPieces_cons (all_literalText mark inside), List.append_right_inj, ← ih false,
      ← squeeze_literalText]
    constructor
    · intro he
      -- Neither the literal nor what follows it gets longer, so that both keep their lengths.
      have hliteral := length_squeeze_false_le (literalText mark inside)
      have hrest := length_joinPieces_le h false
      have hlength := congrArg List.length he
      rw [List.length_append, List.length_append] at hlength
      obtain ⟨hsame, hmore⟩ := List.append_inj he (by omega)
      exact ⟨fun _ => hsame, hmore⟩
    · rintro ⟨hsame, hmore⟩
      rw [hsame ⟨mark, inside, hinside, rfl⟩, hmore]

/-- **White space is collapsed between the pieces only** if and only if that in the literals is
single spaces. -/
theorem collapse_eq_kept_iff (h : Pieces cs ps) :
    collapse cs = kept ps ↔ ∀ p ∈ ps, IsLiteral p → SingleSpaced p := by
  rw [collapse_pieces h]
  have hall := joinPieces_eq_iff h false
  induction h with
  | nil => simp
  | @char c cs ps _ _ h ih =>
    cases hc : isBlank c with
    | true =>
      have hrest := ih (joinPieces_eq_iff h false)
      rw [List.map_cons, squeeze_blank hc, kept_blank rfl, kept_blank ((all_singleton c).trans hc),
        List.forall_mem_cons, iff_true_intro fun hp => absurd hp (not_isLiteral_singleton c),
        true_and]
      exact hrest
    | false =>
      rw [List.map_cons, squeeze_singleton hc] at hall ⊢
      rw [kept_cons (hc ▸ all_singleton c), kept_cons (hc ▸ all_singleton c), hall]
  | @literal mark inside cs ps =>
    rw [List.map_cons, kept_cons (all_squeeze_literalText mark inside),
      kept_cons (all_literalText mark inside), ← List.map_cons, hall]

/-! ## Templates -/

/-- **A parameter as it is written and as it is recorded**: with its name, and with the pieces of its
type in order, one space for each run of white space between two of them and none at the ends. But
the white space inside of a piece is squeezed as well, so that the literals are recorded as they are
written if and only if all white space in them is single spaces. -/
def Param.RecordedAs (q p : Param) : Prop :=
  p.name = q.name ∧ ∃ pieces, Pieces q.type.toList pieces ∧
    p.type.toList = kept (pieces.map (squeeze false)) ∧
    (p.type.toList = kept pieces ↔ ∀ piece ∈ pieces, IsLiteral piece → SingleSpaced piece)

/-- **The types of a template are recorded with the white space in them collapsed.** A text that is
read holds its declaration behind the import statements, and each parameter is recorded with the type
that is written between its colon and the comma or parenthesis that ends it. -/
theorem Outline.types_recorded {text : List Char} {o : Outline} (h : Outline.parse text = .ok o) :
    ∃ before written cs after, text = before ++ '@' :: '(' :: (cs ++ after) ∧
      Template.Read.preamble (Cursor.ofText text 0).steps (Cursor.ofText text 0) =
        .ok (o.imports, ⟨before.length, '@' :: '(' :: (cs ++ after)⟩) ∧
      Declares written cs ∧ List.Forall₂ Param.RecordedAs written o.params := by
  obtain ⟨_, _, hdeclaration, -⟩ := Outline.parse_ok.mp h
  obtain ⟨c, a, written, cs, hpreamble, hpast, -, hdeclares, hparams, -⟩ :=
    Template.Read.exists_declares hdeclaration
  obtain ⟨⟨before, hbefore⟩, -⟩ := Template.Read.reaches_preamble hpreamble
  rw [Cursor.ofText_zero] at hbefore
  have hc : c = ⟨before.length, '@' :: '(' :: (cs ++ a.rest)⟩ := by
    obtain ⟨pos, rest⟩ := c
    rw [Cursor.mk.injEq]
    exact ⟨hbefore.2.trans (Nat.zero_add _), hpast.1⟩
  refine ⟨before, written, cs, a.rest, ?_, hc ▸ hpreamble, hdeclares, ?_⟩
  · exact hbefore.1.trans (congrArg (before ++ ·) hpast.1)
  · rw [hparams, List.forall₂_map_right_iff]
    refine List.forall₂_same.mpr fun q hq => ⟨rfl, ?_⟩
    obtain ⟨pieces, hpieces⟩ := (hdeclares.forall_mem q hq).2.exists_pieces
    rw [Param.collapsed, String.toList_ofList]
    exact ⟨pieces, hpieces, collapse_pieces hpieces, collapse_eq_kept_iff hpieces⟩

/-- A declaration behind an import statement, with white space of several kinds around and inside of
its literals. -/
def literalTypes : List Char :=
  ("@import a;\n@(x: Literal['a b',\n  \"(\t)\"], y :\tdict[str ,\n  int] )\n@x").toList

theorem Outline.types_recorded_literals : ∃ o, Outline.parse literalTypes = .ok o ∧
    o.params = [⟨"x", "Literal['a b', \"( )\"]"⟩, ⟨"y", "dict[str , int]"⟩] ∧
    ∃ before written cs after, literalTypes = before ++ '@' :: '(' :: (cs ++ after) ∧
      Template.Read.preamble (Cursor.ofText literalTypes 0).steps (Cursor.ofText literalTypes 0) =
        .ok (o.imports, ⟨before.length, '@' :: '(' :: (cs ++ after)⟩) ∧
      Declares written cs ∧ List.Forall₂ Param.RecordedAs written o.params := by
  have hread : (match Outline.parse literalTypes with
    | .ok o => o.params == [⟨"x", "Literal['a b', \"( )\"]"⟩, ⟨"y", "dict[str , int]"⟩]
    | _ => false) = true := by decide +kernel
  split at hread
  next o h => exact ⟨o, h, eq_of_beq hread, types_recorded h⟩
  next => cases hread

/-- A type with two spaces in a literal, as it is written behind its colon. -/
def doubleSpaced : List Char := " Literal[\"a  b\"]".toList

/-- **A literal is not recorded as it is written** if two spaces stand in it. -/
theorem Outline.literal_squeezed :
    (∃ o, Outline.parse ("@(x:".toList ++ doubleSpaced ++ ")\n".toList) = .ok o ∧
      o.params = [⟨"x", "Literal[\"a b\"]"⟩]) ∧
    ∃ pieces, Pieces doubleSpaced pieces ∧ kept pieces = "Literal[\"a  b\"]".toList := by
  constructor
  · have hread : (match Outline.parse ("@(x:".toList ++ doubleSpaced ++ ")\n".toList) with
      | .ok o => o.params == [⟨"x", "Literal[\"a b\"]"⟩]
      | _ => false) = true := by decide +kernel
    split at hread
    next o h => exact ⟨o, h, eq_of_beq hread⟩
    next => cases hread
  · have hliteral : Inside (QuoteMark.char .double) "a  b".toList := .of_plain (by simp; decide)
    have hbefore : Pieces " Literal[".toList _ := .of_plain (by simp)
    have hafter : Pieces "]".toList _ := .of_plain (by simp)
    exact ⟨_, hbefore.append (hafter.literal hliteral), by decide⟩

end Stencil
