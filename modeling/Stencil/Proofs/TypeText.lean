import Stencil.Proofs.Advance
import Stencil.Proofs.CollapsedText
import Stencil.Proofs.StringLiterals
import Stencil.Template.Lexical

/-!
# Texts of types

The text of a parameter's type is found by its brackets and string literals alone. What the reader
takes is described by a grammar apart from it: string literals, brackets that enclose such texts and
other characters, with a comma inside of brackets only. White space is collapsed afterwards, in
string literals as well; the brackets stay what they are, and a literal stays one.

* `TypeText`: the grammar; `typeSpan_outside`: the steps of the reader.
* **`typeSpan_ok`**: the reader takes such a text up to the end of a parameter, and nothing else.
* **`TypeText.collapse`**: collapsed white space leaves such a text.
-/

namespace Stencil

open Text Expr

/-! ## The grammar -/

/-- The characters that open or close something in a type. -/
def typeMarks : List Char := ['"', '\'', '(', ')', '[', ']', '\x7b', '\x7d']

/-- **The text of a type**: brackets outside of string literals are closed in order, and no comma
stands outside of brackets, unless the text is `enclosed` itself. -/
inductive TypeText : Bool → List Char → Prop
  | nil {enclosed} : TypeText enclosed []
  | char {enclosed c cs} : c ∉ typeMarks → (c = ',' → enclosed = true) → TypeText enclosed cs →
    TypeText enclosed (c :: cs)
  | string {enclosed} {mark : QuoteMark} {inside cs} : Inside mark.char inside →
    TypeText enclosed cs → TypeText enclosed (literalText mark inside ++ cs)
  | bracket {enclosed opening closing inside cs} : closerOf? opening = some closing →
    TypeText true inside → TypeText enclosed cs →
    TypeText enclosed (opening :: (inside ++ closing :: cs))

section Grammar

variable {enclosed : Bool} {c opening closing : Char} {cs ds inside more rest span : List Char}

theorem TypeText.append (h : TypeText enclosed cs) (h' : TypeText enclosed ds) :
    TypeText enclosed (cs ++ ds) := by
  induction h with
  | nil => exact h'
  | char hc hcomma _ ih => exact (ih h').char hc hcomma
  | string hinside _ ih =>
    rw [List.append_assoc]
    exact (ih h').string hinside
  | bracket hk hinside _ _ ih =>
    rw [List.cons_append, List.append_assoc, List.cons_append]
    exact .bracket hk hinside (ih h')

/-- The opening brackets with their closing ones. -/
theorem closerOf?_eq_some (h : closerOf? opening = some closing) :
    opening = '(' ∧ closing = ')' ∨ opening = '[' ∧ closing = ']' ∨
      opening = '\x7b' ∧ closing = '\x7d' := by
  unfold closerOf? at h
  split at h <;> cases h <;> decide

/-- Brackets are marks. -/
theorem mem_typeMarks_of_closerOf? (h : closerOf? opening = some closing) :
    opening ∈ typeMarks ∧ closing ∈ typeMarks := by
  rcases closerOf?_eq_some h with ⟨rfl, rfl⟩ | ⟨rfl, rfl⟩ | ⟨rfl, rfl⟩ <;> decide

theorem isBlank_of_mem_typeMarks (h : c ∈ typeMarks) : isBlank c = false := by
  have hall : typeMarks.all (fun c => !isBlank c) = true := by decide
  simpa using List.all_eq_true.mp hall c h

/-- White space is no mark. -/
theorem not_mem_typeMarks_of_isBlank (h : isBlank c = true) : c ∉ typeMarks :=
  fun hc => absurd ((isBlank_of_mem_typeMarks hc).symm.trans h) Bool.false_ne_true

theorem ne_comma_of_isBlank (h : isBlank c = true) : c ≠ ',' := by
  rintro rfl
  cases h

/-- **White space belongs to a type.** -/
theorem TypeText.blank (hc : isBlank c = true) (h : TypeText enclosed cs) :
    TypeText enclosed (c :: cs) :=
  h.char (not_mem_typeMarks_of_isBlank hc) fun he => absurd he (ne_comma_of_isBlank hc)

/-- What stands behind white space. -/
theorem TypeText.of_blank (hc : isBlank c = true) (h : TypeText enclosed (c :: cs)) :
    TypeText enclosed cs := by
  have hmark := not_mem_typeMarks_of_isBlank hc
  generalize htext : c :: cs = text at h
  cases h with
  | nil => cases htext
  | char _ _ h =>
    cases htext
    exact h
  | @string _ mark _ _ _ _ =>
    cases htext
    exact absurd (by cases mark <;> decide) hmark
  | bracket hk =>
    cases htext
    exact absurd (mem_typeMarks_of_closerOf? hk).1 hmark

end Grammar

/-! ## The reader -/

/-- What is read behind some characters. -/
def Behind (run : List Char) (x : Except Failure (List Char × List Char)) :
    Except Failure (List Char × List Char) :=
  x.map fun y => (run ++ y.1, y.2)

section Reader

variable {start position : Nat} {closers : List Char} {string : Option OpenString}
variable {enclosed : Bool} {c : Char} {cs run more rest span : List Char}
variable {x : Except Failure (List Char × List Char)}

theorem behind_ok : Behind run x = .ok (span, rest) ↔
    ∃ more, x = .ok (more, rest) ∧ span = run ++ more := by
  cases x with
  | error f => exact ⟨fun h => (by cases h), fun ⟨_, h, _⟩ => (by cases h)⟩
  | ok y =>
    obtain ⟨more, r⟩ := y
    constructor
    · intro h
      cases h
      exact ⟨more, rfl, rfl⟩
    · rintro ⟨_, h, rfl⟩
      cases h
      rfl

theorem behind_nil (x : Except Failure (List Char × List Char)) : Behind [] x = x := by
  cases x <;> rfl

theorem behind_behind (run run' : List Char) (x : Except Failure (List Char × List Char)) :
    Behind run (Behind run' x) = Behind (run ++ run') x := by
  cases x with
  | error f => rfl
  | ok y => exact congrArg (fun s => Except.ok (s, y.2)) (List.append_assoc run run' y.1).symm

theorem bind_eq_behind (c : Char) (x : Except Failure (List Char × List Char)) :
    (x >>= fun y => pure (c :: y.1, y.2)) = Behind [c] x := by
  cases x <;> rfl

/-- One character of a string. -/
theorem typeSpan_inside (s : OpenString) : typeSpan start closers (some s) position (c :: cs) =
    Behind [c] (typeSpan start closers
      (if s.escaped then some { s with escaped := false }
        else if c = '\\' then some { s with escaped := true }
        else if c = s.mark then none else some s) (position + 1) cs) := by
  rw [typeSpan]
  exact bind_eq_behind c _

/-- **The reader of types and that of tokens agree on strings.** -/
theorem typeSpan_string {mark : Char} (hm : mark ≠ '\\') {from' : Nat} :
    typeSpan start closers (some ⟨mark, from', false⟩) position cs =
      match closing? mark cs with
      | some (run, rest) => Behind run (typeSpan start closers none (position + run.length) rest)
      | none => .error (.at .unterminatedString from') := by
  fun_induction closing? mark cs generalizing position with
  | case1 => rw [typeSpan]
  | case2 c cs ih =>
    rw [typeSpan_inside, if_neg Bool.false_ne_true, if_pos rfl, typeSpan_inside, if_pos rfl, ih,
      behind_behind]
    cases closing? mark cs with
    | none => rfl
    | some x =>
      simp only [Option.map_some, behind_behind, List.length_cons]
      rw [show position + 1 + 1 + x.1.length = position + (x.1.length + 1 + 1) by omega]
      rfl
  | case3 c cs _ hc =>
    obtain rfl := eq_of_beq hc
    rw [typeSpan_inside, if_neg Bool.false_ne_true, if_neg hm, if_pos rfl]
    rfl
  | case4 c cs hne hc hback =>
    obtain rfl := eq_of_beq hback
    cases cs with
    | nil =>
      rw [typeSpan_inside, if_neg Bool.false_ne_true, if_pos rfl, typeSpan]
      rfl
    | cons d ds => exact absurd rfl (hne d ds rfl)
  | case5 c cs _ hc hback ih =>
    rw [beq_iff_eq] at hc hback
    rw [typeSpan_inside, if_neg Bool.false_ne_true, if_neg hback, if_neg hc, ih]
    cases closing? mark cs with
    | none => rfl
    | some x =>
      simp only [Option.map_some, behind_behind, List.length_cons]
      rw [show position + 1 + x.1.length = position + (x.1.length + 1) by omega]
      rfl

/-- **What a character outside of strings leads to.** -/
theorem typeSpan_outside (start position : Nat) (closers : List Char) (c : Char) (cs : List Char) :
    typeSpan start closers none position (c :: cs) =
      if c = '"' ∨ c = '\'' then
        Behind [c] (typeSpan start closers (some ⟨c, position, false⟩) (position + 1) cs)
      else match closerOf? c with
        | some closer => Behind [c] (typeSpan start (closer :: closers) none (position + 1) cs)
        | none =>
          if isCloser c then match closers with
            | [] =>
              if c = ')' then .ok ([], c :: cs) else .error (.at (.unbalancedType c) position)
            | closer :: closers =>
              if closer = c then Behind [c] (typeSpan start closers none (position + 1) cs)
              else .error (.at (.unbalancedType c) position)
          else if c = ',' ∧ closers = [] then .ok ([], c :: cs)
          else Behind [c] (typeSpan start closers none (position + 1) cs) := by
  cases hk : closerOf? c <;> cases closers <;>
    simp only [typeSpan, hk, ← bind_eq_behind, Bool.or_eq_true, Bool.and_eq_true, decide_eq_true_eq,
      List.isEmpty_iff] <;> rfl

/-- The characters that are no marks. -/
theorem not_mem_typeMarks :
    c ∉ typeMarks ↔ ¬ (c = '"' ∨ c = '\'') ∧ closerOf? c = none ∧ isCloser c = false := by
  constructor
  · intro hc
    have hcloser : closerOf? c = none := by
      cases hk : closerOf? c with
      | none => rfl
      | some k => exact absurd (mem_typeMarks_of_closerOf? hk).1 hc
    simp only [typeMarks, List.mem_cons, List.not_mem_nil, or_false, not_or] at hc
    exact ⟨by simp [hc], hcloser, by simp [isCloser, hc]⟩
  · rintro ⟨hquote, hcloser, hclosing⟩ hc
    simp only [typeMarks, List.mem_cons, List.not_mem_nil, or_false] at hc
    rcases hc with rfl | rfl | rfl | rfl | rfl | rfl | rfl | rfl
    · exact hquote (.inl rfl)
    · exact hquote (.inr rfl)
    all_goals first | exact absurd hcloser (by decide) | exact absurd hclosing (by decide)

/-- A character that is no mark. -/
theorem typeSpan_char (hc : c ∉ typeMarks) (hcomma : c = ',' → closers ≠ []) :
    typeSpan start closers none position (c :: cs) =
      Behind [c] (typeSpan start closers none (position + 1) cs) := by
  obtain ⟨hquote, hcloser, hclosing⟩ := not_mem_typeMarks.mp hc
  rw [typeSpan_outside, if_neg hquote]
  simp only [hcloser]
  rw [hclosing, if_neg Bool.false_ne_true, if_neg fun h => hcomma h.1 h.2]

/-- An opening bracket. -/
theorem typeSpan_opening {closing : Char} (hk : closerOf? c = some closing) :
    typeSpan start closers none position (c :: cs) =
      Behind [c] (typeSpan start (closing :: closers) none (position + 1) cs) := by
  have hc : ¬ (c = '"' ∨ c = '\'') := by
    rintro (rfl | rfl) <;> cases hk
  rw [typeSpan_outside, if_neg hc]
  simp only [hk]

/-- The bracket that is to be closed. -/
theorem typeSpan_closing {opening : Char} (hk : closerOf? opening = some c) :
    typeSpan start (c :: closers) none position (c :: cs) =
      Behind [c] (typeSpan start closers none (position + 1) cs) := by
  rw [typeSpan_outside]
  rcases closerOf?_eq_some hk with ⟨-, rfl⟩ | ⟨-, rfl⟩ | ⟨-, rfl⟩ <;> rfl

/-- A string literal. -/
theorem typeSpan_literal {mark : QuoteMark} {inside : List Char} (h : Inside mark.char inside) :
    typeSpan start closers none position (literalText mark inside ++ cs) =
      Behind (literalText mark inside)
        (typeSpan start closers none (position + (literalText mark inside).length) cs) := by
  have hmark : mark.char = '"' ∨ mark.char = '\'' := by cases mark <;> decide
  rw [literalText_append, typeSpan_outside, if_pos hmark, typeSpan_string mark.char_ne_backslash,
    h.closing?_eq mark.char_ne_backslash]
  simp only [behind_behind, literalText, List.length_cons]
  rw [show position + 1 + (inside ++ [mark.char]).length =
    position + ((inside ++ [mark.char]).length + 1) by omega]
  rfl

/-- **The text of a type is read**, and what follows it after it. -/
theorem TypeText.typeSpan_append (h : TypeText enclosed cs)
    (hclosers : enclosed = true → closers ≠ []) :
    typeSpan start closers none position (cs ++ more) =
      Behind cs (typeSpan start closers none (position + cs.length) more) := by
  induction h generalizing closers position more with
  | nil => exact (behind_nil _).symm
  | char hc hcomma _ ih =>
    rw [List.cons_append, typeSpan_char hc fun he => hclosers (hcomma he), ih hclosers,
      behind_behind, List.length_cons, Nat.add_assoc, Nat.add_comm 1]
    rfl
  | string hinside _ ih =>
    rw [List.append_assoc, typeSpan_literal hinside, ih hclosers, behind_behind,
      List.length_append, Nat.add_assoc]
  | @bracket enclosed opening closing inside cs hk _ _ ihinside ih =>
    rw [List.cons_append, List.append_assoc, List.cons_append, typeSpan_opening hk,
      ihinside fun _ => List.cons_ne_nil _ _, typeSpan_closing hk, ih hclosers]
    simp only [behind_behind, List.length_cons, List.length_append, List.cons_append,
      List.nil_append]
    rw [show position + 1 + inside.length + 1 + cs.length =
      position + (inside.length + (cs.length + 1) + 1) by omega]

/-- **What closes the brackets that are open**: one text inside of each, and one behind them. -/
def Closes : List Char → List Char → Prop
  | [], cs => TypeText false cs
  | closing :: closers, cs => ∃ inside rest, TypeText true inside ∧
    cs = inside ++ closing :: rest ∧ Closes closers rest

/-- A text in front of what closes the brackets. -/
theorem Closes.append (h : Closes closers cs) (hrun : TypeText closers.isEmpty.not run) :
    Closes closers (run ++ cs) := by
  cases closers with
  | nil => exact hrun.append h
  | cons closing closers =>
    obtain ⟨inside, rest, hinside, rfl, hrest⟩ := h
    exact ⟨run ++ inside, rest, hrun.append hinside, (List.append_assoc ..).symm, hrest⟩

/-- An opening bracket with all that closes it. -/
theorem Closes.opening {closing : Char} (hk : closerOf? c = some closing)
    (h : Closes (closing :: closers) cs) : Closes closers (c :: cs) := by
  obtain ⟨inside, rest, hinside, rfl, hrest⟩ := h
  have hbracket : TypeText closers.isEmpty.not (c :: (inside ++ [closing])) :=
    .bracket hk hinside .nil
  simpa using hrest.append hbracket

/-- The bracket that is to be closed next. -/
theorem Closes.closing (h : Closes closers cs) : Closes (c :: closers) (c :: cs) :=
  ⟨[], cs, .nil, rfl, h⟩

/-- **One step of the reader**: a type ends, or some characters are taken, and what closes the
brackets that are open behind them closes, together with them, those that were open before. -/
theorem exists_step_of_typeSpan
    (h : typeSpan start closers none position (c :: cs) = .ok (span, rest)) :
    (closers = [] ∧ span = [] ∧ rest = c :: cs ∧ (c = ',' ∨ c = ')')) ∨
    ∃ run closers' more left, c :: cs = run ++ left ∧ left.length ≤ cs.length ∧
      typeSpan start closers' none (position + run.length) left = .ok (more, rest) ∧
      span = run ++ more ∧ ∀ cs, Closes closers' cs → Closes closers (run ++ cs) := by
  rw [typeSpan_outside] at h
  split at h
  next hquote =>
    obtain ⟨mark, rfl⟩ := QuoteMark.exists_char (by simpa using hquote)
    rw [typeSpan_string mark.char_ne_backslash] at h
    cases hclose : closing? mark.char cs with
    | none =>
      rw [hclose] at h
      cases h
    | some x =>
      obtain ⟨run, left⟩ := x
      obtain ⟨inside, hinside, rfl, rfl⟩ := exists_inside_of_closing? hclose
      simp only [hclose, behind_behind] at h
      obtain ⟨more, hmore, rfl⟩ := behind_ok.mp h
      have hliteral : TypeText closers.isEmpty.not (literalText mark inside) := by
        simpa using TypeText.nil.string hinside
      refine .inr ⟨literalText mark inside, closers, more, left, (literalText_append ..).symm,
        by simp; omega, ?_, rfl, fun cs hcs => hcs.append hliteral⟩
      rw [literalText, List.length_cons, Nat.add_comm _ 1, ← Nat.add_assoc]
      exact hmore
  next hquote =>
    -- Every other step takes one character.
    have htake {closers' : List Char}
        (hcloses : ∀ cs, Closes closers' cs → Closes closers (c :: cs))
        (h : Behind [c] (typeSpan start closers' none (position + 1) cs) = .ok (span, rest)) :
        ∃ run closers' more left, c :: cs = run ++ left ∧ left.length ≤ cs.length ∧
          typeSpan start closers' none (position + run.length) left = .ok (more, rest) ∧
          span = run ++ more ∧ ∀ cs, Closes closers' cs → Closes closers (run ++ cs) := by
      obtain ⟨more, hmore, rfl⟩ := behind_ok.mp h
      exact ⟨[c], closers', more, cs, rfl, Nat.le_refl _, hmore, rfl, hcloses⟩
    split at h
    next closing hk => exact .inr (htake (fun cs hcs => hcs.opening hk) h)
    next hk =>
      split at h
      next hclosing =>
        split at h
        next =>
          split at h
          next hc =>
            cases h
            exact .inl ⟨rfl, rfl, rfl, .inr hc⟩
          next => cases h
        next =>
          split at h
          next hc =>
            subst hc
            exact .inr (htake (fun cs hcs => hcs.closing) h)
          next => cases h
      next hclosing =>
        split at h
        next hc =>
          cases h
          exact .inl ⟨hc.2, rfl, rfl, .inl hc.1⟩
        next hc =>
          have hchar : TypeText closers.isEmpty.not [c] :=
            .char (not_mem_typeMarks.mpr ⟨hquote, hk, Bool.eq_false_iff.mpr hclosing⟩)
              (fun he => by simpa [he] using hc) .nil
          exact .inr (htake (fun cs hcs => hcs.append hchar) h)

/-- **What is read closes the brackets that are open**, and stops at the end of a parameter. -/
theorem closes_of_typeSpan (h : typeSpan start closers none position cs = .ok (span, rest)) :
    cs = span ++ rest ∧ Closes closers span ∧ (rest.head? = some ',' ∨ rest.head? = some ')') := by
  -- A literal takes many characters at once, so that the induction is on the length.
  induction hn : cs.length using Nat.strongRecOn generalizing closers position cs span with
  | ind n ih =>
    subst hn
    rcases cs with - | ⟨c, cs⟩
    · rw [typeSpan] at h
      cases h
    obtain ⟨rfl, rfl, rfl, hc⟩ | ⟨run, closers', more, left, htext, hle, hmore, rfl, hcloses⟩ :=
      exists_step_of_typeSpan h
    · exact ⟨rfl, .nil, hc.imp (congrArg some) (congrArg some)⟩
    · obtain ⟨rfl, hleft, hend⟩ := ih _ (Nat.lt_succ_of_le hle) hmore rfl
      exact ⟨by rw [htext, List.append_assoc], hcloses _ hleft, hend⟩

/-- A comma or closing parenthesis outside of brackets ends a type. -/
theorem typeSpan_end (h : cs.head? = some ',' ∨ cs.head? = some ')') :
    typeSpan start [] none position cs = .ok ([], cs) := by
  rcases cs with - | ⟨c, cs⟩
  · simp at h
  · rw [typeSpan_outside]
    rcases h with h | h <;> cases h <;> rfl

/-- **What is read for a type**: all texts of types up to the end of a parameter, and no others. -/
theorem typeSpan_ok : typeSpan start [] none position cs = .ok (span, rest) ↔
    cs = span ++ rest ∧ TypeText false span ∧ (rest.head? = some ',' ∨ rest.head? = some ')') := by
  constructor
  · exact closes_of_typeSpan
  · rintro ⟨rfl, hspan, hend⟩
    rw [hspan.typeSpan_append fun h => absurd h Bool.false_ne_true, typeSpan_end hend]
    exact behind_ok.mpr ⟨[], rfl, (List.append_nil span).symm⟩

end Reader

/-! ## Collapsed white space -/

section Collapse

variable {enclosed : Bool} {c : Char} {cs inside : List Char}


/-- The inside of a literal, and the space before it, with its white space squeezed. -/
theorem Inside.exists_squeeze {mark : Char} (hmark : isBlank mark = false)
    (h : Inside mark inside) (gap : Bool) (cs : List Char) :
    ∃ inside', Inside mark inside' ∧
      squeeze gap (inside ++ mark :: cs) = gapText gap ++ (inside' ++ mark :: squeeze false cs) := by
  have hspace : ' ' ≠ mark := by
    rintro rfl
    cases hmark
  induction h generalizing gap with
  | nil => exact ⟨[], .nil, squeeze_cons hmark⟩
  | @plain c inside hc hback _ ih =>
    cases hblank : isBlank c with
    | true =>
      obtain ⟨inside', hinside, h⟩ := ih true
      rw [List.cons_append, squeeze_blank hblank, h]
      cases gap with
      | true => exact ⟨inside', hinside, rfl⟩
      | false => exact ⟨' ' :: inside', hinside.plain hspace (by decide), rfl⟩
    | false =>
      obtain ⟨inside', hinside, h⟩ := ih false
      rw [List.cons_append, squeeze_cons hblank, h]
      exact ⟨c :: inside', hinside.plain hc hback, rfl⟩
  | @escaped c inside _ ih =>
    rw [List.cons_append, List.cons_append, squeeze_cons (by decide)]
    cases hblank : isBlank c with
    | true =>
      obtain ⟨inside', hinside, h⟩ := ih true
      rw [squeeze_blank hblank, h]
      exact ⟨'\\' :: ' ' :: inside', hinside.escaped ' ', rfl⟩
    | false =>
      obtain ⟨inside', hinside, h⟩ := ih false
      rw [squeeze_cons hblank, h]
      exact ⟨'\\' :: c :: inside', hinside.escaped c, rfl⟩

theorem TypeText.gapText_append (gap : Bool) (h : TypeText enclosed cs) :
    TypeText enclosed (gapText gap ++ cs) := by
  cases gap with
  | true => exact h.blank rfl
  | false => exact h

/-- **Squeezed white space leaves the text of a type**: its brackets and literals stay. -/
theorem TypeText.squeeze (h : TypeText enclosed cs) (gap : Bool) :
    TypeText enclosed (squeeze gap cs) := by
  induction h generalizing gap with
  | nil => exact .nil
  | @char _ c _ hc hcomma _ ih =>
    cases hblank : isBlank c with
    | true =>
      rw [squeeze_blank hblank]
      exact ih true
    | false =>
      rw [squeeze_cons hblank]
      exact ((ih false).char hc hcomma).gapText_append gap
  | @string _ mark inside cs hinside _ ih =>
    have hmark := mark.isBlank_char
    obtain ⟨inside', hinside', h⟩ := hinside.exists_squeeze hmark false cs
    rw [literalText_append, squeeze_cons hmark, h]
    have htext := (ih false).string hinside'
    rw [literalText_append] at htext
    exact htext.gapText_append gap
  | @bracket _ opening closing inside cs hk _ _ ihinside ih =>
    obtain ⟨hopening, hclosing⟩ := mem_typeMarks_of_closerOf? hk
    obtain ⟨gap', h⟩ := exists_squeeze_append false inside
    rw [squeeze_cons (isBlank_of_mem_typeMarks hopening), h,
      squeeze_cons (isBlank_of_mem_typeMarks hclosing), ← List.append_assoc]
    refine TypeText.gapText_append gap (.bracket hk ((ihinside false).append ?_) (ih false))
    simpa using TypeText.nil.gapText_append gap'

theorem TypeText.trimStart (h : TypeText enclosed cs) : TypeText enclosed (trimStart cs) := by
  induction cs with
  | nil => exact h
  | cons c cs ih =>
    cases hc : isBlank c with
    | true =>
      rw [trimStart_blank hc]
      exact ih (h.of_blank hc)
    | false => rwa [trimStart_cons hc]

/-- **Collapsed white space leaves the text of a type.** -/
theorem TypeText.collapse (h : TypeText enclosed cs) : TypeText enclosed (collapse cs) := by
  rw [collapse_eq]
  exact h.trimStart.squeeze false

end Collapse

end Stencil
