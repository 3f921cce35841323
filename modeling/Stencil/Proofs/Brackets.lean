import Stencil.Proofs.Crossing
import Stencil.Proofs.GapTokens

/-!
# Brackets of expressions

Where a character of a text stands is told by reading the text up to it: which brackets are open,
and whether it is inside a string literal, where brackets do not count. What the reader of expressions
reads is nested: each bracket that is opened in it is closed by its own one, and none is closed that
was open before. Where no white space is allowed, none stands outside the brackets.

* `Within`: the brackets that are open, and the literal.
* `Within.after`: where what follows a text stands.
* `Balanced`: a text behind which nothing is open.
* `Nested`: a text that closes the brackets it opens.
* `Cursor.Crosses.spans`: what the reader of expressions crosses is nested.
* **`Expr.spans_of_readChain`**, **`Expr.parentheses_of_readChain`**: so is what is read as a chain,
  and one that starts with a parenthesis ends with the matching one.
-/

namespace Stencil

open Text Expr

/-- **Where a character stands**: the brackets that are open, the last one first, and the quote of
the string literal around it, with whether a backslash stands directly before. -/
structure Within where
  brackets : List Char
  literal : Option (Char × Bool)
  deriving DecidableEq, Repr

namespace Within

/-- Outside string literals. -/
def outside (brackets : List Char) : Within := ⟨brackets, none⟩

/-- The brackets that are open behind a closing one: it closes the last one if the two match. -/
def close (c : Char) : List Char → List Char
  | o :: os => if o == '(' && c == ')' || o == '[' && c == ']' then os else c :: o :: os
  | [] => [c]

/-- Where the next character stands. -/
def step (p : Within) (c : Char) : Within :=
  match p.literal with
  | some (q, true) => ⟨p.brackets, some (q, false)⟩
  | some (q, false) =>
    if c == '\\' then ⟨p.brackets, some (q, true)⟩ else if c == q then ⟨p.brackets, none⟩ else p
  | none =>
    if c == '"' || c == '\'' then ⟨p.brackets, some (c, false)⟩
    else if c == '(' || c == '[' then ⟨c :: p.brackets, none⟩
    else if c == ')' || c == ']' then ⟨close c p.brackets, none⟩
    else p

/-- **Where what follows a text stands.** -/
def after (p : Within) (text : List Char) : Within := text.foldl step p

variable {p : Within} {br : List Char} {text more : List Char} {c : Char}

@[simp] theorem after_nil : p.after [] = p := rfl

@[simp] theorem after_cons : p.after (c :: text) = (p.step c).after text := rfl

@[simp] theorem after_append : p.after (text ++ more) = (p.after text).after more :=
  List.foldl_append

/-- The characters that open or close something. -/
def marks : List Char := ['"', '\'', '(', '[', ')', ']']

/-- A character that neither opens nor closes anything. -/
def isPlain (c : Char) : Bool := c ∉ marks

theorem isPlain_of_all {q : Char → Bool} (hall : marks.all (!q ·) = true) (h : q c = true) :
    isPlain c = true :=
  decide_eq_true fun hc => by
    have hq := List.all_eq_true.mp hall c hc
    rw [h] at hq
    cases hq

theorem isPlain_of_isLexical (h : isLexical c = true) : isPlain c = true :=
  isPlain_of_all (by decide) h

theorem isPlain_of_isBlank (h : isBlank c = true) : isPlain c = true :=
  isPlain_of_all (by decide) h

theorem step_plain (h : isPlain c = true) : (outside br).step c = outside br := by
  simp only [isPlain, marks, decide_eq_true_eq, List.mem_cons, List.not_mem_nil, or_false, not_or] at h
  simp [step, outside, h]

theorem after_plain (h : ∀ c ∈ text, isPlain c = true) : (outside br).after text = outside br := by
  induction text with
  | nil => rfl
  | cons c text ih =>
    rw [after_cons, step_plain (h c List.mem_cons_self)]
    exact ih fun d hd => h d (List.mem_cons_of_mem _ hd)

/-- **The inside of a string literal**: it goes up to the closing quote, and no further. -/
theorem after_closing (br : List Char) {q : Char} {cs run rest : List Char} (hq : q ≠ '\\')
    (h : closing? q cs = some (run, rest)) :
    after ⟨br, some (q, false)⟩ run = outside br ∧
      ∀ a x r, run = a ++ x :: r → ∃ b, after ⟨br, some (q, false)⟩ a = ⟨br, some (q, b)⟩ := by
  fun_induction closing? q cs generalizing run with
  | case1 => cases h
  | case2 c cs ih =>
    obtain ⟨⟨w, r⟩, hw, he⟩ := Option.map_eq_some_iff.mp h
    cases he
    obtain ⟨hend, hinside⟩ := ih hw
    refine ⟨hend, fun a x r ha => ?_⟩
    rcases a with _ | ⟨a₁, _ | ⟨a₂, a⟩⟩
    · exact ⟨false, rfl⟩
    · cases ha
      exact ⟨true, rfl⟩
    · cases ha
      exact hinside a x r rfl
  | case3 c cs _ hc =>
    cases h
    obtain rfl := eq_of_beq hc
    refine ⟨by simp [step, outside, hq], fun a x r ha => ?_⟩
    rcases a with _ | ⟨a₁, a⟩
    · exact ⟨false, rfl⟩
    · have hlen := congrArg List.length ha
      simp at hlen
  | case4 => cases h
  | case5 c cs _ hc hback ih =>
    obtain ⟨⟨w, r⟩, hw, he⟩ := Option.map_eq_some_iff.mp h
    cases he
    obtain ⟨hend, hinside⟩ := ih hw
    have hstep : step ⟨br, some (q, false)⟩ c = ⟨br, some (q, false)⟩ := by
      simp only [step]
      rw [if_neg hback, if_neg hc]
    refine ⟨by rw [after_cons, hstep, hend], fun a x r ha => ?_⟩
    rcases a with _ | ⟨a₁, a⟩
    · exact ⟨false, rfl⟩
    · cases ha
      obtain ⟨b, hb⟩ := hinside a x r rfl
      exact ⟨b, by rw [after_cons, hstep, hb]⟩

end Within

/-! ## Nested texts -/

/-- **A text that closes the brackets it opens**, and none that was open before; without white space
outside of them, unless it is `spaced`. -/
structure Nested (spaced : Bool) (text : List Char) : Prop where
  ends : ∀ br, (Within.outside br).after text = .outside br
  above : ∀ br a r, text = a ++ r → br <:+ ((Within.outside br).after a).brackets
  solid : spaced = false → ∀ br a x r, text = a ++ x :: r →
    (Within.outside br).after a = .outside br → isBlank x = false

/-- No bracket is open behind the text, and no string literal. -/
def Balanced (text : List Char) : Prop := (Within.outside []).after text = .outside []

namespace Nested

variable {text more : List Char} {spaced : Bool}

theorem nil (spaced : Bool) : Nested spaced [] where
  ends _ := rfl
  above br a r h := by
    obtain ⟨rfl, rfl⟩ := List.append_eq_nil_iff.mp h.symm
    exact List.suffix_refl _
  solid _ br a x r h := by
    have hlen := congrArg List.length h
    simp at hlen

theorem append (h : Nested spaced text) (h' : Nested spaced more) :
    Nested spaced (text ++ more) where
  ends br := by rw [Within.after_append, h.ends, h'.ends]
  above br a r heq := by
    rcases List.append_eq_append_iff.mp heq with ⟨b, rfl, hb⟩ | ⟨b, hb, rfl⟩
    · rw [Within.after_append, h.ends]
      exact h'.above br b r hb
    · exact h.above br a b hb
  solid hs br a x r heq ha := by
    rcases List.append_eq_append_iff.mp heq with ⟨b, rfl, hb⟩ | ⟨b, hb, hr⟩
    · rw [Within.after_append, h.ends] at ha
      exact h'.solid hs br b x r hb ha
    · rcases b with _ | ⟨y, b⟩
      · obtain rfl : text = a := by rw [hb, List.append_nil]
        exact h'.solid hs br [] x r hr.symm rfl
      · cases hr
        exact h.solid hs br a x b hb ha

/-- A text without brackets and quotes. -/
theorem of_plain (h : ∀ c ∈ text, Within.isPlain c = true)
    (hs : spaced = false → ∀ c ∈ text, isBlank c = false) : Nested spaced text where
  ends br := Within.after_plain h
  above br a r heq := by
    subst heq
    rw [Within.after_plain fun c hc => h c (List.mem_append_left _ hc)]
    exact List.suffix_refl _
  solid hf br a x r heq _ := by
    subst heq
    exact hs hf x (List.mem_append_right _ List.mem_cons_self)

/-- A string literal. -/
theorem of_string {cs rest : List Char} (h : string? cs = some (text, rest)) :
    Nested spaced text := by
  cases cs with
  | nil => cases h
  | cons q cs =>
    have hq := isQuote_of_string? h
    rw [string?, if_pos hq] at h
    obtain ⟨⟨run, r⟩, hrun, he⟩ := Option.map_eq_some_iff.mp h
    cases he
    have hinside := fun br => Within.after_closing br (mark_ne hq) hrun
    have hstep : ∀ br, (Within.outside br).step q = ⟨br, some (q, false)⟩ := fun br => by
      simp only [Within.step, Within.outside]
      rw [if_pos hq]
    refine ⟨fun br => ?_, fun br a r heq => ?_, fun _ br a x r heq ha => ?_⟩
    · rw [Within.after_cons, hstep]
      exact (hinside br).1
    · rcases a with _ | ⟨y, a⟩
      · exact List.suffix_refl _
      · obtain ⟨rfl, hrest⟩ := List.cons_eq_cons.mp heq
        rw [Within.after_cons, hstep]
        rcases r with _ | ⟨x, r⟩
        · obtain rfl : run = a := hrest.trans (List.append_nil a)
          rw [(hinside br).1]
          exact List.suffix_refl _
        · obtain ⟨b, hb⟩ := (hinside br).2 a x r hrest
          exact ⟨[], by simp [hb]⟩
    · rcases a with _ | ⟨y, a⟩
      · obtain ⟨rfl, -⟩ := List.cons_eq_cons.mp heq
        rcases Bool.or_eq_true_iff.mp hq with hq | hq <;> rw [eq_of_beq hq] <;> decide
      · obtain ⟨rfl, hrest⟩ := List.cons_eq_cons.mp heq
        obtain ⟨b, hb⟩ := (hinside br).2 a x r hrest
        rw [Within.after_cons, hstep, hb] at ha
        cases ha

/-- A bracket and the one that closes it. -/
def Matches (o c : Char) : Prop := o = '(' ∧ c = ')' ∨ o = '[' ∧ c = ']'

section Bracket

variable {o c : Char} (hoc : Matches o c)
include hoc

theorem step_open (br : List Char) : (Within.outside br).step o = .outside (o :: br) := by
  rcases hoc with ⟨rfl, -⟩ | ⟨rfl, -⟩ <;> rfl

theorem step_close (br : List Char) : (Within.outside (o :: br)).step c = .outside br := by
  rcases hoc with ⟨rfl, rfl⟩ | ⟨rfl, rfl⟩ <;> rfl

/-- Between the brackets the first one is open. -/
theorem bracket_inside (h : Nested true text) (br : List Char) {a r : List Char} {x : Char}
    (heq : o :: text ++ [c] = a ++ x :: r) (ha : a ≠ []) :
    o :: br <:+ ((Within.outside br).after a).brackets := by
  rcases a with _ | ⟨y, a⟩
  · exact absurd rfl ha
  · obtain ⟨rfl, hrest⟩ := List.cons_eq_cons.mp heq
    rw [Within.after_cons, step_open hoc]
    rcases List.append_eq_append_iff.mp hrest with ⟨b, rfl, hb⟩ | ⟨b, hb, -⟩
    · rcases b with _ | ⟨z, b⟩
      · rw [List.append_nil]
        exact h.above (o :: br) text [] (List.append_nil _).symm
      · have hlen := congrArg List.length hb
        simp at hlen
    · exact h.above (o :: br) a b hb

/-- **A text in brackets.** -/
theorem bracket (spaced : Bool) (h : Nested true text) : Nested spaced (o :: text ++ [c]) := by
  have hends : ∀ br, (Within.outside br).after (o :: text ++ [c]) = .outside br := fun br => by
    rw [Within.after_append]
    show (((Within.outside br).step o).after text).step c = _
    rw [step_open hoc, h.ends, step_close hoc]
  refine ⟨hends, fun br a r heq => ?_, fun _ br a x r heq hplace => ?_⟩
  · rcases r with _ | ⟨x, r⟩
    · rw [List.append_nil] at heq
      rw [← heq, hends]
      exact List.suffix_refl _
    · by_cases ha : a = []
      · rw [ha]
        exact List.suffix_refl _
      · exact (List.suffix_cons o br).trans (bracket_inside hoc h br heq ha)
  · by_cases ha : a = []
    · subst ha
      obtain ⟨rfl, -⟩ := List.cons_eq_cons.mp heq
      rcases hoc with ⟨rfl, -⟩ | ⟨rfl, -⟩ <;> decide
    · have hle := (bracket_inside hoc h br heq ha).length_le
      rw [hplace] at hle
      exact absurd hle (Nat.not_succ_le_self _)

end Bracket

end Nested

/-! ## The reader -/

namespace Cursor

variable {c d e : Cursor} {spaced : Bool}

/-- **What lies between two cursors is nested.** -/
def Spans (spaced : Bool) (c d : Cursor) : Prop := ∃ part, c.Past part d ∧ Nested spaced part

theorem Spans.refl (spaced : Bool) (c : Cursor) : Spans spaced c c := ⟨[], .nil c, .nil spaced⟩

theorem Spans.trans (h : Spans spaced c d) (h' : Spans spaced d e) : Spans spaced c e := by
  obtain ⟨part, hp, hn⟩ := h
  obtain ⟨more, hp', hn'⟩ := h'
  exact ⟨part ++ more, hp.append hp', hn.append hn'⟩

/-- A token that is no bracket. -/
theorem spans_token (hs : c.token.1.kind.isSolid = true)
    (h : ∀ o ∈ ["(", ")", "[", "]"], c.token.1.isOp o = false) : Spans spaced c c.token.2 := by
  refine ⟨c.token.1.text, ⟨(scan_takes c.rest).1, rfl⟩, ?_⟩
  by_cases hstring : c.token.1.kind = .string
  · exact .of_string (string?_of_kind hstring)
  · refine .of_plain (fun x hx => ?_) fun _ => unbroken_scan hs hstring
    by_cases hop : c.token.1.kind = .op
    · have hall : ∀ o ∈ operators, o ∉ ["(", ")", "[", "]"] →
          o.toList.all Within.isPlain = true := by decide
      refine List.all_eq_true.mp (hall _ (mem_operators_of_scan hop) fun hmem => ?_) x
        (by rwa [String.toList_ofList])
      have hfalse := h _ hmem
      rw [Token.isOp, hop, String.toList_ofList] at hfalse
      simp at hfalse
      exact hfalse rfl
    · exact Within.isPlain_of_isLexical (lexical_scan hs hstring hop x hx)

/-- White space before a token. -/
theorem spans_blank (c : Cursor) : Spans true c c.skipBlank := by
  refine ⟨_, c.past_skipWhile _, .of_plain (fun x hx => ?_) fun h => by cases h⟩
  exact Within.isPlain_of_isBlank (List.all_eq_true.mp List.all_takeWhile x hx)

/-- White space before a token, if it is allowed. -/
theorem spans_peek (hs : (c.peek spaced).1.kind.isSolid = true)
    (h : ∀ o ∈ ["(", ")", "[", "]"], (c.peek spaced).1.isOp o = false) :
    Spans spaced c (c.peek spaced).2 := by
  cases spaced with
  | false => exact spans_token hs h
  | true => exact c.spans_blank.trans (spans_token hs h)

theorem spans_name (hk : c.token.1.kind = .name) : Spans spaced c c.token.2 :=
  spans_token (Token.isSolid_of_kind hk rfl) fun _ _ => Token.isOp_eq_false (by rw [hk]; decide)

theorem spans_mark (hm : c.token.1.isMark = true) : Spans spaced c c.token.2 := by
  have hne : ∀ o ∈ ["(", ")", "[", "]"], "." ≠ o ∧ "::" ≠ o := by decide
  refine spans_token (Token.isSolid_of_isMark hm) fun o ho => ?_
  rcases Bool.or_eq_true_iff.mp hm with hm | hm
  · exact Token.isOp_of_ne hm (hne o ho).1
  · exact Token.isOp_of_ne hm (hne o ho).2

theorem Parts.spans (h : Parts c d) : Spans spaced c d := by
  induction h with
  | nil => exact .refl _ _
  | cons hm hk _ ih =>
    exact (spans_mark (Bool.or_eq_true_iff.mpr (.inr hm))).trans ((spans_name hk).trans ih)

theorem past_token_op {o : String} (h : c.token.1.isOp o = true) : c.Past o.toList c.token.2 := by
  rw [Token.isOp, Bool.and_eq_true, decide_eq_true_eq, decide_eq_true_eq] at h
  rw [← h.2]
  exact ⟨(scan_takes c.rest).1, rfl⟩

/-- **Brackets with what stands in them.** -/
theorem past_nest {closing : Char} (ho : c.token.1.Opens closing) (h : Spans true c.token.2 d)
    (hc : (d.peek true).1.isOp closing.toString = true) :
    ∃ o v, Nested.Matches o closing ∧ Nested true v ∧
      c.Past (o :: v ++ [closing]) (d.peek true).2 := by
  obtain ⟨v, hv, hn⟩ := h.trans d.spans_blank
  have hclose : d.skipBlank.Past [closing] (d.peek true).2 := by
    rw [← String.toList_singleton]
    exact past_token_op hc
  rcases ho with ⟨rfl, ho⟩ | ⟨rfl, ho⟩
  · exact ⟨'(', v, .inl ⟨rfl, rfl⟩, hn, ((past_token_op ho).append hv).append hclose⟩
  · exact ⟨'[', v, .inr ⟨rfl, rfl⟩, hn, ((past_token_op ho).append hv).append hclose⟩

theorem spans_nest {closing : Char} (ho : c.token.1.Opens closing) (h : Spans true c.token.2 d)
    (hc : (d.peek true).1.isOp closing.toString = true) : Spans spaced c (d.peek true).2 := by
  obtain ⟨o, v, hoc, hv, hp⟩ := past_nest ho h hc
  exact ⟨_, hp, .bracket hoc spaced hv⟩

/-- **What is crossed is nested.** -/
theorem Crosses.spans (h : Crosses spaced c d) : Spans spaced c d := by
  induction h with
  | refl => exact .refl _ _
  | token ht =>
    exact spans_peek ht.solid fun o ho => ht.not_op o (by
      have hsub : ∀ o ∈ ["(", ")", "[", "]"], o ∈ Token.marks := by decide
      exact hsub o ho)
  | field hp hk =>
    refine (spans_peek (Token.isSolid_of_isOp hp) fun o ho => Token.isOp_of_ne hp ?_).trans
      (spans_name hk)
    rintro rfl
    exact absurd ho (by decide)
  | path hk hparts =>
    refine (spans_peek (Token.isSolid_of_kind hk rfl) fun _ _ => Token.isOp_eq_false ?_).trans
      hparts.spans
    rw [hk]
    decide
  | @nest spaced _ c _ ho _ hclose ih =>
    cases spaced with
    | false => exact spans_nest ho ih hclose
    | true => exact c.spans_blank.trans (spans_nest ho ih hclose)
  | trans _ _ ih ih' => exact ih.trans ih'

end Cursor

namespace Expr

variable {c c' : Cursor} {e : Expr}

/-- An expression in parentheses ends at the closing one. -/
theorem encloses_of_primary {s d : Nat} (hp : c.token.1.isOp "(" = true)
    (h : Read.primary s false d c = .ok (e, c')) : Cursor.Encloses ')' c.token.2 c' := by
  cases s with
  | zero => cases h
  | succ s =>
    have hkind : c.token.1.kind = .op := by
      rw [Token.isOp, Bool.and_eq_true, decide_eq_true_eq] at hp
      exact hp.1
    have hpeek : c.peek false = c.token := rfl
    have hvalue : Literal.ofToken c.token.1 = none := by simp [Literal.ofToken, hkind]
    rw [Read.primary, hpeek] at h
    simp only [hvalue, hkind, hp, if_true, reduceCtorEq, if_false] at h
    obtain ⟨d', -, h⟩ := Except.bind_ok.mp h
    exact (Read.crossing s).parenthesized h

/-- **What is read as a chain is nested**, with no white space outside of its brackets. -/
theorem spans_of_readChain (h : readChain c = .ok (e, c')) : c.Spans false c' := by
  unfold readChain at h
  split at h
  · exact ((Read.crossing _).primary h).spans
  · exact ((Read.crossing _).postfixed h).spans

/-- **A chain that starts with a parenthesis ends with the one that matches it.** -/
theorem parentheses_of_readChain (hp : c.token.1.isOp "(" = true)
    (h : readChain c = .ok (e, c')) :
    ∃ v, Nested true v ∧ c.Past ('(' :: v ++ [')']) c' := by
  rw [readChain, if_pos hp] at h
  obtain ⟨d, hd, hclose, rfl⟩ := encloses_of_primary hp h
  obtain ⟨o, v, hoc, hv, hpast⟩ := Cursor.past_nest (.inl ⟨rfl, hp⟩) hd.spans hclose
  rcases hoc with ⟨rfl, -⟩ | ⟨-, hc⟩
  · exact ⟨v, hv, hpast⟩
  · cases hc

end Expr

end Stencil
