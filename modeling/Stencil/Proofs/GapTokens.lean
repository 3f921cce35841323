import Stencil.Proofs.CutText

/-!
# Tokens with white space behind them

White space ends every token but white space itself: put behind a token, it leaves the token as it
is. No token holds white space inside but a string, and a string ends with its quote.

* `Expr.Lexical`: a text of the characters of numbers and names.
* `Expr.lexical_float?`, `Expr.lexical_name?`, ...: the classes of lexemes with such texts.
* `Expr.unbroken_scan`: a token that is no string holds no white space.
* `Cursor.tokens_eq`: the tokens from a cursor on, one after the other.
* **`Expr.scan_gap`**: a token with white space behind it.
-/

namespace Stencil

open Text Expr

namespace Expr

/-! ## Numbers and names -/

/-- The characters of numbers and names. -/
def isLexical (c : Char) : Bool := isWord c || c ∈ ['.', '+', '-']

/-- **A text of such characters.** -/
def Lexical (run : List Char) : Prop := ∀ c ∈ run, isLexical c = true

section Lexical

variable {cs run rest : List Char} {c : Char}

theorem isLexical_of_isWord (h : isWord c = true) : isLexical c = true := by
  rw [isLexical, h, Bool.true_or]

theorem isLexical_of_isDigit (h : isDigit c = true) : isLexical c = true :=
  isLexical_of_isWord (isWord_of_digit h)

theorem isLexical_of_isNumeralPart (h : isNumeralPart c = true) : isLexical c = true := by
  rcases Bool.or_eq_true_iff.mp h with h | h
  · exact isLexical_of_isDigit h
  · rw [eq_of_beq h]
    decide

theorem isBlank_of_isLexical (h : isLexical c = true) : isBlank c = false := by
  rcases Bool.or_eq_true_iff.mp h with h | h
  · exact isBlank_of_isWord h
  · simp only [decide_eq_true_eq, List.mem_cons, List.not_mem_nil, or_false] at h
    rcases h with rfl | rfl | rfl <;> decide

theorem Lexical.append {run' : List Char} (h : Lexical run) (h' : Lexical run') :
    Lexical (run ++ run') := fun c hc => (List.mem_append.mp hc).elim (h c) (h' c)

theorem Lexical.cons (hc : isLexical c = true) (h : Lexical run) : Lexical (c :: run) :=
  fun d hd => by
    rcases List.mem_cons.mp hd with rfl | hd
    · exact hc
    · exact h d hd

theorem lexical_takeWhile {p : Char → Bool} (hp : ∀ {c}, p c = true → isLexical c = true)
    (cs : List Char) : Lexical (cs.takeWhile p) :=
  fun c hc => hp (List.all_eq_true.mp List.all_takeWhile c hc)

theorem lexical_numeral? (h : numeral? cs = some (run, rest)) : Lexical run := by
  cases cs with
  | nil => cases h
  | cons c cs =>
    rw [numeral?] at h
    split at h
    · rename_i hc
      cases h
      exact (lexical_takeWhile isLexical_of_isNumeralPart cs).cons (isLexical_of_isDigit hc)
    · cases h

theorem lexical_digits? (h : digits? cs = some (run, rest)) : Lexical run := by
  unfold digits? at h
  dsimp only at h
  split at h
  · cases h
  · cases h
    exact lexical_takeWhile isLexical_of_isDigit cs

/-- The letter or the sign of an exponent. -/
theorem isLexical_of_either {a b : Char} (h : (c == a || c == b) = true) (ha : isLexical a = true)
    (hb : isLexical b = true) : isLexical c = true := by
  rcases Bool.or_eq_true_iff.mp h with h | h <;> rwa [eq_of_beq h]

theorem lexical_exponent? (h : exponent? cs = some (run, rest)) : Lexical run := by
  unfold exponent? at h
  split at h
  · split at h
    · rename_i he
      have hletter := isLexical_of_either he (by decide) (by decide)
      split at h
      · split at h
        · rename_i hs
          obtain ⟨⟨ds, r⟩, hd, heq⟩ := Option.map_eq_some_iff.mp h
          cases heq
          exact ((lexical_digits? hd).cons (isLexical_of_either hs (by decide) (by decide))).cons
            hletter
        · obtain ⟨⟨ds, r⟩, hd, heq⟩ := Option.map_eq_some_iff.mp h
          cases heq
          exact (lexical_digits? hd).cons hletter
      · cases h
    · cases h
  · cases h

theorem lexical_float? (h : float? cs = some (run, rest)) : Lexical run := by
  have hpoint : isLexical '.' = true := by decide
  rw [float?, Option.bind_eq_bind, Option.bind_eq_some_iff] at h
  obtain ⟨⟨whole, r⟩, hw, h⟩ := h
  have hwhole := lexical_numeral? hw
  simp only at h
  split at h
  · obtain ⟨⟨fraction, r'⟩, hf, h⟩ := Option.bind_eq_some_iff.mp h
    have hfraction := (lexical_numeral? hf).cons hpoint
    simp only at h
    split at h
    · rename_i he
      cases h
      exact (hwhole.append hfraction).append (lexical_exponent? he)
    · cases h
      exact hwhole.append hfraction
  · obtain ⟨⟨exponent, r'⟩, he, h⟩ := Option.bind_eq_some_iff.mp h
    cases h
    exact hwhole.append (lexical_exponent? he)

theorem isWord_of_isHexDigit (h : isHexDigit c = true) : isWord c = true := by
  refine isWord_of_isAlphanum ?_
  have hwithin : ∀ {a b x y : Char}, x ≤ a → b ≤ y → (decide (a ≤ c) && decide (c ≤ b)) = true →
      x ≤ c ∧ c ≤ y := fun hx hy h => by
    rw [Bool.and_eq_true, decide_eq_true_eq, decide_eq_true_eq] at h
    exact ⟨Char.le_trans hx h.1, Char.le_trans h.2 hy⟩
  show (c.isUpper || c.isLower || c.isDigit) = true
  unfold isHexDigit hexValue? at h
  split at h
  · have hdigit : c.isDigit = true := ‹_›
    rw [hdigit, Bool.or_true]
  · split at h
    · have hrange := hwithin (show 'a' ≤ 'a' by decide) (show 'f' ≤ 'z' by decide) ‹_›
      have hlower : c.isLower = true :=
        Bool.and_eq_true_iff.mpr ⟨decide_eq_true hrange.1, decide_eq_true hrange.2⟩
      rw [hlower, Bool.or_true, Bool.true_or]
    · split at h
      · have hupper : c.isUpper = true :=
          decide_eq_true (hwithin (show 'A' ≤ 'A' by decide) (show 'F' ≤ 'Z' by decide) ‹_›)
        rw [hupper, Bool.true_or, Bool.true_or]
      · cases h

theorem isLexical_of_radixPart? {letter : Char} {p : Char → Bool} (h : radixPart? letter = some p)
    {c : Char} (hc : p c = true) : isLexical c = true := by
  refine isLexical_of_isWord ?_
  have hunder : isWord '_' = true := by decide
  unfold radixPart? at h
  split at h
  · cases h
    rcases Bool.or_eq_true_iff.mp hc with hc | hc
    · exact isWord_of_isHexDigit hc
    · rwa [eq_of_beq hc]
  · split at h
    · cases h
      rcases Bool.or_eq_true_iff.mp hc with hc | hc
      · rw [Bool.and_eq_true, decide_eq_true_eq, decide_eq_true_eq] at hc
        have hnine : c ≤ '9' := Char.le_trans hc.2 (by decide)
        refine isWord_of_isHexDigit ?_
        rw [isHexDigit, hexValue?, if_pos (by
          rw [Bool.and_eq_true, decide_eq_true_eq, decide_eq_true_eq]
          exact ⟨hc.1, hnine⟩)]
        rfl
      · rwa [eq_of_beq hc]
    · split at h
      · cases h
        simp only [Bool.or_eq_true, beq_iff_eq] at hc
        rcases hc with (rfl | rfl) | rfl <;> decide
      · cases h

theorem lexical_int? (h : int? cs = some (run, rest)) : Lexical run := by
  unfold int? at h
  split at h
  · rename_i hradix
    cases h
    unfold radix? at hradix
    split at hradix
    · obtain ⟨p, hp, h⟩ := Option.bind_eq_some_iff.mp hradix
      split at h
      · cases h
      · cases h
        exact ((lexical_takeWhile (isLexical_of_radixPart? hp) _).cons
          (isLexical_of_isWord (isWord_of_radixPart? hp))).cons (by decide)
    · cases hradix
  · exact lexical_numeral? h

theorem lexical_name? (h : name? cs = some (run, rest)) : Lexical run := by
  cases cs with
  | nil => cases h
  | cons c cs =>
    rw [name?] at h
    split at h
    · rename_i hc
      cases h
      exact (lexical_takeWhile isLexical_of_isWord cs).cons
        (isLexical_of_isWord (isNameStart_iff.mp hc).1)
    · cases h

end Lexical

/-! ## Strings -/

/-- The inside of a string does not depend on what stands behind its closing quote. -/
theorem closing?_append {mark : Char} {cs run rest : List Char} (hmark : mark ≠ '\\')
    (h : closing? mark cs = some (run, rest)) (more : List Char) :
    closing? mark (cs ++ more) = some (run, rest ++ more) := by
  fun_induction closing? mark cs generalizing run with
  | case1 => cases h
  | case2 c cs ih =>
    obtain ⟨⟨w, r⟩, hw, he⟩ := Option.map_eq_some_iff.mp h
    cases he
    rw [List.cons_append, List.cons_append, closing?, ih hw]
    rfl
  | case3 c cs _ hc =>
    cases h
    have hplain : c ≠ '\\' := fun h => hmark (by rw [← eq_of_beq hc, h])
    rw [List.cons_append, closing?_plain fun h => absurd h hplain, if_pos hc]
  | case4 => cases h
  | case5 c cs _ hc hback ih =>
    obtain ⟨⟨w, r⟩, hw, he⟩ := Option.map_eq_some_iff.mp h
    cases he
    rw [List.cons_append, closing?_plain fun h => absurd (beq_iff_eq.mpr h) hback, if_neg hc,
      if_neg hback, ih hw]
    rfl

theorem string?_append {cs run rest : List Char} (h : string? cs = some (run, rest))
    (more : List Char) : string? (cs ++ more) = some (run, rest ++ more) := by
  cases cs with
  | nil => cases h
  | cons c cs =>
    rw [string?] at h
    split at h
    · rename_i hc
      obtain ⟨⟨w, r⟩, hw, he⟩ := Option.map_eq_some_iff.mp h
      cases he
      rw [List.cons_append, string?, if_pos hc, closing?_append (mark_ne hc) hw more]
      rfl
    · cases h

/-! ## Tokens -/

theorem isSolid_wordKind (run : List Char) : (wordKind run).isSolid = true := by
  unfold wordKind
  split <;> rfl

theorem wordKind_ne {k : TokenKind} (hk : k ≠ .name ∧ k ≠ .keyword) (run : List Char) :
    wordKind run ≠ k := by
  unfold wordKind
  split
  · exact hk.2.symm
  · exact hk.1.symm

variable {cs run rest more : List Char} {b : Char}

theorem scan_of_blank (hb : isBlank b = true) : (scan (b :: cs)).kind = .blank := by
  rw [scan, blank?, List.takeWhile_cons_of_pos hb]
  rfl

theorem blank?_eq_none (hb : isBlank b = false) (cs : List Char) : blank? (b :: cs) = none := by
  rw [blank?, List.takeWhile_cons_of_neg (by rw [hb]; decide)]
  rfl

/-- A token starts with white space only if it is white space. -/
theorem isBlank_of_scan (hk : (scan (b :: cs)).kind = .blank) : isBlank b = true := by
  cases hb : isBlank b with
  | true => rfl
  | false =>
    have hscanned := scanned (b :: cs)
    generalize scan (b :: cs) = t at hk hscanned
    cases hscanned with
    | float | int | string | op | unknown => cases hk
    | name => exact absurd hk (wordKind_ne (by decide) _)
    | blank hrun =>
      rw [blank?_eq_none hb] at hrun
      cases hrun

/-- Only at the end of a text there is no token. -/
theorem eq_nil_of_scan (hk : (scan cs).kind = .eof) : cs = [] := by
  have hscanned := scanned cs
  generalize scan cs = t at hk hscanned
  cases hscanned with
  | eof => rfl
  | blank | float | int | string | op | unknown => cases hk
  | name => exact absurd hk (wordKind_ne (by decide) _)

/-- Numbers, names and keywords hold nothing but the characters of numbers and names. -/
theorem lexical_scan (h : (scan cs).kind.isSolid = true) (hs : (scan cs).kind ≠ .string)
    (ho : (scan cs).kind ≠ .op) : Lexical (scan cs).text := by
  have hscanned := scanned cs
  generalize scan cs = t at h hs ho hscanned
  cases hscanned with
  | eof | blank | unknown => cases h
  | string => exact absurd rfl hs
  | op => exact absurd rfl ho
  | float hrun => exact lexical_float? hrun
  | int hrun => exact lexical_int? hrun
  | name hrun => exact lexical_name? hrun

/-- The text of an operator. -/
theorem mem_operators_of_scan (h : (scan cs).kind = .op) :
    String.ofList (scan cs).text ∈ operators := by
  have hscanned := scanned cs
  generalize scan cs = t at h hscanned
  cases hscanned with
  | op hrun =>
    obtain ⟨o, ho, he⟩ := Option.map_eq_some_iff.mp hrun
    cases he
    rw [String.ofList_toList]
    exact List.mem_of_find?_eq_some ho
  | name => exact absurd h (wordKind_ne_op _)
  | eof | blank | float | int | string | unknown => cases h

/-- A token that is no string holds no white space. -/
theorem unbroken_scan (h : (scan cs).kind.isSolid = true) (hs : (scan cs).kind ≠ .string) :
    ∀ c ∈ (scan cs).text, isBlank c = false := by
  by_cases ho : (scan cs).kind = .op
  · have hall : ∀ o ∈ operators, o.toList.all (!isBlank ·) = true := by decide
    have hop := hall _ (mem_operators_of_scan ho)
    rw [String.toList_ofList, List.all_eq_true] at hop
    exact fun c hc => Bool.not_eq_true' _ ▸ hop c hc
  · exact fun c hc => isBlank_of_isLexical (lexical_scan h hs ho c hc)

/-- A token that means something starts with no white space. -/
theorem head_scan (h : (scan cs).kind.isSolid = true) :
    ∃ c r, cs = c :: r ∧ isBlank c = false := by
  cases cs with
  | nil => cases h
  | cons c r =>
    refine ⟨c, r, rfl, ?_⟩
    rw [← Bool.not_eq_true]
    intro hc
    rw [scan_of_blank hc] at h
    cases h

/-- Only a string starts with a quote among the tokens that mean something. -/
theorem string?_of_scan {c : Char} {r : List Char} (hc : (c == '"' || c == '\'') = true)
    (h : (scan (c :: r)).kind.isSolid = true) :
    string? (c :: r) = some ((scan (c :: r)).text, (scan (c :: r)).rest) := by
  have hscanned := scanned (c :: r)
  generalize scan (c :: r) = t at h hscanned
  rcases Bool.or_eq_true_iff.mp hc with hc | hc <;> obtain rfl := eq_of_beq hc <;>
  · cases hscanned with
    | blank | unknown => cases h
    | string hrun => exact hrun
    | float hrun | int hrun | name hrun | op hrun => cases hrun

theorem isQuote_of_string? {c : Char} (h : string? (c :: cs) = some (run, rest)) :
    (c == '"' || c == '\'') = true := by
  rw [string?] at h
  by_contra hq
  rw [if_neg hq] at h
  cases h

/-- A token does not go on over white space. -/
theorem length_scan_gap (h : (scan cs).kind.isSolid = true) (hb : isBlank b = true)
    (more : List Char) :
    (scan (cs ++ b :: more)).text.length ≤ cs.length := by
  obtain ⟨c, r, rfl, hc⟩ := head_scan h
  have hall := (scan_takes (c :: r ++ b :: more)).1
  by_contra hlong
  have hmem : b ∈ (scan (c :: r ++ b :: more)).text := by
    have hprefix : (c :: r) ++ [b] <+: (scan (c :: r ++ b :: more)).text := by
      have hfront : (c :: r) ++ [b] <+: c :: r ++ b :: more := ⟨more, by simp⟩
      refine List.prefix_of_prefix_length_le hfront ⟨_, hall.symm⟩ ?_
      rw [List.length_append, List.length_singleton]
      omega
    exact hprefix.subset (List.mem_append_right _ List.mem_cons_self)
  by_cases hs : (scan (c :: r ++ b :: more)).kind = .string
  · -- a string ends with its quote, which stands before the white space
    have hstring := string?_of_kind hs
    have hinside := string?_append (string?_of_scan (isQuote_of_string? hstring) h) (b :: more)
    rw [hstring] at hinside
    have htext := congrArg List.length (scan_takes (c :: r)).1
    rw [← (Prod.mk.inj (Option.some.inj hinside)).1, List.length_append] at htext
    exact hlong (Nat.le.intro htext.symm)
  · have hsolid : ¬ (scan (c :: r ++ b :: more)).kind.isSolid = true := fun hk => by
      rw [unbroken_scan hk hs b hmem] at hb
      cases hb
    have hscanned := scanned (c :: r ++ b :: more)
    generalize scan (c :: r ++ b :: more) = t at hlong hsolid hscanned
    cases hscanned with
    | float | int | string | op => exact hsolid rfl
    | name => exact hsolid (isSolid_wordKind _)
    | unknown => exact hlong (Nat.succ_le_succ (Nat.zero_le _))
    | blank hrun =>
      rw [List.cons_append, blank?_eq_none hc] at hrun
      cases hrun

/-- **White space behind a token leaves the token as it is**, directly behind it or further on. -/
theorem scan_gap (h : (scan cs).kind.isSolid = true) (hb : isBlank b = true) (more : List Char) :
    scan (cs ++ b :: more) = ⟨(scan cs).kind, (scan cs).text, (scan cs).rest ++ b :: more⟩ := by
  have hall := (scan_takes (cs ++ b :: more)).1
  have hfront := (scan_takes cs).1
  -- the token of the longer text is no longer, so a cut gives the token back
  have hcut := scan_take (length_scan_gap h hb more)
  rw [List.take_left] at hcut
  have htext : (scan (cs ++ b :: more)).text = (scan cs).text := by rw [hcut]
  have hkind : (scan (cs ++ b :: more)).kind = (scan cs).kind := by rw [hcut]
  have hrest : (scan cs).rest ++ b :: more = (scan (cs ++ b :: more)).rest := by
    have hboth : (scan cs).text ++ ((scan cs).rest ++ b :: more) =
        (scan cs).text ++ (scan (cs ++ b :: more)).rest := by
      rw [← List.append_assoc, ← hfront, ← htext, ← hall]
    exact List.append_cancel_left hboth
  rw [hrest, ← htext, ← hkind]

/-- Every token but the end takes something. -/
theorem text_scan_ne_nil (h : (scan cs).kind ≠ .eof) : (scan cs).text ≠ [] := by
  by_cases hs : (scan cs).kind.isSolid = true
  · obtain ⟨-, last, hlast, -⟩ := (scan_takes cs).2 hs
    rintro hnil
    rw [hnil] at hlast
    cases hlast
  · have hscanned := scanned cs
    generalize scan cs = t at h hs hscanned
    cases hscanned with
    | eof => exact absurd rfl h
    | unknown => exact List.cons_ne_nil _ _
    | blank hrun =>
      unfold blank? at hrun
      dsimp only at hrun
      split at hrun
      · cases hrun
      · rename_i hne
        cases hrun
        exact fun hnil => hne (List.isEmpty_iff.mpr hnil)
    | name => exact absurd (isSolid_wordKind _) hs
    | _ => exact absurd rfl hs

end Expr

/-! ## All tokens -/

namespace Cursor

variable {c : Cursor}

theorem length_token_lt (h : c.token.1.kind ≠ .eof) : c.token.2.rest.length < c.rest.length := by
  have hall := congrArg List.length (scan_takes c.rest).1
  have hne : (scan c.rest).text ≠ [] := text_scan_ne_nil h
  have hpos := List.length_pos_iff.mpr hne
  rw [List.length_append] at hall
  show (scan c.rest).rest.length < _
  omega

theorem tokens_go {s t : Nat} (hs : c.rest.length < s) (ht : c.rest.length < t) :
    tokens.go s c = tokens.go t c := by
  induction s generalizing t c with
  | zero => omega
  | succ s ih =>
    obtain ⟨t, rfl⟩ : ∃ k, t = k + 1 := Nat.exists_eq_succ_of_ne_zero (by omega)
    rw [tokens.go, tokens.go]
    by_cases hk : c.token.1.kind = .eof
    · simp only [hk, if_true]
    · have := length_token_lt hk
      simp only [hk, if_false, ih (c := c.token.2) (t := t) (by omega) (by omega)]

/-- **The tokens from a cursor on**: the next one, and those behind it. -/
theorem tokens_eq (c : Cursor) : c.tokens =
    if c.token.1.kind = .eof then [c.token.1] else c.token.1 :: c.token.2.tokens := by
  rw [tokens, tokens.go]
  by_cases hk : c.token.1.kind = .eof
  · simp only [hk, if_true]
  · have := length_token_lt hk
    simp only [hk, if_false, tokens,
      tokens_go (c := c.token.2) (s := c.rest.length) (t := c.token.2.rest.length + 1) (by omega)
        (by omega)]

/-- What holds at the end and, before each token, if it holds behind it, holds everywhere. -/
theorem token_induction {P : Cursor → Prop} (eof : ∀ c, c.token.1.kind = .eof → P c)
    (token : ∀ c, c.token.1.kind ≠ .eof → P c.token.2 → P c) (c : Cursor) : P c := by
  by_cases hk : c.token.1.kind = .eof
  · exact eof c hk
  · exact token c hk (token_induction eof token c.token.2)
termination_by c.rest.length
decreasing_by exact length_token_lt hk

end Cursor

end Stencil
