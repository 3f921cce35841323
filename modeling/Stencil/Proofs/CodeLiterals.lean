import Mathlib.Data.List.Find
import Mathlib.Tactic.ByContra
import Stencil.Expr.Code
import Stencil.Proofs.CodeTokens
import Stencil.Proofs.PrintedLiteral
import Stencil.Proofs.ShortestDecimal

/-!
# Literals of generated code

The text of a literal value is one token with that value, unless a word, a point or a quote follows.

* `CodeToken.lexes_int`, `CodeToken.lexes_float`, `CodeToken.lexes_text`: numbers and texts.
* `CodeToken.lexes_word`, `CodeToken.lexes_op`: words and operators.
-/

namespace Stencil.CodeToken

open Text

/-- No word and no quote stands at the start of the text. -/
def Detached (rest : List Char) : Prop :=
  ∀ c, rest.head? = some c → isWord c = false ∧ isQuote c = false

section Follow

variable {c : Char} {rest : List Char}

theorem isWord_of_isDigit (h : c.isDigit = true) : isWord c = true :=
  isWord_of_isAlphanum (by rw [Char.isAlphanum, h, Bool.or_true])

theorem Detached.not_digit (h : Detached rest) (hc : rest.head? = some c) : c.isDigit = false := by
  cases hd : c.isDigit with
  | false => rfl
  | true => exact absurd (isWord_of_isDigit hd) (by rw [(h c hc).1]; decide)

theorem detached_nil : Detached [] := fun c hc => by cases hc

theorem detached_cons (hw : isWord c = false) (hq : isQuote c = false) : Detached (c :: rest) := by
  intro d hd
  cases hd
  exact ⟨hw, hq⟩

end Follow

/-! ## Numbers -/

section Numbers

variable {whole frac exp digits rest : List Char}

/-- Digits, at least one. -/
structure IsDigits (digits : List Char) : Prop where
  ne_nil : digits ≠ []
  isDigit : ∀ c ∈ digits, c.isDigit = true

theorem isDigits_zero : IsDigits ['0'] := ⟨by simp, List.forall_mem_singleton.mpr (by decide)⟩

/-- A point with digits after it, or nothing. -/
def IsFraction (frac : List Char) : Prop :=
  frac = [] ∨ ∃ digits, IsDigits digits ∧ frac = '.' :: digits

/-- An exponent with its sign, or nothing. -/
def IsExponent (exp : List Char) : Prop :=
  exp = [] ∨ ∃ sign digits, (sign = '+' ∨ sign = '-') ∧ IsDigits digits ∧
    exp = 'e' :: sign :: digits

theorem exponent_append (he : IsExponent exp) (hrest : Detached rest) :
    exponent (exp ++ rest) = (exp, rest) := by
  rcases he with rfl | ⟨sign, digits, hsign, hd, rfl⟩
  · rw [List.nil_append]
    unfold exponent
    split
    · have := (hrest 'e' rfl).1
      exact absurd this (by decide)
    · rfl
  · obtain ⟨ht, hdrop⟩ := takeWhile_run hd.isDigit fun c hc => hrest.not_digit hc
    rw [List.cons_append, List.cons_append, exponent, ht, hdrop, if_pos ⟨hsign, hd.ne_nil⟩]

/-- Nothing of a number but its point follows its digits. -/
theorem head?_exponent (he : IsExponent exp) (hrest : Detached rest) {c : Char}
    (hc : (exp ++ rest).head? = some c) :
    c.isDigit = false ∧ (rest.head? ≠ some '.' → c ≠ '.') := by
  rcases he with rfl | ⟨sign, digits, -, -, rfl⟩
  · exact ⟨hrest.not_digit hc, fun h hp => h (hp ▸ hc)⟩
  · cases hc
    exact ⟨by decide, fun _ => by decide⟩

theorem fraction_append (hf : IsFraction frac) (he : IsExponent exp) (hrest : Detached rest)
    (hpoint : rest.head? ≠ some '.') :
    fraction (frac ++ (exp ++ rest)) = (frac, exp ++ rest) := by
  rcases hf with rfl | ⟨digits, hd, rfl⟩
  · rw [List.nil_append]
    unfold fraction
    split
    · rename_i cs heq
      exact absurd rfl ((head?_exponent he hrest (c := '.') (by rw [heq]; rfl)).2 hpoint)
    · rfl
  · obtain ⟨ht, hdrop⟩ := takeWhile_run hd.isDigit fun c hc => (head?_exponent he hrest hc).1
    rw [List.cons_append, fraction, ht, hdrop]

/-- **The parts of a number**, up to what follows it. -/
theorem number?_append (hw : IsDigits whole) (hf : IsFraction frac) (he : IsExponent exp)
    (hrest : Detached rest) (hpoint : rest.head? ≠ some '.') :
    number? (whole ++ (frac ++ (exp ++ rest))) =
      if frac ≠ [] ∨ exp ≠ [] then some (float (Binary64.ofText (whole ++ frac ++ exp)), rest)
      else if Nat.toDigits 10 (decimalOf whole) = whole ∧ whole.length ≤ maxDecimalDigits then
        some (int (decimalOf whole), rest)
      else none := by
  -- the digits end where the fraction, the exponent or the rest starts
  have hhead : ∀ c, (frac ++ (exp ++ rest)).head? = some c → c.isDigit = false := by
    intro c hc
    rcases hf with rfl | ⟨digits, -, rfl⟩
    · exact (head?_exponent he hrest hc).1
    · cases hc
      decide
  obtain ⟨ht, hdrop⟩ := takeWhile_run hw.isDigit hhead
  have hnone : ¬ (rest.head?.any fun c => isWord c || c == '.') = true := by
    cases hc : rest.head? with
    | none => simp
    | some c =>
      have hne : c ≠ '.' := fun h => hpoint (by rw [hc, h])
      simp [(hrest c hc).1, hne]
  unfold number?
  rw [ht, hdrop, fraction_append hf he hrest hpoint]
  dsimp only
  rw [exponent_append he hrest]
  dsimp only
  rw [if_neg hnone]

theorem isDigits_toDigits (n : Nat) : IsDigits (Nat.toDigits 10 n) :=
  ⟨Nat.toDigits_ne_nil, fun _ hc => Nat.isDigit_of_mem_toDigits (by decide) (by decide) hc⟩

theorem isSpace_of_isDigit {c : Char} (h : c.isDigit = true) : isSpace c = false := by
  cases hs : isSpace c with
  | false => rfl
  | true =>
    simp only [isSpace, Bool.or_eq_true, beq_iff_eq] at hs
    rcases hs with (rfl | rfl) | rfl <;> cases h

/-- A number is read at its first digit. -/
theorem lexes_of_number? {t : CodeToken} (hw : IsDigits whole)
    (h : number? (whole ++ exp ++ rest) = some (t, rest)) : Lexes (whole ++ exp) [t] rest := by
  obtain ⟨c, cs, rfl⟩ := List.exists_cons_of_ne_nil hw.ne_nil
  have hc := hw.isDigit c List.mem_cons_self
  refine .of_next (isSpace_of_isDigit hc) ?_
  rw [List.cons_append, next?, if_pos hc]
  exact h

/-- **An integer is one token**, if it has no more digits than can be read. -/
theorem lexes_int {n : Nat} (hn : n < 10 ^ maxDecimalDigits) (hrest : Detached rest)
    (hpoint : rest.head? ≠ some '.') : Lexes (Nat.toDigits 10 n) [int n] rest := by
  have hlen : (Nat.toDigits 10 n).length ≤ maxDecimalDigits := by
    rcases Nat.eq_zero_or_pos n with rfl | hpos
    · decide
    · obtain ⟨k, hk, hlow, -⟩ := Binary64.exists_length_toDigits hpos
      rw [hk]
      exact (Nat.pow_lt_pow_iff_right (by decide)).mp (Nat.lt_of_le_of_lt hlow hn)
  have h := number?_append (isDigits_toDigits n) (.inl rfl) (.inl rfl) hrest hpoint
  rw [if_neg (by simp), decimalOf_toDigits, if_pos ⟨rfl, hlen⟩] at h
  have hl := @lexes_of_number? _ [] rest (int n) (isDigits_toDigits n) (by simpa using h)
  rwa [List.append_nil] at hl

theorem isDigit_of_mem_zeros {k : Nat} {c : Char} (h : c ∈ List.replicate k '0') :
    c.isDigit = true := by
  rw [List.eq_of_mem_replicate h]
  decide

/-- A layout is a number with a fraction or an exponent. -/
def IsFloat (text : List Char) : Prop :=
  ∃ whole frac exp, text = whole ++ (frac ++ exp) ∧ IsDigits whole ∧ IsFraction frac ∧
    IsExponent exp ∧ (frac ≠ [] ∨ exp ≠ [])

theorem isFloat_positional (hd : IsDigits digits) (point : Int) :
    IsFloat (DecimalFormat.positional digits point) := by
  have hfloat : ∀ {whole frac}, IsDigits whole → IsDigits frac →
      IsFloat (whole ++ '.' :: frac) := fun {whole frac} hw hf =>
    ⟨whole, '.' :: frac, [], by rw [List.append_nil], hw, .inr ⟨frac, hf, rfl⟩, .inl rfl,
      .inl (List.cons_ne_nil _ _)⟩
  unfold DecimalFormat.positional
  split
  · refine @hfloat ['0'] (List.replicate (-point).toNat '0' ++ digits) isDigits_zero
      ⟨by simp [hd.ne_nil], fun c hc => ?_⟩
    exact (List.mem_append.mp hc).elim isDigit_of_mem_zeros (hd.isDigit c)
  · dsimp only
    split
    · refine hfloat ⟨by simp [hd.ne_nil], fun c hc => ?_⟩ isDigits_zero
      exact (List.mem_append.mp hc).elim (hd.isDigit c) isDigit_of_mem_zeros
    · refine hfloat ⟨?_, fun c hc => hd.isDigit c (List.mem_of_mem_take hc)⟩
        ⟨?_, fun c hc => hd.isDigit c (List.mem_of_mem_drop hc)⟩
      · rw [Ne, List.take_eq_nil_iff, not_or]
        exact ⟨by omega, hd.ne_nil⟩
      · rw [Ne, List.drop_eq_nil_iff]
        omega

theorem isFloat_scientific (hd : IsDigits digits) (f : DecimalFormat) (exponent : Int) :
    IsFloat (f.scientific digits exponent) := by
  have hexp : IsDigits (List.replicate (f.exponentDigits - (Nat.toDigits 10 exponent.natAbs).length)
      '0' ++ Nat.toDigits 10 exponent.natAbs) := by
    refine ⟨by simp [Nat.toDigits_ne_nil], fun c hc => ?_⟩
    exact (List.mem_append.mp hc).elim isDigit_of_mem_zeros ((isDigits_toDigits _).isDigit c)
  obtain ⟨c, cs, rfl⟩ := List.exists_cons_of_ne_nil hd.ne_nil
  have hc : IsDigits [c] := ⟨by simp, fun x hx =>
    hd.isDigit x (List.mem_singleton.mp hx ▸ List.mem_cons_self)⟩
  unfold DecimalFormat.scientific
  dsimp only
  refine ⟨[c], if cs = [] then [] else '.' :: cs, _, ?_, hc, ?_,
    .inr ⟨if exponent < 0 then '-' else '+', _, by split <;> simp, hexp, rfl⟩,
    .inr (List.cons_ne_nil _ _)⟩
  · cases cs <;> simp
  · cases cs with
    | nil => exact .inl rfl
    | cons d ds =>
      exact .inr ⟨d :: ds, ⟨by simp, fun x hx => hd.isDigit x (List.mem_cons_of_mem _ hx)⟩, rfl⟩

/-- The layouts of digits are those of numbers with a fraction or an exponent. -/
theorem isFloat_layout (hd : IsDigits digits) (f : DecimalFormat) (point : Int) :
    IsFloat (f.layout digits point) := by
  unfold DecimalFormat.layout
  split
  · exact isFloat_positional hd point
  · exact isFloat_scientific hd f _

theorem isFloat_text {x : Binary64} (hsign : x.bits.toNat ≤ Binary64.infiniteBits)
    (hfinite : x.isFinite = true) : IsFloat (x.text .literal).toList := by
  rcases Binary64.text_cases hsign hfinite with
    ⟨-, h⟩ | ⟨m, s, digits, point, hm, -, -, hshort, h⟩ <;> rw [h]
  · exact ⟨['0'], ['.', '0'], [], rfl, isDigits_zero,
      .inr ⟨['0'], isDigits_zero, rfl⟩, .inl rfl, .inl (by simp)⟩
  · obtain ⟨c, -, rfl, -⟩ := Binary64.shortest_nearest hm hshort
    exact isFloat_layout (isDigits_toDigits c) _ _

/-- **A finite number without a sign is one token.** -/
theorem lexes_float {x : Binary64} (hsign : x.bits.toNat ≤ Binary64.infiniteBits)
    (hfinite : x.isFinite = true) (hrest : Detached rest) (hpoint : rest.head? ≠ some '.') :
    Lexes (x.text .literal).toList [float x] rest := by
  have hvalue := Binary64.ofText_text hsign hfinite
  obtain ⟨whole, frac, exp, htext, hw, hf, he, hne⟩ := isFloat_text hsign hfinite
  rw [htext] at hvalue ⊢
  have h := number?_append hw hf he hrest hpoint
  rw [if_pos hne, List.append_assoc, hvalue] at h
  exact lexes_of_number? hw (by simpa using h)

end Numbers


/-! ## Texts -/

section Texts

variable {steps : Nat} {p : CodePoint} {ps : List CodePoint} {cs rest : List Char}

theorem hexValue?_hexDigit {d : Nat} (h : d < 16) : hexValue? (hexDigit d) = some d := by
  revert d
  decide

theorem length_hexDigits (width n : Nat) : (hexDigits width n).length = width := by
  induction width generalizing n with
  | zero => rfl
  | succ width ih => rw [hexDigits, List.length_append, ih]; rfl

theorem isHexDigit_hexDigits (width n : Nat) : ∀ c ∈ hexDigits width n, isHexDigit c = true := by
  induction width generalizing n with
  | zero => exact fun c hc => by cases hc
  | succ width ih =>
    intro c hc
    rcases List.mem_append.mp hc with hc | hc
    · exact ih _ c hc
    · rw [List.mem_singleton.mp hc, isHexDigit, hexValue?_hexDigit (Nat.mod_lt _ (by decide))]
      rfl

/-- **Hexadecimal digits write their number**, if there are enough of them. -/
theorem ofDigits_hexDigits (width : Nat) {n : Nat} (hn : n < 16 ^ width) :
    ofDigits 16 ((hexDigits width n).map fun c => (hexValue? c).getD 0) = n := by
  induction width generalizing n with
  | zero =>
    obtain rfl : n = 0 := by simpa using hn
    rfl
  | succ width ih =>
    have hlt : n / 16 < 16 ^ width := Nat.div_lt_of_lt_mul (by rwa [Nat.pow_succ'] at hn)
    rw [hexDigits, List.map_append, ofDigits_append, ih hlt]
    simp only [List.map_cons, List.map_nil, List.foldl_cons, List.foldl_nil,
      hexValue?_hexDigit (Nat.mod_lt n (by decide : 0 < 16)), Option.getD_some]
    omega

theorem hex?_hexDigits {width : Nat} (hpos : 0 < width) (hp : p.value < 16 ^ width) :
    hex? width (hexDigits width p.value ++ cs) = some (p, cs) := by
  have hlen := length_hexDigits width p.value
  have htake : (hexDigits width p.value ++ cs).take width = hexDigits width p.value :=
    List.take_left' hlen
  have hdrop : (hexDigits width p.value ++ cs).drop width = cs := List.drop_left' hlen
  have hne : hexDigits width p.value ≠ [] := fun h => by
    rw [h] at hlen
    exact Nat.ne_of_lt hpos hlen
  have hall : (hexDigits width p.value).all isHexDigit = true :=
    List.all_eq_true.mpr (isHexDigit_hexDigits width _)
  rw [hex?, htake, hdrop, if_pos hlen]
  simp [Literal.pointOfHex?, hne, hall, ofDigits_hexDigits width hp, p.le_max]

/-- **An escape by number is read as its code point.** -/
theorem exists_escapeNumber (p : CodePoint) : ∃ es, escapeNumber p.value = '\\' :: es ∧
    ∀ cs, escape? (es ++ cs) = some (p, cs) := by
  have hmax := p.le_max
  unfold escapeNumber
  split
  · exact ⟨_, rfl, fun cs => hex?_hexDigits (by decide) (by omega)⟩
  · split
    · exact ⟨_, rfl, fun cs => hex?_hexDigits (by decide) (by omega)⟩
    · exact ⟨_, rfl, fun cs => hex?_hexDigits (by decide) (by omega)⟩

/-- Lone surrogates are not printable. -/
theorem exists_toChar? (h : isPrintable p = true) : ∃ c, p.toChar? = some c := by
  have hvalid : p.value.isValidChar := by
    have hmax := p.le_max
    by_contra hv
    have hsurrogate : 0xd800 ≤ p.value ∧ p.value ≤ 0xdfff := by
      unfold Nat.isValidChar at hv
      omega
    have hcovers : covers hiddenRanges p.value = true :=
      covers_iff.mpr ⟨(0xd7fc, 0xf8ff), by decide +kernel, by omega, by omega⟩
    rw [isPrintable, if_neg (by omega), hcovers] at h
    cases h
  exact ⟨_, dif_pos hvalid⟩

theorem char_ne_escape (mark : QuoteMark) : mark.char ≠ '\\' := by
  cases mark <;> decide

/-- **What stands for a code point**: an escape of it, or the character itself. -/
theorem quotePoint_cases (mark : QuoteMark) (p : CodePoint) :
    (∃ es, quotePoint mark p = '\\' :: es ∧ ∀ cs, escape? (es ++ cs) = some (p, cs)) ∨
    ∃ c, quotePoint mark p = [c] ∧ .ofChar c = p ∧ c ≠ mark.char ∧ c ≠ '\\' ∧
      ¬ (c = '\n' ∨ c = '\r' ∨ c = '\x00') := by
  unfold quotePoint
  by_cases hmark : p = .ofChar mark.char
  · rw [if_pos hmark]
    exact .inl ⟨[mark.char], rfl, fun cs => by rw [hmark]; cases mark <;> rfl⟩
  by_cases hbackslash : p = .ofChar '\\'
  · rw [if_neg hmark, if_pos hbackslash]
    exact .inl ⟨['\\'], rfl, fun cs => by rw [hbackslash]; rfl⟩
  by_cases hnewline : p = .ofChar '\n'
  · rw [if_neg hmark, if_neg hbackslash, if_pos hnewline]
    exact .inl ⟨['n'], rfl, fun cs => by rw [hnewline]; rfl⟩
  by_cases hreturn : p = .ofChar '\r'
  · rw [if_neg hmark, if_neg hbackslash, if_neg hnewline, if_pos hreturn]
    exact .inl ⟨['r'], rfl, fun cs => by rw [hreturn]; rfl⟩
  by_cases htab : p = .ofChar '\t'
  · rw [if_neg hmark, if_neg hbackslash, if_neg hnewline, if_neg hreturn, if_pos htab]
    exact .inl ⟨['t'], rfl, fun cs => by rw [htab]; rfl⟩
  rw [if_neg hmark, if_neg hbackslash, if_neg hnewline, if_neg hreturn, if_neg htab]
  split
  · rename_i hprintable
    obtain ⟨c, hc⟩ := exists_toChar? hprintable
    obtain rfl := CodePoint.ofChar_of_toChar? hc
    have hne : ∀ {d}, CodePoint.ofChar c ≠ .ofChar d → c ≠ d := fun h hcd => h (hcd ▸ rfl)
    have hzero : c ≠ '\x00' := by
      rintro rfl
      exact absurd hprintable (by decide)
    refine .inr ⟨c, by rw [hc]; rfl, rfl, hne hmark, hne hbackslash, ?_⟩
    rintro (h | h | h)
    · exact hne hnewline h
    · exact hne hreturn h
    · exact hzero h
  · exact .inl (exists_escapeNumber p)

/-- **What stands for a code point is read as that code point.** -/
theorem inside?_quotePoint (mark : QuoteMark) :
    inside? mark.char (steps + 1) (quotePoint mark p ++ cs) =
      (inside? mark.char steps cs).map fun (ps, rest) => (p :: ps, rest) := by
  obtain ⟨es, hes, he⟩ | ⟨c, hc, rfl, hmark, hbackslash, hend⟩ := quotePoint_cases mark p
  · rw [hes, List.cons_append, inside?, if_neg (char_ne_escape mark).symm, if_neg (by decide),
      if_pos rfl, he]
    rfl
  · rw [hc, List.singleton_append, inside?, if_neg hmark, if_neg hend, if_neg hbackslash]

theorem inside?_quoted (mark : QuoteMark) (hs : ps.length < steps) :
    inside? mark.char steps (ps.flatMap (quotePoint mark) ++ mark.char :: rest) =
      some (ps, rest) := by
  induction ps generalizing steps with
  | nil =>
    obtain ⟨steps, rfl⟩ := Nat.exists_eq_succ_of_ne_zero (Nat.ne_of_gt hs)
    rw [List.flatMap_nil, List.nil_append, inside?, if_pos rfl]
  | cons p ps ih =>
    obtain ⟨steps, rfl⟩ := Nat.exists_eq_succ_of_ne_zero (Nat.ne_of_gt (Nat.zero_lt_of_lt hs))
    rw [List.flatMap_cons, List.append_assoc, inside?_quotePoint,
      ih (Nat.lt_of_succ_lt_succ hs)]
    rfl

theorem quotePoint_ne_nil (mark : QuoteMark) (p : CodePoint) : quotePoint mark p ≠ [] := by
  intro h
  have hread := @inside?_quotePoint 1 p [mark.char] mark
  rw [h] at hread
  simp [inside?] at hread

theorem length_le_quoted (mark : QuoteMark) (ps : List CodePoint) :
    ps.length ≤ (ps.flatMap (quotePoint mark)).length := by
  induction ps with
  | nil => exact Nat.le_refl _
  | cons p ps ih =>
    have := List.length_pos_iff.mpr (quotePoint_ne_nil mark p)
    rw [List.flatMap_cons, List.length_append, List.length_cons]
    omega

/-- **A text between quotes is one token**, if no quote follows. -/
theorem lexes_text (ps : List CodePoint) (hrest : Detached rest) :
    Lexes (quotePoints ps).toList [text ps] rest := by
  unfold quotePoints
  generalize markFor ps = mark
  dsimp only
  rw [String.toList_ofList, List.cons_append]
  have hquote : isQuote mark.char = true := by cases mark <;> rfl
  have hspace : isSpace mark.char = false ∧ mark.char.isDigit = false := by cases mark <;> decide
  have hread : ∀ steps, ps.length < steps →
      inside? mark.char steps (ps.flatMap (quotePoint mark) ++ mark.char :: rest) =
        some (ps, rest) := fun steps hs => inside?_quoted mark hs
  -- two quotes at the start would end an empty text and open another one
  have hthree : ¬ [mark.char, mark.char].isPrefixOf
      (ps.flatMap (quotePoint mark) ++ mark.char :: rest) = true := by
    intro h
    obtain ⟨r, hr⟩ := List.isPrefixOf_iff_prefix.mp h
    have hempty := hread (ps.length + 1) (Nat.lt_succ_self _)
    rw [← hr, List.cons_append, inside?, if_pos rfl, Option.some.injEq, Prod.mk.injEq] at hempty
    have := (hrest mark.char (by rw [← hempty.2]; rfl)).2
    rw [hquote] at this
    cases this
  refine .of_next hspace.1 ?_
  have hlen := length_le_quoted mark ps
  rw [List.cons_append, List.append_assoc, List.singleton_append, next?,
    if_neg (by simp [hspace.2]), if_pos hquote, text?, if_neg hthree, hread _ (by
      rw [List.length_append]
      omega)]
  rfl

end Texts

/-! ## Words and operators -/

section Words

variable {c : Char} {rest : List Char}

/-- **A word is one token**, if no word and no quote follows. -/
theorem lexes_word {w : String} (hw : ∀ c ∈ w.toList, isWord c = true)
    (hstart : ∃ c cs, w.toList = c :: cs ∧ c.isDigit = false) (hrest : Detached rest) :
    Lexes w.toList [word w] rest := by
  obtain ⟨c, cs, hcs, hdigit⟩ := hstart
  obtain ⟨ht, hd⟩ := takeWhile_run hw fun c hc => (hrest c hc).1
  have hnone : ¬ (rest.head?.any isQuote) = true := by
    cases hc : rest.head? with
    | none => simp
    | some c => simp [(hrest c hc).2]
  have hc : isWord c = true := hw c (hcs ▸ List.mem_cons_self)
  have hquote : isQuote c = false := by
    cases hq : isQuote c with
    | false => rfl
    | true =>
      simp only [isQuote, Bool.or_eq_true, beq_iff_eq] at hq
      rcases hq with rfl | rfl <;> exact absurd hc (by decide)
  have hspace : isSpace c = false := by
    cases hs : isSpace c with
    | false => rfl
    | true =>
      simp only [isSpace, Bool.or_eq_true, beq_iff_eq] at hs
      rcases hs with (rfl | rfl) | rfl <;> exact absurd hc (by decide)
  have hword : word? (w.toList ++ rest) = some (word w, rest) := by
    rw [word?, ht, hd, if_neg hnone, String.ofList_toList]
  rw [hcs] at hword ⊢
  refine .of_next hspace ?_
  rw [List.cons_append, next?, if_neg (by simp [hdigit]), if_neg (by simp [hquote]), if_pos hc]
  exact hword

/-- The characters that make an operator the start of a longer one. -/
def continuations (o : String) : List Char :=
  operators.filterMap fun o' => if o.toList.isPrefixOf o'.toList then o'.toList[o.length]? else none

/-- Each operator is the first one in the list that fits it. -/
theorem find?_operator : ∀ o ∈ operators,
    operators.find? (fun o' => o'.toList.isPrefixOf o.toList) = some o := by
  decide +kernel

theorem operator_start : ∀ o ∈ operators, ∃ c cs, o.toList = c :: cs ∧ c.isDigit = false ∧
    isQuote c = false ∧ isWord c = false ∧ isSpace c = false := by
  have hall : operators.all fun o => o.toList.head?.any fun c =>
      !c.isDigit && !isQuote c && !isWord c && !isSpace c := by decide +kernel
  intro o ho
  have h := List.all_eq_true.mp hall o ho
  cases hcs : o.toList with
  | nil => rw [hcs] at h; cases h
  | cons c cs =>
    rw [hcs] at h
    simp only [List.head?_cons, Option.any_some, Bool.and_eq_true, Bool.not_eq_true'] at h
    exact ⟨c, cs, rfl, h.1.1.1, h.1.1.2, h.1.2, h.2⟩

theorem isPrefixOf_append_iff {o o' : String} (ho' : o' ∈ operators)
    (hrest : ∀ c, rest.head? = some c → c ∉ continuations o) :
    o'.toList.isPrefixOf (o.toList ++ rest) = o'.toList.isPrefixOf o.toList := by
  rw [Bool.eq_iff_iff, List.isPrefixOf_iff_prefix, List.isPrefixOf_iff_prefix]
  refine ⟨fun h => ?_, fun h => h.trans (List.prefix_append _ _)⟩
  rcases List.prefix_or_prefix_of_prefix h (List.prefix_append _ _) with hp | ⟨t, ht⟩
  · exact hp
  · cases t with
    | nil =>
      rw [List.append_nil] at ht
      exact ⟨[], by rw [List.append_nil, ht]⟩
    | cons c t =>
      rw [← ht, List.prefix_append_right_inj] at h
      obtain ⟨r, rfl⟩ := h
      refine absurd ?_ (hrest c rfl)
      refine List.mem_filterMap.mpr ⟨o', ho', ?_⟩
      rw [← ht, if_pos (List.isPrefixOf_iff_prefix.mpr (List.prefix_append _ _)),
        ← String.length_toList, List.getElem?_append_right (Nat.le_refl _), Nat.sub_self]
      rfl

/-- **An operator is one token**, if nothing follows that makes it a longer one. -/
theorem lexes_op {o : String} (ho : o ∈ operators)
    (hrest : ∀ c, rest.head? = some c → c ∉ continuations o) : Lexes o.toList [op o] rest := by
  obtain ⟨c, cs, hcs, hdigit, hquote, hword, hspace⟩ := operator_start o ho
  have hfind : operators.find? (fun o' => o'.toList.isPrefixOf (o.toList ++ rest)) = some o := by
    rw [← find?_operator o ho]
    exact List.find?_congr fun o' ho' => isPrefixOf_append_iff ho' hrest
  have hop : op? (o.toList ++ rest) = some (op o, rest) := by
    rw [op?, hfind, Option.map_some, ← String.length_toList, List.drop_left]
  rw [hcs] at hop ⊢
  refine .of_next hspace ?_
  rw [List.cons_append, next?, if_neg (by simp [hdigit]), if_neg (by simp [hquote]),
    if_neg (by simp [hword])]
  exact hop

end Words

end Stencil.CodeToken
