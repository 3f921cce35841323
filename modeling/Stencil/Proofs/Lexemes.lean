import Stencil.Expr.Parser

/-!
# Printed tokens

What is printed for a token is read as that token: a space or the end stands after it, or something
else that is no part of it.

* `Apart`: a space or the end.
* `Parted`: something else that no word, number or path goes on with.
* `Expr.Scanned`: the class that a token comes from.
* `Expr.IsName`: the words that can be names.
* `Expr.scan_name`, `Expr.scan_digits`: printed tokens.
* `Cursor.peek_space`: the next token after a space.
-/

namespace Stencil

open Text

/-- A space or the end of the text. -/
def Apart (cs : List Char) : Prop := cs = [] ∨ ∃ r, cs = ' ' :: r

/-- No word goes on at the start of the text. -/
def Wordless (cs : List Char) : Prop := ∀ c, cs.head? = some c → isWord c = false

theorem Apart.space (cs : List Char) : Apart (' ' :: cs) := .inr ⟨cs, rfl⟩

theorem Apart.wordless {cs : List Char} (h : Apart cs) : Wordless cs := by
  rcases h with rfl | ⟨r, rfl⟩
  · intro c hc
    cases hc
  · intro c hc
    cases hc
    decide

/-- **What may stand directly behind a word, a number or a path**: nothing that goes on with it. -/
structure Parted (cs : List Char) : Prop where
  wordless : Wordless cs
  no_point : cs.head? ≠ some '.'
  no_colon : cs.head? ≠ some ':'

theorem Apart.parted {cs : List Char} (h : Apart cs) : Parted cs := by
  rcases h with rfl | ⟨r, rfl⟩ <;> exact ⟨Apart.wordless (by simp [Apart]), by simp, by simp⟩

theorem Parted.space (cs : List Char) : Parted (' ' :: cs) := (Apart.space cs).parted

theorem Parted.cons {c : Char} (h : isWord c = false) (hpoint : c ≠ '.') (hcolon : c ≠ ':')
    (cs : List Char) : Parted (c :: cs) :=
  ⟨fun d hd => by cases hd; exact h, by simpa using hpoint, by simpa using hcolon⟩

namespace Text

/-- White space is no part of a word. -/
theorem isWord_of_isBlank {c : Char} (h : isBlank c = true) : isWord c = false := by
  have hall : ∀ r ∈ blankRanges, ∀ k ∈ List.range (r.2 - r.1 + 1),
      isWord (Char.ofNat (r.1 + k)) = false := by decide +kernel
  obtain ⟨r, hr, hl, hu⟩ := covers_iff.mp h
  have := hall r hr (c.toNat - r.1) (List.mem_range.mpr (by omega))
  rwa [Nat.add_sub_cancel' hl, Char.ofNat_toNat] at this

/-- A digit is part of a word. -/
theorem isWord_of_digit {c : Char} (h : isDigit c = true) : isWord c = true := by
  have hall : (zeros.all fun z => z == 0x30 ||
      Nat.ble 0x80 z && wordRanges.any fun r => Nat.ble r.1 z && Nat.ble (z + 9) r.2) = true := by
    decide +kernel
  rw [isDigit, Option.isSome_iff_exists] at h
  obtain ⟨n, hn⟩ := h
  obtain ⟨z, hz, -⟩ := Option.map_eq_some_iff.mp hn
  have hin := List.find?_some hz
  rw [Bool.and_eq_true, decide_eq_true_eq, decide_eq_true_eq] at hin
  have hzero := List.all_eq_true.mp hall z (List.mem_of_find?_eq_some hz)
  simp only [Bool.or_eq_true, Bool.and_eq_true, beq_iff_eq, List.any_eq_true, Nat.ble_eq] at hzero
  rcases hzero with rfl | ⟨hz, r, hr, hl, hu⟩
  · refine isWord_of_isAlphanum ?_
    have hdigit : c.isDigit = true := by
      simp only [Char.isDigit, Bool.and_eq_true, decide_eq_true_eq]
      exact hin
    rw [Char.isAlphanum, hdigit, Bool.or_true]
  · have hcover : covers wordRanges c.toNat = true :=
      covers_iff.mpr ⟨r, hr, Nat.le_trans hl hin.1, Nat.le_trans hin.2 hu⟩
    simp [isWord, hcover, Nat.le_trans hz hin.1]

/-! ## Digits -/

/-- The characters of digits in a base. -/
theorem mem_toDigits {b n : Nat} (hb : 1 < b) {c : Char} (h : c ∈ Nat.toDigits b n) :
    ∃ d < b, c = d.digitChar := by
  induction n using Nat.strongRecOn with
  | ind n ih =>
    rw [Nat.toDigits_eq_if hb] at h
    split at h
    · rw [List.mem_singleton] at h
      exact ⟨n, ‹_›, h⟩
    · rcases List.mem_append.mp h with h | h
      · exact ih (n / b) (Nat.div_lt_self (by omega) hb) h
      · rw [List.mem_singleton] at h
        exact ⟨n % b, Nat.mod_lt _ (by omega), h⟩

theorem ofDigits_append (b : Nat) (ds es : List Nat) :
    ofDigits b (ds ++ es) = es.foldl (fun n d => n * b + d) (ofDigits b ds) := List.foldl_append

/-- **Digits write their number** in every base in which the value of each is known. -/
theorem ofDigits_toDigits {b : Nat} (hb : 1 < b) {value : Char → Nat}
    (hv : ∀ d < b, value d.digitChar = d) (n : Nat) :
    ofDigits b ((Nat.toDigits b n).map value) = n := by
  induction n using Nat.strongRecOn with
  | ind n ih =>
    rw [Nat.toDigits_eq_if hb]
    split
    · rw [List.map_singleton, hv n ‹_›]
      simp [ofDigits]
    · rw [List.map_append, ofDigits_append, ih (n / b) (Nat.div_lt_self (by omega) hb)]
      simp only [List.map_cons, List.map_nil, List.foldl_cons, List.foldl_nil]
      rw [hv _ (Nat.mod_lt _ (by omega)), Nat.mul_comm]
      exact Nat.div_add_mod n b

theorem digitValue?_digitChar {d : Nat} (h : d < 10) : digitValue? d.digitChar = some d := by
  revert d
  decide

theorem hexValue?_digitChar {d : Nat} (h : d < 16) : hexValue? d.digitChar = some d := by
  revert d
  decide

theorem isDigit_of_mem_toDigits {n : Nat} {c : Char} (h : c ∈ Nat.toDigits 10 n) :
    isDigit c = true := by
  obtain ⟨d, hd, rfl⟩ := mem_toDigits (by decide) h
  rw [isDigit, digitValue?_digitChar hd]
  rfl

theorem decimalOf_toDigits (n : Nat) : decimalOf (Nat.toDigits 10 n) = n :=
  ofDigits_toDigits (by decide) (fun d hd => by rw [digitValue?_digitChar hd]; rfl) n

end Text

/-- The first run of a class that ends where the text goes on with something else. -/
theorem takeWhile_run {p : Char → Bool} {run rest : List Char} (hrun : ∀ c ∈ run, p c = true)
    (hrest : ∀ c, rest.head? = some c → p c = false) :
    (run ++ rest).takeWhile p = run ∧ (run ++ rest).dropWhile p = rest := by
  induction run with
  | nil =>
    cases rest with
    | nil => exact ⟨rfl, rfl⟩
    | cons c rest =>
      have hc : ¬ p c = true := by simp [hrest c rfl]
      exact ⟨List.takeWhile_cons_of_neg hc, List.dropWhile_cons_of_neg hc⟩
  | cons c run ih =>
    obtain ⟨ht, hd⟩ := ih fun d hd => hrun d (List.mem_cons_of_mem _ hd)
    have hc := hrun c List.mem_cons_self
    rw [List.cons_append, List.takeWhile_cons_of_pos hc, List.dropWhile_cons_of_pos hc, ht, hd]
    exact ⟨rfl, rfl⟩

namespace Expr

/-! ## Tokens -/

/-- **The class that a token comes from.** -/
inductive Scanned : List Char → Scan → Prop
  | eof : Scanned [] ⟨.eof, [], []⟩
  | blank {cs run rest} : blank? cs = some (run, rest) → Scanned cs ⟨.blank, run, rest⟩
  | float {cs run rest} : float? cs = some (run, rest) → Scanned cs ⟨.float, run, rest⟩
  | int {cs run rest} : int? cs = some (run, rest) → Scanned cs ⟨.int, run, rest⟩
  | string {cs run rest} : string? cs = some (run, rest) → Scanned cs ⟨.string, run, rest⟩
  | name {cs run rest} : name? cs = some (run, rest) → Scanned cs ⟨wordKind run, run, rest⟩
  | op {cs run rest} : op? cs = some (run, rest) → Scanned cs ⟨.op, run, rest⟩
  | unknown {c cs} : Scanned (c :: cs) ⟨.unknown, [c], cs⟩

theorem eq_of_scan {sp : Split} {kind : List Char → TokenKind} {t : Scan}
    (h : sp.scan kind = some t) : ∃ run rest, sp = some (run, rest) ∧ t = ⟨kind run, run, rest⟩ := by
  obtain ⟨x, hx, rfl⟩ := Option.map_eq_some_iff.mp h
  exact ⟨x.1, x.2, hx, rfl⟩

/-- **Every token comes from its class.** -/
theorem scanned (cs : List Char) : Scanned cs (scan cs) := by
  cases cs with
  | nil => exact .eof
  | cons c cs =>
    rw [scan]
    generalize hclasses : (Option.or _ _ : Option Scan) = found
    cases found with
    | none => exact .unknown
    | some t =>
      simp only [Option.or_eq_some_iff] at hclasses
      rcases hclasses with ((((ht | ⟨-, ht⟩) | ⟨-, ht⟩) | ⟨-, ht⟩) | ⟨-, ht⟩) | ⟨-, ht⟩ <;>
        obtain ⟨run, rest, hrun, rfl⟩ := eq_of_scan ht
      · exact .blank hrun
      · exact .float hrun
      · exact .int hrun
      · exact .string hrun
      · exact .name hrun
      · exact .op hrun

theorem wordKind_ne_op (run : List Char) : wordKind run ≠ .op := by
  unfold wordKind
  split <;> simp

/-- **Only the class of names gives names.** -/
theorem name?_of_scan {cs : List Char} (h : (scan cs).kind = .name) :
    name? cs = some ((scan cs).text, (scan cs).rest) ∧ wordKind (scan cs).text = .name := by
  have hscanned := scanned cs
  generalize scan cs = t at h hscanned
  cases hscanned with
  | name hrun => exact ⟨hrun, h⟩
  | _ => cases h

/-- **Only the class of operators gives operators.** -/
theorem op?_of_scan {cs : List Char} (h : (scan cs).kind = .op) :
    op? cs = some ((scan cs).text, (scan cs).rest) := by
  have hscanned := scanned cs
  generalize scan cs = t at h hscanned
  cases hscanned with
  | op hrun => exact hrun
  | name => exact absurd h (wordKind_ne_op _)
  | _ => cases h

/-- A closing parenthesis ends no longer operator. -/
theorem scan_close (rest : List Char) : scan (')' :: rest) = ⟨.op, [')'], rest⟩ := rfl

/-- **A name**: a word that is read as one and that is not reserved. -/
structure IsName (n : String) : Prop where
  word : name? n.toList = some (n.toList, [])
  not_keyword : keywords.contains n = false
  not_reserved : isReserved n = false

/-- A word is a word character that is no digit, and more word characters. -/
theorem exists_cons_of_name? {w : List Char} (h : name? w = some (w, [])) :
    ∃ c cs, w = c :: cs ∧ isNameStart c = true ∧ ∀ d ∈ cs, isWord d = true := by
  cases w with
  | nil => cases h
  | cons c cs =>
    rw [name?] at h
    split at h
    · simp only [Option.some.injEq, Prod.mk.injEq, List.cons.injEq, true_and] at h
      refine ⟨c, cs, rfl, ‹_›, fun d hd => ?_⟩
      rw [← h.1] at hd
      exact List.all_eq_true.mp List.all_takeWhile d hd
    · cases h

theorem IsName.exists_cons {n : String} (h : IsName n) :
    ∃ c cs, n.toList = c :: cs ∧ isNameStart c = true ∧ ∀ d ∈ cs, isWord d = true :=
  exists_cons_of_name? h.word

theorem isNameStart_iff {c : Char} :
    isNameStart c = true ↔ isWord c = true ∧ isDigit c = false := by
  simp [isNameStart]

/-- Nothing else starts like a name. -/
theorem scan_of_isNameStart {c : Char} (hc : isNameStart c = true) (cs : List Char) :
    scan (c :: cs) = ⟨wordKind (c :: cs.takeWhile isWord), c :: cs.takeWhile isWord,
      cs.dropWhile isWord⟩ := by
  obtain ⟨hw, hd⟩ := isNameStart_iff.mp hc
  have hb : isBlank c = false := by
    cases h : isBlank c with
    | false => rfl
    | true => rw [isWord_of_isBlank h] at hw; cases hw
  have hnum : numeral? (c :: cs) = none := by simp [numeral?, hd]
  have hzero : c ≠ '0' := by rintro rfl; exact absurd hd (by decide)
  have hradix : radix? (c :: cs) = none := by
    unfold radix?
    split
    · rename_i h
      exact absurd (List.cons.inj h).1 hzero
    · rfl
  have hfloat : float? (c :: cs) = none := by simp [float?, hnum]
  have hstring : string? (c :: cs) = none := by
    have h₁ : c ≠ '"' := by rintro rfl; exact absurd hw (by decide)
    have h₂ : c ≠ '\'' := by rintro rfl; exact absurd hw (by decide)
    simp [string?, h₁, h₂]
  have hblank : blank? (c :: cs) = none := by simp [blank?, hb]
  simp [scan, hblank, hfloat, int?, hradix, hnum, hstring, name?, hc, Split.scan]

/-- **A word that no word character follows.** -/
theorem scan_word {w : List Char} (h : name? w = some (w, [])) {rest : List Char}
    (hrest : Wordless rest) : scan (w ++ rest) = ⟨wordKind w, w, rest⟩ := by
  obtain ⟨c, cs, rfl, hc, hcs⟩ := exists_cons_of_name? h
  obtain ⟨ht, hd⟩ := takeWhile_run hcs hrest
  rw [List.cons_append, scan_of_isNameStart hc, ht, hd]

theorem scan_name {n : String} (h : IsName n) {rest : List Char} (hrest : Wordless rest) :
    scan (n.toList ++ rest) = ⟨.name, n.toList, rest⟩ := by
  have hkind : wordKind n.toList = .name := by
    rw [wordKind, String.ofList_toList, h.not_keyword]
    rfl
  rw [scan_word h.word hrest, hkind]

/-- Words that are no names. -/
theorem scan_keyword {w : String} (h : w ∈ keywords) {rest : List Char} (hrest : Wordless rest) :
    scan (w.toList ++ rest) = ⟨.keyword, w.toList, rest⟩ := by
  have hall : ∀ w ∈ keywords, name? w.toList = some (w.toList, []) ∧
      wordKind w.toList = .keyword := by decide
  rw [scan_word (hall w h).1 hrest, (hall w h).2]

section Digits

variable (n : Nat) {rest : List Char}

theorem numeral?_digits (hrest : Wordless rest) :
    numeral? (Nat.toDigits 10 n ++ rest) = some (Nat.toDigits 10 n, rest) := by
  obtain ⟨c, cs, hn⟩ := List.exists_cons_of_ne_nil (Nat.toDigits_ne_nil (n := n) (b := 10))
  have hdigits : ∀ d ∈ c :: cs, isDigit d = true := fun d hd =>
    isDigit_of_mem_toDigits (n := n) (hn ▸ hd)
  have hparts : ∀ d ∈ cs, isNumeralPart d = true := fun d hd => by
    simp [isNumeralPart, hdigits d (List.mem_cons_of_mem _ hd)]
  have hend : ∀ d, rest.head? = some d → isNumeralPart d = false := by
    intro d hd
    have hword := hrest d hd
    rw [isNumeralPart, Bool.or_eq_false_iff, beq_eq_false_iff_ne]
    refine ⟨?_, fun he => ?_⟩
    · rw [← Bool.not_eq_true]
      intro hdigit
      rw [isWord_of_digit hdigit] at hword
      cases hword
    · rw [he] at hword
      cases hword
  obtain ⟨ht, hd⟩ := takeWhile_run hparts hend
  rw [hn, List.cons_append]
  simp [numeral?, hdigits c List.mem_cons_self, ht, hd]

/-- The letter of a radix is part of a word. -/
theorem isWord_of_radixPart? {letter : Char} {p : Char → Bool} (h : radixPart? letter = some p) :
    isWord letter = true := by
  unfold radixPart? at h
  split at h
  · rename_i hl
    rcases Bool.or_eq_true_iff.mp hl with hl | hl <;> rw [eq_of_beq hl] <;> decide
  · split at h
    · rename_i hl
      rcases Bool.or_eq_true_iff.mp hl with hl | hl <;> rw [eq_of_beq hl] <;> decide
    · split at h
      · rename_i hl
        rcases Bool.or_eq_true_iff.mp hl with hl | hl <;> rw [eq_of_beq hl] <;> decide
      · cases h

/-- Digits name no radix: the letter of one is no digit. -/
theorem radix?_digits (hrest : Wordless rest) : radix? (Nat.toDigits 10 n ++ rest) = none := by
  have hnone : ∀ k < 10, radixPart? (Nat.digitChar k) = none := by decide
  unfold radix?
  split
  · rename_i letter ds he
    have hl : radixPart? letter = none := by
      obtain ⟨c, cs, hn⟩ := List.exists_cons_of_ne_nil (Nat.toDigits_ne_nil (n := n) (b := 10))
      rw [hn, List.cons_append, List.cons.injEq] at he
      cases cs with
      | nil =>
        have hword := hrest letter (by rw [List.nil_append] at he; rw [he.2]; rfl)
        cases hpart : radixPart? letter with
        | none => rfl
        | some p =>
          rw [isWord_of_radixPart? hpart] at hword
          cases hword
      | cons d cs =>
        injection he.2 with he
        have hmem : letter ∈ Nat.toDigits 10 n := by
          rw [hn, ← he]
          simp
        obtain ⟨k, hk, rfl⟩ := mem_toDigits (by decide) hmem
        exact hnone k hk
    simp [hl]
  · rfl

theorem blank?_digits : blank? (Nat.toDigits 10 n ++ rest) = none := by
  have hall : ∀ k < 10, isBlank (Nat.digitChar k) = false := by decide
  obtain ⟨c, cs, hn⟩ := List.exists_cons_of_ne_nil (Nat.toDigits_ne_nil (n := n) (b := 10))
  have hb : isBlank c = false := by
    obtain ⟨k, hk, rfl⟩ := mem_toDigits (n := n) (by decide) (hn ▸ List.mem_cons_self)
    exact hall k hk
  rw [hn, List.cons_append]
  simp [blank?, hb]

/-- An exponent starts like a word. -/
theorem exponent?_of_wordless (hrest : Wordless rest) : exponent? rest = none := by
  unfold exponent?
  split
  · rename_i e cs
    have hword := hrest e rfl
    split
    · rename_i he
      rcases Bool.or_eq_true_iff.mp he with he | he <;> rw [eq_of_beq he] at hword <;> cases hword
    · rfl
  · rfl

/-- **Digits that nothing goes on with.** -/
theorem scan_digits (hrest : Parted rest) :
    scan (Nat.toDigits 10 n ++ rest) = ⟨.int, Nat.toDigits 10 n, rest⟩ := by
  have hnum := numeral?_digits n hrest.wordless
  have hfloat : float? (Nat.toDigits 10 n ++ rest) = none := by
    rw [float?, hnum, Option.bind_eq_bind, Option.bind_some]
    simp only
    split
    · exact absurd rfl hrest.no_point
    · rw [exponent?_of_wordless hrest.wordless]
      rfl
  have hint : int? (Nat.toDigits 10 n ++ rest) = some (Nat.toDigits 10 n, rest) := by
    simp [int?, radix?_digits n hrest.wordless, hnum]
  have hblank : blank? (Nat.toDigits 10 n ++ rest) = none := blank?_digits n
  obtain ⟨c, cs, hn⟩ := List.exists_cons_of_ne_nil (Nat.toDigits_ne_nil (n := n) (b := 10))
  rw [hn, List.cons_append] at hfloat hint hblank ⊢
  simp [scan, hblank, hfloat, hint, Split.scan]

end Digits

end Expr

/-! ## The token at a cursor -/

namespace Cursor

open Stencil.Expr

variable {pos : Nat} {cs w r : List Char} {k : TokenKind}

theorem ofText_zero (text : List Char) : ofText text 0 = ⟨0, text⟩ := by
  rw [ofText, Nat.zero_min, List.drop_zero]

theorem token_of_scan (h : scan cs = ⟨k, w, r⟩) :
    (⟨pos, cs⟩ : Cursor).token = (⟨k, w, pos⟩, ⟨pos + w.length, r⟩) := by
  simp [token, h]

/-- Where no white space stands, none is skipped. -/
theorem skipBlank_of_scan (h : scan cs = ⟨k, w, r⟩) (hk : k ≠ .blank) :
    (⟨pos, cs⟩ : Cursor).skipBlank = ⟨pos, cs⟩ := by
  cases cs with
  | nil => rfl
  | cons c cs =>
    have hb : isBlank c = false := by
      cases hb : isBlank c with
      | false => rfl
      | true =>
        refine absurd ?_ hk
        have : (scan (c :: cs)).kind = .blank := by simp [scan, blank?, hb, Split.scan]
        rw [h] at this
        exact this
    simp [skipBlank, skipWhile, hb]

/-- **The next token**, whether white space may stand before it or not. -/
theorem peek_of_scan (h : scan cs = ⟨k, w, r⟩) (hk : k ≠ .blank) (spaced : Bool) :
    (⟨pos, cs⟩ : Cursor).peek spaced = (⟨k, w, pos⟩, ⟨pos + w.length, r⟩) := by
  cases spaced with
  | false => exact token_of_scan h
  | true =>
    show (skipBlank _).token = _
    rw [skipBlank_of_scan h hk, token_of_scan h]

theorem skipBlank_space :
    (⟨pos, ' ' :: cs⟩ : Cursor).skipBlank = (⟨pos + 1, cs⟩ : Cursor).skipBlank := by
  have hb : isBlank ' ' = true := rfl
  simp [skipBlank, skipWhile, hb, Nat.add_assoc, Nat.add_comm 1]

/-- **The next token after a space.** -/
theorem peek_space (h : scan cs = ⟨k, w, r⟩) (hk : k ≠ .blank) :
    (⟨pos, ' ' :: cs⟩ : Cursor).peek true = (⟨k, w, pos + 1⟩, ⟨pos + 1 + w.length, r⟩) := by
  show (skipBlank _).token = _
  rw [skipBlank_space, skipBlank_of_scan h hk, token_of_scan h]

end Cursor

end Stencil
