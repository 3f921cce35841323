import Stencil.Proofs.PatternRoundTrip

/-!
# How far readers go

A reader goes on from its cursor over a part of the text, which it takes from the front. The readers
of expressions and patterns stop right behind their last token, so that white space after it is left
to whatever comes next.

* `Cursor.Past`, `Cursor.Reaches`: a cursor is further on in the same text.
* `Cursor.Ends`: moreover, the character before it is no white space.
* `Cursor.Reads`: a cursor is further on by whole tokens.
* `Expr.Read.Moves`, `Pattern.Read.Moves`: how far the functions of the readers go.
* **`Expr.ends_of_readExpression`**, **`Expr.ends_of_readChain`**, **`Pattern.ends_of_read`**: an
  expression, a chain and a pattern end behind their last token.
-/

namespace Stencil

open Text Expr

/-! ## Cursors -/

namespace Cursor

/-- **What lies between two cursors of one text.** -/
def Past (c : Cursor) (part : List Char) (d : Cursor) : Prop :=
  c.rest = part ++ d.rest ∧ d.position = c.position + part.length

/-- **A cursor is further on in the same text.** -/
def Reaches (c d : Cursor) : Prop := ∃ part, c.Past part d

/-- **A cursor is further on, and the character before it is no white space.** -/
def Ends (c d : Cursor) : Prop := ∃ part last, c.Past (part ++ [last]) d ∧ isBlank last = false

variable {c d e : Cursor} {part more : List Char}

theorem Past.nil (c : Cursor) : c.Past [] c := ⟨rfl, rfl⟩

theorem Past.append (h : c.Past part d) (h' : d.Past more e) : c.Past (part ++ more) e := by
  refine ⟨by rw [h.1, h'.1, List.append_assoc], ?_⟩
  rw [h'.2, h.2, List.length_append, Nat.add_assoc]

theorem Past.split (h : c.Past (part ++ more) e) : ∃ d, c.Past part d ∧ d.Past more e :=
  ⟨⟨c.position + part.length, more ++ e.rest⟩, ⟨by rw [h.1, List.append_assoc], rfl⟩,
    ⟨rfl, by rw [h.2, List.length_append, Nat.add_assoc]⟩⟩

/-- What lies between two cursors that are the same. -/
theorem Past.eq_of_nil (h : c.Past [] d) : d = c := by
  cases c
  cases d
  simp only [Past, List.nil_append, List.length_nil, Nat.add_zero] at h
  rw [h.1, h.2]

theorem Past.position_le (h : c.Past part d) : c.position ≤ d.position := by
  rw [h.2]
  exact Nat.le_add_right _ _

theorem Past.position_lt (h : c.Past part d) (hne : part ≠ []) : c.position < d.position := by
  rw [h.2]
  exact Nat.lt_add_of_pos_right (List.length_pos_iff.mpr hne)

theorem Past.reaches (h : c.Past part d) : c.Reaches d := ⟨part, h⟩

theorem Reaches.position_le (h : c.Reaches d) : c.position ≤ d.position := by
  obtain ⟨part, h⟩ := h
  exact h.position_le

theorem Reaches.refl (c : Cursor) : c.Reaches c := ⟨[], .nil c⟩

theorem Reaches.trans (h : c.Reaches d) (h' : d.Reaches e) : c.Reaches e := by
  obtain ⟨part, h⟩ := h
  obtain ⟨more, h'⟩ := h'
  exact ⟨part ++ more, h.append h'⟩

theorem Reaches.ends (h : c.Reaches d) (h' : d.Ends e) : c.Ends e := by
  obtain ⟨part, h⟩ := h
  obtain ⟨more, last, h', hlast⟩ := h'
  exact ⟨part ++ more, last, by rw [List.append_assoc]; exact h.append h', hlast⟩

theorem Ends.reaches (h : c.Ends d) : c.Reaches d := by
  obtain ⟨part, last, h, -⟩ := h
  exact h.reaches

theorem Ends.trans (h : c.Ends d) (h' : d.Ends e) : c.Ends e := h.reaches.ends h'

theorem Past.length_eq (h : c.Past part d) : c.rest.length = part.length + d.rest.length := by
  rw [h.1, List.length_append]

theorem Reaches.length_le (h : c.Reaches d) : d.rest.length ≤ c.rest.length := by
  obtain ⟨part, h⟩ := h
  rw [h.length_eq]
  exact Nat.le_add_left _ _

theorem Ends.length_lt (h : c.Ends d) : d.rest.length < c.rest.length := by
  obtain ⟨part, last, h, -⟩ := h
  rw [h.length_eq, List.length_append, List.length_singleton]
  omega

/-! ### Marks and runs -/

/-- Going past the front of what is left. -/
theorem past_skip {r : List Char} (h : c.rest = part ++ r) :
    c.Past part (c.skip part.length) ∧ (c.skip part.length).rest = r := by
  have hr : c.rest.drop part.length = r := by rw [h, List.drop_left]
  exact ⟨⟨by rw [skip, hr, h], rfl⟩, hr⟩

/-- Going past a text that the cursor starts with. -/
theorem past_of_startsWith {s : String} (h : c.startsWith s = true) :
    c.Past s.toList (c.skip s.length) := by
  obtain ⟨r, hr⟩ := List.isPrefixOf_iff_prefix.mp h
  rw [← String.length_toList]
  exact (past_skip hr.symm).1

theorem past_skipWhile (c : Cursor) (p : Char → Bool) :
    c.Past (c.rest.takeWhile p) (c.skipWhile p) :=
  ⟨List.takeWhile_append_dropWhile.symm, rfl⟩

theorem reaches_skipBlank (c : Cursor) : c.Reaches c.skipBlank := (c.past_skipWhile _).reaches

end Cursor

/-! ## Lexemes -/

namespace Text

/-- A digit is no white space. -/
theorem isBlank_of_isDigit {c : Char} (h : isDigit c = true) : isBlank c = false := by
  have hall : ∀ z ∈ zeros, ∀ r ∈ blankRanges, r.2 < z ∨ z + 9 < r.1 := by decide +kernel
  rw [isDigit, Option.isSome_iff_exists] at h
  obtain ⟨n, hn⟩ := h
  obtain ⟨z, hz, -⟩ := Option.map_eq_some_iff.mp hn
  have hin := List.find?_some hz
  rw [Bool.and_eq_true, decide_eq_true_eq, decide_eq_true_eq] at hin
  rw [← Bool.not_eq_true]
  intro hb
  obtain ⟨r, hr, hl, hu⟩ := covers_iff.mp hb
  have := hall z (List.mem_of_find?_eq_some hz) r hr
  omega

/-- No white space lies between two visible `ASCII` characters. -/
theorem isBlank_of_between {a b c : Char} (h : (decide (a ≤ c) && decide (c ≤ b)) = true)
    (ha : 0x20 < a.toNat) (hb : b.toNat < 0x85) : isBlank c = false := by
  have hall : ∀ r ∈ blankRanges, r.2 ≤ 0x20 ∨ 0x85 ≤ r.1 := by decide
  rw [Bool.and_eq_true, decide_eq_true_eq, decide_eq_true_eq] at h
  have hl : a.toNat ≤ c.toNat := h.1
  have hu : c.toNat ≤ b.toNat := h.2
  rw [← Bool.not_eq_true]
  intro hblank
  obtain ⟨r, hr, hrl, hru⟩ := covers_iff.mp hblank
  have := hall r hr
  omega

theorem isBlank_of_isHexDigit {c : Char} (h : isHexDigit c = true) : isBlank c = false := by
  unfold isHexDigit hexValue? at h
  split at h
  · exact isBlank_of_between ‹_› (by decide) (by decide)
  · split at h
    · exact isBlank_of_between ‹_› (by decide) (by decide)
    · split at h
      · exact isBlank_of_between ‹_› (by decide) (by decide)
      · cases h

/-- A word character is no white space. -/
theorem isBlank_of_isWord {c : Char} (h : isWord c = true) : isBlank c = false := by
  rw [← Bool.not_eq_true]
  intro hb
  rw [isWord_of_isBlank hb] at h
  cases h

end Text

namespace Expr

/-- **A lexeme is taken from the front of a text**, and does not end in white space. -/
def Takes (cs run rest : List Char) : Prop :=
  cs = run ++ rest ∧ ∃ c, run.getLast? = some c ∧ isBlank c = false

section Takes

variable {cs run rest : List Char} {c : Char}

theorem Takes.append (h : Takes cs run rest) (before : List Char) :
    Takes (before ++ cs) (before ++ run) rest := by
  obtain ⟨rfl, last, hlast, hb⟩ := h
  refine ⟨(List.append_assoc ..).symm, last, ?_, hb⟩
  rw [List.getLast?_append, hlast, Option.some_or]

theorem Takes.cons (h : Takes cs run rest) (c : Char) : Takes (c :: cs) (c :: run) rest :=
  h.append [c]

/-- A run of a class without white space, after a character that is none. -/
theorem takes_run {p : Char → Bool} (hp : ∀ c, p c = true → isBlank c = false)
    (hc : isBlank c = false) (cs : List Char) :
    Takes (c :: cs) (c :: cs.takeWhile p) (cs.dropWhile p) := by
  refine ⟨by rw [List.cons_append, List.takeWhile_append_dropWhile], ?_⟩
  rw [List.getLast?_cons]
  refine ⟨_, rfl, ?_⟩
  cases hlast : (cs.takeWhile p).getLast? with
  | none => exact hc
  | some last =>
    exact hp last (List.all_eq_true.mp List.all_takeWhile last (List.mem_of_getLast? hlast))

/-- A run of a class without white space that takes something. -/
theorem takes_takeWhile {p : Char → Bool} (hp : ∀ c, p c = true → isBlank c = false)
    (h : (cs.takeWhile p).isEmpty = false) : Takes cs (cs.takeWhile p) (cs.dropWhile p) := by
  cases cs with
  | nil => cases h
  | cons c cs =>
    by_cases hc : p c = true
    · rw [List.takeWhile_cons_of_pos hc, List.dropWhile_cons_of_pos hc]
      exact takes_run hp (hp c hc) cs
    · rw [List.takeWhile_cons_of_neg hc] at h
      cases h

theorem isBlank_of_isNumeralPart (c : Char) (h : isNumeralPart c = true) : isBlank c = false := by
  rcases Bool.or_eq_true_iff.mp h with h | h
  · exact isBlank_of_isDigit h
  · rw [eq_of_beq h]
    decide

theorem takes_numeral? (h : numeral? cs = some (run, rest)) : Takes cs run rest := by
  cases cs with
  | nil => cases h
  | cons c cs =>
    rw [numeral?] at h
    split at h
    · cases h
      exact takes_run isBlank_of_isNumeralPart (isBlank_of_isDigit ‹_›) cs
    · cases h

theorem takes_digits? (h : digits? cs = some (run, rest)) : Takes cs run rest := by
  unfold digits? at h
  dsimp only at h
  split at h
  · cases h
  · rename_i hne
    cases h
    exact takes_takeWhile (fun c => isBlank_of_isDigit) (Bool.not_eq_true _ ▸ hne)

theorem takes_exponent? (h : exponent? cs = some (run, rest)) : Takes cs run rest := by
  unfold exponent? at h
  split at h
  · split at h
    · split at h
      · split at h
        · obtain ⟨⟨ds, r⟩, hd, he⟩ := Option.map_eq_some_iff.mp h
          cases he
          exact ((takes_digits? hd).cons _).cons _
        · obtain ⟨⟨ds, r⟩, hd, he⟩ := Option.map_eq_some_iff.mp h
          cases he
          exact (takes_digits? hd).cons _
      · cases h
    · cases h
  · cases h

theorem takes_float? (h : float? cs = some (run, rest)) : Takes cs run rest := by
  rw [float?, Option.bind_eq_bind, Option.bind_eq_some_iff] at h
  obtain ⟨⟨whole, r⟩, hw, h⟩ := h
  obtain ⟨rfl, -⟩ := takes_numeral? hw
  simp only at h
  split at h
  · obtain ⟨⟨fraction, r'⟩, hf, h⟩ := Option.bind_eq_some_iff.mp h
    have hfraction := takes_numeral? hf
    simp only at h
    split at h
    · rename_i exponent r'' he
      cases h
      rw [hfraction.1, List.append_assoc, List.cons_append]
      exact (((takes_exponent? he).append fraction).cons _).append whole
    · cases h
      exact (hfraction.cons _).append whole
  · obtain ⟨⟨exponent, r'⟩, he, h⟩ := Option.bind_eq_some_iff.mp h
    cases h
    exact (takes_exponent? he).append whole

/-- The digits of a base are no white space. -/
theorem isBlank_of_radixPart? {letter : Char} {p : Char → Bool} (h : radixPart? letter = some p)
    (c : Char) (hc : p c = true) : isBlank c = false := by
  have hunder : isBlank '_' = false := by decide
  unfold radixPart? at h
  split at h
  · cases h
    rcases Bool.or_eq_true_iff.mp hc with hc | hc
    · exact isBlank_of_isHexDigit hc
    · rwa [eq_of_beq hc]
  · split at h
    · cases h
      rcases Bool.or_eq_true_iff.mp hc with hc | hc
      · exact isBlank_of_between hc (by decide) (by decide)
      · rwa [eq_of_beq hc]
    · split at h
      · cases h
        simp only [Bool.or_eq_true, beq_iff_eq] at hc
        rcases hc with (rfl | rfl) | rfl <;> decide
      · cases h

theorem takes_radix? (h : radix? cs = some (run, rest)) : Takes cs run rest := by
  unfold radix? at h
  split at h
  · obtain ⟨p, hp, h⟩ := Option.bind_eq_some_iff.mp h
    split at h
    · cases h
    · rename_i hne
      cases h
      have hrun := takes_takeWhile (isBlank_of_radixPart? hp) (Bool.not_eq_true _ ▸ hne)
      exact (hrun.cons _).cons _
  · cases h

theorem takes_int? (h : int? cs = some (run, rest)) : Takes cs run rest := by
  unfold int? at h
  split at h
  · cases h
    exact takes_radix? ‹_›
  · exact takes_numeral? h

theorem takes_closing? {mark : Char} (hm : isBlank mark = false)
    (h : closing? mark cs = some (run, rest)) : Takes cs run rest := by
  fun_induction closing? mark cs generalizing run with
  | case1 => cases h
  | case2 c cs ih =>
    obtain ⟨⟨w, r⟩, hw, he⟩ := Option.map_eq_some_iff.mp h
    cases he
    exact ((ih hw).cons _).cons _
  | case3 c cs _ hc =>
    cases h
    rw [eq_of_beq hc]
    exact ⟨rfl, mark, rfl, hm⟩
  | case4 => cases h
  | case5 c cs _ _ _ ih =>
    obtain ⟨⟨w, r⟩, hw, he⟩ := Option.map_eq_some_iff.mp h
    cases he
    exact (ih hw).cons _

theorem takes_string? (h : string? cs = some (run, rest)) : Takes cs run rest := by
  cases cs with
  | nil => cases h
  | cons c cs =>
    rw [string?] at h
    split at h
    · rename_i hc
      obtain ⟨⟨w, r⟩, hw, he⟩ := Option.map_eq_some_iff.mp h
      cases he
      have hm : isBlank c = false := by
        rcases Bool.or_eq_true_iff.mp hc with hc | hc <;> rw [eq_of_beq hc] <;> decide
      exact (takes_closing? hm hw).cons c
    · cases h

theorem takes_name? (h : name? cs = some (run, rest)) : Takes cs run rest := by
  cases cs with
  | nil => cases h
  | cons c cs =>
    rw [name?] at h
    split at h
    · rename_i hc
      cases h
      exact takes_run (fun c => isBlank_of_isWord) (isBlank_of_isWord (isNameStart_iff.mp hc).1) cs
    · cases h

theorem takes_op? (h : op? cs = some (run, rest)) : Takes cs run rest := by
  have hall : ∀ o ∈ operators, o.toList.getLast?.any (!isBlank ·) = true := by decide
  obtain ⟨o, ho, he⟩ := Option.map_eq_some_iff.mp h
  cases he
  have hstart : o.toList.isPrefixOf cs = true := by simpa using List.find?_some ho
  obtain ⟨r, rfl⟩ := List.isPrefixOf_iff_prefix.mp hstart
  have hany := hall o (List.mem_of_find?_eq_some ho)
  cases hlast : o.toList.getLast? with
  | none => rw [hlast] at hany; cases hany
  | some c =>
    refine ⟨?_, c, hlast, by simpa [hlast] using hany⟩
    rw [← String.length_toList, List.drop_left]

end Takes

/-! ## Tokens -/

namespace TokenKind

/-- The kinds of tokens that mean something. -/
def isSolid : TokenKind → Bool
  | blank | unknown | eof => false
  | _ => true

end TokenKind

theorem append_of_blank? {cs run rest : List Char} (h : blank? cs = some (run, rest)) :
    cs = run ++ rest := by
  unfold blank? at h
  simp only at h
  split at h
  · cases h
  · cases h
    exact List.takeWhile_append_dropWhile.symm

/-- **A token is taken from the front of the text**, and one that means something does not end in
white space. -/
theorem scan_takes (cs : List Char) : cs = (scan cs).text ++ (scan cs).rest ∧
    ((scan cs).kind.isSolid = true → Takes cs (scan cs).text (scan cs).rest) := by
  have hscanned := scanned cs
  generalize scan cs = t at hscanned
  cases hscanned with
  | eof => exact ⟨rfl, fun h => by cases h⟩
  | blank h => exact ⟨append_of_blank? h, fun h => by cases h⟩
  | float h => exact ⟨(takes_float? h).1, fun _ => takes_float? h⟩
  | int h => exact ⟨(takes_int? h).1, fun _ => takes_int? h⟩
  | string h => exact ⟨(takes_string? h).1, fun _ => takes_string? h⟩
  | name h => exact ⟨(takes_name? h).1, fun _ => takes_name? h⟩
  | op h => exact ⟨(takes_op? h).1, fun _ => takes_op? h⟩
  | unknown => exact ⟨rfl, fun h => by cases h⟩

/-! ### Kinds that mean something -/

namespace Token

variable {t : Token}

theorem isSolid_of_isOp {s : String} (h : t.isOp s = true) : t.kind.isSolid = true := by
  rw [isOp, Bool.and_eq_true, decide_eq_true_eq] at h
  rw [h.1]
  rfl

/-- A token is one operator only. -/
theorem isOp_of_ne {o o' : String} (h : t.isOp o = true) (hne : o ≠ o') : t.isOp o' = false := by
  rw [isOp, Bool.and_eq_true, decide_eq_true_eq, decide_eq_true_eq] at h
  rw [isOp, h.2, decide_eq_false fun he => hne (String.toList_inj.mp he), Bool.and_false]

theorem isSolid_of_kind {k : TokenKind} (h : t.kind = k) (hk : k.isSolid = true) :
    t.kind.isSolid = true := by
  rwa [h]

theorem isSolid_of_ofToken {v : Except Failure Literal} (h : Literal.ofToken t = some v) :
    t.kind.isSolid = true := by
  unfold Literal.ofToken at h
  cases hk : t.kind <;> rw [hk] at h <;> first | rfl | cases h

theorem not_op_of_ofToken {v : Except Failure Literal} (h : Literal.ofToken t = some v) :
    t.kind ≠ .op := by
  intro hk
  simp [Literal.ofToken, hk] at h

end Token

end Expr

namespace Cursor

variable {c d e : Cursor} {spaced : Bool}

theorem reaches_token (c : Cursor) : c.Reaches c.token.2 := ⟨_, (scan_takes c.rest).1, rfl⟩

/-- **A token that means something ends where it stops.** -/
theorem ends_token (h : c.token.1.kind.isSolid = true) : c.Ends c.token.2 := by
  obtain ⟨hrest, last, hlast, hb⟩ := (scan_takes c.rest).2 h
  obtain ⟨part, hpart⟩ := List.getLast?_eq_some_iff.mp hlast
  rw [hpart] at hrest
  refine ⟨part, last, ⟨hrest, ?_⟩, hb⟩
  show c.position + (scan c.rest).text.length = _
  rw [hpart]

theorem reaches_peek (c : Cursor) (spaced : Bool) : c.Reaches (c.peek spaced).2 := by
  cases spaced with
  | true => exact c.reaches_skipBlank.trans (reaches_token _)
  | false => exact c.reaches_token

/-- White space is a token of its own. -/
theorem skipBlank_of_kind (h : c.token.1.kind ≠ .blank) : c.skipBlank = c :=
  skipBlank_of_scan rfl h

theorem skipBlank_of_isSolid (h : c.token.1.kind.isSolid = true) : c.skipBlank = c :=
  skipBlank_of_kind fun hk => by
    rw [hk] at h
    cases h

/-- Nothing stands before a token that means something. -/
theorem peek_of_isSolid (h : c.token.1.kind.isSolid = true) : c.peek true = c.token := by
  rw [peek, if_pos rfl, skipBlank_of_isSolid h]

/-! ### Whole tokens -/

/-- **A cursor is further on by whole tokens**, with white space between them. -/
inductive Reads : Cursor → Cursor → Prop
  | one {c : Cursor} : c.skipBlank.token.1.kind.isSolid = true → Reads c c.skipBlank.token.2
  | more {c d : Cursor} : c.skipBlank.token.1.kind.isSolid = true →
      Reads c.skipBlank.token.2 d → Reads c d

/-- A cursor stays, or is further on by whole tokens. -/
def StaysOrReads (c d : Cursor) : Prop := d = c ∨ c.Reads d

/-- Whole tokens end behind the last of them. -/
theorem Reads.ends (h : c.Reads d) : c.Ends d := by
  induction h with
  | one h => exact (reaches_skipBlank _).ends (ends_token h)
  | more h _ ih => exact (reaches_skipBlank _).ends ((ends_token h).trans ih)

theorem Reads.trans (h : c.Reads d) (h' : d.Reads e) : c.Reads e := by
  induction h with
  | one h => exact .more h h'
  | more h _ ih => exact .more h (ih h')

theorem Reads.stays (h : c.Reads d) (h' : d.StaysOrReads e) : c.Reads e := by
  rcases h' with rfl | h'
  · exact h
  · exact h.trans h'

theorem Reads.reaches (h : c.Reads d) : c.Reaches d := h.ends.reaches

theorem Reads.length_lt (h : c.Reads d) : d.rest.length < c.rest.length := h.ends.length_lt

theorem reads_peek (h : (c.peek spaced).1.kind.isSolid = true) : c.Reads (c.peek spaced).2 := by
  cases spaced with
  | true => exact .one h
  | false =>
    have hstart := skipBlank_of_isSolid (c := c) h
    have hone := Reads.one (c := c) (by rwa [hstart])
    rwa [hstart] at hone

theorem reads_token (h : c.token.1.kind.isSolid = true) : c.Reads c.token.2 :=
  @reads_peek c false h

theorem reads_peek_op {o : String} (h : (c.peek spaced).1.isOp o = true) :
    c.Reads (c.peek spaced).2 :=
  reads_peek (Token.isSolid_of_isOp h)

end Cursor

/-! ## Expressions -/

namespace Expr

namespace Read

variable {s d level position : Nat} {spaced : Bool} {closing : Char} {c c' : Cursor}
variable {e left base : Expr} {es : List Expr} {ns : List String}

/-- An operator is a token that means something. -/
theorem isSolid_of_binaryOp? {k : Token} {op : BinaryOp} (h : binaryOp? k = some op) :
    k.kind.isSolid = true := by
  cases hk : k.kind <;>
    first | rfl | simp [binaryOp?, Token.isOp, Token.isKeyword, hk] at h

theorem isSolid_of_unaryOp? {k : Token} {op : UnaryOp} (h : unaryOp? k = some op) :
    k.kind.isSolid = true := by
  cases hk : k.kind <;>
    first | rfl | simp [unaryOp?, Token.isOp, Token.isKeyword, hk] at h

theorem moves_pathRest (h : pathRest s c = .ok (ns, c')) : c.StaysOrReads c' := by
  induction s generalizing c ns with
  | zero => cases h
  | succ s ih =>
    rw [pathRest] at h
    simp only at h
    split at h
    · rename_i hmark
      split at h
      · rename_i hk
        obtain ⟨name, -, h⟩ := Except.bind_ok.mp h
        obtain ⟨⟨parts, c₁⟩, hparts, h⟩ := Except.bind_ok.mp h
        cases h
        have hcolons := Cursor.reads_token (Token.isSolid_of_isOp hmark)
        have hname := hcolons.trans (Cursor.reads_token (Token.isSolid_of_kind hk rfl))
        exact .inr (hname.stays (ih hparts))
      · cases h
    · cases h
      exact .inl rfl

theorem moves_path (h : path s spaced c = .ok (ns, c')) : c.Reads c' := by
  rw [path] at h
  simp only at h
  split at h
  · rename_i hk
    obtain ⟨name, -, h⟩ := Except.bind_ok.mp h
    obtain ⟨⟨parts, c₁⟩, hparts, h⟩ := Except.bind_ok.mp h
    cases h
    exact (Cursor.reads_peek (Token.isSolid_of_kind hk rfl)).stays (moves_pathRest hparts)
  · cases h

/-- **How far the functions of the reader go** in a number of steps: those that read something go on
by whole tokens, those that read on after something may stay. -/
structure Moves (s : Nat) : Prop where
  expression : ∀ {spaced d c e c'}, expression s spaced d c = .ok (e, c') → c.Reads c'
  binary : ∀ {spaced d level c e c'}, binary s spaced d level c = .ok (e, c') → c.Reads c'
  binaryRest : ∀ {spaced d level left c e c'},
    binaryRest s spaced d level left c = .ok (e, c') → c.StaysOrReads c'
  unary : ∀ {spaced d c e c'}, unary s spaced d c = .ok (e, c') → c.Reads c'
  postfixed : ∀ {spaced d c e c'}, postfixed s spaced d c = .ok (e, c') → c.Reads c'
  links : ∀ {spaced d base c e c'}, links s spaced d base c = .ok (e, c') → c.StaysOrReads c'
  primary : ∀ {spaced d c e c'}, primary s spaced d c = .ok (e, c') → c.Reads c'
  parenthesized : ∀ {d position c e c'}, parenthesized s d position c = .ok (e, c') → c.Reads c'
  tupleRest : ∀ {d c es c'}, tupleRest s d c = .ok (es, c') → c.Reads c'
  items : ∀ {spaced d closing c es c'}, (c.peek spaced).1.kind.isSolid = true →
    items s spaced d closing c = .ok (es, c') → c.Reads c'
  itemsRest : ∀ {d closing c es c'}, itemsRest s d closing c = .ok (es, c') → c.Reads c'

section Step

variable (ih : Moves s)
include ih

theorem moves_expression (h : expression (s + 1) spaced d c = .ok (e, c')) : c.Reads c' := by
  rw [expression] at h
  obtain ⟨⟨start, c₁⟩, hstart, h⟩ := Except.bind_ok.mp h
  have hfirst := ih.binary hstart
  simp only at h
  split at h
  · rename_i hop
    obtain ⟨⟨stop, c₂⟩, hstop, h⟩ := Except.bind_ok.mp h
    cases h
    have hsolid : (c₁.peek spaced).1.kind.isSolid = true :=
      (Bool.or_eq_true_iff.mp hop).elim Token.isSolid_of_isOp Token.isSolid_of_isOp
    exact hfirst.trans ((Cursor.reads_peek hsolid).trans (ih.binary hstop))
  · cases h
    exact hfirst

theorem moves_binary (h : binary (s + 1) spaced d level c = .ok (e, c')) : c.Reads c' := by
  rw [binary] at h
  split at h
  · obtain ⟨⟨left, c₁⟩, hleft, h⟩ := Except.bind_ok.mp h
    exact (ih.binary hleft).stays (ih.binaryRest h)
  · exact ih.unary h

theorem moves_binaryRest (h : binaryRest (s + 1) spaced d level left c = .ok (e, c')) :
    c.StaysOrReads c' := by
  rw [binaryRest] at h
  simp only at h
  split at h
  · cases h
    exact .inl rfl
  · rename_i op hop
    obtain ⟨⟨right, c₁⟩, hright, h⟩ := Except.bind_ok.mp h
    have hsolid := isSolid_of_binaryOp? (Option.filter_eq_some_iff.mp hop).1
    exact .inr (((Cursor.reads_peek hsolid).trans (ih.binary hright)).stays (ih.binaryRest h))

theorem moves_unary (h : unary (s + 1) spaced d c = .ok (e, c')) : c.Reads c' := by
  rw [unary] at h
  simp only at h
  split at h
  · rename_i op hop
    obtain ⟨d', -, h⟩ := Except.bind_ok.mp h
    obtain ⟨⟨operand, c₁⟩, hoperand, h⟩ := Except.bind_ok.mp h
    cases h
    exact (Cursor.reads_peek (isSolid_of_unaryOp? hop)).trans (ih.unary hoperand)
  · exact ih.postfixed h

theorem moves_postfixed (h : postfixed (s + 1) spaced d c = .ok (e, c')) : c.Reads c' := by
  rw [postfixed] at h
  obtain ⟨⟨base, c₁⟩, hbase, h⟩ := Except.bind_ok.mp h
  exact (ih.primary hbase).stays (ih.links h)

theorem moves_items (hopening : (c.peek spaced).1.kind.isSolid = true)
    (h : items (s + 1) spaced d closing c = .ok (es, c')) : c.Reads c' := by
  rw [items] at h
  simp only at h
  obtain ⟨d', -, h⟩ := Except.bind_ok.mp h
  exact (Cursor.reads_peek hopening).trans (ih.itemsRest h)

theorem moves_itemsRest (h : itemsRest (s + 1) d closing c = .ok (es, c')) : c.Reads c' := by
  rw [itemsRest] at h
  simp only at h
  split at h
  · cases h
    exact Cursor.reads_peek_op ‹_›
  · obtain ⟨⟨item, c₁⟩, hitem, h⟩ := Except.bind_ok.mp h
    have hi := ih.expression hitem
    simp only at h
    split at h
    · obtain ⟨⟨more, c₂⟩, hmore, h⟩ := Except.bind_ok.mp h
      cases h
      exact hi.trans ((Cursor.reads_peek_op ‹_›).trans (ih.itemsRest hmore))
    · split at h
      · cases h
        exact hi.trans (Cursor.reads_peek_op ‹_›)
      · cases h

theorem moves_tupleRest (h : tupleRest (s + 1) d c = .ok (es, c')) : c.Reads c' := by
  rw [tupleRest] at h
  simp only at h
  split at h
  · have hcomma : c.Reads (c.peek true).2 := Cursor.reads_peek_op ‹_›
    split at h
    · cases h
      exact hcomma.trans (Cursor.reads_peek_op ‹_›)
    · obtain ⟨⟨item, c₁⟩, hitem, h⟩ := Except.bind_ok.mp h
      obtain ⟨⟨more, c₂⟩, hmore, h⟩ := Except.bind_ok.mp h
      cases h
      exact hcomma.trans ((ih.expression hitem).trans (ih.tupleRest hmore))
  · split at h
    · cases h
      exact Cursor.reads_peek_op ‹_›
    · cases h

theorem moves_parenthesized (h : parenthesized (s + 1) d position c = .ok (e, c')) :
    c.Reads c' := by
  rw [parenthesized] at h
  simp only at h
  split at h
  · cases h
    exact Cursor.reads_peek_op ‹_›
  · obtain ⟨⟨first, c₁⟩, hfirst, h⟩ := Except.bind_ok.mp h
    have hf := ih.expression hfirst
    simp only at h
    split at h
    · obtain ⟨⟨more, c₂⟩, hmore, h⟩ := Except.bind_ok.mp h
      cases h
      exact hf.trans (ih.tupleRest hmore)
    · split at h
      · cases h
        exact hf.trans (Cursor.reads_peek_op ‹_›)
      · cases h

theorem moves_links (h : links (s + 1) spaced d base c = .ok (e, c')) : c.StaysOrReads c' := by
  rw [links] at h
  simp only at h
  split at h
  · rename_i hpoint
    split at h
    · rename_i hk
      obtain ⟨name, -, h⟩ := Except.bind_ok.mp h
      have hname := (Cursor.reads_peek_op hpoint).trans
        (Cursor.reads_token (Token.isSolid_of_kind hk rfl))
      split at h
      · rename_i hparen
        obtain ⟨⟨args, c₁⟩, hargs, h⟩ := Except.bind_ok.mp h
        have hitems := ih.items (Token.isSolid_of_isOp hparen) hargs
        exact .inr ((hname.trans hitems).stays (ih.links h))
      · exact .inr (hname.stays (ih.links h))
    · split at h
      · cases h
      · cases h
        exact .inl rfl
  · split at h
    · rename_i hparen
      obtain ⟨⟨args, c₁⟩, hargs, h⟩ := Except.bind_ok.mp h
      exact .inr ((ih.items (Token.isSolid_of_isOp hparen) hargs).stays (ih.links h))
    · split at h
      · rename_i hbracket
        obtain ⟨⟨place, c₁⟩, hplace, h⟩ := Except.bind_ok.mp h
        simp only at h
        split at h
        · have hindex := (Cursor.reads_peek_op hbracket).trans (ih.expression hplace)
          exact .inr ((hindex.trans (Cursor.reads_peek_op ‹_›)).stays (ih.links h))
        · cases h
      · cases h
        exact .inl rfl

theorem moves_primary (h : primary (s + 1) spaced d c = .ok (e, c')) : c.Reads c' := by
  rw [primary] at h
  simp only at h
  split at h
  · rename_i value hvalue
    obtain ⟨v, -, h⟩ := Except.bind_ok.mp h
    cases h
    exact Cursor.reads_peek (Token.isSolid_of_ofToken hvalue)
  · split at h
    · obtain ⟨⟨parts, c₁⟩, hparts, h⟩ := Except.bind_ok.mp h
      cases h
      exact moves_path hparts
    · split at h
      · rename_i hparen
        obtain ⟨d', -, h⟩ := Except.bind_ok.mp h
        exact (Cursor.reads_peek_op hparen).trans (ih.parenthesized h)
      · split at h
        · rename_i hbracket
          obtain ⟨⟨is, c₁⟩, his, h⟩ := Except.bind_ok.mp h
          cases h
          exact ih.items (Token.isSolid_of_isOp hbracket) his
        · split at h <;> cases h

end Step

/-- The functions of the reader go as far as they should in any number of steps. -/
theorem moves : ∀ s, Moves s
  | 0 => by constructor <;> intros <;> contradiction
  | s + 1 => by
    have ih := moves s
    exact ⟨moves_expression ih, moves_binary ih, moves_binaryRest ih, moves_unary ih,
      moves_postfixed ih, moves_links ih, moves_primary ih, moves_parenthesized ih,
      moves_tupleRest ih, moves_items ih, moves_itemsRest ih⟩

end Read

variable {c c' : Cursor} {e : Expr}

/-- **An expression is whole tokens.** -/
theorem reads_of_readExpression (h : readExpression c = .ok (e, c')) : c.Reads c' :=
  (Read.moves _).expression h

/-- **A chain is whole tokens.** -/
theorem reads_of_readChain (h : readChain c = .ok (e, c')) : c.Reads c' := by
  unfold readChain at h
  split at h
  · exact (Read.moves _).primary h
  · exact (Read.moves _).postfixed h

/-- **An expression ends behind its last token.** -/
theorem ends_of_readExpression (h : readExpression c = .ok (e, c')) : c.Ends c' :=
  (reads_of_readExpression h).ends

/-- **A chain ends behind its last token.** -/
theorem ends_of_readChain (h : readChain c = .ok (e, c')) : c.Ends c' := (reads_of_readChain h).ends

theorem ends_of_readPath {ns : List String} (h : readPath c = .ok (ns, c')) : c.Ends c' :=
  (Read.moves_path h).ends

end Expr

/-! ## Patterns -/

namespace Pattern

namespace Read

open Expr.Read

/-- **How far the functions of the reader of patterns go** in a number of steps. -/
structure Moves (s : Nat) : Prop where
  pattern : ∀ {d c p c'}, pattern s d c = .ok (p, c') → c.Reads c'
  alternatives : ∀ {d c ps c'}, alternatives s d c = .ok (ps, c') → c.StaysOrReads c'
  single : ∀ {d c p c'}, single s d c = .ok (p, c') → c.Reads c'
  listed : ∀ {d count rest trailing c l c'}, listed s d count rest trailing c = .ok (l, c') →
    c.Reads c'
  listedEnd : ∀ {d count rest c l c'}, listedEnd s d count rest c = .ok (l, c') → c.Reads c'
  fields : ∀ {d c fs o c'}, fields s d c = .ok (fs, o, c') → c.Reads c'

variable {s d count position : Nat} {rest : Option Nat} {trailing o : Bool} {c c' : Cursor}
variable {p : Pattern} {ps : List Pattern} {fs : List (String × Pattern)} {l : Listed}

theorem moves_negative (h : negative position c = .ok (p, c')) : c.Reads c' := by
  unfold negative at h
  simp only at h
  split at h
  · split at h
    · rename_i v hv
      obtain ⟨v, -, h⟩ := Except.bind_ok.mp h
      cases h
      exact Cursor.reads_peek (Token.isSolid_of_ofToken hv)
    · cases h
  · cases h

section Step

variable (ih : Moves s)
include ih

theorem moves_pattern (h : pattern (s + 1) d c = .ok (p, c')) : c.Reads c' := by
  rw [pattern] at h
  obtain ⟨⟨q, c₁⟩, hfirst, h⟩ := Except.bind_ok.mp h
  obtain ⟨⟨more, c₂⟩, hmore, h⟩ := Except.bind_ok.mp h
  have hq := (ih.single hfirst).stays (ih.alternatives hmore)
  simp only at h
  split at h <;> cases h <;> exact hq

theorem moves_alternatives (h : alternatives (s + 1) d c = .ok (ps, c')) : c.StaysOrReads c' := by
  rw [alternatives] at h
  simp only at h
  split at h
  · rename_i hbar
    obtain ⟨⟨q, c₁⟩, hq, h⟩ := Except.bind_ok.mp h
    obtain ⟨⟨more, c₂⟩, hmore, h⟩ := Except.bind_ok.mp h
    cases h
    exact .inr (((Cursor.reads_peek_op hbar).trans (ih.single hq)).stays (ih.alternatives hmore))
  · cases h
    exact .inl rfl

theorem moves_listed (h : listed (s + 1) d count rest trailing c = .ok (l, c')) : c.Reads c' := by
  rw [listed] at h
  simp only at h
  split at h
  · cases h
    exact Cursor.reads_peek_op ‹_›
  · split at h
    · split at h
      · cases h
      · exact (Cursor.reads_peek_op ‹_›).trans (ih.listedEnd h)
    · obtain ⟨⟨q, c₁⟩, hq, h⟩ := Except.bind_ok.mp h
      obtain ⟨⟨m, c₂⟩, hm, h⟩ := Except.bind_ok.mp h
      cases h
      exact (ih.pattern hq).trans (ih.listedEnd hm)

theorem moves_listedEnd (h : listedEnd (s + 1) d count rest c = .ok (l, c')) : c.Reads c' := by
  rw [listedEnd] at h
  simp only at h
  split at h
  · exact (Cursor.reads_peek_op ‹_›).trans (ih.listed h)
  · split at h
    · cases h
      exact Cursor.reads_peek_op ‹_›
    · cases h

theorem moves_afterPath {parts : List String} (h : afterPath s d position parts c = .ok (p, c')) :
    c.StaysOrReads c' := by
  unfold afterPath at h
  split at h
  · rename_i hparen
    obtain ⟨d', -, h⟩ := Except.bind_ok.mp h
    obtain ⟨⟨m, c₂⟩, hm, h⟩ := Except.bind_ok.mp h
    cases h
    exact .inr ((Cursor.reads_peek_op hparen).trans (ih.listed hm))
  · split at h
    · rename_i hbrace
      obtain ⟨d', -, h⟩ := Except.bind_ok.mp h
      obtain ⟨⟨fs, o, c₂⟩, hfs, h⟩ := Except.bind_ok.mp h
      cases h
      exact .inr ((Cursor.reads_peek_op hbrace).trans (ih.fields hfs))
    · cases h
      exact .inl rfl

theorem moves_single (h : single (s + 1) d c = .ok (p, c')) : c.Reads c' := by
  rw [single] at h
  simp only at h
  split at h
  · rename_i hword
    rw [Bool.and_eq_true, decide_eq_true_eq] at hword
    cases h
    exact Cursor.reads_peek (Token.isSolid_of_kind hword.1 rfl)
  · split at h
    · exact (Cursor.reads_peek_op ‹_›).trans (moves_negative h)
    · split at h
      · rename_i v hv
        obtain ⟨v, -, h⟩ := Except.bind_ok.mp h
        cases h
        exact Cursor.reads_peek (Token.isSolid_of_ofToken hv)
      · split at h
        · rename_i hparen
          obtain ⟨d', -, h⟩ := Except.bind_ok.mp h
          obtain ⟨⟨m, c₁⟩, hm, h⟩ := Except.bind_ok.mp h
          cases h
          exact (Cursor.reads_peek_op hparen).trans (ih.listed hm)
        · split at h
          · obtain ⟨⟨parts, c₁⟩, hparts, h⟩ := Except.bind_ok.mp h
            exact (moves_path hparts).stays (moves_afterPath ih h)
          · cases h

theorem moves_fieldEnd {n : String} (h : fieldEnd s d n p c = .ok (fs, o, c')) : c.Reads c' := by
  unfold fieldEnd at h
  split at h
  · rename_i hcomma
    obtain ⟨⟨more, o', c₁⟩, hmore, h⟩ := Except.bind_ok.mp h
    cases h
    exact (Cursor.reads_peek_op hcomma).trans (ih.fields hmore)
  · split at h
    · cases h
      exact Cursor.reads_peek_op ‹_›
    · cases h

theorem moves_fields (h : fields (s + 1) d c = .ok (fs, o, c')) : c.Reads c' := by
  rw [fields] at h
  simp only at h
  split at h
  · cases h
    exact Cursor.reads_peek_op ‹_›
  · split at h
    · have hrest : c.Reads (c.peek true).2 := Cursor.reads_peek_op ‹_›
      split at h
      · cases h
        exact hrest.trans (Cursor.reads_peek_op ‹_›)
      · cases h
    · split at h
      · rename_i hk
        have hname := Cursor.reads_peek (Token.isSolid_of_kind hk rfl)
        obtain ⟨n, -, h⟩ := Except.bind_ok.mp h
        split at h
        · rename_i hcolon
          obtain ⟨⟨q, c₁⟩, hq, h⟩ := Except.bind_ok.mp h
          have hvalue := (Cursor.reads_peek_op hcolon).trans (ih.pattern hq)
          exact hname.trans (hvalue.trans (moves_fieldEnd ih h))
        · exact hname.trans (moves_fieldEnd (p := .binding (c.peek true).1.position n) ih h)
      · cases h

end Step

/-- The functions of the reader go as far as they should in any number of steps. -/
theorem moves : ∀ s, Moves s
  | 0 => by constructor <;> intros <;> contradiction
  | s + 1 => by
    have ih := moves s
    exact ⟨moves_pattern ih, moves_alternatives ih, moves_single ih, moves_listed ih,
      moves_listedEnd ih, moves_fields ih⟩

end Read

variable {c c' : Cursor} {p : Pattern}

/-- **A pattern is whole tokens.** -/
theorem reads_of_read (h : Pattern.read c = .ok (p, c')) : c.Reads c' := (Read.moves _).pattern h

/-- **A pattern ends behind its last token.** -/
theorem ends_of_read (h : Pattern.read c = .ok (p, c')) : c.Ends c' := (reads_of_read h).ends

end Pattern

end Stencil
