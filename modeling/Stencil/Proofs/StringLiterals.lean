import Mathlib.Data.List.Forall2
import Stencil.Proofs.Lexemes
import Stencil.Text.Quoted

/-!
# String literals

Two readers go over a string literal. The one of tokens takes each backslash together with the
character behind it and so finds the closing quote; the one of values goes over the inside in steps
of one, two, four or more characters. They stay aligned: whatever the second one takes at a time is
an inside of its own, so that a character stands behind each backslash that it comes by.

* `Inside`: the insides of string literals; `Literal.Reached`: what is left of one on the way.
* `Literal.Spells`, `Literal.SpellsAll`: the ways of writing a code point and a string.
* `Literal.IsEscapeProblem`: what can be wrong with an escape.
* **`Literal.strings_decoded`**: a string that is written in any way is one token and is read as
  that string, and every token of a string is read or refused at a backslash inside of it.
-/

namespace Stencil

open Text Expr

/-! ## Insides of literals -/

/-- **The inside of a string literal**: no quote of its own kind stands in it except behind a
backslash, and each backslash has its character behind it. -/
inductive Inside (mark : Char) : List Char → Prop
  | nil : Inside mark []
  | plain {c cs} : c ≠ mark → c ≠ '\\' → Inside mark cs → Inside mark (c :: cs)
  | escaped (c) {cs} : Inside mark cs → Inside mark ('\\' :: c :: cs)

namespace Inside

variable {mark c : Char} {cs ds run rest : List Char}

theorem append (h : Inside mark cs) (h' : Inside mark ds) : Inside mark (cs ++ ds) := by
  induction h with
  | nil => exact h'
  | plain hm hb _ ih => exact ih.plain hm hb
  | escaped c _ ih => exact ih.escaped c

theorem of_plain (h : ∀ c ∈ cs, c ≠ mark ∧ c ≠ '\\') : Inside mark cs := by
  induction cs with
  | nil => exact .nil
  | cons c cs ih =>
    obtain ⟨hm, hb⟩ := h c List.mem_cons_self
    exact (ih fun d hd => h d (List.mem_cons_of_mem _ hd)).plain hm hb

theorem tail (hc : c ≠ '\\') (h : Inside mark (c :: cs)) : Inside mark cs := by
  cases h with
  | plain _ _ h => exact h
  | escaped => exact absurd rfl hc

/-- What stands behind characters that are no backslash. -/
theorem drop_plain (hrun : '\\' ∉ run) (h : Inside mark (run ++ cs)) : Inside mark cs := by
  induction run with
  | nil => exact h
  | cons c run ih =>
    rw [List.mem_cons, not_or] at hrun
    exact ih hrun.2 (h.tail (Ne.symm hrun.1))

/-- A character stands behind a backslash. -/
theorem exists_cons (h : Inside mark ('\\' :: cs)) : ∃ c ds, cs = c :: ds ∧ Inside mark ds := by
  cases h with
  | plain _ hb => exact absurd rfl hb
  | escaped c h => exact ⟨c, _, rfl, h⟩

/-- **An inside is taken up to the quote behind it.** -/
theorem closing?_eq (hm : mark ≠ '\\') (h : Inside mark cs) (rest : List Char) :
    closing? mark (cs ++ mark :: rest) = some (cs ++ [mark], rest) := by
  induction h with
  | nil =>
    rw [List.nil_append, closing?]
    · rw [if_pos (beq_self_eq_true mark)]
      rfl
    · exact fun d ds hd => absurd hd hm
  | plain hc hb _ ih =>
    rw [List.cons_append, closing?, ih]
    · rw [if_neg (by simpa using hc), if_neg (by simpa using hb)]
      rfl
    · exact fun d ds hd => absurd hd hb
  | escaped c _ ih =>
    rw [List.cons_append, List.cons_append, closing?, ih]
    rfl

end Inside

/-- **What is taken up to a closing quote is an inside.** -/
theorem exists_inside_of_closing? {mark : Char} {cs run rest : List Char}
    (h : closing? mark cs = some (run, rest)) :
    ∃ inside, Inside mark inside ∧ run = inside ++ [mark] ∧ cs = inside ++ mark :: rest := by
  fun_induction closing? mark cs generalizing run with
  | case1 => cases h
  | case2 c cs ih =>
    obtain ⟨⟨w, r⟩, hw, he⟩ := Option.map_eq_some_iff.mp h
    cases he
    obtain ⟨inside, hinside, rfl, rfl⟩ := ih hw
    exact ⟨'\\' :: c :: inside, hinside.escaped c, rfl, rfl⟩
  | case3 c cs _ hc =>
    cases h
    obtain rfl := eq_of_beq hc
    exact ⟨[], .nil, rfl, rfl⟩
  | case4 => cases h
  | case5 c cs _ hc hback ih =>
    obtain ⟨⟨w, r⟩, hw, he⟩ := Option.map_eq_some_iff.mp h
    cases he
    obtain ⟨inside, hinside, rfl, rfl⟩ := ih hw
    rw [beq_iff_eq] at hc hback
    exact ⟨c :: inside, hinside.plain hc hback, rfl, rfl⟩

/-! ## Literals as tokens -/

namespace Text.QuoteMark

theorem char_ne_backslash (mark : QuoteMark) : mark.char ≠ '\\' := by cases mark <;> decide

theorem isBlank_char (mark : QuoteMark) : isBlank mark.char = false := by cases mark <;> rfl

/-- The characters that are quotes. -/
theorem exists_char {c : Char} (h : (c == '"' || c == '\'') = true) :
    ∃ mark : QuoteMark, c = mark.char := by
  rcases Bool.or_eq_true_iff.mp h with h | h
  · exact ⟨.double, eq_of_beq h⟩
  · exact ⟨.single, eq_of_beq h⟩

theorem beq_char (mark : QuoteMark) : (mark.char == '"' || mark.char == '\'') = true := by
  cases mark <;> rfl

end Text.QuoteMark

namespace Expr

variable {mark : QuoteMark} {cs inside run rest : List Char}

/-- A literal with the given inside. -/
def literalText (mark : QuoteMark) (inside : List Char) : List Char :=
  mark.char :: (inside ++ [mark.char])

theorem literalText_append (mark : QuoteMark) (inside rest : List Char) :
    literalText mark inside ++ rest = mark.char :: (inside ++ mark.char :: rest) := by
  simp [literalText]

/-- **A literal is taken from the front of a text**, whatever follows it. -/
theorem string?_literalText (h : Inside mark.char inside) (rest : List Char) :
    string? (literalText mark inside ++ rest) = some (literalText mark inside, rest) := by
  rw [literalText_append, string?, if_pos mark.beq_char, h.closing?_eq mark.char_ne_backslash]
  rfl

/-- **What is taken as a string is a literal.** -/
theorem exists_literalText (h : string? cs = some (run, rest)) :
    ∃ mark inside, Inside (QuoteMark.char mark) inside ∧ run = literalText mark inside := by
  cases cs with
  | nil => cases h
  | cons c cs =>
    rw [string?] at h
    split at h
    · rename_i hc
      obtain ⟨mark, rfl⟩ := QuoteMark.exists_char hc
      obtain ⟨⟨w, r⟩, hw, he⟩ := Option.map_eq_some_iff.mp h
      cases he
      obtain ⟨inside, hinside, rfl, -⟩ := exists_inside_of_closing? hw
      exact ⟨mark, inside, hinside, rfl⟩
    · cases h

/-- **A literal is one token**, whatever follows it. -/
theorem scan_literalText (h : Inside mark.char inside) (rest : List Char) :
    scan (literalText mark inside ++ rest) = ⟨.string, literalText mark inside, rest⟩ := by
  have hstring := string?_literalText h rest
  have hkinds (r : List Char) : blank? (mark.char :: r) = none ∧ float? (mark.char :: r) = none ∧
      int? (mark.char :: r) = none := by
    cases mark <;> exact ⟨rfl, rfl, rfl⟩
  rw [literalText, List.cons_append] at hstring ⊢
  obtain ⟨hblank, hfloat, hint⟩ := hkinds ((inside ++ [mark.char]) ++ rest)
  simp only [scan, hblank, hfloat, hint, hstring]
  rfl

/-- **Only the class of strings gives strings.** -/
theorem string?_of_kind (h : (scan cs).kind = .string) :
    string? cs = some ((scan cs).text, (scan cs).rest) := by
  have hscanned := scanned cs
  generalize scan cs = t at h hscanned
  cases hscanned with
  | string hrun => exact hrun
  | name =>
    rename_i run rest _
    have hne : wordKind run ≠ .string := by
      unfold wordKind
      split <;> simp
    exact absurd h hne
  | _ => cases h

end Expr

/-! ## Ways of writing a string -/

namespace Text

/-- **Hexadecimal digits**, of either case, **that write a number.** -/
inductive WritesHex : List Char → Nat → Prop
  | nil : WritesHex [] 0
  | snoc {cs n c d} : WritesHex cs n → d < 16 → c = d.digitChar ∨ c = d.digitChar.toUpper →
    WritesHex (cs ++ [c]) (16 * n + d)

variable {cs : List Char} {c : Char} {n d : Nat}

theorem hexValue?_of_digit (hd : d < 16) (hc : c = d.digitChar ∨ c = d.digitChar.toUpper) :
    hexValue? c = some d := by
  have hall : ∀ d < 16, hexValue? d.digitChar.toUpper = some d := by decide
  rcases hc with rfl | rfl
  · exact hexValue?_digitChar hd
  · exact hall d hd

theorem WritesHex.isHexDigit (h : WritesHex cs n) : ∀ c ∈ cs, isHexDigit c = true := by
  induction h with
  | nil => exact fun c hc => by cases hc
  | snoc _ hd hc ih =>
    intro x hx
    rcases List.mem_append.mp hx with hx | hx
    · exact ih x hx
    · rw [List.mem_singleton.mp hx, Text.isHexDigit, hexValue?_of_digit hd hc]
      rfl

theorem WritesHex.ofDigits_eq (h : WritesHex cs n) :
    ofDigits 16 (cs.map fun c => (hexValue? c).getD 0) = n := by
  induction h with
  | nil => rfl
  | snoc _ hd hc ih =>
    rw [List.map_append, ofDigits_append, ih]
    simp only [List.map_cons, List.map_nil, List.foldl_cons, List.foldl_nil,
      hexValue?_of_digit hd hc, Option.getD_some]
    omega

/-- The digits that a number is printed with write it. -/
theorem writesHex_toDigits (n : Nat) : WritesHex (Nat.toDigits 16 n) n := by
  induction n using Nat.strongRecOn with
  | ind n ih =>
    rw [Nat.toDigits_eq_if (by decide)]
    split
    · have h := WritesHex.nil.snoc (d := n) ‹_› (.inl rfl)
      rwa [Nat.mul_zero, Nat.zero_add] at h
    · have h := (ih (n / 16) (by omega)).snoc (Nat.mod_lt n (by decide)) (.inl rfl)
      rwa [Nat.div_add_mod] at h

/-- A hexadecimal digit is no quote, no backslash and no brace. -/
theorem ne_of_isHexDigit (h : isHexDigit c = true) :
    (∀ mark : QuoteMark, c ≠ mark.char) ∧ c ≠ '\\' ∧ c ≠ '\x7d' := by
  refine ⟨fun mark => ?_, ?_, ?_⟩
  · rintro rfl
    cases mark <;> cases h
  · rintro rfl
    cases h
  · rintro rfl
    cases h

end Text

namespace Literal

/-- The letters of the escapes that stand for one character, with that character. -/
def escapes : List (Char × Char) :=
  [('"', '"'), ('\'', '\''), ('\\', '\\'), ('n', '\n'), ('r', '\r'), ('t', '\t'), ('0', '\x00')]

/-- **What a code point may be written as** between the given quotes: a character as itself, unless
it is the quote or a backslash, or one of the escapes. -/
inductive Spells (mark : QuoteMark) : CodePoint → List Char → Prop
  | plain {c} : c ≠ mark.char → c ≠ '\\' → Spells mark (.ofChar c) [c]
  | letter {c d} : (c, d) ∈ escapes → Spells mark (.ofChar d) ['\\', c]
  | byte {p a b} : WritesHex [a, b] p.value → Spells mark p ['\\', 'x', a, b]
  | point {p ds} : ds ≠ [] → WritesHex ds p.value →
    Spells mark p ('\\' :: 'u' :: '\x7b' :: (ds ++ ['\x7d']))

/-- **What a string may be written as** between the given quotes. -/
def SpellsAll (mark : QuoteMark) (s : List CodePoint) (body : List Char) : Prop :=
  ∃ parts, List.Forall₂ (Spells mark) s parts ∧ body = parts.flatten

variable {mark : QuoteMark} {p : CodePoint} {s : List CodePoint} {part body cs rest : List Char}
variable {position steps : Nat}

theorem Spells.inside (h : Spells mark p part) : Inside mark.char part := by
  have hhex {ds : List Char} {n : Nat} (h : WritesHex ds n) : Inside mark.char ds :=
    .of_plain fun c hc =>
      have hne := ne_of_isHexDigit (h.isHexDigit c hc)
      ⟨hne.1 mark, hne.2.1⟩
  cases h with
  | plain hm hb => exact Inside.nil.plain hm hb
  | letter => exact Inside.nil.escaped _
  | byte h => exact (hhex h).escaped 'x'
  | point _ h =>
    have hclose : Inside mark.char ['\x7d'] := .of_plain fun c hc => by
      rw [List.mem_singleton.mp hc]
      cases mark <;> decide
    refine (((hhex h).append hclose).plain ?_ (by decide)).escaped 'u'
    cases mark <;> decide

/-- **What a string is written as is an inside.** -/
theorem SpellsAll.inside (h : SpellsAll mark s body) : Inside mark.char body := by
  obtain ⟨parts, h, rfl⟩ := h
  induction h with
  | nil => exact .nil
  | cons hp _ ih => exact hp.inside.append ih

theorem pointOfHex?_of_writesHex (hne : cs ≠ []) (h : WritesHex cs p.value) :
    pointOfHex? cs = some p := by
  have hall : cs.all isHexDigit = true := List.all_eq_true.mpr h.isHexDigit
  simp [pointOfHex?, hne, hall, h.ofDigits_eq, p.le_max]

/-- An escape is read up to its end. -/
theorem escape_of_spells (h : Spells mark p ('\\' :: part)) :
    escape position (part ++ rest) = .ok (p, rest) := by
  cases h with
  | plain _ hb => exact absurd rfl hb
  | letter h =>
    simp only [escapes, List.mem_cons, Prod.mk.injEq, List.not_mem_nil, or_false] at h
    rcases h with ⟨rfl, rfl⟩ | ⟨rfl, rfl⟩ | ⟨rfl, rfl⟩ | ⟨rfl, rfl⟩ | ⟨rfl, rfl⟩ | ⟨rfl, rfl⟩ |
      ⟨rfl, rfl⟩ <;> rfl
  | byte h =>
    simp only [List.cons_append, List.nil_append, escape,
      pointOfHex?_of_writesHex (List.cons_ne_nil _ _) h]
  | @point _ ds hne h =>
    have hds : ∀ c ∈ ds, (c != '\x7d') = true := fun c hc =>
      bne_iff_ne.mpr (ne_of_isHexDigit (h.isHexDigit c hc)).2.2
    have hclosing : ∀ c, ('\x7d' :: rest).head? = some c → (c != '\x7d') = false := fun c hc => by
      cases hc
      rfl
    obtain ⟨ht, hd⟩ := takeWhile_run hds hclosing
    simp only [List.cons_append, List.append_assoc, List.nil_append, escape, ht, hd,
      pointOfHex?_of_writesHex hne h]

/-- **A written code point is read**, and what follows it after it. -/
theorem unescape_of_spells (h : Spells mark p part)
    (hcs : ∀ position, unescape steps position cs = .ok s) (position : Nat) :
    unescape (steps + 1) position (part ++ cs) = .ok (p :: s) := by
  have hescape {part : List Char} (h : Spells mark p ('\\' :: part)) :
      unescape (steps + 1) position ('\\' :: part ++ cs) = .ok (p :: s) := by
    rw [List.cons_append, unescape, escape_of_spells h]
    show (unescape steps _ cs >>= _) = _
    rw [hcs]
    rfl
  cases h with
  | plain hm hb =>
    rw [List.singleton_append, unescape, hcs]
    · rfl
    · exact hb
  | letter h => exact hescape (.letter h)
  | byte h => exact hescape (.byte h)
  | point hne h => exact hescape (.point hne h)

/-- **A written string is read as that string.** -/
theorem ofString_of_spellsAll (h : SpellsAll mark s body) (position : Nat) :
    ofString position (literalText mark body) = .ok s := by
  have hin : ((literalText mark body).drop 1).dropLast = body := by
    rw [literalText, List.drop_one, List.tail_cons, List.dropLast_concat]
  obtain ⟨parts, h, rfl⟩ := h
  rw [ofString, hin]
  have hread : ∀ steps, parts.flatten.length < steps → ∀ position,
      unescape steps position parts.flatten = .ok s := by
    clear hin
    induction h with
    | nil =>
      intro steps hs position
      obtain ⟨n, rfl⟩ := Nat.exists_eq_succ_of_ne_zero (Nat.ne_of_gt hs)
      rfl
    | @cons p part s parts hp _ ih =>
      intro steps hs position
      obtain ⟨n, rfl⟩ := Nat.exists_eq_succ_of_ne_zero (Nat.ne_of_gt (Nat.zero_lt_of_lt hs))
      have hpart : 0 < part.length := by cases hp <;> simp
      rw [List.flatten_cons, List.length_append] at hs
      rw [List.flatten_cons]
      exact unescape_of_spells hp (fun position => ih n (by omega) position) position
  exact hread _ (Nat.lt_succ_self _) _

/-! ## Reading any literal -/

/-- **What can be wrong with an escape**, by the character behind its backslash. -/
inductive IsEscapeProblem : Char → Problem → Prop
  | byte : IsEscapeProblem 'x' .badHexEscape
  | point : IsEscapeProblem 'u' .badPointEscape
  | unknown {c} : c ∉ escapes.map Prod.fst → IsEscapeProblem c (.unknownEscape c)

/-- **What is left of the inside of a literal where its reader comes by**, from character to
character and from one end of an escape to the next. -/
inductive Reached (inside : List Char) : List Char → Prop
  | start : Reached inside inside
  | plain {c : Char} {cs : List Char} : Reached inside (c :: cs) → c ≠ '\\' → Reached inside cs
  | escaped {position : Nat} {cs rest : List Char} {p : CodePoint} : Reached inside ('\\' :: cs) →
    escape position cs = .ok (p, rest) → Reached inside rest

theorem simpleEscape?_eq_none {c : Char} (h : simpleEscape? c = none) :
    c ∉ escapes.map Prod.fst := by
  intro hc
  have hall : (escapes.map Prod.fst).all (fun c => (simpleEscape? c).isSome) = true := by decide
  have hsome := List.all_eq_true.mp hall c hc
  rw [h] at hsome
  cases hsome

theorem mem_of_pointOfHex? (h : pointOfHex? cs = some p) : ∀ c ∈ cs, isHexDigit c = true := by
  unfold pointOfHex? at h
  split at h
  · cases h
  · rename_i hcs
    rw [Bool.or_eq_true, not_or, Bool.not_eq_true', Bool.not_eq_false] at hcs
    exact List.all_eq_true.mp hcs.2

/-- **What an escape takes**: the character behind the backslash, and nothing behind it that would
be a backslash. -/
theorem exists_of_escape {c : Char} (h : escape position (c :: cs) = .ok (p, rest)) :
    ∃ run, '\\' ∉ run ∧ cs = run ++ rest := by
  have hhex {ds : List Char} {p : CodePoint} (h : pointOfHex? ds = some p) : '\\' ∉ ds :=
    fun hmem => by cases mem_of_pointOfHex? h _ hmem
  unfold escape at h
  split at h
  · rename_i heq
    cases heq
  · rename_i heq
    cases heq
    split at h
    · split at h
      · cases h
        exact ⟨_, hhex ‹_›, rfl⟩
      · cases h
    · cases h
  · rename_i ds heq
    cases heq
    split at h
    · rename_i d _ hpoint hdrop
      cases h
      have hd : (d != '\x7d') = false := by
        have hhead := List.head?_dropWhile_not (· != '\x7d') ds
        rw [hdrop] at hhead
        simpa using hhead
      have hbrace : d = '\x7d' := by simpa using hd
      refine ⟨'\x7b' :: (ds.takeWhile (· != '\x7d') ++ [d]), ?_, ?_⟩
      · rw [List.mem_cons, List.mem_append, List.mem_singleton, hbrace]
        rintro (h | h | h)
        · cases h
        · exact hhex hpoint h
        · cases h
      · rw [List.cons_append, List.append_assoc, List.singleton_append, ← hdrop,
          List.takeWhile_append_dropWhile]
    · cases h
  · rename_i heq
    cases heq
    split at h
    · cases h
      exact ⟨[], List.not_mem_nil, rfl⟩
    · cases h

/-- An escape that is refused is refused for what it is. -/
theorem escape_refused {c : Char} {f : Failure} (h : escape position (c :: cs) = .error f) :
    ∃ q, IsEscapeProblem c q ∧ f = .at q position := by
  unfold escape at h
  split at h
  · rename_i heq
    cases heq
  · rename_i heq
    cases heq
    split at h
    · split at h
      · cases h
      · cases h
        exact ⟨_, .byte, rfl⟩
    · cases h
      exact ⟨_, .byte, rfl⟩
  · rename_i heq
    cases heq
    split at h
    · cases h
    · cases h
      exact ⟨_, .point, rfl⟩
  · rename_i heq
    cases heq
    split at h
    · cases h
    · cases h
      exact ⟨_, .unknown (simpleEscape?_eq_none ‹_›), rfl⟩

/-- **The two readers stay aligned**: what is left of an inside is one. -/
theorem Reached.inside {mark : Char} {inside : List Char} (h : Reached inside cs)
    (hinside : Inside mark inside) : Inside mark cs := by
  induction h with
  | start => exact hinside
  | plain _ hc ih => exact ih.tail hc
  | escaped _ hescape ih =>
    obtain ⟨c, ds, rfl, hds⟩ := ih.exists_cons
    obtain ⟨run, hrun, rfl⟩ := exists_of_escape hescape
    exact hds.drop_plain hrun

/-- **An inside is read, or refused at one of its backslashes.** -/
theorem unescape_cases {mark : Char} (h : Inside mark cs) (hs : cs.length < steps) :
    (∃ s, unescape steps position cs = .ok s) ∨
      ∃ i c q, cs[i]? = some '\\' ∧ cs[i + 1]? = some c ∧ IsEscapeProblem c q ∧
        unescape steps position cs = .error (.at q (position + i)) := by
  -- What is read behind some characters, where they are read.
  have hbehind (before : List Char) {cs : List Char} {x : Except Failure (List CodePoint)}
      {position position' : Nat} {p : CodePoint} (hposition : position' = position + before.length)
      (ih : (∃ s, x = .ok s) ∨ ∃ i c q, cs[i]? = some '\\' ∧ cs[i + 1]? = some c ∧
        IsEscapeProblem c q ∧ x = .error (.at q (position' + i))) :
      (∃ s, (x >>= fun s => pure (p :: s)) = .ok s) ∨
        ∃ i c q, (before ++ cs)[i]? = some '\\' ∧ (before ++ cs)[i + 1]? = some c ∧
          IsEscapeProblem c q ∧
            (x >>= fun s => pure (p :: s)) = .error (.at q (position + i)) := by
    rcases ih with ⟨s, rfl⟩ | ⟨i, c, q, hi, hc, hq, rfl⟩
    · exact .inl ⟨_, rfl⟩
    · refine .inr ⟨before.length + i, c, q, ?_, ?_, hq, ?_⟩
      · rw [List.getElem?_append_right (Nat.le_add_right _ _), Nat.add_sub_cancel_left, hi]
      · rw [Nat.add_assoc, List.getElem?_append_right (Nat.le_add_right _ _),
          Nat.add_sub_cancel_left, hc]
      · rw [hposition, Nat.add_assoc]
        rfl
  induction steps generalizing cs position with
  | zero => cases hs
  | succ steps ih =>
    cases h with
    | nil => exact .inl ⟨[], rfl⟩
    | @plain c cs _ hb h =>
      rw [unescape]
      · exact hbehind [c] rfl (ih h (Nat.lt_of_succ_lt_succ hs))
      · exact hb
    | @escaped c cs h =>
      rw [unescape]
      cases hescape : escape position (c :: cs) with
      | error f =>
        obtain ⟨q, hq, rfl⟩ := escape_refused hescape
        exact .inr ⟨0, c, q, rfl, rfl, hq, rfl⟩
      | ok x =>
        obtain ⟨p, rest⟩ := x
        obtain ⟨run, hrun, rfl⟩ := exists_of_escape hescape
        simp only [List.length_cons, List.length_append] at hs
        exact hbehind ('\\' :: c :: run)
          (by simp only [List.length_cons, List.length_append]; omega)
          (ih (h.drop_plain hrun) (by omega))

/-- **Strings are read as they are written.** A string that is written between quotes of either kind,
each code point as itself or as an escape, is one token up to its closing quote, whatever follows,
and is read as that string. Of every token of a string, the reader comes by no backslash without a
character behind it, and the token is read or refused for an escape inside of it. -/
theorem strings_decoded :
    (∀ (mark : QuoteMark) (s : List CodePoint) (body rest : List Char) (position : Nat),
      SpellsAll mark s body →
      (⟨position, mark.char :: (body ++ mark.char :: rest)⟩ : Cursor).token =
        (⟨.string, mark.char :: (body ++ [mark.char]), position⟩,
          ⟨position + (body.length + 2), rest⟩) ∧
      ofString position (mark.char :: (body ++ [mark.char])) = .ok s) ∧
    ∀ c : Cursor, c.token.1.kind = .string → ∃ (mark : QuoteMark) (inside : List Char),
      c.token.1.text = mark.char :: (inside ++ [mark.char]) ∧
      (∀ cs, Reached inside ('\\' :: cs) → cs ≠ []) ∧
      ((∃ s, ofString c.position c.token.1.text = .ok s) ∨
        ∃ i x q, inside[i]? = some '\\' ∧ inside[i + 1]? = some x ∧ IsEscapeProblem x q ∧
          ofString c.position c.token.1.text = .error (.at q (c.position + 1 + i))) := by
  constructor
  · intro mark s body rest position h
    refine ⟨?_, ofString_of_spellsAll h position⟩
    have hscan := scan_literalText h.inside rest
    rw [literalText_append] at hscan
    rw [Cursor.token_of_scan hscan]
    simp [literalText]
  · intro c hkind
    obtain ⟨mark, inside, hinside, htext⟩ := exists_literalText (string?_of_kind hkind)
    have htext : c.token.1.text = literalText mark inside := htext
    refine ⟨mark, inside, htext, fun cs hcs => ?_, ?_⟩
    · obtain ⟨d, ds, rfl, -⟩ := (hcs.inside hinside).exists_cons
      exact List.cons_ne_nil d ds
    · have hin : (c.token.1.text.drop 1).dropLast = inside := by
        rw [htext, literalText, List.drop_one, List.tail_cons, List.dropLast_concat]
      rw [ofString, hin]
      exact unescape_cases hinside (Nat.lt_succ_self _)

/-- Six characters, both quotes and one beyond the basic plane among them. -/
def mixedString : List CodePoint := ['a', '"', '\'', 'J', '😀', '\x00'].map .ofChar

/-- The same between single quotes, with escapes of all kinds. -/
def mixedBody : List Char := "a\"\\'\\x4A\\u\x7b1f600\x7d\\0".toList

theorem strings_decoded_mixed : SpellsAll .single mixedString mixedBody ∧
    (⟨7, '\'' :: (mixedBody ++ '\'' :: ['\''])⟩ : Cursor).token =
      (⟨.string, '\'' :: (mixedBody ++ ['\'']), 7⟩, ⟨7 + (mixedBody.length + 2), ['\'']⟩) ∧
    ofString 7 ('\'' :: (mixedBody ++ ['\''])) = .ok mixedString := by
  have hbyte : WritesHex ['4', 'A'] 0x4a :=
    (WritesHex.nil.snoc (d := 4) (by decide) (.inl rfl)).snoc (d := 10) (c := 'A') (by decide)
      (.inr rfl)
  have h : SpellsAll .single mixedString mixedBody :=
    ⟨[['a'], ['"'], ['\\', '\''], ['\\', 'x', '4', 'A'],
      '\\' :: 'u' :: '\x7b' :: (Nat.toDigits 16 0x1f600 ++ ['\x7d']), ['\\', '0']],
      .cons (.plain (by decide) (by decide)) <| .cons (.plain (by decide) (by decide)) <|
      .cons (.letter (by decide)) <| .cons (.byte hbyte) <|
      .cons (.point (by decide) (writesHex_toDigits _)) <| .cons (.letter (by decide)) .nil, rfl⟩
  exact ⟨h, strings_decoded.1 .single mixedString mixedBody ['\''] 7 h⟩

end Literal

end Stencil
