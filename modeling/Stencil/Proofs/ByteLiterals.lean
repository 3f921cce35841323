import Stencil.Proofs.LiteralText

/-!
# Literals of byte strings

The literal of a byte string stands on one line of printable characters, and is read as its bytes.

* `Text.bytesLiteral?`: the bytes of a literal.
* `Text.quoteByte_cases`: what stands for a byte is an escape of it, or its character.
* **`Text.bytesLiteral?_quoteBytes`**: literals are read as they were written.
-/

namespace Stencil.Text

open CodeToken

variable {steps : Nat} {b : UInt8} {bytes : List UInt8} {cs rest : List Char} {c : Char}

/-! ## Reading -/

/-- The byte of an escape after its backslash, and the text after it. Escapes of larger numbers are
none in a byte string. -/
def byteEscape? : List Char → Option (UInt8 × List Char)
  | 'x' :: cs => (hex? 2 cs).map fun (p, rest) => (p.value.toUInt8, rest)
  | c :: cs => (simpleEscape? c).map (·.toNat.toUInt8, cs)
  | [] => none

/-- The bytes up to the closing quote, and the text after it, in at most `steps` steps. Only
characters of one byte stand for themselves. -/
def bytesInside? (mark : Char) : Nat → List Char → Option (List UInt8 × List Char)
  | 0, _ => none
  | _, [] => none
  | steps + 1, c :: cs =>
    if c = mark then some ([], cs)
    else if c = '\n' ∨ c = '\r' ∨ c = '\x00' ∨ 0x7f < c.toNat then none
    else if c = '\\' then (byteEscape? cs).bind fun e =>
      (bytesInside? mark steps e.2).map fun (bs, rest) => (e.1 :: bs, rest)
    else (bytesInside? mark steps cs).map fun (bs, rest) => (c.toNat.toUInt8 :: bs, rest)

/-- **The bytes of a literal** that is a whole text, between single or double quotes. -/
def bytesLiteral? : List Char → Option (List UInt8)
  | 'b' :: mark :: cs =>
    if isQuote mark && !([mark, mark].isPrefixOf cs) then
      match bytesInside? mark (cs.length + 1) cs with
      | some (bytes, []) => some bytes
      | _ => none
    else none
  | _ => none

/-! ## Literals are read as they were written -/

theorem toNat_charOf (b : UInt8) : (Char.ofNat b.toNat).toNat = b.toNat := by
  have hlt := b.toNat_lt
  have hvalid : b.toNat.isValidChar := .inl (by omega)
  rw [Char.ofNat, dif_pos hvalid]
  rfl

/-- **What stands for a byte**: an escape of it, or its character. -/
theorem quoteByte_cases (mark : QuoteMark) (b : UInt8) :
    (∃ es, quoteByte mark b = '\\' :: es ∧ ∀ cs, byteEscape? (es ++ cs) = some (b, cs)) ∨
    ∃ c, quoteByte mark b = [c] ∧ c.toNat.toUInt8 = b ∧ c ≠ mark.char ∧ c ≠ '\\' ∧
      0x20 ≤ c.toNat ∧ c.toNat < 0x7f := by
  have hbyte : ∀ c, Char.ofNat b.toNat = c → b = c.toNat.toUInt8 := by
    rintro c rfl
    rw [toNat_charOf]
    exact UInt8.ofNat_toNat.symm
  unfold quoteByte
  dsimp only
  by_cases hmark : Char.ofNat b.toNat = mark.char
  · rw [if_pos hmark]
    exact .inl ⟨[mark.char], rfl, fun cs => by rw [hbyte _ hmark]; cases mark <;> rfl⟩
  by_cases hbackslash : Char.ofNat b.toNat = '\\'
  · rw [if_neg hmark, if_pos hbackslash]
    exact .inl ⟨['\\'], rfl, fun cs => by rw [hbyte _ hbackslash]; rfl⟩
  by_cases hnewline : Char.ofNat b.toNat = '\n'
  · rw [if_neg hmark, if_neg hbackslash, if_pos hnewline]
    exact .inl ⟨['n'], rfl, fun cs => by rw [hbyte _ hnewline]; rfl⟩
  by_cases hreturn : Char.ofNat b.toNat = '\r'
  · rw [if_neg hmark, if_neg hbackslash, if_neg hnewline, if_pos hreturn]
    exact .inl ⟨['r'], rfl, fun cs => by rw [hbyte _ hreturn]; rfl⟩
  by_cases htab : Char.ofNat b.toNat = '\t'
  · rw [if_neg hmark, if_neg hbackslash, if_neg hnewline, if_neg hreturn, if_pos htab]
    exact .inl ⟨['t'], rfl, fun cs => by rw [hbyte _ htab]; rfl⟩
  rw [if_neg hmark, if_neg hbackslash, if_neg hnewline, if_neg hreturn, if_neg htab]
  split
  · rename_i hrange
    rw [Bool.and_eq_true, decide_eq_true_eq, decide_eq_true_eq, UInt8.le_iff_toNat_le,
      UInt8.lt_iff_toNat_lt] at hrange
    refine .inr ⟨_, rfl, (hbyte _ rfl).symm, hmark, hbackslash, ?_⟩
    rw [toNat_charOf]
    exact hrange
  · refine .inl ⟨_, rfl, fun cs => ?_⟩
    have hlt := b.toNat_lt
    have hread : hex? 2 (hexDigits 2 b.toNat ++ cs) = some (⟨b.toNat, by omega⟩, cs) :=
      hex?_hexDigits (p := ⟨b.toNat, by omega⟩) (by decide) hlt
    rw [List.cons_append, byteEscape?, hread, Option.map_some]
    exact congrArg (fun b => some (b, cs)) UInt8.ofNat_toNat

/-- **What stands for a byte is read as that byte.** -/
theorem bytesInside?_quoteByte (mark : QuoteMark) :
    bytesInside? mark.char (steps + 1) (quoteByte mark b ++ cs) =
      (bytesInside? mark.char steps cs).map fun (bs, rest) => (b :: bs, rest) := by
  obtain ⟨es, hes, he⟩ | ⟨c, hc, hb, hmark, hbackslash, hlower, hupper⟩ := quoteByte_cases mark b
  · rw [hes, List.cons_append, bytesInside?, if_neg (char_ne_escape mark).symm,
      if_neg (by decide), if_pos rfl, he]
    rfl
  · have hplain : ¬ (c = '\n' ∨ c = '\r' ∨ c = '\x00' ∨ 0x7f < c.toNat) := by
      rintro (rfl | rfl | rfl | h)
      iterate 3 exact absurd hlower (by decide)
      omega
    rw [hc, List.singleton_append, bytesInside?, if_neg hmark, if_neg hplain, if_neg hbackslash, hb]

theorem bytesInside?_quoted (mark : QuoteMark) (hs : bytes.length < steps) :
    bytesInside? mark.char steps (bytes.flatMap (quoteByte mark) ++ mark.char :: rest) =
      some (bytes, rest) := by
  induction bytes generalizing steps with
  | nil =>
    obtain ⟨steps, rfl⟩ := Nat.exists_eq_succ_of_ne_zero (Nat.ne_of_gt hs)
    rw [List.flatMap_nil, List.nil_append, bytesInside?, if_pos rfl]
  | cons b bytes ih =>
    obtain ⟨steps, rfl⟩ := Nat.exists_eq_succ_of_ne_zero (Nat.ne_of_gt (Nat.zero_lt_of_lt hs))
    rw [List.flatMap_cons, List.append_assoc, bytesInside?_quoteByte,
      ih (Nat.lt_of_succ_lt_succ hs)]
    rfl

theorem quoteByte_ne_nil (mark : QuoteMark) (b : UInt8) : quoteByte mark b ≠ [] := by
  obtain ⟨es, hes, -⟩ | ⟨c, hc, -⟩ := quoteByte_cases mark b
  · rw [hes]
    exact List.cons_ne_nil _ _
  · rw [hc]
    exact List.cons_ne_nil _ _

theorem length_le_quotedBytes (mark : QuoteMark) (bytes : List UInt8) :
    bytes.length ≤ (bytes.flatMap (quoteByte mark)).length := by
  induction bytes with
  | nil => exact Nat.le_refl _
  | cons b bytes ih =>
    have := List.length_pos_iff.mpr (quoteByte_ne_nil mark b)
    rw [List.flatMap_cons, List.length_append, List.length_cons]
    omega

/-- **The literal of a byte string is read as its bytes.** -/
theorem bytesLiteral?_quoteBytes (bytes : List UInt8) :
    bytesLiteral? (quoteBytes bytes).toList = some bytes := by
  unfold quoteBytes
  generalize QuoteMark.choose _ _ = mark
  dsimp only
  have hread : ∀ steps, bytes.length < steps →
      bytesInside? mark.char steps (bytes.flatMap (quoteByte mark) ++ [mark.char]) =
        some (bytes, []) := fun steps hs => bytesInside?_quoted mark hs
  -- two quotes at the start would end an empty literal, and nothing follows this one
  have hthree : ¬ [mark.char, mark.char].isPrefixOf
      (bytes.flatMap (quoteByte mark) ++ [mark.char]) = true := by
    intro h
    obtain ⟨r, hr⟩ := List.isPrefixOf_iff_prefix.mp h
    have hempty := hread (bytes.length + 1) (Nat.lt_succ_self _)
    rw [← hr, List.cons_append, bytesInside?, if_pos rfl, Option.some.injEq,
      Prod.mk.injEq] at hempty
    cases hempty.2
  have hquote : isQuote mark.char = true := by cases mark <;> rfl
  have hlen := length_le_quotedBytes mark bytes
  rw [String.toList_ofList, List.cons_append, List.cons_append, bytesLiteral?, if_pos (by
    simp only [hquote, hthree, Bool.not_false, Bool.and_self]), hread _ (by
    rw [List.length_append]
    omega)]

/-! ## Literals on one line -/

theorem isPrintable_of_range (hlower : 0x20 ≤ c.toNat) (hupper : c.toNat < 0x7f) :
    isPrintable (.ofChar c) = true := by
  have hvalue : (CodePoint.ofChar c).value = c.toNat := rfl
  rw [isPrintable, hvalue, if_pos hupper, decide_eq_true_eq]
  exact hlower

theorem isPrintable_of_mem_quoteByte {mark : QuoteMark} (h : c ∈ quoteByte mark b) :
    isPrintable (.ofChar c) = true := by
  have hpair {x : Char} (hx : isPrintable (.ofChar x) = true) (h : c ∈ ['\\', x]) :
      isPrintable (.ofChar c) = true := by
    rcases List.mem_pair.mp h with rfl | rfl
    · decide
    · exact hx
  unfold quoteByte at h
  dsimp only at h
  split at h
  · exact hpair (by cases mark <;> decide) h
  · split at h
    · exact hpair (by decide) h
    · split at h
      · exact hpair (by decide) h
      · split at h
        · exact hpair (by decide) h
        · split at h
          · exact hpair (by decide) h
          · split at h
            · rename_i hrange
              rw [Bool.and_eq_true, decide_eq_true_eq, decide_eq_true_eq, UInt8.le_iff_toNat_le,
                UInt8.lt_iff_toNat_lt] at hrange
              rw [List.mem_singleton.mp h]
              refine isPrintable_of_range ?_ ?_ <;> rw [toNat_charOf]
              · exact hrange.1
              · exact hrange.2
            · rcases List.mem_cons.mp h with rfl | h
              · decide
              · rcases List.mem_cons.mp h with rfl | h
                · decide
                · exact isPrintable_of_isHexDigit (isHexDigit_hexDigits _ _ c h)

/-- **The literal of a byte string stands on one line.** -/
theorem isPrintable_of_mem_quoteBytes (h : c ∈ (quoteBytes bytes).toList) :
    isPrintable (.ofChar c) = true := by
  have hmark (mark : QuoteMark) : isPrintable (.ofChar mark.char) = true := by
    cases mark <;> decide
  unfold quoteBytes at h
  rw [String.toList_ofList, List.cons_append, List.cons_append, List.mem_cons, List.mem_cons,
    List.mem_append, List.mem_singleton] at h
  rcases h with rfl | rfl | h | rfl
  · decide
  · exact hmark _
  · obtain ⟨b, -, hc⟩ := List.mem_flatMap.mp h
    exact isPrintable_of_mem_quoteByte hc
  · exact hmark _

end Stencil.Text
