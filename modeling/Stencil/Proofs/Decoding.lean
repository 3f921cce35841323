import Mathlib.Data.List.DropRight
import Mathlib.Data.List.Infix
import Stencil.Proofs.Result
import Stencil.Template.Name

/-!
# Decoded bytes

* `Utf8.Sequence`, `Utf8.WellFormed`: the syntax of UTF-8, as the Unicode standard gives it.
* `Utf8.encodeChar_of_decodeChar?`, `Utf8.decodeChar?_encodeChar`: a character is written with the
  bytes it is read from.
* **`Utf8.encode_decodeLongest`**: a byte string is its well-formed part and what is left.
* `Utf8.isPrefix_of_encode_append`: no longer part is well formed.
* **`decodeSource_exact`**: which bytes are the text of a template file, and where the first bad
  ones are.
-/

namespace Stencil.Utf8

/-! ## The syntax -/

/-- A byte that continues a sequence. -/
def IsTail (b : UInt8) : Prop := 0x80 ≤ b ∧ b ≤ 0xbf

/-- **The well-formed sequences of bytes** (table 3-7 of the Unicode standard). The second byte of
`e0` and `f0` excludes overlong forms, that of `ed` surrogates, that of `f4` what is above
`U+10FFFF`. -/
inductive Sequence : List UInt8 → Prop
  | ascii {a : UInt8} (ha : a ≤ 0x7f) : Sequence [a]
  | two {a b : UInt8} (ha : 0xc2 ≤ a ∧ a ≤ 0xdf) (hb : IsTail b) : Sequence [a, b]
  | e0 {b c : UInt8} (hb : 0xa0 ≤ b ∧ b ≤ 0xbf) (hc : IsTail c) : Sequence [0xe0, b, c]
  | e1_ec {a b c : UInt8} (ha : 0xe1 ≤ a ∧ a ≤ 0xec) (hb : IsTail b) (hc : IsTail c) :
      Sequence [a, b, c]
  | ed {b c : UInt8} (hb : 0x80 ≤ b ∧ b ≤ 0x9f) (hc : IsTail c) : Sequence [0xed, b, c]
  | ee_ef {a b c : UInt8} (ha : 0xee ≤ a ∧ a ≤ 0xef) (hb : IsTail b) (hc : IsTail c) :
      Sequence [a, b, c]
  | f0 {b c d : UInt8} (hb : 0x90 ≤ b ∧ b ≤ 0xbf) (hc : IsTail c) (hd : IsTail d) :
      Sequence [0xf0, b, c, d]
  | f1_f3 {a b c d : UInt8} (ha : 0xf1 ≤ a ∧ a ≤ 0xf3) (hb : IsTail b) (hc : IsTail c)
      (hd : IsTail d) : Sequence [a, b, c, d]
  | f4 {b c d : UInt8} (hb : 0x80 ≤ b ∧ b ≤ 0x8f) (hc : IsTail c) (hd : IsTail d) :
      Sequence [0xf4, b, c, d]

/-- **The well-formed byte strings.** -/
inductive WellFormed : List UInt8 → Prop
  | nil : WellFormed []
  | append {s bytes : List UInt8} (hs : Sequence s) (h : WellFormed bytes) : WellFormed (s ++ bytes)

/-! ## Characters and bytes -/

variable {a b : UInt8} {c : Char} {n least y : Nat} {bytes rest : List UInt8}

theorem tail?_eq_some :
    tail? b = some y ↔ 0x80 ≤ b.toNat ∧ b.toNat ≤ 0xbf ∧ b.toNat = 0x80 + y := by
  rw [tail?, Option.ite_none_right_eq_some, Option.some_inj, Bool.and_eq_true, decide_eq_true_eq,
    decide_eq_true_eq, UInt8.le_iff_toNat_le, UInt8.le_iff_toNat_le]
  change (0x80 ≤ b.toNat ∧ b.toNat ≤ 0xbf) ∧ b.toNat - 0x80 = y ↔ _
  omega

theorem scalar?_eq_some : scalar? least n = some c ↔ least ≤ n ∧ c.toNat = n := by
  rw [scalar?, Option.ite_none_right_eq_some, Option.dite_none_right_eq_some]
  refine and_congr_right fun _ => ⟨?_, ?_⟩
  · rintro ⟨_, h⟩
    exact Option.some.inj h ▸ rfl
  · rintro rfl
    exact ⟨c.valid, rfl⟩

/-- A byte is known by its number. -/
theorem toUInt8_eq (h : n = b.toNat) : n.toUInt8 = b := by
  rw [h, Nat.toUInt8, UInt8.ofNat_toNat]

/-- **A character is written with the bytes it was read from.** -/
theorem encodeChar_of_decodeChar? (h : decodeChar? bytes = some (c, rest)) :
    encodeChar c ++ rest = bytes := by
  unfold decodeChar? at h
  split at h
  · cases h
  · rename_i a bytes
    simp only [UInt8.le_iff_toNat_le, UInt8.lt_iff_toNat_lt, Bool.and_eq_true,
      decide_eq_true_eq, Option.pure_def, Option.bind_eq_bind] at h
    change (if a.toNat < 0x80 then _ else if 0xc0 ≤ a.toNat ∧ a.toNat < 0xe0 then _ else
      if 0xe0 ≤ a.toNat ∧ a.toNat < 0xf0 then _ else
      if 0xf0 ≤ a.toNat ∧ a.toNat < 0xf8 then _ else _) = _ at h
    split at h
    · obtain ⟨d, hd, he⟩ := Option.map_eq_some_iff.mp h
      obtain ⟨rfl, rfl⟩ := Prod.mk.inj he
      obtain ⟨-, hn⟩ := scalar?_eq_some.mp hd
      simp only [encodeChar]
      rw [if_pos (by omega), toUInt8_eq hn]
      rfl
    split at h
    · split at h
      · rename_i b bytes
        simp only [Option.bind_eq_some_iff, Option.some_inj, Prod.mk.injEq, tail?_eq_some,
          scalar?_eq_some] at h
        obtain ⟨y, hb, d, ⟨hle, hn⟩, rfl, rfl⟩ := h
        simp only [encodeChar]
        rw [if_neg (by omega), if_pos (by omega), toUInt8_eq (b := a) (by omega),
          toUInt8_eq (b := b) (by omega)]
        rfl
      · cases h
    split at h
    · split at h
      · rename_i b c bytes
        simp only [Option.bind_eq_some_iff, Option.some_inj, Prod.mk.injEq, tail?_eq_some,
          scalar?_eq_some] at h
        obtain ⟨y, hb, z, hc, d, ⟨hle, hn⟩, rfl, rfl⟩ := h
        simp only [encodeChar]
        rw [if_neg (by omega), if_neg (by omega), if_pos (by omega), toUInt8_eq (b := a) (by omega),
          toUInt8_eq (b := b) (by omega), toUInt8_eq (b := c) (by omega)]
        rfl
      · cases h
    split at h
    · split at h
      · rename_i b c e bytes
        simp only [Option.bind_eq_some_iff, Option.some_inj, Prod.mk.injEq, tail?_eq_some,
          scalar?_eq_some] at h
        obtain ⟨x, hb, y, hc, z, he, d, ⟨hle, hn⟩, rfl, rfl⟩ := h
        simp only [encodeChar]
        rw [if_neg (by omega), if_neg (by omega), if_neg (by omega),
          toUInt8_eq (b := a) (by omega), toUInt8_eq (b := b) (by omega),
          toUInt8_eq (b := c) (by omega), toUInt8_eq (b := e) (by omega)]
        rfl
      · cases h
    · cases h

/-- A number below 256 as a byte. -/
theorem toNat_toUInt8 (h : n < 0x100) : n.toUInt8.toNat = n := UInt8.toNat_ofNat_of_lt' h

theorem tail?_toUInt8 (h : y < 0x40) : tail? (0x80 + y).toUInt8 = some y := by
  rw [tail?_eq_some, toNat_toUInt8 (by omega)]
  omega

section Lengths

variable {b₁ b₂ b₃ : UInt8} {x z : Nat}

theorem decodeChar?_one (ha : a.toNat < 0x80) (hc : scalar? 0 a.toNat = some c) :
    decodeChar? (a :: rest) = some (c, rest) := by
  unfold decodeChar?
  dsimp only
  rw [if_pos (UInt8.lt_iff_toNat_lt.mpr ha), hc]
  rfl

theorem decodeChar?_two (ha : 0xc0 ≤ a.toNat ∧ a.toNat < 0xe0) (h₁ : tail? b₁ = some x)
    (hc : scalar? 0x80 ((a.toNat - 0xc0) * 0x40 + x) = some c) :
    decodeChar? (a :: b₁ :: rest) = some (c, rest) := by
  simp only [decodeChar?, UInt8.le_iff_toNat_le, UInt8.lt_iff_toNat_lt, UInt8.reduceToNat,
    Bool.and_eq_true, decide_eq_true_eq]
  rw [if_neg (by omega), if_pos ha, h₁]
  simp [hc]

theorem decodeChar?_three (ha : 0xe0 ≤ a.toNat ∧ a.toNat < 0xf0) (h₁ : tail? b₁ = some x)
    (h₂ : tail? b₂ = some y)
    (hc : scalar? 0x800 (((a.toNat - 0xe0) * 0x40 + x) * 0x40 + y) = some c) :
    decodeChar? (a :: b₁ :: b₂ :: rest) = some (c, rest) := by
  simp only [decodeChar?, UInt8.le_iff_toNat_le, UInt8.lt_iff_toNat_lt, UInt8.reduceToNat,
    Bool.and_eq_true, decide_eq_true_eq]
  rw [if_neg (by omega), if_neg (by omega), if_pos ha, h₁, h₂]
  simp [hc]

theorem decodeChar?_four (ha : 0xf0 ≤ a.toNat ∧ a.toNat < 0xf8) (h₁ : tail? b₁ = some x)
    (h₂ : tail? b₂ = some y) (h₃ : tail? b₃ = some z)
    (hc : scalar? 0x10000 ((((a.toNat - 0xf0) * 0x40 + x) * 0x40 + y) * 0x40 + z) = some c) :
    decodeChar? (a :: b₁ :: b₂ :: b₃ :: rest) = some (c, rest) := by
  simp only [decodeChar?, UInt8.le_iff_toNat_le, UInt8.lt_iff_toNat_lt, UInt8.reduceToNat,
    Bool.and_eq_true, decide_eq_true_eq]
  rw [if_neg (by omega), if_neg (by omega), if_neg (by omega), if_pos ha, h₁, h₂, h₃]
  simp [hc]

end Lengths

/-- No character is a surrogate or above the last one. -/
theorem toNat_valid (c : Char) : c.toNat < 0xd800 ∨ 0xdfff < c.toNat ∧ c.toNat < 0x110000 := c.valid

/-- **What a character is written with is read as the character.** -/
theorem decodeChar?_encodeChar (c : Char) (rest : List UInt8) :
    decodeChar? (encodeChar c ++ rest) = some (c, rest) := by
  have hvalid := toNat_valid c
  simp only [encodeChar]
  split_ifs with h1 h2 h3
  · have ha := toNat_toUInt8 (n := c.toNat) (by omega)
    exact decodeChar?_one (by omega) (scalar?_eq_some.mpr (by omega))
  · have ha := toNat_toUInt8 (n := 0xc0 + c.toNat / 0x40) (by omega)
    exact decodeChar?_two (by omega) (tail?_toUInt8 (by omega)) (scalar?_eq_some.mpr (by omega))
  · have ha := toNat_toUInt8 (n := 0xe0 + c.toNat / 0x1000) (by omega)
    exact decodeChar?_three (by omega) (tail?_toUInt8 (by omega)) (tail?_toUInt8 (by omega))
      (scalar?_eq_some.mpr (by omega))
  · have ha := toNat_toUInt8 (n := 0xf0 + c.toNat / 0x40000) (by omega)
    exact decodeChar?_four (by omega) (tail?_toUInt8 (by omega)) (tail?_toUInt8 (by omega))
      (tail?_toUInt8 (by omega)) (scalar?_eq_some.mpr (by omega))

/-- A byte lies between others as its number does. -/
theorem toUInt8_mem {lo hi : UInt8} (h : lo.toNat ≤ n ∧ n ≤ hi.toNat) :
    lo ≤ n.toUInt8 ∧ n.toUInt8 ≤ hi := by
  have hhi := hi.toNat_lt
  rw [UInt8.le_iff_toNat_le, UInt8.le_iff_toNat_le, toNat_toUInt8 (by omega)]
  exact h

/-- **What a character is written with is well formed.** -/
theorem sequence_encodeChar (c : Char) : Sequence (encodeChar c) := by
  have hvalid := toNat_valid c
  have htail {n : Nat} (h : n < 0x40) : IsTail (0x80 + n).toUInt8 :=
    toUInt8_mem (by simp only [UInt8.reduceToNat]; omega)
  simp only [encodeChar]
  split_ifs with h1 h2 h3
  · refine .ascii (UInt8.le_iff_toNat_le.mpr ?_)
    rw [toNat_toUInt8 (by omega)]
    exact Nat.le_of_lt_succ h1
  · exact .two (toUInt8_mem (by simp only [UInt8.reduceToNat]; omega)) (htail (by omega))
  · obtain h | h | h | h : c.toNat / 0x1000 = 0 ∨ 1 ≤ c.toNat / 0x1000 ∧ c.toNat / 0x1000 ≤ 0xc ∨
        c.toNat / 0x1000 = 0xd ∨ 0xe ≤ c.toNat / 0x1000 := by omega
    · rw [h]
      exact .e0 (toUInt8_mem (by simp only [UInt8.reduceToNat]; omega)) (htail (by omega))
    · exact .e1_ec (toUInt8_mem (by simp only [UInt8.reduceToNat]; omega)) (htail (by omega))
        (htail (by omega))
    · rw [h]
      exact .ed (toUInt8_mem (by simp only [UInt8.reduceToNat]; omega)) (htail (by omega))
    · exact .ee_ef (toUInt8_mem (by simp only [UInt8.reduceToNat]; omega)) (htail (by omega))
        (htail (by omega))
  · obtain h | h | h : c.toNat / 0x40000 = 0 ∨ 1 ≤ c.toNat / 0x40000 ∧ c.toNat / 0x40000 ≤ 3 ∨
        c.toNat / 0x40000 = 4 := by omega
    · rw [h]
      exact .f0 (toUInt8_mem (by simp only [UInt8.reduceToNat]; omega)) (htail (by omega))
        (htail (by omega))
    · exact .f1_f3 (toUInt8_mem (by simp only [UInt8.reduceToNat]; omega)) (htail (by omega))
        (htail (by omega)) (htail (by omega))
    · rw [h]
      exact .f4 (toUInt8_mem (by simp only [UInt8.reduceToNat]; omega)) (htail (by omega))
        (htail (by omega))

theorem isTail_iff : IsTail b ↔ 0x80 ≤ b.toNat ∧ b.toNat ≤ 0xbf := by
  simp only [IsTail, UInt8.le_iff_toNat_le, UInt8.reduceToNat]

theorem tail?_of_isTail (h : IsTail b) : tail? b = some (b.toNat - 0x80) := by
  rw [isTail_iff] at h
  exact tail?_eq_some.mpr (by omega)

/-- A number that is not a surrogate and not too great is that of a character. -/
theorem exists_toNat_eq (h : n < 0xd800 ∨ 0xdfff < n ∧ n < 0x110000) : ∃ c : Char, c.toNat = n :=
  ⟨Char.ofNatAux n h, rfl⟩

section Sequences

variable {b₁ b₂ b₃ : UInt8}

theorem exists_decodeChar?_two (ha : 0xc2 ≤ a.toNat ∧ a.toNat ≤ 0xdf) (h₁ : IsTail b₁) :
    ∃ c, decodeChar? [a, b₁] = some (c, []) := by
  have h₁' := isTail_iff.mp h₁
  obtain ⟨c, hc⟩ := exists_toNat_eq (n := (a.toNat - 0xc0) * 0x40 + (b₁.toNat - 0x80)) (by omega)
  exact ⟨c, decodeChar?_two (by omega) (tail?_of_isTail h₁) (scalar?_eq_some.mpr ⟨by omega, hc⟩)⟩

theorem exists_decodeChar?_three (h₁ : IsTail b₁) (h₂ : IsTail b₂)
    (ha : 0xe0 ≤ a.toNat ∧ a.toNat ≤ 0xef) (hleast : a.toNat = 0xe0 → 0xa0 ≤ b₁.toNat)
    (hgap : a.toNat = 0xed → b₁.toNat ≤ 0x9f) :
    ∃ c, decodeChar? [a, b₁, b₂] = some (c, []) := by
  have h₁' := isTail_iff.mp h₁
  have h₂' := isTail_iff.mp h₂
  obtain ⟨c, hc⟩ := exists_toNat_eq
    (n := ((a.toNat - 0xe0) * 0x40 + (b₁.toNat - 0x80)) * 0x40 + (b₂.toNat - 0x80)) (by omega)
  exact ⟨c, decodeChar?_three (by omega) (tail?_of_isTail h₁) (tail?_of_isTail h₂)
    (scalar?_eq_some.mpr ⟨by omega, hc⟩)⟩

theorem exists_decodeChar?_four (h₁ : IsTail b₁) (h₂ : IsTail b₂) (h₃ : IsTail b₃)
    (ha : 0xf0 ≤ a.toNat ∧ a.toNat ≤ 0xf4) (hleast : a.toNat = 0xf0 → 0x90 ≤ b₁.toNat)
    (hmost : a.toNat = 0xf4 → b₁.toNat ≤ 0x8f) :
    ∃ c, decodeChar? [a, b₁, b₂, b₃] = some (c, []) := by
  have h₁' := isTail_iff.mp h₁
  have h₂' := isTail_iff.mp h₂
  have h₃' := isTail_iff.mp h₃
  obtain ⟨c, hc⟩ := exists_toNat_eq
    (n := (((a.toNat - 0xf0) * 0x40 + (b₁.toNat - 0x80)) * 0x40 + (b₂.toNat - 0x80)) * 0x40 +
      (b₃.toNat - 0x80)) (by omega)
  exact ⟨c, decodeChar?_four (by omega) (tail?_of_isTail h₁) (tail?_of_isTail h₂)
    (tail?_of_isTail h₃) (scalar?_eq_some.mpr ⟨by omega, hc⟩)⟩

end Sequences

/-- **A well-formed sequence is read as one character.** -/
theorem Sequence.exists_decodeChar? {s : List UInt8} (h : Sequence s) :
    ∃ c, decodeChar? s = some (c, []) := by
  cases h with
  | @ascii a ha =>
    simp only [UInt8.le_iff_toNat_le, UInt8.reduceToNat] at ha
    obtain ⟨c, hc⟩ := exists_toNat_eq (n := a.toNat) (by omega)
    exact ⟨c, decodeChar?_one (by omega) (scalar?_eq_some.mpr ⟨Nat.zero_le _, hc⟩)⟩
  | two ha hb =>
    simp only [UInt8.le_iff_toNat_le, UInt8.reduceToNat] at ha
    exact exists_decodeChar?_two ha hb
  | e0 hb hc =>
    simp only [UInt8.le_iff_toNat_le, UInt8.reduceToNat] at hb
    exact exists_decodeChar?_three (isTail_iff.mpr (by omega)) hc (by decide) (fun _ => hb.1)
      (nofun)
  | e1_ec ha hb hc =>
    simp only [UInt8.le_iff_toNat_le, UInt8.reduceToNat] at ha
    exact exists_decodeChar?_three hb hc (by omega) (by omega) (by omega)
  | ed hb hc =>
    simp only [UInt8.le_iff_toNat_le, UInt8.reduceToNat] at hb
    exact exists_decodeChar?_three (isTail_iff.mpr (by omega)) hc (by decide) (nofun)
      (fun _ => hb.2)
  | ee_ef ha hb hc =>
    simp only [UInt8.le_iff_toNat_le, UInt8.reduceToNat] at ha
    exact exists_decodeChar?_three hb hc (by omega) (by omega) (by omega)
  | f0 hb hc hd =>
    simp only [UInt8.le_iff_toNat_le, UInt8.reduceToNat] at hb
    exact exists_decodeChar?_four (isTail_iff.mpr (by omega)) hc hd (by decide) (fun _ => hb.1)
      (nofun)
  | f1_f3 ha hb hc hd =>
    simp only [UInt8.le_iff_toNat_le, UInt8.reduceToNat] at ha
    exact exists_decodeChar?_four hb hc hd (by omega) (by omega) (by omega)
  | f4 hb hc hd =>
    simp only [UInt8.le_iff_toNat_le, UInt8.reduceToNat] at hb
    exact exists_decodeChar?_four (isTail_iff.mpr (by omega)) hc hd (by decide) (nofun)
      (fun _ => hb.2)

/-- **The well-formed byte strings are those that texts are written with.** -/
theorem wellFormed_iff : WellFormed bytes ↔ ∃ cs, encode cs = bytes := by
  constructor
  · intro h
    induction h with
    | nil => exact ⟨[], rfl⟩
    | append hs _ ih =>
      obtain ⟨c, hc⟩ := hs.exists_decodeChar?
      obtain ⟨cs, rfl⟩ := ih
      exact ⟨c :: cs, by rw [← encodeChar_of_decodeChar? hc, List.append_nil]; rfl⟩
  · rintro ⟨cs, rfl⟩
    induction cs with
    | nil => exact .nil
    | cons c cs ih => exact .append (sequence_encodeChar c) ih

/-! ## Texts and bytes -/

theorem encode_decodeUpTo (steps : Nat) (bytes : List UInt8) :
    encode (decodeUpTo steps bytes).1 ++ (decodeUpTo steps bytes).2 = bytes := by
  induction steps generalizing bytes with
  | zero => rfl
  | succ steps ih =>
    rw [decodeUpTo]
    split
    · rfl
    · rename_i c rest hc
      conv_rhs => rw [← encodeChar_of_decodeChar? hc, ← ih rest]
      exact List.append_assoc _ _ _

/-- **A byte string is its well-formed part and what is left.** -/
theorem encode_decodeLongest (bytes : List UInt8) :
    encode (decodeLongest bytes).1 ++ (decodeLongest bytes).2 = bytes :=
  encode_decodeUpTo bytes.length bytes

/-- What is left does not start with a character. -/
theorem decodeChar?_decodeUpTo {steps : Nat} (h : bytes.length ≤ steps) :
    decodeChar? (decodeUpTo steps bytes).2 = none := by
  induction steps generalizing bytes with
  | zero => rw [List.eq_nil_of_length_eq_zero (Nat.le_zero.mp h)]; rfl
  | succ steps ih =>
    rw [decodeUpTo]
    split
    · assumption
    · rename_i c rest hc
      have hlength := congrArg List.length (encodeChar_of_decodeChar? hc)
      have hpos : 0 < (encodeChar c).length := by
        rw [length_encodeChar, width]
        split_ifs <;> decide
      rw [List.length_append] at hlength
      exact ih (by omega)

/-- **Of two texts that a byte string starts with, the one is the start of the other**, if no
character follows that other. -/
theorem isPrefix_of_encode_append {cs ds : List Char} {left : List UInt8}
    (hleft : decodeChar? left = none) (h : encode ds ++ rest = encode cs ++ left) : ds <+: cs := by
  induction ds generalizing cs with
  | nil => exact List.nil_prefix
  | cons d ds ih =>
    have hd : decodeChar? (encode cs ++ left) = some (d, encode ds ++ rest) := by
      rw [← h, encode, List.flatMap_cons, List.append_assoc, decodeChar?_encodeChar]
      rfl
    cases cs with
    | nil =>
      rw [show encode [] ++ left = left from rfl, hleft] at hd
      cases hd
    | cons c cs =>
      rw [encode, List.flatMap_cons, List.append_assoc, decodeChar?_encodeChar] at hd
      obtain ⟨rfl, htail⟩ := Prod.mk.inj (Option.some.inj hd)
      exact List.cons_prefix_cons.mpr ⟨rfl, ih htail.symm⟩

end Stencil.Utf8

namespace Stencil

/-! ## The text of a template file -/

theorem Source.advance_append (line column : Nat) (cs ds : List Char) :
    advance line column (cs ++ ds).length (cs ++ ds) =
      advance (advance line column cs.length cs).1 (advance line column cs.length cs).2
        ds.length ds := by
  induction cs generalizing line column with
  | nil =>
    rw [List.nil_append, List.length_nil]
    rfl
  | cons c cs ih =>
    rw [List.cons_append, List.length_cons, List.length_cons, advance, advance]
    split
    · exact ih _ _
    · exact ih _ _

/-- **The end of a text**: its line is known by the line feeds, its column by what follows the last
of them. -/
theorem Source.locate_end (cs : List Char) (file : String) :
    locate ⟨cs, file⟩ cs.length =
      (cs.count '\n' + 1, (cs.rtakeWhile (· ≠ '\n')).length + 1) := by
  change advance 1 1 cs.length cs = _
  induction cs using List.reverseRecOn with
  | nil => rfl
  | append_singleton cs c ih =>
    rw [advance_append, ih, List.length_singleton, advance, List.count_append,
      List.rtakeWhile_concat]
    by_cases hc : c = '\n'
    · simp [hc, advance]
    · simp [hc, advance]

namespace Utf8

/-- **The longest well-formed part at the start of a byte string.** -/
structure IsLongest (part bytes : List UInt8) : Prop where
  wellFormed : WellFormed part
  isPrefix : part <+: bytes
  longest : ∀ l, WellFormed l → l <+: bytes → l.length ≤ part.length

theorem isLongest_decodeLongest (bytes : List UInt8) :
    IsLongest (encode (decodeLongest bytes).1) bytes where
  wellFormed := wellFormed_iff.mpr ⟨_, rfl⟩
  isPrefix := ⟨_, encode_decodeLongest bytes⟩
  longest l hl hpart := by
    obtain ⟨ds, rfl⟩ := wellFormed_iff.mp hl
    obtain ⟨rest, hrest⟩ := hpart
    have hstart : ds <+: (decodeLongest bytes).1 :=
      isPrefix_of_encode_append (decodeChar?_decodeUpTo le_rfl)
        (hrest.trans (encode_decodeLongest bytes).symm)
    exact (List.IsPrefix.flatMap hstart encodeChar).length_le

/-- The bytes are well formed if nothing is left of them. -/
theorem wellFormed_iff_decodeLongest {bytes : List UInt8} :
    WellFormed bytes ↔ (decodeLongest bytes).2 = [] := by
  have hencode := encode_decodeLongest bytes
  constructor
  · intro h
    have hle := (isLongest_decodeLongest bytes).longest bytes h List.prefix_rfl
    have hlength := congrArg List.length hencode
    rw [List.length_append] at hlength
    exact List.eq_nil_of_length_eq_zero (by omega)
  · intro h
    rw [h, List.append_nil] at hencode
    exact wellFormed_iff.mpr ⟨_, hencode⟩

/-- A text starts with a byte order mark if its bytes do. -/
theorem head?_eq_mark_iff {cs : List Char} :
    cs.head? = some '\ufeff' ↔ [0xef, 0xbb, 0xbf] <+: encode cs := by
  constructor
  · intro h
    obtain ⟨ds, rfl⟩ := List.head?_eq_some_iff.mp h
    exact ⟨encode ds, rfl⟩
  · rintro ⟨rest, hrest⟩
    have hmark : encode ['\ufeff'] ++ rest = encode cs ++ [] := by
      rw [List.append_nil, ← hrest]
      rfl
    obtain ⟨ds, rfl⟩ := isPrefix_of_encode_append rfl hmark
    rfl

end Utf8

/-- **Decoding a template file is exact.** It succeeds on the well-formed byte strings, which are
the bytes of the text and of the byte order mark before it; otherwise the error is where the longest
well-formed part ends. -/
theorem decodeSource_exact (bytes : List UInt8) (display : String) :
    ((∃ cs, decodeSource bytes display = .ok cs) ↔ Utf8.WellFormed bytes) ∧
    (∀ cs, decodeSource bytes display = .ok cs →
      Utf8.encode (if [0xef, 0xbb, 0xbf] <+: bytes then '\ufeff' :: cs else cs) = bytes) ∧
    (¬ Utf8.WellFormed bytes → ∃ cs, Utf8.IsLongest (Utf8.encode cs) bytes ∧
      decodeSource bytes display = .error (.parse .badEncoding
        ⟨display, cs.count '\n' + 1, (cs.rtakeWhile (· ≠ '\n')).length + 1,
          (Utf8.encode cs).length, ""⟩)) := by
  have hlongest := Utf8.isLongest_decodeLongest bytes
  have hencode := Utf8.encode_decodeLongest bytes
  rw [Utf8.wellFormed_iff_decodeLongest]
  unfold decodeSource
  rcases hdecode : Utf8.decodeLongest bytes with ⟨cs, left⟩
  simp only [hdecode] at hlongest hencode
  cases left with
  | nil =>
    rw [List.append_nil] at hencode
    refine ⟨⟨fun _ => rfl, fun _ => ⟨_, rfl⟩⟩, fun ds hds => ?_, fun h => absurd rfl h⟩
    cases hds
    rw [← hencode]
    by_cases hmark : cs.head? = some '\ufeff'
    · obtain ⟨ds, rfl⟩ := List.head?_eq_some_iff.mp hmark
      rw [if_pos (Utf8.head?_eq_mark_iff.mp hmark), if_pos hmark]
      rfl
    · rw [if_neg (mt Utf8.head?_eq_mark_iff.mpr hmark), if_neg hmark]
  | cons b left =>
    refine ⟨⟨?_, nofun⟩, nofun, fun _ => ⟨cs, hlongest, ?_⟩⟩
    · rintro ⟨ds, hds⟩
      cases hds
    · have hlength := congrArg List.length hencode
      rw [List.length_append] at hlength
      have hoffset : bytes.length - (b :: left).length = (Utf8.encode cs).length := by omega
      simp only [Source.locate_end, hoffset]

end Stencil
