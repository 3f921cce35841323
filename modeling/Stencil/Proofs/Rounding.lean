import Mathlib.Algebra.Order.Ring.Nat
import Mathlib.Tactic.Ring
import Stencil.Decimal.Binary64

/-!
# Rounding to the nearest number

All numbers of double precision are integers times `2 ^ -1074`, so that a quotient is compared with
them after it was multiplied by `2 ^ 1074`.

* `roundDiv_eq`, `scaleFor_eq`: the two steps of rounding are determined by inequalities.
* `Binary64.Nearest`: a quotient lies where a mantissa and a scale are the nearest number.
* **`Binary64.ofRatio_of_nearest`**: the quotient is rounded to that number.
* **`Binary64.ofRatio_le`**: no quotient is rounded to a number with a sign, or to no number.
-/

namespace Stencil.Binary64

/-! ## Rounding a quotient to an integer -/

/-- **The nearest integer**: within one half, and even at a distance of one half. -/
theorem roundDiv_eq {num den m : Nat} (hden : 0 < den) (hlow : 2 * (m * den) ≤ 2 * num + den)
    (hhigh : 2 * num ≤ 2 * (m * den) + den)
    (htie : 2 * (m * den) = 2 * num + den ∨ 2 * num = 2 * (m * den) + den → m % 2 = 0) :
    roundDiv num den = m := by
  have hdiv := Nat.div_add_mod num den
  have hmod := Nat.mod_lt num hden
  unfold roundDiv
  dsimp only
  generalize num / den = q at *
  generalize num % den = r at *
  -- the quotient is the integer or the one before it
  have hq : q = m ∨ q + 1 = m := by
    have hle : q ≤ m := by
      by_contra hlt
      have := Nat.mul_le_mul_left den (Nat.succ_le_of_lt (Nat.not_le.mp hlt))
      rw [Nat.mul_succ, Nat.mul_comm den m] at this
      omega
    have hge : m ≤ q + 1 := by
      by_contra hlt
      have := Nat.mul_le_mul_left den (Nat.succ_le_of_lt (Nat.not_le.mp hlt))
      rw [Nat.mul_succ, Nat.mul_succ, Nat.mul_comm den m] at this
      omega
    omega
  rcases hq with rfl | rfl
  · rw [Nat.mul_comm q den] at *
    split
    · rfl
    · split
      · omega
      · have := htie (.inr (by omega))
        omega
  · rw [Nat.mul_comm (q + 1) den, Nat.mul_succ] at *
    split
    · omega
    · split
      · rfl
      · have := htie (.inl (by omega))
        omega

/-- The nearest integer is one of the two around the quotient. -/
theorem roundDiv_cases (num den : Nat) :
    roundDiv num den = num / den ∨ roundDiv num den = num / den + 1 := by
  unfold roundDiv
  dsimp only
  split
  · exact .inl rfl
  · split
    · exact .inr rfl
    · rcases Nat.mod_two_eq_zero_or_one (num / den) with h | h <;> rw [h]
      · exact .inl rfl
      · exact .inr rfl

/-! ## The scale of a quotient -/

section Scale

variable {num den s s' : Nat}

/-- **A quotient below `2 ^ 53` steps of a scale**, and not below `2 ^ 52` unless the scale is the
least one. -/
structure HasScale (num den s : Nat) : Prop where
  below : num < den * 2 ^ (s + 53)
  above : s = 0 ∨ den * 2 ^ (s + 52) ≤ num

/-- A quotient has one scale. -/
theorem HasScale.unique (h : HasScale num den s) (h' : HasScale num den s') : s = s' := by
  have hle : ∀ {s s'}, HasScale num den s → HasScale num den s' → s' ≤ s := by
    intro s s' h h'
    rcases h'.above with rfl | habove
    · exact Nat.zero_le s
    · by_contra hlt
      have hpow : 2 ^ (s + 53) ≤ 2 ^ (s' + 52) := Nat.pow_le_pow_right (by decide) (by omega)
      have := Nat.mul_le_mul_left den hpow
      have := h.below
      omega
  exact Nat.le_antisymm (hle h' h) (hle h h')

theorem scaled_pos (hnum : 0 < num) (k : Nat) : 0 < num * Nat.pow 2 k :=
  Nat.mul_pos hnum (Nat.two_pow_pos k)

/-- From the logarithms the scale is right or too large by one. -/
theorem hasScale_log2 {n : Nat} (hn : 0 < n) (hden : 0 < den) :
    HasScale n den (if n < den * Nat.pow 2 (n.log2 - den.log2 - 52 + 52) then
      n.log2 - den.log2 - 52 - 1 else n.log2 - den.log2 - 52) := by
  have hn := Nat.log2_self_le (Nat.ne_of_gt hn)
  have hn' := Nat.lt_log2_self (n := n)
  have hd := Nat.log2_self_le (Nat.ne_of_gt hden)
  have hd' := Nat.lt_log2_self (n := den)
  have hpow : ∀ k, den * Nat.pow 2 k = den * 2 ^ k := fun _ => rfl
  rw [hpow]
  generalize hs : n.log2 - den.log2 - 52 = s
  have hbelow : n < den * 2 ^ (s + 53) := by
    calc n < 2 ^ (n.log2 + 1) := hn'
      _ ≤ 2 ^ (den.log2 + (s + 53)) := Nat.pow_le_pow_right (by decide) (by omega)
      _ = 2 ^ den.log2 * 2 ^ (s + 53) := Nat.pow_add ..
      _ ≤ den * 2 ^ (s + 53) := Nat.mul_le_mul_right _ hd
  split
  · rename_i hlt
    refine ⟨?_, ?_⟩
    · exact Nat.lt_of_lt_of_le hlt
        (Nat.mul_le_mul_left den (Nat.pow_le_pow_right (by decide) (by omega)))
    · rcases Nat.eq_zero_or_pos s with rfl | hpos
      · exact .inl rfl
      · right
        calc den * 2 ^ (s - 1 + 52) ≤ 2 ^ (den.log2 + 1) * 2 ^ (s - 1 + 52) :=
              Nat.mul_le_mul_right _ (Nat.le_of_lt hd')
          _ = 2 ^ (den.log2 + 1 + (s - 1 + 52)) := (Nat.pow_add ..).symm
          _ ≤ 2 ^ n.log2 := Nat.pow_le_pow_right (by decide) (by omega)
          _ ≤ n := hn
  · rename_i hge
    exact ⟨hbelow, .inr (Nat.not_lt.mp hge)⟩

/-- **The scale for a quotient** is its scale. -/
theorem hasScale_scaleFor (hnum : 0 < num) (hden : 0 < den) :
    HasScale (num * Nat.pow 2 1074) den (scaleFor num den) := by
  obtain ⟨n, hn⟩ : ∃ n, n = num * Nat.pow 2 1074 := ⟨_, rfl⟩
  have hpos := scaled_pos hnum 1074
  rw [← hn] at hpos
  unfold scaleFor
  rw [← hn]
  exact hasScale_log2 hpos hden

theorem scaleFor_eq (hnum : 0 < num) (hden : 0 < den)
    (h : HasScale (num * Nat.pow 2 1074) den s) : scaleFor num den = s :=
  (hasScale_scaleFor hnum hden).unique h

end Scale

/-! ## Rounding a quotient to a number -/

/-- **A mantissa and a scale as they stand for a positive number**: a mantissa of 53 bits, or a
smaller one with the least scale. -/
structure IsNormal (m s : Nat) : Prop where
  pos : 0 < m
  lt : m < 2 ^ 53
  full : s = 0 ∨ 2 ^ 52 ≤ m

/-- The least mantissa of 53 bits above the least scale: the number before it is nearer than the
number after it. -/
def IsEdge (m s : Nat) : Prop := m = 2 ^ 52 ∧ 0 < s

instance (m s : Nat) : Decidable (IsEdge m s) := by unfold IsEdge; infer_instance

/-- **The quotient `num / (den * 2 ^ 1076)` is nearest to the number with the given mantissa and
scale**: it is at most half way to the numbers before and after it, and less if the mantissa is
odd. -/
structure Nearest (m s num den : Nat) : Prop where
  low : (4 * m - if IsEdge m s then 1 else 2) * 2 ^ s * den ≤ num
  high : num ≤ (4 * m + 2) * 2 ^ s * den
  odd : m % 2 = 1 → (4 * m - 2) * 2 ^ s * den < num ∧ num < (4 * m + 2) * 2 ^ s * den

section Ratio

variable {m s num den : Nat}

theorem ofMantissa_carry (s : Nat) :
    ofMantissa (2 * leastFull) s = ofMantissa leastFull (s + 1) := by
  simp [ofMantissa, leastFull]

/-- Below the least mantissa of 53 bits the scale is smaller by one, and rounding comes back. -/
theorem ofMantissa_below_edge (hedge : IsEdge m (s + 1)) (hden : 0 < den)
    (hlow : (4 * m - 1) * 2 ^ (s + 1) * den ≤ 4 * num) (hlt : num < den * 2 ^ (s + 1 + 52)) :
    HasScale num den s ∧
      ofMantissa (roundDiv num (den * 2 ^ s)) s = ofMantissa m (s + 1) := by
  obtain ⟨rfl, -⟩ := hedge
  have hD : 0 < den * 2 ^ s := Nat.mul_pos hden (Nat.two_pow_pos s)
  have hlow' : (4 * 2 ^ 52 - 1) * (2 * (den * 2 ^ s)) ≤ 4 * num := by
    calc (4 * 2 ^ 52 - 1) * (2 * (den * 2 ^ s)) = (4 * 2 ^ 52 - 1) * 2 ^ (s + 1) * den := by ring
      _ ≤ 4 * num := hlow
  have hlt' : num < 2 ^ 53 * (den * 2 ^ s) := by
    calc num < den * 2 ^ (s + 1 + 52) := hlt
      _ = 2 ^ 53 * (den * 2 ^ s) := by ring
  generalize hE : den * 2 ^ s = d at *
  refine ⟨⟨?_, .inr ?_⟩, ?_⟩
  · calc num < 2 ^ 53 * d := hlt'
      _ = den * 2 ^ (s + 53) := by rw [← hE]; ring
  · have hpow : den * 2 ^ (s + 52) = 2 ^ 52 * d := by rw [← hE]; ring
    omega
  · have hround : roundDiv num d = 2 * leastFull := by
      have hfull : 2 * leastFull = 2 ^ 53 := rfl
      rw [hfull]
      exact roundDiv_eq hD (by omega) (by omega) (by omega)
    rw [hround, ofMantissa_carry]
    rfl

/-- The bounds of a quotient, in units of the last place of the number. -/
theorem Nearest.units (h : Nearest m s (4 * num) den) :
    4 * (m * (den * 2 ^ s)) - 2 * (den * 2 ^ s) ≤ 4 * num ∧
      4 * num ≤ 4 * (m * (den * 2 ^ s)) + 2 * (den * 2 ^ s) ∧
      (m % 2 = 1 → 4 * (m * (den * 2 ^ s)) - 2 * (den * 2 ^ s) < 4 * num ∧
        4 * num < 4 * (m * (den * 2 ^ s)) + 2 * (den * 2 ^ s)) := by
  have hsub : (4 * m - 2) * 2 ^ s * den = 4 * (m * (den * 2 ^ s)) - 2 * (den * 2 ^ s) := by
    rw [Nat.mul_assoc, Nat.mul_comm (2 ^ s), Nat.sub_mul, Nat.mul_assoc]
  have hadd : (4 * m + 2) * 2 ^ s * den = 4 * (m * (den * 2 ^ s)) + 2 * (den * 2 ^ s) := by ring
  have hlow : (4 * m - 2) * 2 ^ s * den ≤ 4 * num := by
    have hg : 4 * m - 2 ≤ 4 * m - if IsEdge m s then 1 else 2 := by split <;> omega
    exact (Nat.mul_le_mul_right _ (Nat.mul_le_mul_right _ hg)).trans h.low
  exact ⟨hsub ▸ hlow, hadd ▸ h.high, fun hm => hsub ▸ hadd ▸ h.odd hm⟩

/-- **A quotient that is nearest to a number has its scale**, unless it is below an edge. -/
theorem Nearest.hasScale (h : Nearest m s (4 * num) den) (hm : IsNormal m s) (hden : 0 < den)
    (hnot : ¬ (IsEdge m s ∧ num < den * 2 ^ (s + 52))) : HasScale num den s := by
  obtain ⟨hlow, hhigh, -⟩ := h.units
  have hD : 0 < den * 2 ^ s := Nat.mul_pos hden (Nat.two_pow_pos s)
  have hpow : ∀ k, den * 2 ^ (s + k) = 2 ^ k * (den * 2 ^ s) := fun k => by ring
  refine ⟨?_, ?_⟩
  · have := Nat.mul_le_mul_right (den * 2 ^ s) (Nat.le_sub_one_of_lt hm.lt)
    rw [hpow]
    omega
  · rcases hm.full with hs | hfull
    · exact .inl hs
    · by_cases hlt : num < den * 2 ^ (s + 52)
      · have hne : m ≠ 2 ^ 52 ∨ s = 0 := by
          by_contra hedge
          rw [not_or, not_not] at hedge
          exact hnot ⟨⟨hedge.1, Nat.pos_of_ne_zero hedge.2⟩, hlt⟩
        rcases hne with hne | hs
        · have := Nat.mul_le_mul_right (den * 2 ^ s)
            (Nat.succ_le_of_lt (Nat.lt_of_le_of_ne hfull (Ne.symm hne)))
          rw [hpow] at hlt
          omega
        · exact .inl hs
      · exact .inr (Nat.not_lt.mp hlt)

theorem Nearest.roundDiv_eq (h : Nearest m s (4 * num) den) (hden : 0 < den) :
    roundDiv num (den * 2 ^ s) = m := by
  obtain ⟨hlow, hhigh, hodd⟩ := h.units
  have hD : 0 < den * 2 ^ s := Nat.mul_pos hden (Nat.two_pow_pos s)
  refine Binary64.roundDiv_eq hD (by omega) (by omega) fun htie => ?_
  by_contra hm
  have := hodd (by omega)
  omega

/-- **A quotient that is nearest to a number is rounded to it.** -/
theorem ofRatio_of_nearest (hm : IsNormal m s) (hnum : 0 < num) (hden : 0 < den)
    (h : Nearest m s (4 * (num * Nat.pow 2 1074)) den) : ofRatio num den = ofMantissa m s := by
  have hpow : ∀ k, den * Nat.pow 2 k = den * 2 ^ k := fun _ => rfl
  have hscale : ∀ {s}, HasScale (num * Nat.pow 2 1074) den s → scaleFor num den = s :=
    scaleFor_eq hnum hden
  rw [ofRatio, if_neg (Nat.ne_of_gt hnum)]
  dsimp only
  rw [hpow]
  generalize num * Nat.pow 2 1074 = n at *
  by_cases hbelow : IsEdge m s ∧ n < den * 2 ^ (s + 52)
  · obtain ⟨hedge, hlt⟩ := hbelow
    obtain ⟨s, rfl⟩ := Nat.exists_eq_succ_of_ne_zero (Nat.ne_of_gt hedge.2)
    have hlow := h.low
    rw [if_pos hedge] at hlow
    obtain ⟨hs, hround⟩ := ofMantissa_below_edge hedge hden hlow hlt
    rw [hscale hs]
    exact hround
  · rw [hscale (h.hasScale hm hden hbelow), h.roundDiv_eq hden]

end Ratio

/-! ## The range of what is read -/

section Range

variable {m s num den : Nat}

/-- The bits of the infinite number without a sign; smaller ones are those of finite numbers. -/
def infiniteBits : Nat := 2047 * leastFull

theorem ofMantissa_le (hm : m ≤ 2 * leastFull) :
    (ofMantissa m s).bits.toNat ≤ infiniteBits := by
  have hfull : leastFull = 4503599627370496 := rfl
  have hbits : ∀ n : Nat, n ≤ 2047 * leastFull → n.toUInt64.toNat ≤ 2047 * leastFull :=
    fun n hn => Nat.le_trans (Nat.mod_le n _) hn
  unfold ofMantissa infiniteBits
  rw [hfull] at hm hbits ⊢
  dsimp only
  split <;> dsimp only <;> split
  · decide
  · split <;> exact hbits _ (by omega)
  · decide
  · split <;> exact hbits _ (by omega)

/-- A quotient is rounded to a mantissa of 53 bits, or to the number after the last of them. -/
theorem ofRatio_eq (hnum : 0 < num) (hden : 0 < den) :
    ∃ m s, m ≤ 2 * leastFull ∧ ofRatio num den = ofMantissa m s := by
  have hpow : ∀ k, den * Nat.pow 2 k = den * 2 ^ k := fun _ => rfl
  have hscale := hasScale_scaleFor hnum hden
  rw [ofRatio, if_neg (Nat.ne_of_gt hnum)]
  dsimp only
  rw [hpow]
  generalize scaleFor num den = s at *
  generalize num * Nat.pow 2 1074 = n at *
  refine ⟨_, s, ?_, rfl⟩
  have hfull : 2 * leastFull = 2 ^ 53 := rfl
  have hlt : n / (den * 2 ^ s) < 2 ^ 53 := by
    refine (Nat.div_lt_iff_lt_mul (Nat.mul_pos hden (Nat.two_pow_pos s))).mpr ?_
    calc n < den * 2 ^ (s + 53) := hscale.below
      _ = 2 ^ 53 * (den * 2 ^ s) := by ring
  rw [hfull]
  have := roundDiv_cases n (den * 2 ^ s)
  omega

/-- **A quotient is rounded to a number without a sign**, finite or infinite. -/
theorem ofRatio_le (num : Nat) (hden : 0 < den) :
    (ofRatio num den).bits.toNat ≤ infiniteBits := by
  rcases Nat.eq_zero_or_pos num with rfl | hnum
  · rw [ofRatio, if_pos rfl]
    decide
  · obtain ⟨m, s, hm, hx⟩ := ofRatio_eq hnum hden
    rw [hx]
    exact ofMantissa_le hm

/-- What is not above the infinite number is finite, or it is that number. -/
theorem isFinite_or_infinite {x : Binary64} (h : x.bits.toNat ≤ infiniteBits) :
    x.isFinite = true ∨ x = ⟨0x7ff0000000000000⟩ := by
  have hfull : leastFull = 4503599627370496 := rfl
  have hexp : Nat.pow 2 11 = 2048 := rfl
  have hbits : x.bits.toNat = 9218868437227405312 → x = ⟨0x7ff0000000000000⟩ := fun hx => by
    have : x.bits = 0x7ff0000000000000 := UInt64.toNat_inj.mp hx
    rw [← this]
  unfold isFinite view
  unfold infiniteBits at h
  rw [hfull] at h
  rw [hfull, hexp]
  dsimp only
  generalize x.bits.toNat = n at *
  by_cases hinf : n / 4503599627370496 % 2048 = 2047
  · exact .inr (hbits (by omega))
  · left
    rw [if_neg hinf]
    by_cases hzero : n / 4503599627370496 % 2048 = 0
    · rw [if_pos hzero]
    · rw [if_neg hzero]

end Range

end Stencil.Binary64
