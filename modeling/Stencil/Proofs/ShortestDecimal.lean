import Mathlib.Algebra.Order.Ring.Nat
import Mathlib.Tactic.Ring
import Stencil.Decimal.Read
import Stencil.Decimal.Shortest
import Stencil.Proofs.Lexemes
import Stencil.Proofs.Rounding

/-!
# Shortest decimals are read back

The text of a number of double precision is read as the same number. The search for its digits ends
with a decimal that lies nearer to the number than to any other, and adding zeros or moving the
point changes no decimal.

* `Binary64.NearestDecimal`: the number nearest to a decimal.
* `Binary64.search_nearest`: the search for the shortest digits finds such a decimal.
* `Binary64.ofText_layout`: the text of digits is read as their decimal.
* **`Binary64.ofText_text`**: the text of a number is read as that number.
* **`Binary64.ofText_le`**: every text is read as a number without a sign.
* **`Binary64.text_sign`**: a finite number has no sign, or is written as the number with the other
  sign behind a minus sign.
-/

namespace Stencil.Binary64

open Text Expr

/-! ## Lengths of decimals -/

/-- A positive number has as many digits as the powers of ten around it say. -/
theorem exists_length_toDigits {n : Nat} (hn : 0 < n) :
    ∃ k, (Nat.toDigits 10 n).length = k + 1 ∧ 10 ^ k ≤ n ∧ n < 10 ^ (k + 1) := by
  induction n using Nat.strongRecOn with
  | ind n ih =>
    rw [Nat.toDigits_eq_if (by decide)]
    split
    · exact ⟨0, rfl, hn, by omega⟩
    · obtain ⟨k, hk, hlow, hhigh⟩ := ih (n / 10) (by omega) (by omega)
      refine ⟨k + 1, by rw [List.length_append, hk]; rfl, ?_, ?_⟩
      · rw [Nat.pow_succ]
        omega
      · rw [Nat.pow_succ]
        omega

theorem length_toDigits_mul_pow {n : Nat} (hn : 0 < n) (j : Nat) :
    (Nat.toDigits 10 (n * 10 ^ j)).length = (Nat.toDigits 10 n).length + j := by
  induction j with
  | zero => rw [Nat.pow_zero, Nat.mul_one, Nat.add_zero]
  | succ j ih =>
    have hpos : 0 < n * 10 ^ j := Nat.mul_pos hn (Nat.pow_pos (by decide))
    rw [Nat.pow_succ, ← Nat.mul_assoc, Nat.toDigits_eq_if (by decide), if_neg (by omega),
      Nat.mul_div_cancel _ (by decide), List.length_append, ih]
    rfl

/-- Without its zeros at the end a number is a positive one times a power of ten. -/
theorem exists_stripZeros (steps : Nat) {d : Nat} (hd : 0 < d) :
    0 < stripZeros steps d ∧ ∃ j, d = stripZeros steps d * 10 ^ j := by
  induction steps generalizing d with
  | zero => exact ⟨hd, 0, (Nat.mul_one d).symm⟩
  | succ steps ih =>
    rw [stripZeros]
    split
    · rename_i h
      rw [Bool.and_eq_true, decide_eq_true_iff] at h
      obtain ⟨hpos, j, hj⟩ := ih (d := d / 10) (by omega)
      refine ⟨hpos, j + 1, ?_⟩
      rw [Nat.pow_succ, ← Nat.mul_assoc, ← hj]
      omega
    · exact ⟨hd, 0, (Nat.mul_one d).symm⟩

/-! ## The place of the point -/

section Point

variable {num den : Nat}

/-- A quotient is not below the power of ten at the place before its point. -/
def IsPoint (point : Int) (num den : Nat) : Prop :=
  10 ^ (point - 1).toNat * den ≤ num * 10 ^ (1 - point).toNat

theorem leadingZeros_spec {steps zeros num den : Nat} (h : den ≤ num * 10 ^ (steps + 1)) :
    ∃ k, leadingZeros steps zeros num den = zeros + k ∧ den ≤ num * 10 ^ (k + 1) := by
  induction steps generalizing zeros num with
  | zero => exact ⟨0, rfl, h⟩
  | succ steps ih =>
    rw [leadingZeros]
    split
    · rename_i hle
      exact ⟨0, rfl, by simpa using hle⟩
    · obtain ⟨k, hk, hle⟩ := @ih (zeros + 1) (num * 10) (by
        calc den ≤ num * 10 ^ (steps + 1 + 1) := h
          _ = num * 10 * 10 ^ (steps + 1) := by ring)
      refine ⟨k + 1, by rw [hk]; omega, ?_⟩
      calc den ≤ num * 10 * 10 ^ (k + 1) := hle
        _ = num * 10 ^ (k + 1 + 1) := by ring

theorem isPoint_pointOf (hden : 0 < den) (h : den ≤ num * 10 ^ (400 + 1)) :
    IsPoint (pointOf num den) num den := by
  unfold pointOf IsPoint
  split
  · rename_i hle
    obtain ⟨k, hk, hlow, -⟩ := exists_length_toDigits (Nat.div_pos hle hden)
    rw [hk]
    have hup : ((k + 1 : Nat) - 1 : Int).toNat = k := by omega
    have hdown : (1 - (k + 1 : Nat) : Int).toNat = 0 := by omega
    rw [hup, hdown, Nat.pow_zero, Nat.mul_one]
    exact (Nat.mul_le_mul_right den hlow).trans (Nat.div_mul_le_self num den)
  · obtain ⟨k, hk, hle⟩ := @leadingZeros_spec 400 0 num den h
    rw [hk, Nat.zero_add]
    have hup : (-(k : Int) - 1).toNat = 0 := by omega
    have hdown : (1 - -(k : Int)).toNat = k + 1 := by omega
    rw [hup, hdown, Nat.pow_zero, Nat.one_mul]
    exact hle

end Point

/-! ## The search -/

section Search

variable {i : Interval} {point : Int}

/-- A decimal `d * 10 ^ unit` lies in an interval. -/
def Interval.Holds (i : Interval) (d : Nat) (unit : Int) : Prop :=
  i.holds d (10 ^ unit.toNat) (10 ^ (-unit).toNat) = true

/-- The decimal nearest in the interval lies in it. -/
theorem holds_of_nearest? {n k d : Nat} (h : i.nearest? n k = some d) :
    0 < d ∧ i.holds d n k = true := by
  unfold Interval.nearest? at h
  dsimp only at h
  generalize hunit : i.den * n = unit at h
  generalize i.num * k = scaled at h
  split at h
  · rename_i hboth
    simp only [Bool.and_eq_true, bne_iff_ne] at hboth
    cases h
    rcases roundDiv_cases scaled unit with hr | hr <;> rw [hr]
    · exact ⟨Nat.pos_of_ne_zero hboth.1.2, hboth.1.1⟩
    · exact ⟨Nat.succ_pos _, hboth.2⟩
  · split at h
    · rename_i hbelow
      rw [Bool.and_eq_true, bne_iff_ne] at hbelow
      cases h
      exact ⟨Nat.pos_of_ne_zero hbelow.2, hbelow.1⟩
    · split at h
      · rename_i habove
        cases h
        exact ⟨Nat.succ_pos _, habove⟩
      · cases h

/-- **A unit smaller than the interval is enough**: one of the two decimals around the number lies
in it. -/
theorem exists_nearest? {n k : Nat} (hn : 0 < i.den * n) (hk : 0 < k) (hlow : i.low ≤ i.num)
    (hhigh : i.num < i.high) (hpos : i.den * n ≤ i.num * k)
    (hwidth : i.low * k + i.den * n < i.high * k) : ∃ d, i.nearest? n k = some d := by
  have hlow' : i.low * k ≤ i.num * k := Nat.mul_le_mul_right k hlow
  have hhigh' : i.num * k < i.high * k := Nat.mul_lt_mul_of_pos_right hhigh hk
  have hq : 0 < i.num * k / (i.den * n) := Nat.div_pos hpos hn
  have hdiv := Nat.div_add_mod (i.num * k) (i.den * n)
  have hmod := Nat.mod_lt (i.num * k) hn
  unfold Interval.nearest?
  dsimp only
  generalize hd : i.num * k / (i.den * n) = q at *
  have hholds : ∀ d, i.low * k < d * (i.den * n) → d * (i.den * n) < i.high * k →
      i.holds d n k = true := by
    intro d hl hh
    have hx : d * n * i.den = d * (i.den * n) := by ring
    unfold Interval.holds
    dsimp only
    rw [hx]
    split <;> simp <;> omega
  have hmul : i.den * n * q = q * (i.den * n) := Nat.mul_comm ..
  by_cases hbelow : i.low * k < q * (i.den * n)
  · have hb := hholds q hbelow (by omega)
    have hne : (q != 0) = true := by simpa using Nat.ne_of_gt hq
    rw [hb, hne]
    cases i.holds (q + 1) n k with
    | true => exact ⟨_, rfl⟩
    | false => exact ⟨q, rfl⟩
  · have ha := hholds (q + 1) (by rw [Nat.succ_mul]; omega) (by rw [Nat.succ_mul]; omega)
    rw [ha]
    cases i.holds q n k && q != 0 with
    | true => exact ⟨_, rfl⟩
    | false => exact ⟨q + 1, rfl⟩

/-- The decimal that is looked for at a unit. -/
def Interval.at? (i : Interval) (unit : Int) : Option Nat :=
  i.nearest? (10 ^ unit.toNat) (10 ^ (-unit).toNat)

theorem found_eq_at? (i : Interval) (unit : Int) :
    (if 0 ≤ unit then i.nearest? (Nat.pow 10 unit.toNat) 1
      else i.nearest? 1 (Nat.pow 10 (-unit).toNat)) = i.at? unit := by
  unfold Interval.at?
  split
  · have hz : (-unit).toNat = 0 := by omega
    rw [hz]
    rfl
  · have hz : unit.toNat = 0 := by omega
    rw [hz]
    rfl

theorem search_some {steps digits d : Nat} (h : i.at? (point - digits) = some d) :
    i.search point (steps + 1) digits = (d, point - digits) := by
  rw [Interval.search, found_eq_at?, h]

theorem search_none {steps digits : Nat} (h : i.at? (point - digits) = none) :
    i.search point (steps + 1) digits = i.search point steps (digits + 1) := by
  rw [Interval.search, found_eq_at?, h]

/-- **The search finds a decimal of the interval** if there is one for the last number of digits. -/
theorem search_holds {steps digits : Nat}
    (h : ∃ d, i.at? (point - (digits + steps : Nat)) = some d) :
    ∃ d unit, i.search point (steps + 1) digits = (d, unit) ∧ 0 < d ∧ i.Holds d unit := by
  induction steps generalizing digits with
  | zero =>
    obtain ⟨d, hd⟩ := h
    rw [Nat.add_zero] at hd
    obtain ⟨hpos, hh⟩ := holds_of_nearest? hd
    exact ⟨d, point - digits, search_some hd, hpos, hh⟩
  | succ steps ih =>
    cases hd : i.at? (point - digits) with
    | some d =>
      obtain ⟨hpos, hh⟩ := holds_of_nearest? hd
      exact ⟨d, point - digits, search_some hd, hpos, hh⟩
    | none =>
      obtain ⟨d, unit, hs, hrest⟩ := @ih (digits + 1) (by rwa [Nat.add_right_comm])
      exact ⟨d, unit, (search_none hd).trans hs, hrest⟩

end Search

/-! ## The decimal of a number -/

section Decimal

variable {m s n d : Nat} {e unit : Int}

theorem two_pow_le_ten_pow {j k : Nat} (h : j ≤ 3 * k) : 2 ^ j ≤ 10 ^ k := by
  calc 2 ^ j ≤ 2 ^ (3 * k) := Nat.pow_le_pow_right (by decide) h
    _ = 8 ^ k := by rw [Nat.pow_mul]
    _ ≤ 10 ^ k := Nat.pow_le_pow_left (by decide) k

/-- **The nearest number of a decimal** `n * 10 ^ e` has the given mantissa and scale. -/
def NearestDecimal (m s n : Nat) (e : Int) : Prop :=
  Nearest m s (4 * (n * 10 ^ e.toNat * Nat.pow 2 1074)) (10 ^ (-e).toNat)

/-- What is nearest to a quotient does not depend on how it is written. -/
theorem Nearest.of_eq {num den num' den' : Nat} (h : Nearest m s num den) (hden : 0 < den)
    (hden' : 0 < den') (heq : num * den' = num' * den) : Nearest m s num' den' := by
  have hle : ∀ {k}, k * den ≤ num → k * den' ≤ num' := by
    intro k hk
    refine Nat.le_of_mul_le_mul_right ?_ hden
    calc k * den' * den = k * den * den' := by ring
      _ ≤ num * den' := Nat.mul_le_mul_right _ hk
      _ = num' * den := heq
  have hge : ∀ {k}, num ≤ k * den → num' ≤ k * den' := by
    intro k hk
    refine Nat.le_of_mul_le_mul_right ?_ hden
    calc num' * den = num * den' := heq.symm
      _ ≤ k * den * den' := Nat.mul_le_mul_right _ hk
      _ = k * den' * den := by ring
  have hlt : ∀ {k}, k * den < num → k * den' < num' := by
    intro k hk
    refine Nat.lt_of_mul_lt_mul_right (a := den) ?_
    calc k * den' * den = k * den * den' := by ring
      _ < num * den' := Nat.mul_lt_mul_of_pos_right hk hden'
      _ = num' * den := heq
  have hgt : ∀ {k}, num < k * den → num' < k * den' := by
    intro k hk
    refine Nat.lt_of_mul_lt_mul_right (a := den) ?_
    calc num' * den = num * den' := heq.symm
      _ < k * den * den' := Nat.mul_lt_mul_of_pos_right hk hden'
      _ = k * den' * den := by ring
  exact ⟨hle h.low, hge h.high, fun ho => ⟨hlt (h.odd ho).1, hgt (h.odd ho).2⟩⟩

/-- Zeros at the end of a decimal count as much as its exponent. -/
theorem NearestDecimal.shift {c a b : Nat} (h : NearestDecimal m s (c * 10 ^ b) unit)
    (hexp : a + e = b + unit) : NearestDecimal m s (c * 10 ^ a) e := by
  refine Nearest.of_eq h (Nat.pow_pos (by decide)) (Nat.pow_pos (by decide)) ?_
  have hsum : b + unit.toNat + (-e).toNat = a + e.toNat + (-unit).toNat := by omega
  calc 4 * (c * 10 ^ b * 10 ^ unit.toNat * Nat.pow 2 1074) * 10 ^ (-e).toNat
      = 4 * (c * Nat.pow 2 1074) * 10 ^ (b + unit.toNat + (-e).toNat) := by
        rw [Nat.pow_add, Nat.pow_add]
        ring
    _ = 4 * (c * Nat.pow 2 1074) * 10 ^ (a + e.toNat + (-unit).toNat) := by rw [hsum]
    _ = 4 * (c * 10 ^ a * 10 ^ e.toNat * Nat.pow 2 1074) * 10 ^ (-unit).toNat := by
        rw [Nat.pow_add, Nat.pow_add]
        ring

/-- **What lies in the interval of a number is nearest to it.** -/
theorem nearestDecimal_of_holds
    (h : (interval m s (decide (IsEdge m s))).Holds d unit) : NearestDecimal m s d unit := by
  have hx : d * 10 ^ unit.toNat * Nat.pow 2 1076 = 4 * (d * 10 ^ unit.toNat * Nat.pow 2 1074) := by
    have hpow : ∀ k, Nat.pow 2 (k + 2) = Nat.pow 2 k * 4 := fun k => Nat.pow_add 2 k 2
    have hsum : 1076 = 1074 + 2 := rfl
    rw [hsum, hpow]
    ring
  have hs : Nat.pow 2 s = 2 ^ s := rfl
  unfold Interval.Holds Interval.holds interval at h
  dsimp only at h
  rw [hx, hs] at h
  have hedge : IsEdge m s → m % 2 = 0 := fun hedge => hedge.1 ▸ rfl
  refine ⟨?_, ?_, fun hodd => ?_⟩
  · split at h <;> simp only [Bool.and_eq_true, decide_eq_true_eq] at h
    · exact h.1
    · exact Nat.le_of_lt h.1
  · split at h <;> simp only [Bool.and_eq_true, decide_eq_true_eq] at h
    · exact h.2
    · exact Nat.le_of_lt h.2
  · have hne : ¬ IsEdge m s := fun he => by have := hedge he; omega
    rw [if_neg (by simp [hodd])] at h
    simpa [hne] using h

/-- A number has seventeen digits before the seventeenth place after its point. -/
theorem le_of_isPoint {den : Nat} (h : IsPoint (unit + 17) (4 * m * 2 ^ s) den) :
    10 ^ 16 * (den * 10 ^ unit.toNat) ≤ 4 * (m * (2 ^ s * 10 ^ (-unit).toNat)) := by
  unfold IsPoint at h
  refine Nat.le_of_mul_le_mul_right ?_
    (Nat.pow_pos (by decide) : 0 < 10 ^ (1 - (unit + 17)).toNat)
  have hsum : (unit + 17 - 1).toNat + (-unit).toNat =
      16 + unit.toNat + (1 - (unit + 17)).toNat := by omega
  calc 10 ^ 16 * (den * 10 ^ unit.toNat) * 10 ^ (1 - (unit + 17)).toNat
      = den * 10 ^ (16 + unit.toNat + (1 - (unit + 17)).toNat) := by
        rw [Nat.pow_add, Nat.pow_add]
        ring
    _ = den * 10 ^ ((unit + 17 - 1).toNat + (-unit).toNat) := by rw [hsum]
    _ = 10 ^ (unit + 17 - 1).toNat * den * 10 ^ (-unit).toNat := by
        rw [Nat.pow_add]
        ring
    _ ≤ 4 * m * 2 ^ s * 10 ^ (1 - (unit + 17)).toNat * 10 ^ (-unit).toNat :=
        Nat.mul_le_mul_right _ h
    _ = 4 * (m * (2 ^ s * 10 ^ (-unit).toNat)) * 10 ^ (1 - (unit + 17)).toNat := by ring

/-- With seventeen digits the unit is smaller than the interval. -/
theorem at?_interval (hm : IsNormal m s)
    (h : IsPoint (unit + 17) (4 * m * 2 ^ s) (Nat.pow 2 1076)) :
    ∃ d, (interval m s (decide (IsEdge m s))).at? unit = some d := by
  have hk : 0 < 10 ^ (-unit).toNat := Nat.pow_pos (by decide)
  have hw : 0 < 2 ^ s * 10 ^ (-unit).toNat := Nat.mul_pos (Nat.two_pow_pos s) hk
  have hden : 0 < Nat.pow 2 1076 := Nat.two_pow_pos 1076
  have hn : 0 < Nat.pow 2 1076 * 10 ^ unit.toNat := Nat.mul_pos hden (Nat.pow_pos (by decide))
  have hs : Nat.pow 2 s = 2 ^ s := rfl
  have hpoint := le_of_isPoint h
  unfold Interval.at? interval
  rw [hs]
  generalize Nat.pow 2 1076 = den at *
  have hmul : ∀ k, k * 2 ^ s * 10 ^ (-unit).toNat = k * (2 ^ s * 10 ^ (-unit).toNat) :=
    fun k => Nat.mul_assoc ..
  refine exists_nearest? hn hk ?_ ?_ ?_ ?_ <;> dsimp only
  · exact Nat.mul_le_mul_right _ (Nat.sub_le ..)
  · exact Nat.mul_lt_mul_of_pos_right (by omega) (Nat.two_pow_pos s)
  · rw [hmul, Nat.mul_assoc 4 m]
    omega
  · rw [hmul, hmul]
    generalize 2 ^ s * 10 ^ (-unit).toNat = w at *
    have hadd : (4 * m + 2) * w = 4 * (m * w) + 2 * w := by ring
    rw [hadd]
    by_cases hedge : IsEdge m s
    · rw [decide_eq_true hedge, if_pos rfl, Nat.sub_mul, Nat.mul_assoc, hedge.1]
      rw [hedge.1] at hpoint
      omega
    · rw [decide_eq_false hedge, if_neg (by decide), Nat.sub_mul, Nat.mul_assoc]
      have := Nat.mul_le_mul_right w (Nat.le_of_lt hm.lt)
      omega

/-- **The digits that are found stand for a decimal nearest to the number.** -/
theorem search_nearest (hm : IsNormal m s) {i : Interval}
    (hi : i = interval m s (decide (IsEdge m s))) : ∃ d unit,
    i.search (pointOf i.num i.den) 17 1 = (d, unit) ∧ 0 < d ∧ NearestDecimal m s d unit := by
  have hle : Nat.pow 2 1076 ≤ 4 * m * 2 ^ s * 10 ^ (400 + 1) := by
    have hone : 1 ≤ 4 * m * 2 ^ s :=
      Nat.mul_pos (Nat.mul_pos (by decide) hm.pos) (Nat.two_pow_pos s)
    calc Nat.pow 2 1076 ≤ 10 ^ (400 + 1) := two_pow_le_ten_pow (by decide)
      _ = 1 * 10 ^ (400 + 1) := (Nat.one_mul _).symm
      _ ≤ 4 * m * 2 ^ s * 10 ^ (400 + 1) := Nat.mul_le_mul_right _ hone
  have hpoint := isPoint_pointOf (Nat.two_pow_pos 1076) hle
  have hnum : i.num = 4 * m * 2 ^ s := by
    rw [hi]
    rfl
  have hden : i.den = Nat.pow 2 1076 := by
    rw [hi, interval]
  rw [hnum, hden, hi]
  generalize pointOf (4 * m * 2 ^ s) (Nat.pow 2 1076) = point at *
  have hat := @at?_interval m s (point - (1 + 16 : Nat)) hm (by
    have hsum : point - (1 + 16 : Nat) + 17 = point := by omega
    rw [hsum]
    exact hpoint)
  obtain ⟨d, unit, hsearch, hd, hh⟩ := @search_holds _ _ 16 1 hat
  exact ⟨d, unit, hsearch, hd, nearestDecimal_of_holds hh⟩

/-- A decimal whose nearest number has no infinite scale is far below `10 ^ 400`. -/
theorem NearestDecimal.lt_pow (h : NearestDecimal m s n e) (hm : IsNormal m s) (hs : s ≤ 2045)
    {k : Nat} (hk : 10 ^ k ≤ n) : k + e < 400 := by
  have hhigh := h.high
  generalize hj : 1074 = j at hhigh
  generalize hp : 342 = p
  have hpos : 0 < 4 * 2 ^ j := Nat.mul_pos (by decide) (Nat.two_pow_pos j)
  have hle : 4 * m + 2 ≤ 2 ^ 55 := by have := hm.lt; omega
  have hbelow : n * 10 ^ e.toNat ≤ 10 ^ (p + (-e).toNat) := by
    refine Nat.le_of_mul_le_mul_right ?_ hpos
    calc n * 10 ^ e.toNat * (4 * 2 ^ j) = 4 * (n * 10 ^ e.toNat * Nat.pow 2 j) := by
          rw [Nat.mul_left_comm]
          rfl
      _ ≤ (4 * m + 2) * 2 ^ s * 10 ^ (-e).toNat := hhigh
      _ ≤ 2 ^ 55 * 2 ^ s * 10 ^ (-e).toNat :=
          Nat.mul_le_mul_right _ (Nat.mul_le_mul_right _ hle)
      _ = 2 ^ (55 + s) * 10 ^ (-e).toNat := by rw [Nat.pow_add]
      _ ≤ 2 ^ (3 * p + (j + 2)) * 10 ^ (-e).toNat :=
          Nat.mul_le_mul_right _ (Nat.pow_le_pow_right (by decide) (by omega))
      _ = 2 ^ (3 * p) * 10 ^ (-e).toNat * (4 * 2 ^ j) := by
          rw [Nat.pow_add, Nat.pow_add]
          ring
      _ ≤ 10 ^ p * 10 ^ (-e).toNat * (4 * 2 ^ j) :=
          Nat.mul_le_mul_right _ (Nat.mul_le_mul_right _ (two_pow_le_ten_pow (Nat.le_refl _)))
      _ = 10 ^ (p + (-e).toNat) * (4 * 2 ^ j) := by rw [Nat.pow_add]
  have hexp : 10 ^ (k + e.toNat) ≤ 10 ^ (p + (-e).toNat) := by
    rw [Nat.pow_add]
    exact (Nat.mul_le_mul_right _ hk).trans hbelow
  have := (Nat.pow_le_pow_iff_right (by decide)).mp hexp
  omega

/-- A decimal whose nearest number is not zero is far above `10 ^ -400`. -/
theorem NearestDecimal.pow_lt (h : NearestDecimal m s n e) (hm : IsNormal m s)
    {k : Nat} (hk : n < 10 ^ k) : -400 < k + e := by
  have hlow := h.low
  generalize hj : 1074 = j at hlow
  generalize hp : 360 = p
  have habove : 10 ^ (-e).toNat ≤ n * 10 ^ e.toNat * 10 ^ p := by
    have hone : 2 ≤ (4 * m - if IsEdge m s then 1 else 2) * 2 ^ s := by
      have hm' : 2 ≤ 4 * m - if IsEdge m s then 1 else 2 := by
        have := hm.pos
        split <;> omega
      exact Nat.mul_le_mul hm' (Nat.two_pow_pos s)
    refine Nat.le_of_mul_le_mul_left ?_ (by decide : 0 < 2)
    calc 2 * 10 ^ (-e).toNat
        ≤ (4 * m - if IsEdge m s then 1 else 2) * 2 ^ s * 10 ^ (-e).toNat :=
          Nat.mul_le_mul_right _ hone
      _ ≤ 4 * (n * 10 ^ e.toNat * Nat.pow 2 j) := hlow
      _ = 2 * (n * 10 ^ e.toNat * 2 ^ (j + 1)) := by
          rw [Nat.pow_succ]
          show 4 * (n * 10 ^ e.toNat * 2 ^ j) = _
          ring
      _ ≤ 2 * (n * 10 ^ e.toNat * 10 ^ p) := Nat.mul_le_mul_left _
          (Nat.mul_le_mul_left _ (two_pow_le_ten_pow (by omega)))
  have hexp : 10 ^ (-e).toNat < 10 ^ (k + e.toNat + p) := by
    rw [Nat.pow_add, Nat.pow_add]
    refine Nat.lt_of_le_of_lt habove ?_
    exact Nat.mul_lt_mul_of_pos_right
      (Nat.mul_lt_mul_of_pos_right hk (Nat.pow_pos (by decide))) (Nat.pow_pos (by decide))
  have := (Nat.pow_lt_pow_iff_right (by decide)).mp hexp
  omega

/-- **A decimal is read as the number that is nearest to it.** -/
theorem ofDecimal_of_nearest (hm : IsNormal m s) (hs : s ≤ 2045) (hn : 0 < n)
    (h : NearestDecimal m s n e) : ofDecimal n e = ofMantissa m s := by
  obtain ⟨k, hk, hlow, hhigh⟩ := exists_length_toDigits hn
  have hlt := h.lt_pow hm hs hlow
  have hgt := h.pow_lt hm hhigh
  unfold ofDecimal
  rw [hk]
  dsimp only
  rw [if_neg (Nat.ne_of_gt hn), if_neg (by omega), if_neg (by omega)]
  unfold NearestDecimal at h
  split
  · have hzero : (-e).toNat = 0 := by omega
    rw [hzero] at h
    exact ofRatio_of_nearest hm (Nat.mul_pos hn (Nat.pow_pos (by decide))) (by decide) h
  · have hzero : e.toNat = 0 := by omega
    rw [hzero, Nat.pow_zero, Nat.mul_one] at h
    exact ofRatio_of_nearest hm hn (Nat.pow_pos (by decide)) h

end Decimal

/-! ## Reading layouts -/

section Layout

variable {whole fraction rest : List Char}

/-- What is left after digits starts with no digit. -/
def Digitless (cs : List Char) : Prop := ∀ c, cs.head? = some c → isDigit c = false

theorem ofText_point (hwhole : ∀ c ∈ whole, isDigit c = true)
    (hfraction : ∀ c ∈ fraction, isDigit c = true) (hrest : Digitless rest) :
    ofText (whole ++ '.' :: (fraction ++ rest)) =
      ofDecimal (decimalOf (whole ++ fraction)) (signedOf (rest.drop 1) - fraction.length) := by
  have hpoint : Digitless ('.' :: (fraction ++ rest)) := by
    intro c hc
    cases hc
    decide
  obtain ⟨htake, hdrop⟩ := takeWhile_run hwhole hpoint
  obtain ⟨htake', hdrop'⟩ := takeWhile_run hfraction hrest
  simp only [ofText, htake, hdrop, htake', hdrop']

theorem ofText_whole (hwhole : ∀ c ∈ whole, isDigit c = true) (hrest : Digitless rest)
    (hpoint : rest.head? ≠ some '.') :
    ofText (whole ++ rest) = ofDecimal (decimalOf whole) (signedOf (rest.drop 1)) := by
  obtain ⟨htake, hdrop⟩ := takeWhile_run hwhole hrest
  rw [ofText, htake, hdrop]
  cases rest with
  | nil => simp
  | cons c cs =>
    have hc : c ≠ '.' := fun h => hpoint (by rw [h]; rfl)
    simp [hc]

theorem decimalOf_append_zero (ds : List Char) : decimalOf (ds ++ ['0']) = decimalOf ds * 10 := by
  rw [decimalOf, List.map_append, ofDigits_append]
  rfl

theorem decimalOf_append_zeros (ds : List Char) (k : Nat) :
    decimalOf (ds ++ List.replicate k '0') = decimalOf ds * 10 ^ k := by
  induction k with
  | zero => rw [List.replicate_zero, List.append_nil, Nat.pow_zero, Nat.mul_one]
  | succ k ih =>
    rw [List.replicate_succ', ← List.append_assoc, decimalOf_append_zero, ih, Nat.pow_succ,
      Nat.mul_assoc]

theorem decimalOf_zeros_append (k : Nat) (ds : List Char) :
    decimalOf (List.replicate k '0' ++ ds) = decimalOf ds := by
  induction k with
  | zero => rfl
  | succ k ih => exact ih

theorem isDigit_of_mem_zeros {k : Nat} {c : Char} (h : c ∈ List.replicate k '0') :
    isDigit c = true := by
  rw [List.eq_of_mem_replicate h]
  decide

theorem signedOf_sign (x : Int) (k : Nat) :
    signedOf ((if x < 0 then '-' else '+') ::
      (List.replicate k '0' ++ Nat.toDigits 10 x.natAbs)) = x := by
  split
  · show -((decimalOf _ : Nat) : Int) = x
    rw [decimalOf_zeros_append, decimalOf_toDigits]
    omega
  · show ((decimalOf _ : Nat) : Int) = x
    rw [decimalOf_zeros_append, decimalOf_toDigits]
    omega

theorem ofText_positional {digits : List Char} (hdigits : ∀ c ∈ digits, isDigit c = true)
    (point : Int) : ∃ (k : Nat) (e : Int),
      ofText (DecimalFormat.positional digits point) = ofDecimal (decimalOf digits * 10 ^ k) e ∧
        k + e = point - digits.length := by
  have hend : Digitless [] := fun c hc => by cases hc
  have hzero : ∀ c ∈ ['0'], isDigit c = true := List.forall_mem_singleton.mpr (by decide)
  unfold DecimalFormat.positional
  split
  · -- zeros stand between the point and the digits
    refine ⟨0, point - digits.length, ?_, by omega⟩
    have h := @ofText_point ['0'] (List.replicate (-point).toNat '0' ++ digits) [] hzero
      (fun c hc => (List.mem_append.mp hc).elim isDigit_of_mem_zeros (hdigits c)) hend
    rw [List.append_nil, List.singleton_append] at h
    rw [List.cons_append, List.cons_append, h]
    have hvalue := decimalOf_zeros_append ((-point).toNat + 1) digits
    rw [List.replicate_succ, List.cons_append] at hvalue
    rw [List.singleton_append, hvalue, Nat.pow_zero, Nat.mul_one, List.length_append,
      List.length_replicate]
    congr 1
    show (0 : Int) - _ = _
    omega
  · dsimp only
    split
    · -- zeros stand between the digits and the point
      rename_i hle
      refine ⟨point.toNat - digits.length + 1, -1, ?_, by omega⟩
      have h := @ofText_point (digits ++ List.replicate (point.toNat - digits.length) '0') ['0'] []
        (fun c hc => (List.mem_append.mp hc).elim (hdigits c) isDigit_of_mem_zeros) hzero hend
      rw [List.append_nil] at h
      rw [h, decimalOf_append_zero, decimalOf_append_zeros, Nat.pow_succ, Nat.mul_assoc]
      rfl
    · -- the point stands between the digits
      refine ⟨0, point - digits.length, ?_, by omega⟩
      have h := @ofText_point (digits.take point.toNat) (digits.drop point.toNat) []
        (fun c hc => hdigits c (List.mem_of_mem_take hc))
        (fun c hc => hdigits c (List.mem_of_mem_drop hc)) hend
      rw [List.append_nil] at h
      rw [h, List.take_append_drop, Nat.pow_zero, Nat.mul_one, List.length_drop]
      congr 1
      show (0 : Int) - _ = _
      omega

theorem ofText_scientific {digits : List Char} (hdigits : ∀ c ∈ digits, isDigit c = true)
    (hne : digits ≠ []) (f : DecimalFormat) (exponent : Int) :
    ofText (f.scientific digits exponent) =
      ofDecimal (decimalOf digits) (exponent + 1 - digits.length) := by
  have hexp : ∀ cs : List Char, Digitless ('e' :: cs) := by
    intro cs c hc
    cases hc
    decide
  have hsign := signedOf_sign exponent
    (f.exponentDigits - (Nat.toDigits 10 exponent.natAbs).length)
  obtain ⟨c, cs, rfl⟩ := List.exists_cons_of_ne_nil hne
  have hc : ∀ d ∈ [c], isDigit d = true := fun d hd =>
    hdigits d (List.mem_singleton.mp hd ▸ List.mem_cons_self)
  unfold DecimalFormat.scientific
  dsimp only
  generalize List.replicate (f.exponentDigits - (Nat.toDigits 10 exponent.natAbs).length) '0' =
    zeros at *
  cases cs with
  | nil =>
    have h := @ofText_whole [c] ('e' :: (if exponent < 0 then '-' else '+') ::
      (zeros ++ Nat.toDigits 10 exponent.natAbs)) hc (hexp _) (by simp)
    rw [List.drop_succ_cons, List.drop_zero, hsign] at h
    simpa using h
  | cons d ds =>
    have h := @ofText_point [c] (d :: ds) ('e' :: (if exponent < 0 then '-' else '+') ::
      (zeros ++ Nat.toDigits 10 exponent.natAbs)) hc
      (fun x hx => hdigits x (List.mem_cons_of_mem _ hx)) (hexp _)
    rw [List.drop_succ_cons, List.drop_zero, hsign] at h
    have hlen : exponent + 1 - (c :: d :: ds).length = exponent - (d :: ds).length := by
      simp only [List.length_cons]
      omega
    rw [hlen]
    simpa using h

/-- **A layout is read as the decimal of its digits**, or with zeros added to them. -/
theorem ofText_layout (n : Nat) (f : DecimalFormat) (point : Int) : ∃ (k : Nat) (e : Int),
    ofText (f.layout (Nat.toDigits 10 n) point) = ofDecimal (n * 10 ^ k) e ∧
      k + e = point - (Nat.toDigits 10 n).length := by
  have hdigits : ∀ c ∈ Nat.toDigits 10 n, isDigit c = true := fun c hc =>
    isDigit_of_mem_toDigits hc
  unfold DecimalFormat.layout
  split
  · have h := ofText_positional hdigits point
    rwa [decimalOf_toDigits] at h
  · refine ⟨0, point - (Nat.toDigits 10 n).length, ?_, by omega⟩
    rw [ofText_scientific hdigits Nat.toDigits_ne_nil, decimalOf_toDigits, Nat.pow_zero,
      Nat.mul_one, Int.sub_add_cancel]

end Layout

/-! ## The text of a number -/

section Text

variable {x : Binary64} {m s : Nat} {atEdge : Bool}

/-- **What the bits of a finite number stand for** gives these bits again. -/
theorem of_view (h : x.view = .finite false m s atEdge) :
    (m = 0 ∧ x = ⟨0⟩) ∨
      (IsNormal m s ∧ s ≤ 2045 ∧ atEdge = decide (IsEdge m s) ∧ ofMantissa m s = x) := by
  have hfull : leastFull = 4503599627370496 := rfl
  have hsign : Nat.pow 2 63 = 9223372036854775808 := rfl
  have hexp : Nat.pow 2 11 = 2048 := rfl
  have hlt := x.bits.toNat_lt
  have hbits : ∀ n, n = x.bits.toNat → (⟨n.toUInt64⟩ : Binary64) = x := by
    rintro n rfl
    simp
  unfold view at h
  rw [hfull, hsign, hexp] at h
  dsimp only at h
  generalize x.bits.toNat = n at *
  split at h
  · split at h <;> cases h
  · rename_i hinfinite
    split at h
    · -- the least scale
      rename_i hzero
      simp only [View.finite.injEq, decide_eq_false_iff_not] at h
      obtain ⟨hneg, rfl, rfl, rfl⟩ := h
      by_cases hm : n % 4503599627370496 = 0
      · refine .inl ⟨hm, ?_⟩
        rw [← hbits 0 (by omega)]
        rfl
      · refine .inr ⟨⟨by omega, by omega, .inl rfl⟩, by decide, ?_, ?_⟩
        · simp [IsEdge]
        · unfold ofMantissa
          rw [hfull, if_neg (by omega)]
          dsimp only
          rw [if_neg (by omega), if_pos (by omega)]
          exact hbits _ (by omega)
    · -- a mantissa of 53 bits
      rename_i hzero
      simp only [View.finite.injEq, decide_eq_false_iff_not] at h
      obtain ⟨hneg, rfl, rfl, rfl⟩ := h
      refine .inr ⟨⟨by omega, by omega, .inr (by omega)⟩, by omega, ?_, ?_⟩
      · rw [Bool.eq_iff_iff, decide_eq_true_iff, IsEdge]
        simp only [Bool.and_eq_true, beq_iff_eq, decide_eq_true_eq]
        omega
      · unfold ofMantissa
        rw [hfull, if_neg (by omega)]
        dsimp only
        rw [if_neg (by omega), if_neg (by omega)]
        exact hbits _ (by omega)

/-- The first bit of a finite number is its sign. -/
theorem negative_of_view {negative : Bool} (h : x.view = .finite negative m s atEdge) :
    negative = decide (2 ^ 63 ≤ x.bits.toNat) := by
  unfold view at h
  dsimp only at h
  split at h
  · split at h <;> cases h
  · split at h
    · cases h
      rfl
    · cases h
      rfl

/-- **The text of a number without a sign** is the layout of its shortest digits. -/
theorem text_cases (hsign : x.bits.toNat ≤ infiniteBits) (hfinite : x.isFinite = true) :
    (x = ⟨0⟩ ∧ (x.text .literal).toList = ['0', '.', '0']) ∨
      ∃ m s digits point, IsNormal m s ∧ s ≤ 2045 ∧ ofMantissa m s = x ∧
        shortest m s (decide (IsEdge m s)) = (digits, point) ∧
        (x.text .literal).toList = DecimalFormat.literal.layout digits point := by
  unfold isFinite at hfinite
  cases hview : x.view with
  | infinite negative => rw [hview] at hfinite; cases hfinite
  | notANumber => rw [hview] at hfinite; cases hfinite
  | finite negative m s atEdge =>
    obtain rfl : negative = false := by
      have hlt : infiniteBits < 2 ^ 63 := by decide
      rw [negative_of_view hview, decide_eq_false_iff_not]
      omega
    rw [text, hview]
    dsimp only
    rcases of_view hview with ⟨rfl, hx⟩ | ⟨hm, hs, rfl, hx⟩
    · exact .inl ⟨hx, by rw [if_pos rfl]; rfl⟩
    · obtain ⟨⟨digits, point⟩, hshort⟩ : ∃ p, shortest m s (decide (IsEdge m s)) = p := ⟨_, rfl⟩
      refine .inr ⟨m, s, digits, point, hm, hs, hx, hshort, ?_⟩
      rw [if_neg (Nat.ne_of_gt hm.pos), if_neg (by decide), String.toList_append,
        String.toList_empty, List.nil_append, String.toList_ofList, hshort]

/-- **The shortest digits of a number stand for a decimal nearest to it**, with any number of zeros
added to them. -/
theorem shortest_nearest {m s : Nat} {digits : List Char} {point : Int} (hm : IsNormal m s)
    (h : shortest m s (decide (IsEdge m s)) = (digits, point)) :
    ∃ c, 0 < c ∧ digits = Nat.toDigits 10 c ∧
      ∀ (k : Nat) (e : Int), k + e = point - digits.length → NearestDecimal m s (c * 10 ^ k) e := by
  obtain ⟨d, unit, hsearch, hd, hnearest⟩ := search_nearest hm rfl
  obtain ⟨hpos, j, hj⟩ := exists_stripZeros (Nat.toDigits 10 d).length hd
  have hlen := length_toDigits_mul_pow hpos j
  rw [← hj] at hlen
  rw [shortest] at h
  dsimp only at h
  rw [hsearch] at h
  dsimp only at h
  generalize stripZeros (Nat.toDigits 10 d).length d = c at *
  rw [Prod.mk.injEq] at h
  obtain ⟨rfl, rfl⟩ := h
  rw [hj] at hnearest
  exact ⟨c, hpos, rfl, fun k e hexp => hnearest.shift (by omega)⟩

/-- **The text of a number without a sign is read as that number.** -/
theorem ofText_text (hsign : x.bits.toNat ≤ infiniteBits) (hfinite : x.isFinite = true) :
    ofText (x.text .literal).toList = x := by
  rcases text_cases hsign hfinite with
    ⟨rfl, htext⟩ | ⟨m, s, digits, point, hm, hs, hx, hshort, htext⟩
  · rw [htext]
    decide
  · obtain ⟨c, hc, rfl, hnearest⟩ := shortest_nearest hm hshort
    obtain ⟨k, e, hlayout, hexp⟩ := ofText_layout c .literal point
    rw [htext, hlayout, ofDecimal_of_nearest hm hs (Nat.mul_pos hc (Nat.pow_pos (by decide)))
      (hnearest k e hexp), hx]

theorem ofDecimal_le (n : Nat) (e : Int) : (ofDecimal n e).bits.toNat ≤ infiniteBits := by
  unfold ofDecimal
  dsimp only
  split
  · decide
  · split
    · decide
    · split
      · decide
      · split
        · exact ofRatio_le _ (by decide)
        · exact ofRatio_le _ (Nat.pow_pos (by decide))

/-- **No text is read as a number with a sign**, or as no number. -/
theorem ofText_le (text : List Char) : (ofText text).bits.toNat ≤ infiniteBits := ofDecimal_le _ _

end Text

/-! ## Numbers with a sign -/

section Signed

variable {m s : Nat} {atEdge : Bool} {x : Binary64}

theorem xor_two_pow {k n : Nat} (h : n < 2 ^ k) : 2 ^ k ^^^ n = 2 ^ k + n := by
  refine Nat.eq_of_testBit_eq fun i => ?_
  rw [Nat.testBit_xor, Nat.testBit_two_pow]
  rcases Nat.lt_trichotomy i k with hi | rfl | hi
  · rw [Nat.testBit_two_pow_add_gt hi]
    simp [Nat.ne_of_gt hi]
  · rw [Nat.testBit_two_pow_add_eq]
    simp
  · have hn : n < 2 ^ i := Nat.lt_trans h (Nat.pow_lt_pow_right (by decide) hi)
    have hsum : 2 ^ k + n < 2 ^ i := by
      have : 2 ^ (k + 1) ≤ 2 ^ i := Nat.pow_le_pow_right (by decide) hi
      rw [Nat.pow_succ] at this
      omega
    rw [Nat.testBit_lt_two_pow hn, Nat.testBit_lt_two_pow hsum]
    simp [Nat.ne_of_lt hi]

theorem neg_neg (x : Binary64) : x.neg.neg = x := by
  rw [neg, neg, UInt64.xor_assoc, UInt64.xor_self, UInt64.xor_zero]

/-- The first bit is taken from a number that has it. -/
theorem toNat_neg (h : 2 ^ 63 ≤ x.bits.toNat) : x.bits.toNat = 2 ^ 63 + x.neg.bits.toNat := by
  have hlt := x.bits.toNat_lt
  obtain ⟨n, hn⟩ : ∃ n, x.bits.toNat = 2 ^ 63 + n := ⟨x.bits.toNat - 2 ^ 63, by omega⟩
  have hsmall : n < 2 ^ 63 := by omega
  have hxor : x.neg.bits.toNat = n := by
    show (x.bits ^^^ 0x8000000000000000).toNat = n
    rw [UInt64.toNat_xor, hn, ← xor_two_pow hsmall, Nat.xor_comm, ← Nat.xor_assoc]
    show 2 ^ 63 ^^^ 2 ^ 63 ^^^ n = n
    rw [Nat.xor_self, Nat.zero_xor]
  rw [hn, hxor]

/-- **A number with the other sign** is the same apart from that. -/
theorem view_neg (h : x.view = .finite true m s atEdge) :
    x.neg.view = .finite false m s atEdge := by
  have hsign : 2 ^ 63 ≤ x.bits.toNat := of_decide_eq_true (negative_of_view h).symm
  have hbits := toNat_neg hsign
  have hlt := x.bits.toNat_lt
  have hfull : leastFull = 4503599627370496 := rfl
  have hpow : Nat.pow 2 63 = 9223372036854775808 := rfl
  have hexp : Nat.pow 2 11 = 2048 := rfl
  unfold view at h ⊢
  rw [hfull, hpow, hexp] at h ⊢
  dsimp only at h ⊢
  rw [hbits] at h hlt
  generalize x.neg.bits.toNat = n at *
  have hdiv : (2 ^ 63 + n) / 4503599627370496 % 2048 = n / 4503599627370496 % 2048 := by omega
  have hmod : (2 ^ 63 + n) % 4503599627370496 = n % 4503599627370496 := by omega
  have hsmall : ¬ n ≥ 9223372036854775808 := by omega
  have hlarge : 2 ^ 63 + n ≥ 9223372036854775808 := by omega
  rw [hdiv, hmod, decide_eq_true hlarge] at h
  rw [decide_eq_false hsmall]
  split at h
  · split at h <;> cases h
  · rename_i hfinite
    rw [if_neg hfinite]
    split at h
    · rename_i hzero
      cases h
      rw [if_pos hzero]
    · rename_i hzero
      cases h
      rw [if_neg hzero]

theorem le_of_view (h : x.view = .finite false m s atEdge) : x.bits.toNat ≤ infiniteBits := by
  have hsign : ¬ 2 ^ 63 ≤ x.bits.toNat := of_decide_eq_false (negative_of_view h).symm
  have hfull : leastFull = 4503599627370496 := rfl
  have hexp : Nat.pow 2 11 = 2048 := rfl
  have hinf : infiniteBits = 9218868437227405312 := rfl
  unfold view at h
  rw [hfull, hexp] at h
  dsimp only at h
  split at h
  · split at h <;> cases h
  · omega

/-- The minus sign is the only difference that the sign makes. -/
theorem text_of_view (h : x.view = .finite true m s atEdge) :
    x.text .literal = "-" ++ x.neg.text .literal := by
  unfold text
  rw [h, view_neg h]
  dsimp only
  generalize shortest m s atEdge = r
  split <;> simp

/-- **A finite number has no sign, or is written with a minus sign** before the other one. -/
theorem text_sign (h : x.isFinite = true) :
    x.bits.toNat ≤ infiniteBits ∨ x.neg.bits.toNat ≤ infiniteBits ∧ x.neg.isFinite = true ∧
      x.text .literal = "-" ++ x.neg.text .literal := by
  unfold isFinite at h
  cases hview : x.view with
  | infinite negative => rw [hview] at h; cases h
  | notANumber => rw [hview] at h; cases h
  | finite negative m s atEdge =>
    cases negative with
    | true => exact .inr ⟨le_of_view (view_neg hview), by rw [isFinite, view_neg hview],
        text_of_view hview⟩
    | false => exact .inl (le_of_view hview)

end Signed

end Stencil.Binary64
