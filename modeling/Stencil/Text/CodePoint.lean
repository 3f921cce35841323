/-!
# Code points

A string value of a template may hold any code point, a lone surrogate included, so it is kept as a
list of code points and not as characters. Character classes are written as lists of inclusive
ranges.

* `CodePoint.ofChar`, `CodePoint.toChar?`: the two views of a scalar value.
* `covers`: a code point lies in one of the ranges.
-/

namespace Stencil.Text

/-- **A code point**: a number up to `U+10FFFF`, surrogates included. -/
structure CodePoint where
  value : Nat
  le_max : value ≤ 0x10FFFF
  deriving DecidableEq, Repr

theorem Char.toNat_le_max (c : Char) : c.toNat ≤ 0x10FFFF := by
  have h := c.valid
  unfold UInt32.isValidChar Nat.isValidChar at h
  change c.val.toNat ≤ _
  omega

namespace CodePoint

/-- The code point of a character. -/
def ofChar (c : Char) : CodePoint := ⟨c.toNat, Char.toNat_le_max c⟩

/-- The character of a code point; a surrogate has none. -/
def toChar? (p : CodePoint) : Option Char :=
  if h : p.value.isValidChar then some (Char.ofNatAux p.value h) else none

/-- The code points of a text. -/
def ofString (s : String) : List CodePoint := s.toList.map ofChar

/-- The text with the given code points; none if one of them is a surrogate. -/
def toString? (ps : List CodePoint) : Option String := (ps.mapM toChar?).map String.ofList

theorem ofChar_injective {c d : Char} (h : ofChar c = ofChar d) : c = d := by
  have : c.toNat = d.toNat := congrArg CodePoint.value h
  exact Char.ext (UInt32.toNat_inj.mp this)

end CodePoint

/-! ## Ranges -/

/-- **A code point lies in one of the ranges.** -/
def covers (ranges : List (Nat × Nat)) (n : Nat) : Bool :=
  ranges.any fun r => r.1 ≤ n && n ≤ r.2

@[simp] theorem covers_nil (n : Nat) : covers [] n = false := rfl

theorem covers_iff {ranges : List (Nat × Nat)} {n : Nat} :
    covers ranges n = true ↔ ∃ r ∈ ranges, r.1 ≤ n ∧ n ≤ r.2 := by
  simp [covers]

end Stencil.Text
