/-!
# Binary numbers of double precision

* `Binary64`: a number by its 64 bits; `Binary64.view`: what the bits stand for.
* `Binary64.ofRatio`, `Binary64.ofDecimal`: rounding to the nearest number, ties to the even one.
-/

namespace Stencil

/-- **A binary floating-point number of double precision**, by its bits. -/
structure Binary64 where
  bits : UInt64
  deriving DecidableEq, Repr

namespace Binary64

/-- What the bits stand for. -/
inductive View where
  /-- The number `mantissa * 2 ^ (scale - 1074)`; `atEdge` if the number before it is nearer than
  the number after it. -/
  | finite (negative : Bool) (mantissa scale : Nat) (atEdge : Bool)
  | infinite (negative : Bool)
  | notANumber
  deriving DecidableEq, Repr

/-- The least mantissa of 53 bits. -/
def leastFull : Nat := Nat.pow 2 52

/-- **What the bits stand for.** -/
def view (x : Binary64) : View :=
  let n := x.bits.toNat
  let negative := n ≥ Nat.pow 2 63
  let exponent := n / leastFull % Nat.pow 2 11
  let fraction := n % leastFull
  if exponent = 2047 then if fraction = 0 then .infinite negative else .notANumber
  else if exponent = 0 then .finite negative fraction 0 false
  else .finite negative (leastFull + fraction) (exponent - 1) (fraction == 0 && exponent > 1)

/-- A number that is neither infinite nor undefined. -/
def isFinite (x : Binary64) : Bool :=
  match x.view with
  | .finite .. => true
  | _ => false

/-- The number with the other sign. -/
def neg (x : Binary64) : Binary64 := ⟨x.bits ^^^ 0x8000000000000000⟩

/-- A quotient of natural numbers rounded to the nearest integer, ties to the even one. -/
def roundDiv (num den : Nat) : Nat :=
  let q := num / den
  let r := num % den
  if 2 * r < den then q else if den < 2 * r then q + 1 else q + q % 2

/-- The positive number with the given mantissa, at most `2 ^ 53`, and scale, or infinity. -/
def ofMantissa (mantissa scale : Nat) : Binary64 :=
  let (mantissa, scale) :=
    if mantissa = 2 * leastFull then (leastFull, scale + 1) else (mantissa, scale)
  if 2045 < scale then ⟨0x7ff0000000000000⟩
  else if mantissa < leastFull then ⟨mantissa.toUInt64⟩
  else ⟨(scale * leastFull + mantissa).toUInt64⟩

/-- The scale at which a positive quotient has a mantissa of 53 bits; the least scale if it is too
small for that. -/
def scaleFor (num den : Nat) : Nat :=
  let num := num * Nat.pow 2 1074
  let s := num.log2 - den.log2 - 52
  if num < den * Nat.pow 2 (s + 52) then s - 1 else s

/-- **The number nearest to a quotient**, ties to the even mantissa. -/
def ofRatio (num den : Nat) : Binary64 :=
  if num = 0 then ⟨0⟩
  else
    let s := scaleFor num den
    ofMantissa (roundDiv (num * Nat.pow 2 1074) (den * Nat.pow 2 s)) s

/-- **The number nearest to a decimal** `n * 10 ^ e`. Exponents that are out of range for every
number of that length give infinity or zero without being raised. -/
def ofDecimal (n : Nat) (e : Int) : Binary64 :=
  let digits : Int := (Nat.toDigits 10 n).length
  if n = 0 then ⟨0⟩
  else if 400 < digits + e then ⟨0x7ff0000000000000⟩
  else if digits + e < -400 then ⟨0⟩
  else if 0 ≤ e then ofRatio (n * Nat.pow 10 e.toNat) 1
  else ofRatio n (Nat.pow 10 (-e).toNat)

end Binary64

end Stencil
