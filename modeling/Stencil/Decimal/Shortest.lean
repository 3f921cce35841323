import Stencil.Decimal.Binary64

/-!
# Shortest decimals

A number is written with the fewest digits that read back as the same number, and of those with the
digits nearest to it.

* `Binary64.shortest`: the digits and the place of the point.
* `DecimalFormat`, `Binary64.text`: how digits are laid out.
-/

namespace Stencil

namespace Binary64

/-- The decimal exponent of a positive quotient below one: the zeros after the point, counted up
from `zeros`. -/
def leadingZeros : Nat → Nat → Nat → Nat → Nat
  | 0, zeros, _, _ => zeros
  | steps + 1, zeros, num, den =>
    if den ≤ num * 10 then zeros else leadingZeros steps (zeros + 1) (num * 10) den

/-- The place of the point in the digits of a positive quotient: it is below `10 ^ point` and not
below `10 ^ (point - 1)`. -/
def pointOf (num den : Nat) : Int :=
  if den ≤ num then (Nat.toDigits 10 (num / den)).length
  else -(leadingZeros 400 0 num den : Int)

/-- The numbers that read back as `num / den` are those between `low / den` and `high / den`, the
ends included if `closed`. -/
structure Interval where
  low : Nat
  num : Nat
  high : Nat
  den : Nat
  closed : Bool

/-- A decimal `d * unitNum / unitDen` lies in the interval. -/
def Interval.holds (i : Interval) (d unitNum unitDen : Nat) : Bool :=
  let x := d * unitNum * i.den
  let low := i.low * unitDen
  let high := i.high * unitDen
  if i.closed then low ≤ x && x ≤ high else low < x && x < high

/-- The nearest of the decimals of the given unit that lie in the interval, if one does; of two that
are equally near the even one. -/
def Interval.nearest? (i : Interval) (unitNum unitDen : Nat) : Option Nat :=
  let scaled := i.num * unitDen
  let unit := i.den * unitNum
  let d := scaled / unit
  let below := i.holds d unitNum unitDen && d != 0
  let above := i.holds (d + 1) unitNum unitDen
  if below && above then some (roundDiv scaled unit)
  else if below then some d
  else if above then some (d + 1)
  else none

/-- The decimal with at least `digits` digits that the interval allows: its digits as a number, and
how many of them stand before the point. -/
def Interval.search (i : Interval) (point : Int) : Nat → Nat → Nat × Int
  | 0, _ => (0, 1)
  | steps + 1, digits =>
    let unit := point - digits
    let found :=
      if 0 ≤ unit then i.nearest? (Nat.pow 10 unit.toNat) 1
      else i.nearest? 1 (Nat.pow 10 (-unit).toNat)
    match found with
    | some d => (d, unit)
    | none => i.search point steps (digits + 1)

/-- The interval of a finite number. -/
def interval (mantissa scale : Nat) (atEdge : Bool) : Interval :=
  let unit := Nat.pow 2 scale
  { low := (4 * mantissa - (if atEdge then 1 else 2)) * unit
    num := 4 * mantissa * unit
    high := (4 * mantissa + 2) * unit
    den := Nat.pow 2 1076
    closed := mantissa % 2 == 0 }

/-- A positive number without the zeros at its end. -/
def stripZeros : Nat → Nat → Nat
  | 0, n => n
  | steps + 1, n => if n % 10 = 0 && n != 0 then stripZeros steps (n / 10) else n

/-- **The shortest decimal of a positive finite number**: its digits, without zeros at their end,
and how many of them stand before the point. -/
def shortest (mantissa scale : Nat) (atEdge : Bool) : List Char × Int :=
  let i := interval mantissa scale atEdge
  let (d, unit) := i.search (pointOf i.num i.den) 17 1
  let all := Nat.toDigits 10 d
  (Nat.toDigits 10 (stripZeros all.length d), all.length + unit)

end Binary64

/-- How the digits of a number are laid out. -/
structure DecimalFormat where
  /-- Numbers below `10 ^ least` have an exponent. -/
  least : Int
  /-- Numbers from `10 ^ most` on have an exponent. -/
  most : Int
  /-- The least number of digits of an exponent. -/
  exponentDigits : Nat
  infinite : String
  notANumber : String

namespace DecimalFormat

/-- The layout of literals: an exponent from `1e+16` on and below `0.0001`, of two digits at least;
otherwise a point with a digit on either side. -/
def literal : DecimalFormat := ⟨-4, 16, 2, "inf", "nan"⟩

/-- Digits with an exponent. -/
def scientific (f : DecimalFormat) (digits : List Char) (exponent : Int) : List Char :=
  let fraction := if digits.length ≤ 1 then [] else '.' :: digits.drop 1
  let shown := Nat.toDigits 10 exponent.natAbs
  digits.take 1 ++ fraction ++ ['e', if exponent < 0 then '-' else '+'] ++
    List.replicate (f.exponentDigits - shown.length) '0' ++ shown

/-- Digits with a point after the first `point` of them. -/
def positional (digits : List Char) (point : Int) : List Char :=
  if point ≤ 0 then '0' :: '.' :: List.replicate (-point).toNat '0' ++ digits
  else
    let n := point.toNat
    if digits.length ≤ n then digits ++ List.replicate (n - digits.length) '0' ++ ['.', '0']
    else digits.take n ++ '.' :: digits.drop n

/-- The text of digits and a point. -/
def layout (f : DecimalFormat) (digits : List Char) (point : Int) : List Char :=
  if f.least ≤ point - 1 && point - 1 < f.most then positional digits point
  else f.scientific digits (point - 1)

end DecimalFormat

/-- **The text of a number** in a layout. -/
def Binary64.text (f : DecimalFormat) (x : Binary64) : String :=
  let sign (negative : Bool) : String := if negative then "-" else ""
  match x.view with
  | .notANumber => f.notANumber
  | .infinite negative => sign negative ++ f.infinite
  | .finite negative mantissa scale atEdge =>
    if mantissa = 0 then sign negative ++ "0.0"
    else
      let (digits, point) := shortest mantissa scale atEdge
      sign negative ++ String.ofList (f.layout digits point)

end Stencil
