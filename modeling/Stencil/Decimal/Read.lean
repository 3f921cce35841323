import Stencil.Decimal.Binary64
import Stencil.Text.Blank
import Stencil.Text.DecimalDigit

/-!
# Reading decimals

* `decimalOf`, `signedOf`: the number that digits write, without and with a sign.
* `integer?`: the integer that a text writes, if it writes one.
* `Binary64.ofText`: the number nearest to a decimal with an optional fraction and exponent.
-/

namespace Stencil

open Text

/-- The most decimal digits of an integer that can be read or written. -/
def maxDecimalDigits : Nat := 4300

/-- What is left of a text without its underscores, which may separate digits. -/
def withoutUnderscores (text : List Char) : List Char := text.filter (· != '_')

/-- **The number that decimal digits of any script write.** -/
def decimalOf (digits : List Char) : Nat := ofDigits 10 (digits.map fun c => (digitValue? c).getD 0)

/-- **The number that digits with an optional sign write.** -/
def signedOf : List Char → Int
  | '-' :: digits => -decimalOf digits
  | '+' :: digits => decimalOf digits
  | digits => decimalOf digits

/-- Digits with single underscores between them. -/
def isDigits : List Char → Bool
  | [] => false
  | [c] => isDigit c
  | c :: '_' :: cs => isDigit c && isDigits cs
  | c :: cs => isDigit c && isDigits cs

/-- **The integer that a text writes**: digits with an optional sign, between blanks. -/
def integer? (text : List Char) : Option Int :=
  let text := trim text
  let digits :=
    match text with
    | '-' :: ds | '+' :: ds => ds
    | ds => ds
  if isDigits digits && (withoutUnderscores digits).length ≤ maxDecimalDigits then
    some (signedOf (withoutUnderscores text))
  else none

namespace Binary64

/-- **The number nearest to a decimal**: digits, an optional point with more digits, and an optional
letter with an exponent. -/
def ofText (text : List Char) : Binary64 :=
  let whole := text.takeWhile isDigit
  let (fraction, rest) :=
    match text.dropWhile isDigit with
    | '.' :: after => (after.takeWhile isDigit, after.dropWhile isDigit)
    | rest => ([], rest)
  ofDecimal (decimalOf (whole ++ fraction)) (signedOf (rest.drop 1) - fraction.length)

/-- The positive infinity. -/
def infinity : Binary64 := ⟨0x7ff0000000000000⟩

/-- The undefined number. -/
def undefined : Binary64 := ⟨0x7ff8000000000000⟩

/-- A number with an optional sign; `inf` and `nan` are the numbers that no digits write. -/
def ofSigned : List Char → Binary64
  | '-' :: text => (ofUnsigned text).neg
  | '+' :: text => ofUnsigned text
  | text => ofUnsigned text
where
  /-- A number without a sign. -/
  ofUnsigned (text : List Char) : Binary64 :=
    if text = ['i', 'n', 'f'] then infinity
    else if text = ['n', 'a', 'n'] then undefined
    else ofText text

end Binary64

end Stencil
