import Stencil.Text.Printable

/-!
# String literals of the generated code

* `QuoteMark`: single quotes, unless the text holds a single quote and no double one.
* `quote`: the literal of a text; `quoteBytes`: the literal of a byte string.
-/

namespace Stencil.Text

/-- The two quotes that may stand around a literal. -/
inductive QuoteMark where
  | single
  | double
  deriving DecidableEq, Repr

/-- The character of a quote. -/
def QuoteMark.char : QuoteMark → Char
  | .single => '\''
  | .double => '"'

/-- **The quote of a literal**: double only when the text holds a single quote and no double one. -/
def QuoteMark.choose (hasSingle hasDouble : Bool) : QuoteMark :=
  if hasSingle && !hasDouble then .double else .single

/-- The lower-case hexadecimal digit of a number below sixteen. -/
def hexDigit (n : Nat) : Char := "0123456789abcdef".toList.getD n '?'

/-- The last `width` hexadecimal digits of a number, in lower case. -/
def hexDigits : Nat → Nat → List Char
  | 0, _ => []
  | width + 1, n => hexDigits width (n / 16) ++ [hexDigit (n % 16)]

/-- An escape by number, in the shortest of the three forms that holds it. -/
def escapeNumber (n : Nat) : List Char :=
  if n ≤ 0xff then '\\' :: 'x' :: hexDigits 2 n
  else if n ≤ 0xffff then '\\' :: 'u' :: hexDigits 4 n
  else '\\' :: 'U' :: hexDigits 8 n

/-- What stands for a code point in a literal between the given quotes. -/
def quotePoint (mark : QuoteMark) (p : CodePoint) : List Char :=
  if p = .ofChar mark.char then ['\\', mark.char]
  else if p = .ofChar '\\' then ['\\', '\\']
  else if p = .ofChar '\n' then ['\\', 'n']
  else if p = .ofChar '\r' then ['\\', 'r']
  else if p = .ofChar '\t' then ['\\', 't']
  else if isPrintable p then p.toChar?.toList
  else escapeNumber p.value

/-- The quote chosen for a text. -/
def markFor (ps : List CodePoint) : QuoteMark :=
  .choose (ps.contains (.ofChar '\'')) (ps.contains (.ofChar '"'))

/-- The literal of a list of code points. -/
def quotePoints (ps : List CodePoint) : String :=
  let mark := markFor ps
  String.ofList (mark.char :: ps.flatMap (quotePoint mark) ++ [mark.char])

/-- **The literal of a text**: printable characters as themselves, all others escaped. -/
def quote (s : String) : String := quotePoints (CodePoint.ofString s)

/-- What stands for a byte in a literal between the given quotes. -/
def quoteByte (mark : QuoteMark) (b : UInt8) : List Char :=
  let c := Char.ofNat b.toNat
  if c = mark.char then ['\\', mark.char]
  else if c = '\\' then ['\\', '\\']
  else if c = '\n' then ['\\', 'n']
  else if c = '\r' then ['\\', 'r']
  else if c = '\t' then ['\\', 't']
  else if 0x20 ≤ b && b < 0x7f then [c]
  else '\\' :: 'x' :: hexDigits 2 b.toNat

/-- **The literal of a byte string**: everything outside `0x20` to `0x7e` is escaped. -/
def quoteBytes (bytes : List UInt8) : String :=
  let mark := QuoteMark.choose (bytes.contains 39) (bytes.contains 34)
  String.ofList ('b' :: mark.char :: bytes.flatMap (quoteByte mark) ++ [mark.char])

end Stencil.Text
