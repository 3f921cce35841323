import Stencil.Decimal.Read
import Stencil.Problem
import Stencil.Expr.Token
import Stencil.Expr.Basic

/-!
# Reading literals

* `Literal.ofInt`, `Literal.ofFloat`: the values of number lexemes.
* `Literal.ofString`: the text of a string lexeme, its escapes resolved.
* `Literal.neg`: the number with the other sign.
-/

namespace Stencil.Literal

open Stencil.Text Stencil.Expr

/-- The base named by a letter. -/
def radixOf? (letter : Char) : Option Nat :=
  if letter == 'x' || letter == 'X' then some 16
  else if letter == 'o' || letter == 'O' then some 8
  else if letter == 'b' || letter == 'B' then some 2
  else none

/-- **The value of an integer lexeme.** It fails when a base has no digits, and when there are more
decimal digits than can be read. -/
def ofInt (text : List Char) : Except Failure Nat :=
  match withoutUnderscores text with
  | '0' :: letter :: digits =>
    match radixOf? letter with
    | some base =>
      if digits.isEmpty then .error .unreadableNumber
      else .ok (ofDigits base (digits.map fun c => (hexValue? c).getD 0))
    | none => ofDecimal ('0' :: letter :: digits)
  | digits => ofDecimal digits
where
  /-- The value of decimal digits. -/
  ofDecimal (digits : List Char) : Except Failure Nat :=
    if maxDecimalDigits < digits.length then .error .unreadableNumber else .ok (decimalOf digits)

/-- **The value of a lexeme with a fraction or an exponent.** -/
def ofFloat (text : List Char) : Binary64 := Binary64.ofText (withoutUnderscores text)

/-- The character of an escape that is one letter long. -/
def simpleEscape? : Char → Option Char
  | 'n' => some '\n'
  | 'r' => some '\r'
  | 't' => some '\t'
  | '0' => some '\x00'
  | '\\' => some '\\'
  | '"' => some '"'
  | '\'' => some '\''
  | _ => none

/-- The code point that hexadecimal digits write, if there are digits and it is one. -/
def pointOfHex? (digits : List Char) : Option CodePoint :=
  if digits.isEmpty || !digits.all isHexDigit then none
  else
    let n := ofDigits 16 (digits.map fun c => (hexValue? c).getD 0)
    if h : n ≤ 0x10FFFF then some ⟨n, h⟩ else none

/-- Reads an escape after its backslash: its code point and the text after it. -/
def escape (position : Nat) : List Char → Except Failure (CodePoint × List Char)
  | [] => .error (.at (.unknownEscape '\\') position)
  | 'x' :: rest =>
    match rest with
    | a :: b :: rest =>
      match pointOfHex? [a, b] with
      | some p => .ok (p, rest)
      | none => .error (.at .badHexEscape position)
    | _ => .error (.at .badHexEscape position)
  | 'u' :: '\x7b' :: rest =>
    match pointOfHex? (rest.takeWhile (· != '\x7d')), rest.dropWhile (· != '\x7d') with
    | some p, _ :: rest => .ok (p, rest)
    | _, _ => .error (.at .badPointEscape position)
  | c :: rest =>
    match simpleEscape? c with
    | some d => .ok (.ofChar d, rest)
    | none => .error (.at (.unknownEscape c) position)

/-- Resolves the escapes of the inside of a string, in at most `steps` steps. -/
def unescape : Nat → Nat → List Char → Except Failure (List CodePoint)
  | 0, _, _ => .error .outOfSteps
  | _, _, [] => .ok []
  | steps + 1, position, '\\' :: cs => do
    let (p, rest) ← escape position cs
    return p :: (← unescape steps (position + 1 + (cs.length - rest.length)) rest)
  | steps + 1, position, c :: cs => return .ofChar c :: (← unescape steps (position + 1) cs)

/-- **The text of a string lexeme** that starts at the given position. -/
def ofString (position : Nat) (text : List Char) : Except Failure (List CodePoint) :=
  let inside := (text.drop 1).dropLast
  unescape (inside.length + 1) (position + 1) inside

/-- **The value of a token**, if it is a literal. -/
def ofToken (t : Token) : Option (Except Failure Literal) :=
  match t.kind with
  | .int => some ((ofInt t.text).map fun n => int n)
  | .float => some (.ok (float (ofFloat t.text)))
  | .string => some ((ofString t.position t.text).map text)
  | .keyword =>
    if t.isKeyword "true" || t.isKeyword "True" then some (.ok (bool true))
    else if t.isKeyword "false" || t.isKeyword "False" then some (.ok (bool false))
    else if t.isKeyword "None" then some (.ok null)
    else none
  | _ => none

/-- **The number with the other sign**; what is no number stays as it is. -/
def neg : Literal → Literal
  | int n => int (-n)
  | float x => float x.neg
  | v => v

end Stencil.Literal
