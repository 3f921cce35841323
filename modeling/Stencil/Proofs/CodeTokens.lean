import Stencil.Expr.Literal
import Stencil.Text.Word

/-!
# Tokens of generated code

The generated language splits a line of code into tokens before it groups them. What is read here is
a part of that language: every text that is read has these tokens, but numbers in other bases or
with underscores, texts with a prefix or between three quotes, escapes by octal number or by name,
comments and line breaks are not read at all.

* `CodeToken`: words, numbers, texts and operators.
* `CodeToken.next?`: the token at the start of a text; `CodeToken.lex`: all tokens of a text.
* `CodeToken.Lexes`: a part of a text has given tokens, whatever its rest has.
-/

namespace Stencil

open Text

/-- **A token of generated code**, with the value of a number or text. -/
inductive CodeToken where
  /-- A name or keyword. -/
  | word (word : String)
  | int (n : Nat)
  | float (x : Binary64)
  | text (points : List CodePoint)
  /-- An operator or another mark. -/
  | op (symbol : String)
  deriving DecidableEq, Repr

namespace CodeToken

/-- A token at the start of a text, and the text after it. -/
abbrev Split := Option (CodeToken × List Char)

/-! ## Numbers -/

/-- An exponent at the start of a text, if there is one, and the text after it. -/
def exponent : List Char → List Char × List Char
  | 'e' :: sign :: cs =>
    if (sign = '+' ∨ sign = '-') ∧ cs.takeWhile Char.isDigit ≠ [] then
      ('e' :: sign :: cs.takeWhile Char.isDigit, cs.dropWhile Char.isDigit)
    else if sign.isDigit then
      ('e' :: (sign :: cs).takeWhile Char.isDigit, (sign :: cs).dropWhile Char.isDigit)
    else ([], 'e' :: sign :: cs)
  | cs => ([], cs)

/-- A point with digits at the start of a text, if there is one, and the text after it. -/
def fraction : List Char → List Char × List Char
  | '.' :: cs => ('.' :: cs.takeWhile Char.isDigit, cs.dropWhile Char.isDigit)
  | cs => ([], cs)

/-- **A number.** An integer starts with zero only if it is zero, and it has no more digits than can
be read; no word and no point may follow a number. -/
def number? (cs : List Char) : Split :=
  let whole := cs.takeWhile Char.isDigit
  let (fraction, rest) := fraction (cs.dropWhile Char.isDigit)
  let (exponent, rest) := exponent rest
  if rest.head?.any fun c => isWord c || c == '.' then none
  else if fraction ≠ [] ∨ exponent ≠ [] then
    some (float (Binary64.ofText (whole ++ fraction ++ exponent)), rest)
  else if Nat.toDigits 10 (decimalOf whole) = whole ∧ whole.length ≤ maxDecimalDigits then
    some (int (decimalOf whole), rest)
  else none

/-! ## Texts -/

/-- The character of an escape that is one letter long. -/
def simpleEscape? : Char → Option Char
  | '\\' => some '\\'
  | '\'' => some '\''
  | '"' => some '"'
  | 'a' => some '\x07'
  | 'b' => some '\x08'
  | 'f' => some '\x0c'
  | 'n' => some '\n'
  | 'r' => some '\r'
  | 't' => some '\t'
  | 'v' => some '\x0b'
  | _ => none

/-- A code point by the given number of hexadecimal digits, and the text after them. -/
def hex? (digits : Nat) (cs : List Char) : Option (CodePoint × List Char) :=
  if (cs.take digits).length = digits then
    (Literal.pointOfHex? (cs.take digits)).map (·, cs.drop digits)
  else none

/-- The code point of an escape after its backslash, and the text after it. -/
def escape? : List Char → Option (CodePoint × List Char)
  | 'x' :: cs => hex? 2 cs
  | 'u' :: cs => hex? 4 cs
  | 'U' :: cs => hex? 8 cs
  | c :: cs => (simpleEscape? c).map (.ofChar ·, cs)
  | [] => none

/-- The code points up to the closing quote, and the text after it, in at most `steps` steps. -/
def inside? (mark : Char) : Nat → List Char → Option (List CodePoint × List Char)
  | 0, _ => none
  | _, [] => none
  | steps + 1, c :: cs =>
    if c = mark then some ([], cs)
    else if c = '\n' ∨ c = '\r' ∨ c = '\x00' then none
    else if c = '\\' then (escape? cs).bind fun e =>
      (inside? mark steps e.2).map fun (ps, rest) => (e.1 :: ps, rest)
    else (inside? mark steps cs).map fun (ps, rest) => (.ofChar c :: ps, rest)

/-- **A text** after its opening quote. Two more quotes would open a text between three quotes. -/
def text? (mark : Char) (cs : List Char) : Split :=
  if [mark, mark].isPrefixOf cs then none
  else (inside? mark (cs.length + 1) cs).map fun (ps, rest) => (text ps, rest)

/-! ## Words and operators -/

/-- A quote of either kind. -/
def isQuote (c : Char) : Bool := c == '\'' || c == '"'

/-- **A word.** A quote after it would make it the prefix of a text. -/
def word? (cs : List Char) : Split :=
  let rest := cs.dropWhile isWord
  if rest.head?.any isQuote then none else some (word (String.ofList (cs.takeWhile isWord)), rest)

/-- The operators, longer ones before those they start with. -/
def operators : List String := [
  "**=", "//=", ">>=", "<<=", "...", "!=", "%=", "&=", "**", "*=", "+=", "-=", "->", "//", "/=",
  ":=", "<<", "<=", "==", ">=", ">>", "@=", "^=", "|=", "%", "&", "(", ")", "*", "+", ",", "-", ".",
  "/", ":", ";", "<", "=", ">", "@", "[", "]", "^", "\x7b", "|", "\x7d", "~"]

/-- **An operator**, the longest that fits. -/
def op? (cs : List Char) : Split :=
  (operators.find? fun o => o.toList.isPrefixOf cs).map fun o => (op o, cs.drop o.length)

/-! ## Whole texts -/

/-- **The token at the start of a text.** -/
def next? : List Char → Split
  | [] => none
  | c :: cs =>
    if c.isDigit then number? (c :: cs)
    else if isQuote c then text? c cs
    else if isWord c then word? (c :: cs)
    else op? (c :: cs)

/-- White space between tokens. -/
def isSpace (c : Char) : Bool := c == ' ' || c == '\t' || c == '\x0c'

/-- **The tokens of a text**, read in at most `steps` steps. -/
def lex : Nat → List Char → Option (List CodeToken)
  | _, [] => some []
  | 0, _ => none
  | steps + 1, c :: cs =>
    if isSpace c then lex steps cs
    else (next? (c :: cs)).bind fun s => (lex steps s.2).map (s.1 :: ·)

theorem lex_nil (steps : Nat) : lex steps [] = some [] := by
  cases steps <;> rfl

/-- More steps change nothing. -/
theorem lex_mono {n k : Nat} {cs : List Char} {ts : List CodeToken} (h : lex n cs = some ts) :
    lex (n + k) cs = some ts := by
  induction n generalizing cs ts with
  | zero =>
    cases cs with
    | nil =>
      rw [lex_nil] at h ⊢
      exact h
    | cons c cs => cases h
  | succ n ih =>
    cases cs with
    | nil =>
      rw [lex_nil] at h ⊢
      exact h
    | cons c cs =>
      rw [Nat.succ_add, lex]
      rw [lex] at h
      split
      · rename_i hc
        rw [if_pos hc] at h
        exact ih h
      · rename_i hc
        rw [if_neg hc, Option.bind_eq_some_iff] at h
        obtain ⟨s, hs, h⟩ := h
        obtain ⟨out, hout, h⟩ := Option.map_eq_some_iff.mp h
        rw [hs, Option.bind_some, ih hout, Option.map_some, h]

/-- **A part of a text has the given tokens**: where the rest is read, so is the part with it. -/
def Lexes (part : List Char) (ts : List CodeToken) (rest : List Char) : Prop :=
  ∀ steps out, lex steps rest = some out →
    lex (steps + part.length) (part ++ rest) = some (ts ++ out)

namespace Lexes

variable {part part' rest : List Char} {ts ts' : List CodeToken} {t : CodeToken}

theorem append (h : Lexes part ts (part' ++ rest)) (h' : Lexes part' ts' rest) :
    Lexes (part ++ part') (ts ++ ts') rest := by
  intro steps out hout
  rw [List.length_append, List.append_assoc, List.append_assoc, Nat.add_comm part.length,
    ← Nat.add_assoc]
  exact h _ _ (h' _ _ hout)

theorem space : Lexes [' '] [] rest := fun _ _ hout => hout

/-- A token that is read at the start of a text, and is not empty. -/
theorem of_next {c : Char} (hc : isSpace c = false)
    (h : next? (c :: part ++ rest) = some (t, rest)) : Lexes (c :: part) [t] rest := by
  intro steps out hout
  rw [List.length_cons, ← Nat.add_assoc, List.cons_append, lex, if_neg (by simp [hc])]
  rw [List.cons_append] at h
  rw [h, Option.bind_some, lex_mono hout]
  rfl

/-- A part that is a whole text. -/
theorem lex (h : Lexes part ts []) {steps : Nat} (hs : part.length ≤ steps) :
    CodeToken.lex steps part = some ts := by
  have hlex := h (steps - part.length) [] (lex_nil _)
  rwa [List.append_nil, List.append_nil, Nat.sub_add_cancel hs] at hlex

end Lexes

end CodeToken

end Stencil
