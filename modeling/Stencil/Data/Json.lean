import Stencil.Data.Basic

/-!
# Data as a line of text

* `Data.json`: data in the notation for exchange between programs.
-/

namespace Stencil

namespace Json

/-- A number below 16 as a hexadecimal digit. -/
def hexDigit (n : Nat) : Char := Nat.digitChar n

/-- What is written for a character of a text. -/
def escapeChar (c : Char) : List Char :=
  match c with
  | '"' => ['\\', '"']
  | '\\' => ['\\', '\\']
  | '\n' => ['\\', 'n']
  | '\r' => ['\\', 'r']
  | '\t' => ['\\', 't']
  | '\x08' => ['\\', 'b']
  | '\x0c' => ['\\', 'f']
  | c =>
    if c.toNat < 0x20 then
      ['\\', 'u', '0', '0', hexDigit (c.toNat / 16), hexDigit (c.toNat % 16)]
    else [c]

/-- **A text in quotes.** Only control characters, quotes and backslashes are escaped. -/
def quote (s : String) : String :=
  String.ofList ('"' :: s.toList.flatMap escapeChar ++ ['"'])

end Json

namespace Data

/-- A scalar in the notation for exchange. -/
def jsonScalar : Scalar → String
  | .null => "null"
  | .bool true => "true"
  | .bool false => "false"
  | .int n => toString n
  | .float x => x.text .literal
  | .text s => Json.quote s

mutual

/-- **Data in the notation for exchange**, on one line. -/
def json : Data → String
  | scalar v => jsonScalar v
  | date y m d => Json.quote (shown (date y m d))
  | list items => "[" ++ ", ".intercalate (jsonItems items) ++ "]"
  | map entries => "\x7b" ++ ", ".intercalate (jsonEntries entries) ++ "\x7d"

/-- The items of a list. -/
def jsonItems : List Data → List String
  | [] => []
  | d :: ds => d.json :: jsonItems ds

/-- The entries of a mapping; keys are texts. -/
def jsonEntries : List (Data × Data) → List String
  | [] => []
  | (k, v) :: es => (Json.quote k.shown ++ ": " ++ v.json) :: jsonEntries es

end

end Data

end Stencil
