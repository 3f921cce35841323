import Stencil.Data.Scalar

/-!
# Values that templates write

* `Render.escape`: a text with the five characters that mean something in markup replaced.
* `Render.pieces`: the same text as the writes that produce it: unchanged runs are written whole.
* `Render.Value`: the values; some write themselves.
* `Value.escapedWrites`, `Value.rawWrites`: the separate writes of a value.
* `Buffer`: output that is collected, and that is itself a value.
-/

namespace Stencil.Render

/-! ## Escaping -/

/-- The entity of a character that means something in markup. -/
def entity? : Char → Option String
  | '&' => some "&amp;"
  | '<' => some "&lt;"
  | '>' => some "&gt;"
  | '"' => some "&quot;"
  | '\'' => some "&#x27;"
  | _ => none

/-- What is written for a character. -/
def escapeChar (c : Char) : List Char :=
  match entity? c with
  | some e => e.toList
  | none => [c]

/-- **A text with the characters that mean something in markup replaced.** -/
def escape (s : String) : String := String.ofList (s.toList.flatMap escapeChar)

/-- A run that is written whole, if there is any. -/
def run (cs : List Char) : List String := if cs.isEmpty then [] else [String.ofList cs]

/-- The writes of a text after a run of characters that stay as they are, given in reverse. -/
def piecesFrom (before : List Char) : List Char → List String
  | [] => run before.reverse
  | c :: cs =>
    match entity? c with
    | some e => run before.reverse ++ e :: piecesFrom [] cs
    | none => piecesFrom (c :: before) cs

/-- **The writes that escape a text.** -/
def pieces (s : String) : List String := piecesFrom [] s.toList

/-! ## Values -/

/-- **A value that a template writes.** -/
inductive Value where
  | scalar (value : Scalar)
  | list (items : List Value)
  | tuple (items : List Value)
  /-- A value whose text is markup already. -/
  | html (value : Value)
  /-- Collected output, by its writes. -/
  | buffer (writes : List String)
  /-- A value that writes itself. -/
  | writer (writes : List String)
  /-- A value that gives its own markup. -/
  | markup (text : String)
  /-- A value with a text and nothing else; what it has under the names of the two before cannot be
  called. -/
  | plain (text : String)
  deriving Inhabited, Repr

namespace Value

mutual

/-- **The text of a value.** -/
def shown : Value → String
  | scalar v => v.shown
  | list items => "[" ++ ", ".intercalate (inspectedAll items) ++ "]"
  | tuple items => tupleText (inspectedAll items)
  | html v => v.shown
  | buffer ws => String.join ws
  | writer _ => ""
  | markup _ => ""
  | plain s => s

/-- The text of a value as a part of another one. -/
def inspected : Value → String
  | scalar v => v.inspected
  | list items => "[" ++ ", ".intercalate (inspectedAll items) ++ "]"
  | tuple items => tupleText (inspectedAll items)
  | html v => "Html(value=" ++ v.inspected ++ ")"
  | buffer ws => String.join ws
  | writer _ => ""
  | markup _ => ""
  | plain s => s

/-- The texts of items. -/
def inspectedAll : List Value → List String
  | [] => []
  | v :: vs => v.inspected :: inspectedAll vs

/-- Items in parentheses; one alone is followed by a comma. -/
def tupleText : List String → String
  | [s] => "(" ++ s ++ ",)"
  | ss => "(" ++ ", ".intercalate ss ++ ")"

end

/-- The value has a way to write itself, which perhaps cannot be called. -/
def hasWriter : Value → Bool
  | html _ | buffer _ | writer _ | plain _ => true
  | _ => false

/-- **The writes of a value that is escaped**, unless it writes itself. -/
def escapedWrites : Value → List String
  | html v => [v.shown]
  | buffer ws => [String.join ws]
  | writer ws => ws
  | markup s => [s]
  | v => pieces v.shown

/-- **The writes of a value that is not escaped.** -/
def rawWrites (v : Value) : List String := [v.shown]

end Value

/-- **Output that is collected**, by its writes. -/
structure Buffer where
  writes : List String
  deriving DecidableEq, Repr

namespace Buffer

def empty : Buffer := ⟨[]⟩

/-- More writes. -/
def write (b : Buffer) (writes : List String) : Buffer := ⟨b.writes ++ writes⟩

/-- **All that has been written.** -/
def text (b : Buffer) : String := String.join b.writes

/-- The buffer as a value. -/
def value (b : Buffer) : Value := .buffer b.writes

end Buffer

/-- A value written into a new buffer, escaped as in templates. -/
def toBuffer (v : Value) : Buffer := Buffer.empty.write v.escapedWrites

/-- **The output of a rendering function**, by its writes into a new buffer. -/
def render (function : Buffer → Buffer) : String := (function .empty).text

end Stencil.Render
