import Stencil.Text.Utf8

/-!
# Places in a text

A position counts the characters before it. Only the line feed ends a line.

* `Source.locate`, `Source.byteOffset`: a position as line and column, and as a count of bytes.
* `Source.place`, `Place.describe`: where a message points, and its text with the line shown.
-/

namespace Stencil

/-- **A text and the name of the file it was read from.** -/
structure Source where
  text : List Char
  file : String

/-- Where a message points: line and column start at one, the offset counts bytes before it, and the
excerpt shows the line. -/
structure Place where
  file : String
  line : Nat
  column : Nat
  offset : Nat
  excerpt : String
  deriving DecidableEq, Repr

/-- The place of a whole file. -/
def Place.start (file : String) : Place := ⟨file, 1, 1, 0, ""⟩

/-- The name of a place: file, line and column; a place without a file has no file part. -/
def Place.name (p : Place) : String :=
  (if p.file = "" then "" else p.file ++ ":") ++ toString p.line ++ ":" ++ toString p.column

/-- **A message at a place**, with the line shown below it if there is one to show. -/
def Place.describe (p : Place) (message : String) : String :=
  p.name ++ ": " ++ message ++ (if p.excerpt = "" then "" else "\n" ++ p.excerpt)

/-- The line and column after `n` more characters. -/
def Source.advance (line column : Nat) : Nat → List Char → Nat × Nat
  | 0, _ => (line, column)
  | _, [] => (line, column)
  | n + 1, c :: cs => if c = '\n' then advance (line + 1) 1 n cs else advance line (column + 1) n cs

/-- The lines of a text, without their line feeds. -/
def splitLines : List Char → List (List Char)
  | [] => [[]]
  | c :: cs =>
    if c = '\n' then [] :: splitLines cs
    else
      match splitLines cs with
      | [] => [[c]]
      | l :: ls => (c :: l) :: ls

/-- A text padded with spaces on its left up to the given length. -/
def padLeft (width : Nat) (s : String) : String :=
  String.ofList (List.replicate (width - s.length) ' ') ++ s

namespace Source

/-- **Line and column of a position**; a position beyond the end is the end. -/
def locate (s : Source) (position : Nat) : Nat × Nat := advance 1 1 position s.text

/-- **The number of bytes before a position.** -/
def byteOffset (s : Source) (position : Nat) : Nat :=
  (s.text.take position).foldr (fun c n => Utf8.width c + n) 0

/-- The text of a line, without the carriage returns at its end. -/
def lineText (s : Source) (line : Nat) : List Char :=
  (((splitLines s.text).getD (line - 1) []).reverse.dropWhile (· = '\r')).reverse

/-- The line of a place with a caret under its column. -/
def excerpt (s : Source) (line column : Nat) : String :=
  padLeft 4 (toString line) ++ ":" ++ String.ofList (s.lineText line) ++ "\n     " ++
    String.ofList (List.replicate (column - 1) ' ') ++ "^"

/-- **The place of a position.** -/
def place (s : Source) (position : Nat) : Place :=
  let (line, column) := s.locate position
  ⟨s.file, line, column, s.byteOffset position, s.excerpt line column⟩

end Source

theorem splitLines_ne_nil (cs : List Char) : splitLines cs ≠ [] := by
  cases cs with
  | nil => simp [splitLines]
  | cons c cs =>
    unfold splitLines
    split
    · simp
    · split <;> simp

end Stencil
