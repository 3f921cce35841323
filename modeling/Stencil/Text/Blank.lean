import Stencil.Text.CodePoint

/-!
# White space

* `isBlank`: the white-space characters.
* `trim`, `words`: cutting a text at white space.
-/

namespace Stencil.Text

/-- White space as inclusive ranges. -/
def blankRanges : List (Nat × Nat) := [
  (0x9, 0xd), (0x1c, 0x20), (0x85, 0x85), (0xa0, 0xa0), (0x1680, 0x1680), (0x2000, 0x200a),
  (0x2028, 0x2029), (0x202f, 0x202f), (0x205f, 0x205f), (0x3000, 0x3000)]

/-- **White space**: the 29 characters that separate tokens. -/
def isBlank (c : Char) : Bool := covers blankRanges c.toNat

/-- A space or a tab. -/
def isSpaceOrTab (c : Char) : Bool := c == ' ' || c == '\t'

theorem isBlank_of_isWhitespace {c : Char} (h : c.isWhitespace = true) : isBlank c = true := by
  simp only [Char.isWhitespace, Bool.or_eq_true, decide_eq_true_eq] at h
  rcases h with ((rfl | rfl) | rfl) | rfl <;> decide

/-- The text without the white space at its start. -/
def trimStart (cs : List Char) : List Char := cs.dropWhile isBlank

/-- The text without the white space at its end. -/
def trimEnd (cs : List Char) : List Char := (cs.reverse.dropWhile isBlank).reverse

/-- The text without the white space at its two ends. -/
def trim (cs : List Char) : List Char := trimEnd (trimStart cs)

/-- Collects words: `word` is the word being read, in reverse. -/
def wordsFrom (word : List Char) : List Char → List (List Char)
  | [] => if word.isEmpty then [] else [word.reverse]
  | c :: cs =>
    if isBlank c then
      if word.isEmpty then wordsFrom [] cs else word.reverse :: wordsFrom [] cs
    else wordsFrom (c :: word) cs

/-- **The maximal runs of characters that are not white space**, in order. -/
def words (cs : List Char) : List (List Char) := wordsFrom [] cs

/-- The text with every run of white space made one space and none left at its ends. -/
def collapse (cs : List Char) : List Char := [' '].intercalate (words cs)

end Stencil.Text
