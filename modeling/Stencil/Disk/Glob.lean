import Stencil.Path
import Stencil.Text.Blank

/-!
# Patterns of files to leave out

One pattern a line. A pattern without a slash inside is looked for in every directory, any other one
starts at the top; a slash at its end restricts it to directories; what lies in a matched directory
is matched as well. The last pattern that matches a path decides.

* `Glob`: a pattern; `Glob.remainders`: what its parts can leave of a text; `Glob.isMatch`.
* `Exclusion`: a list of patterns that exclude or, after an exclamation mark, include again;
  `Exclusion.excludes`.
-/

namespace Stencil

/-- **A set of characters** by ranges. -/
structure CharSet where
  negated : Bool
  ranges : List (Char × Char)
  deriving DecidableEq, Repr

def CharSet.contains (s : CharSet) (c : Char) : Bool :=
  s.ranges.any (fun r => decide (r.1 ≤ c ∧ c ≤ r.2)) != s.negated

/-- **A part of a pattern.** -/
inductive GlobPart where
  | char (c : Char)
  | set (s : CharSet)
  /-- One character but a slash. -/
  | one
  /-- Any number of characters but slashes. -/
  | many
  /-- Nothing, or any directories from the top on with the slash after them. -/
  | above
  /-- Nothing, or a slash and directories. -/
  | between
  /-- Nothing, or a slash and whatever follows. -/
  | below
  /-- Whatever follows. -/
  | rest
  deriving DecidableEq, Repr

namespace GlobPart

/-- The ends of a text, from the text itself to the empty one. -/
def ends : List Char → List (List Char)
  | [] => [[]]
  | c :: cs => (c :: cs) :: ends cs

/-- What follows the slashes of a text that have something before them. -/
def afterSlashes : List Char → List (List Char)
  | [] => []
  | _ :: cs => (ends cs).filterMap fun l => if l.head? = some '/' then some l.tail else none

/-- What is left of a text when characters but slashes are taken. -/
def afterRun : List Char → List (List Char)
  | [] => [[]]
  | c :: cs => if c = '/' then [c :: cs] else (c :: cs) :: afterRun cs

/-- **What a part can leave of a text.** -/
def remainders : GlobPart → List Char → List (List Char)
  | char c, cs => if cs.head? = some c then [cs.tail] else []
  | set s, cs => if cs.head?.any s.contains then [cs.tail] else []
  | one, cs => if cs.head?.any (· != '/') then [cs.tail] else []
  | many, cs => afterRun cs
  | above, cs => cs :: afterSlashes cs
  | between, '/' :: c :: cs => ('/' :: c :: cs) :: ends cs
  | between, cs => [cs]
  | below, cs => if cs.head? = some '/' then [cs, []] else [cs]
  | rest, _ => [[]]

end GlobPart

/-- **A pattern of paths**, by its parts. -/
abbrev Glob := List GlobPart

namespace Glob

/-- **What the parts of a pattern can leave of a text.** -/
def remainders : Glob → List Char → List (List Char)
  | [], cs => [cs]
  | p :: ps, cs => (p.remainders cs).flatMap (remainders ps)

/-- **A text that a pattern matches as a whole.** -/
def isMatch (g : Glob) (cs : List Char) : Bool := (g.remainders cs).any (·.isEmpty)

/-! ## Reading patterns -/

/-- The ranges that the text of a set lists. -/
def rangesOf : List Char → List (Char × Char)
  | a :: '-' :: b :: cs => (a, b) :: rangesOf cs
  | a :: cs => (a, a) :: rangesOf cs
  | [] => []

/-- A set in brackets, given without the opening one: the set and what follows it. A closing bracket
at its start stands for itself. -/
def setOf? (cs : List Char) : Option (CharSet × List Char) :=
  let (negated, cs) :=
    match cs with
    | '!' :: cs | '^' :: cs => (true, cs)
    | _ => (false, cs)
  let (first, cs) :=
    match cs with
    | ']' :: cs => ([']'], cs)
    | _ => ([], cs)
  match cs.dropWhile (· ≠ ']') with
  | _ :: rest => some (⟨negated, rangesOf (first ++ cs.takeWhile (· ≠ ']'))⟩, rest)
  | [] => none

/-- The parts of a segment; none if a backslash stands last. Takes at most the given number of
steps. -/
def segmentParts? : Nat → List Char → Option Glob
  | _, [] => some []
  | 0, _ => none
  | fuel + 1, c :: cs =>
    match c, cs with
    | '\\', d :: cs => (segmentParts? fuel cs).map (.char d :: ·)
    | '\\', [] => none
    | '*', _ => (segmentParts? fuel cs).map (.many :: ·)
    | '?', _ => (segmentParts? fuel cs).map (.one :: ·)
    | '[', _ =>
      match setOf? cs with
      | some (s, rest) => (segmentParts? fuel rest).map (.set s :: ·)
      | none => (segmentParts? fuel cs).map (.char '[' :: ·)
    | _, _ => (segmentParts? fuel cs).map (.char c :: ·)

/-- A segment that stands for any directories. -/
def deep : List Char := ['*', '*']

/-- The parts of a segment that is not `deep`; an asterisk alone stands for at least one
character. -/
def segment? (cs : List Char) : Option Glob :=
  if cs = ['*'] then some [.one, .many] else segmentParts? cs.length cs

/-- Segments without repetitions of `deep`. -/
def collapse : List (List Char) → List (List Char)
  | a :: b :: l => if a = deep ∧ b = deep then collapse (b :: l) else a :: collapse (b :: l)
  | l => l

/-- The segments of a pattern from the top: a pattern that names no directory is looked for in all
of them, and a slash at its end stands for what lies below. -/
def anchored (segments : List (List Char)) : List (List Char) :=
  let segments :=
    match segments with
    | [] :: l => l
    | [a] => if a = deep then [a] else [deep, a]
    | [a, []] => if a = deep then [a, []] else [deep, a, []]
    | l => l
  if segments.length > 1 ∧ segments.getLast? = some [] then segments.dropLast ++ [deep]
  else segments

/-- The parts of segments after the first one; a slash goes before each, but not after `above`. -/
def partsFrom? (slash : Bool) : List (List Char) → Option Glob
  | [] => some []
  | [a] =>
    if a = deep then some [.char '/', .rest]
    else (segment? a).map fun g => (if slash then [.char '/'] else []) ++ g ++ [.below]
  | a :: l =>
    if a = deep then (partsFrom? true l).map (.between :: ·)
    else do return (if slash then [.char '/'] else []) ++ (← segment? a) ++ (← partsFrom? true l)

/-- **The pattern that segments write**; none if one of them cannot be read. -/
def ofSegments? (segments : List (List Char)) : Option Glob :=
  if segments = [deep, []] then some [.one, .many, .char '/', .rest]
  else
    match anchored segments with
    | [] => none
    | [a] => if a = deep then some [.one, .many, .below] else partsFrom? false [a]
    | a :: l =>
      if a = deep then (partsFrom? false l).map (.above :: ·) else partsFrom? false (a :: l)

end Glob

/-- **Patterns with what a match means**: to be left out, or not to be. -/
abbrev Exclusion := List (Bool × Glob)

namespace Exclusion

/-- The pattern of a line; none if the line is empty, a comment or cannot be read. -/
def ofLine? (line : String) : Option (Bool × Glob) :=
  match Text.trim line.toList with
  | [] | '#' :: _ | ['/'] => none
  | '!' :: cs => pattern? false cs
  | cs => pattern? true cs
where
  /-- A pattern with what it means. -/
  pattern? (excluded : Bool) (cs : List Char) : Option (Bool × Glob) :=
    (Glob.ofSegments? (Glob.collapse (Path.cut '/' cs))).map fun g => (excluded, g)

/-- **The patterns of lines.** -/
def ofLines (lines : List String) : Exclusion := lines.filterMap ofLine?

/-- **The path is left out**: the last pattern that matches it says so. -/
def excludes (e : Exclusion) (path : String) : Bool :=
  ((e.reverse.find? fun (_, g) => g.isMatch path.toList).map Prod.fst).getD false

end Exclusion

end Stencil
