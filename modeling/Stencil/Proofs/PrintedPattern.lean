import Stencil.Pattern.Parser
import Stencil.Proofs.PrintedExpr

/-!
# Printed patterns

* `Pattern.print`: the tokens of a pattern; a choice that is itself an alternative stands in
  parentheses, and a field that is bound to its own name stands alone.
* `Pattern.Shaped`: the trees that patterns can have, below a number of brackets.
* `Pattern.literals`: the literals of a pattern.
* `Pattern.IsPath.opens`, `Pattern.opens_literal`: paths and literals start like patterns.
-/

namespace Stencil

open Text Expr

/-- Texts with commas between them and a space after each. -/
def joined : List (List Char) → List Char
  | [] => []
  | t :: ts => t ++ ' ' :: ((if ts.isEmpty then [] else [',', ' ']) ++ joined ts)

namespace Pattern

/-- A choice. -/
def isOr : Pattern → Bool
  | or _ _ => true
  | _ => false

/-- A variable of the given name. -/
def isBinding (n : String) : Pattern → Bool
  | binding _ m => m == n
  | _ => false

/-- Items with the mark of the rest among them. -/
def insertRest (rest : Option Nat) (ts : List (List Char)) : List (List Char) :=
  match rest with
  | none => ts
  | some k => ts.take k ++ ['.', '.'] :: ts.drop k

/-- The text of a tuple after its items: a comma makes a tuple of one item. -/
def tupleEnd (rest : Option Nat) (items : List Pattern) : List Char :=
  if rest.isNone && items.length == 1 then [',', ' ', ')'] else [')']

mutual

/-- **The text of a pattern**, token by token. -/
def print : Pattern → List Char
  | wildcard _ => ['_']
  | binding _ n => n.toList
  | literal _ v => v.print
  | value _ ps => printPath ps
  | tuple _ is rest => '(' :: ' ' :: (joined (insertRest rest (texts is)) ++ tupleEnd rest is)
  | variant _ ps is => printPath ps ++ ' ' :: '(' :: ' ' :: (joined (texts is) ++ [')'])
  | struct _ ps fs o =>
    printPath ps ++ ' ' :: '\x7b' :: ' ' ::
      (joined (fieldTexts fs ++ if o then [['.', '.']] else []) ++ ['\x7d'])
  | or _ as => printAlternatives as

/-- The texts of patterns. -/
def texts : List Pattern → List (List Char)
  | [] => []
  | p :: ps => p.print :: texts ps

/-- The texts of fields. -/
def fieldTexts : List (String × Pattern) → List (List Char)
  | [] => []
  | (n, p) :: fs =>
    (n.toList ++ if p.isBinding n then [] else ' ' :: ':' :: ' ' :: p.print) :: fieldTexts fs

/-- Alternatives with bars between them. -/
def printAlternatives : List Pattern → List Char
  | [] => []
  | p :: ps =>
    (if p.isOr then '(' :: ' ' :: (p.print ++ [' ', ')']) else p.print) ++
      if ps.isEmpty then [] else ' ' :: '|' :: ' ' :: printAlternatives ps

end

/-- The text of a pattern as an alternative. -/
def printAlternative (p : Pattern) : List Char :=
  if p.isOr then '(' :: ' ' :: (p.print ++ [' ', ')']) else p.print

/-- The path of a variant or a structure: its first part is no wildcard. -/
structure IsPath (ps : List String) : Prop where
  names : ∀ n ∈ ps, IsName n
  head : ∃ n ns, ps = n :: ns ∧ n ≠ "_"

mutual

/-- **The trees that patterns can have** below the given number of brackets. -/
def Shaped (d : Nat) : Pattern → Prop
  | wildcard _ | literal _ _ => True
  | binding _ n => IsName n ∧ n ≠ "_"
  | value _ ps => IsPath ps ∧ 2 ≤ ps.length
  | tuple _ is rest =>
    d < Read.maxDepth ∧ ShapedAll (d + 1) is ∧ ∀ k, rest = some k → k ≤ is.length
  | variant _ ps is => IsPath ps ∧ d < Read.maxDepth ∧ ShapedAll (d + 1) is
  | struct _ ps fs _ => IsPath ps ∧ d < Read.maxDepth ∧ ShapedFields (d + 1) fs
  | or _ as => 2 ≤ as.length ∧ ShapedAlternatives d as

/-- All patterns of a list have the shape of patterns. -/
def ShapedAll (d : Nat) : List Pattern → Prop
  | [] => True
  | p :: ps => p.Shaped d ∧ ShapedAll d ps

/-- All fields have names, and patterns unless the name is the pattern. -/
def ShapedFields (d : Nat) : List (String × Pattern) → Prop
  | [] => True
  | (n, p) :: fs => IsName n ∧ (p.isBinding n = true ∨ p.Shaped d) ∧ ShapedFields d fs

/-- All alternatives have the shape of patterns, choices below their parentheses. -/
def ShapedAlternatives (d : Nat) : List Pattern → Prop
  | [] => True
  | p :: ps =>
    (if p.isOr then d < Read.maxDepth ∧ p.Shaped (d + 1) else p.Shaped d) ∧ ShapedAlternatives d ps

end

mutual

/-- The literals of a pattern. -/
def literals : Pattern → List Literal
  | wildcard _ | binding _ _ | value _ _ => []
  | literal _ v => [v]
  | tuple _ is _ => literalsAll is
  | variant _ _ is => literalsAll is
  | struct _ _ fs _ => literalsFields fs
  | or _ as => literalsAll as

/-- The literals of a list of patterns. -/
def literalsAll : List Pattern → List Literal
  | [] => []
  | p :: ps => p.literals ++ literalsAll ps

/-- The literals of fields. -/
def literalsFields : List (String × Pattern) → List Literal
  | [] => []
  | (_, p) :: fs => p.literals ++ literalsFields fs

end

/-! ## The first token -/

theorem isName_wildcard : IsName "_" := by
  constructor <;> decide +kernel

theorem IsPath.scan {ps : List String} (h : IsPath ps) {rest : List Char} (hr : Wordless rest) :
    ∃ n r, n ≠ "_" ∧ Expr.scan (printPath ps ++ rest) = ⟨.name, n.toList, r⟩ := by
  obtain ⟨n, ns, rfl, hn⟩ := h.head
  obtain ⟨r, hs⟩ := scan_printPath ns (h.names n List.mem_cons_self) hr
  exact ⟨n, r, hn, hs⟩

theorem IsPath.opens {ps : List String} (h : IsPath ps) {rest : List Char} (hr : Wordless rest) :
    (first (printPath ps ++ rest)).opens = true := by
  obtain ⟨n, r, -, hs⟩ := h.scan hr
  rw [first_of_scan hs]
  rfl

theorem scan_minus (cs : List Char) : scan ('-' :: cs) = ⟨.op, ['-'], cs⟩ := rfl

theorem printAlternatives_cons (p : Pattern) (ps : List Pattern) : printAlternatives (p :: ps) =
    p.printAlternative ++ if ps.isEmpty then [] else ' ' :: '|' :: ' ' :: printAlternatives ps := by
  rw [printAlternatives, printAlternative]

/-- A literal is one token, or a minus sign and digits. -/
theorem opens_literal {v : Literal} (h : v.Plain) {rest : List Char} (hr : Parted rest) :
    (first (v.print ++ rest)).opens = true := by
  by_cases hu : v.Unsigned
  · rw [first_of_scan (Literal.scan_print h hu hr)]
    cases v with
    | null => rfl
    | bool b => cases b <;> rfl
    | int n => rfl
    | float x => exact h.elim
    | text ps => rfl
  · cases v with
    | int n =>
      have hneg : n < 0 := Int.not_le.mp hu
      rw [Literal.print, if_pos hneg, List.cons_append, first_of_scan (scan_minus _)]
      rfl
    | _ => exact absurd trivial hu

end Pattern

end Stencil
