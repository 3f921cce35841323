import Stencil.Proofs.ExprRoundTrip
import Stencil.Proofs.PatternShapes
import Stencil.Template.Parser

/-!
# Printed templates

* `Node.unplaced`: a node with its positions set to zero.
* `Template.print`: the text of a template without parameters. It starts with `@()` and a line feed,
  the characters `@`, `{` and `}` of texts are doubled or follow an `@`, and a line feed stands
  after the last brace of a branch, a loop, a match and a call with blocks.
* `Node.PrintableAll`: the bodies that are printed.
* **`Node.detached_printAll`**: nothing in a printed body continues the construct before it.
-/

namespace Stencil

open Text Expr

/-! ## Positions -/

namespace Condition

/-- A condition with its positions set to zero. -/
def unplaced : Condition → Condition
  | holds e => .holds e.unplaced
  | .matches p e => .matches p.unplaced e.unplaced

end Condition

namespace Node

mutual

/-- **A node with its positions set to zero.** -/
def unplaced : Node → Node
  | text _ t => .text 0 t
  | value _ e raw => .value 0 e.unplaced raw
  | comment _ t => .comment 0 t
  | branch _ arms otherwise => .branch 0 (unplacedArms arms) (unplacedOtherwise otherwise)
  | loop _ p e body => .loop 0 p.unplaced e.unplaced (unplacedAll body)
  | cases _ e arms => .cases 0 e.unplaced (unplacedCases arms)
  | call _ target args blocks => .call 0 target (unplacedArguments args) (unplacedBlocks blocks)

/-- The nodes of a body with their positions set to zero. -/
def unplacedAll : List Node → List Node
  | [] => []
  | n :: ns => n.unplaced :: unplacedAll ns

/-- Arms with their positions set to zero. -/
def unplacedArms : List (Condition × List Node) → List (Condition × List Node)
  | [] => []
  | (c, body) :: arms => (c.unplaced, unplacedAll body) :: unplacedArms arms

/-- What is done if no arm is taken, with its positions set to zero. -/
def unplacedOtherwise : Option (List Node) → Option (List Node)
  | none => none
  | some body => some (unplacedAll body)

/-- Cases with their positions set to zero. -/
def unplacedCases : List (Pattern × Option Expr × List Node) →
    List (Pattern × Option Expr × List Node)
  | [] => []
  | (p, g, body) :: arms =>
    (p.unplaced, g.map Expr.unplaced, unplacedAll body) :: unplacedCases arms

/-- Arguments with their positions set to zero. -/
def unplacedArguments : List (Expr ⊕ List Node) → List (Expr ⊕ List Node)
  | [] => []
  | .inl e :: args => .inl e.unplaced :: unplacedArguments args
  | .inr body :: args => .inr (unplacedAll body) :: unplacedArguments args

/-- Blocks with their positions set to zero. -/
def unplacedBlocks : List (List Node) → List (List Node)
  | [] => []
  | body :: blocks => unplacedAll body :: unplacedBlocks blocks

end

end Node

/-! ## Texts -/

/-- A character of a text. -/
def printChar (c : Char) : List Char :=
  if c = '@' ∨ c = '\x7b' ∨ c = '\x7d' then ['@', c] else [c]

/-- The text of a condition. -/
def Condition.print : Condition → List Char
  | holds e => e.print
  | .matches p e => 'l' :: 'e' :: 't' :: ' ' :: (p.print ++ ' ' :: '=' :: ' ' :: e.print)

/-- The text of a guard before the arrow of its case. -/
def printGuard : Option Expr → List Char
  | none => []
  | some e => 'i' :: 'f' :: ' ' :: (e.print ++ [' '])

namespace Node

mutual

/-- **The text of a node.** -/
def print : Node → List Char
  | text _ t => t.toList.flatMap printChar
  | value _ e raw => '@' :: ((if raw then ['!'] else []) ++ e.print)
  | comment _ t => '@' :: '*' :: (t.toList ++ ['*', '@'])
  | branch _ arms otherwise =>
    '@' :: 'i' :: 'f' :: ' ' :: (printArms arms ++ (printOtherwise otherwise ++ ['\n']))
  | loop _ p e body =>
    '@' :: 'f' :: 'o' :: 'r' :: ' ' :: (p.print ++ ' ' :: 'i' :: 'n' :: ' ' ::
      (e.print ++ ' ' :: '\x7b' :: (printAll body ++ ['\x7d', '\n'])))
  | cases _ e arms =>
    '@' :: 'm' :: 'a' :: 't' :: 'c' :: 'h' :: ' ' ::
      (e.print ++ ' ' :: '\x7b' :: ' ' :: (printCases arms ++ ['\x7d', '\n']))
  | call _ target args blocks =>
    '@' :: ':' :: (printPath target ++ '(' :: (joined (argumentTexts args) ++ ')' ::
      (printBlocks blocks ++ if blocks.isEmpty then [] else ['\n'])))

/-- The text of a body. -/
def printAll : List Node → List Char
  | [] => []
  | n :: ns => n.print ++ printAll ns

/-- The text of arms, after the first `if`. -/
def printArms : List (Condition × List Node) → List Char
  | [] => []
  | (c, body) :: arms =>
    c.print ++ ' ' :: '\x7b' :: (printAll body ++ '\x7d' ::
      if arms.isEmpty then [] else
        ' ' :: 'e' :: 'l' :: 's' :: 'e' :: ' ' :: 'i' :: 'f' :: ' ' :: printArms arms)

/-- The text of what is done if no arm is taken. -/
def printOtherwise : Option (List Node) → List Char
  | none => []
  | some body => ' ' :: 'e' :: 'l' :: 's' :: 'e' :: ' ' :: '\x7b' :: (printAll body ++ ['\x7d'])

/-- The text of cases, each with a space after it. -/
def printCases : List (Pattern × Option Expr × List Node) → List Char
  | [] => []
  | (p, g, body) :: arms =>
    p.print ++ ' ' :: (printGuard g ++ '=' :: '>' :: ' ' :: '\x7b' ::
      (printAll body ++ '\x7d' :: ' ' :: printCases arms))

/-- The texts of arguments. -/
def argumentTexts : List (Expr ⊕ List Node) → List (List Char)
  | [] => []
  | .inl e :: args => e.print :: argumentTexts args
  | .inr body :: args => ('\x7b' :: (printAll body ++ ['\x7d'])) :: argumentTexts args

/-- The text of blocks after a call. -/
def printBlocks : List (List Node) → List Char
  | [] => []
  | body :: blocks => ' ' :: '\x7b' :: (printAll body ++ '\x7d' :: printBlocks blocks)

end

end Node

/-- **The text of a template** with the given body, which has no parameters. -/
def Template.print (body : Body) : List Char :=
  '@' :: '(' :: ')' :: '\n' :: Node.printAll body

/-! ## What is printed -/

/-- **An expression that the reader can return**, without fractions and with integers that can be
read. -/
structure Expr.Writable (e : Expr) : Prop where
  returned : (∃ c c', readExpression c = .ok (e, c')) ∨ ∃ c c', readChain c = .ok (e, c')
  plain : ∀ v ∈ e.literals, v.Plain

/-- **A pattern that the reader can return**, without fractions and with integers that can be
read. -/
structure Pattern.Writable (p : Pattern) : Prop where
  returned : ∃ c c', Pattern.read c = .ok (p, c')
  plain : ∀ v ∈ p.literals, v.Plain

theorem Expr.Writable.printable {e : Expr} (h : e.Writable) : e.Printable 0 := by
  have hfits : Fits 0 0 e := by
    rcases h.returned with ⟨c, c', hr⟩ | ⟨c, c', hr⟩
    · exact fits_of_readExpression hr
    · exact (fits_of_readChain hr).mono (Nat.zero_le _)
  exact printable_of_levelled hfits.levelled hfits.nesting_le h.plain

theorem Pattern.Writable.shaped {p : Pattern} (h : p.Writable) : p.Shaped 0 := by
  obtain ⟨c, c', hr⟩ := h.returned
  exact shaped_of_read hr

/-- The parts of a condition are writable. -/
def Condition.Writable : Condition → Prop
  | holds e => e.Writable
  | .matches p e => p.Writable ∧ e.Writable

namespace Node

/-- A text. -/
def isText : Node → Bool
  | text _ _ => true
  | _ => false

mutual

/-- **A node that is printed** in the given number of blocks: texts are not empty, comments do not
end early, values stand in parentheses, and blocks are not nested too deeply. -/
def Printable (d : Nat) : Node → Prop
  | text _ t => t.toList ≠ []
  | value _ e _ => e.Writable ∧ e.isParenthesized = true
  | comment _ t => ¬ ['*', '@'] <:+: t.toList
  | branch _ arms otherwise => arms ≠ [] ∧ PrintableArms d arms ∧ PrintableOtherwise d otherwise
  | loop _ p e body => p.Writable ∧ e.Writable ∧ d < maxNesting ∧ PrintableAll (d + 1) body
  | cases _ e arms => e.Writable ∧ d < maxNesting ∧ PrintableCases (d + 1) arms
  | call _ target args blocks =>
    target ≠ [] ∧ (∀ n ∈ target, IsName n) ∧ PrintableArguments d args ∧ PrintableBlocks d blocks

/-- **A body that is printed**: no two texts stand side by side. -/
def PrintableAll (d : Nat) : List Node → Prop
  | [] => True
  | n :: ns =>
    n.Printable d ∧ PrintableAll d ns ∧ (n.isText = true → ∀ m, ns.head? = some m → m.isText = false)

/-- Arms that are printed. -/
def PrintableArms (d : Nat) : List (Condition × List Node) → Prop
  | [] => True
  | (c, body) :: arms =>
    c.Writable ∧ d < maxNesting ∧ PrintableAll (d + 1) body ∧ PrintableArms d arms

/-- What is printed for the case that no arm is taken. -/
def PrintableOtherwise (d : Nat) : Option (List Node) → Prop
  | none => True
  | some body => d < maxNesting ∧ PrintableAll (d + 1) body

/-- Cases that are printed. -/
def PrintableCases (d : Nat) : List (Pattern × Option Expr × List Node) → Prop
  | [] => True
  | (p, g, body) :: arms =>
    p.Writable ∧ (∀ e, g = some e → e.Writable) ∧ d < maxNesting ∧ PrintableAll (d + 1) body ∧
      PrintableCases d arms

/-- Arguments that are printed. -/
def PrintableArguments (d : Nat) : List (Expr ⊕ List Node) → Prop
  | [] => True
  | .inl e :: args => e.Writable ∧ PrintableArguments d args
  | .inr body :: args => d < maxNesting ∧ PrintableAll (d + 1) body ∧ PrintableArguments d args

/-- Blocks that are printed. -/
def PrintableBlocks (d : Nat) : List (List Node) → Prop
  | [] => True
  | body :: blocks => d < maxNesting ∧ PrintableAll (d + 1) body ∧ PrintableBlocks d blocks

end

end Node

/-! ## What follows a construct -/

/-- **What may follow a construct**: after white space no `@else`, and on the same line no brace. -/
structure Detached (rest : List Char) : Prop where
  no_else : ['@', 'e', 'l', 's', 'e'].isPrefixOf (rest.dropWhile isBlank) = false
  no_brace : (rest.dropWhile isSpaceOrTab).head? ≠ some '\x7b'

theorem Detached.mark {c : Char} (hc : c ≠ 'e') (cs : List Char) : Detached ('@' :: c :: cs) := by
  constructor
  · have hb : isBlank '@' = false := rfl
    rw [List.dropWhile_cons_of_neg (by rw [hb]; decide)]
    simp [List.isPrefixOf, hc.symm]
  · have hb : isSpaceOrTab '@' = false := rfl
    rw [List.dropWhile_cons_of_neg (by rw [hb]; decide)]
    simp

/-- A character that is printed as it is. -/
theorem Detached.char {c : Char} (hat : c ≠ '@') (hbrace : c ≠ '\x7b') {rest : List Char}
    (h : Detached rest) : Detached (c :: rest) := by
  constructor
  · by_cases hc : isBlank c = true
    · rw [List.dropWhile_cons_of_pos hc]
      exact h.no_else
    · rw [List.dropWhile_cons_of_neg hc]
      simp [List.isPrefixOf, hat.symm]
  · by_cases hc : isSpaceOrTab c = true
    · rw [List.dropWhile_cons_of_pos hc]
      exact h.no_brace
    · rw [List.dropWhile_cons_of_neg hc]
      simpa using hbrace

theorem detached_printChar (c : Char) {rest : List Char} (h : Detached rest) :
    Detached (printChar c ++ rest) := by
  unfold printChar
  split
  · rename_i hc
    refine .mark ?_ rest
    rcases hc with rfl | rfl | rfl <;> decide
  · rename_i hc
    rw [not_or, not_or] at hc
    exact h.char hc.1 hc.2.1

theorem detached_text (t : List Char) {rest : List Char} (h : Detached rest) :
    Detached (t.flatMap printChar ++ rest) := by
  induction t with
  | nil => exact h
  | cons c t ih =>
    rw [List.flatMap_cons, List.append_assoc]
    exact detached_printChar c ih

namespace Node

/-- All nodes but texts start with an `@` and something that is no escape and no `else`. -/
theorem print_mark {n : Node} {d : Nat} (h : n.Printable d) (ht : n.isText = false) :
    ∃ c cs, c ≠ 'e' ∧ c ≠ '@' ∧ c ≠ '\x7b' ∧ c ≠ '\x7d' ∧ n.print = '@' :: c :: cs := by
  cases n with
  | text p t => cases ht
  | value p e raw =>
    rw [Printable] at h
    rw [print]
    cases raw with
    | true => exact ⟨'!', _, by decide, by decide, by decide, by decide, rfl⟩
    | false =>
      cases e with
      | group q i =>
        rw [Expr.print]
        exact ⟨'(', _, by decide, by decide, by decide, by decide, rfl⟩
      | tuple q is =>
        rw [Expr.print]
        exact ⟨'(', _, by decide, by decide, by decide, by decide, rfl⟩
      | _ => cases h.2
  | comment p t =>
    rw [print]
    exact ⟨'*', _, by decide, by decide, by decide, by decide, rfl⟩
  | branch p arms otherwise =>
    rw [print]
    exact ⟨'i', _, by decide, by decide, by decide, by decide, rfl⟩
  | loop p pattern e body =>
    rw [print]
    exact ⟨'f', _, by decide, by decide, by decide, by decide, rfl⟩
  | cases p e arms =>
    rw [print]
    exact ⟨'m', _, by decide, by decide, by decide, by decide, rfl⟩
  | call p target args blocks =>
    rw [print]
    exact ⟨':', _, by decide, by decide, by decide, by decide, rfl⟩

/-- **Nothing in a printed body continues the construct before it.** -/
theorem detached_printAll {ns : List Node} {d : Nat} (h : PrintableAll d ns) {rest : List Char}
    (hr : Detached rest) : Detached (printAll ns ++ rest) := by
  induction ns with
  | nil => exact hr
  | cons n ns ih =>
    rw [PrintableAll] at h
    rw [printAll, List.append_assoc]
    cases ht : n.isText with
    | true =>
      cases n with
      | text p t =>
        rw [print]
        exact detached_text t.toList (ih h.2.1)
      | _ => cases ht
    | false =>
      obtain ⟨c, cs, hc, -, -, -, hn⟩ := print_mark h.1 ht
      rw [hn]
      exact .mark hc _

end Node

end Stencil
