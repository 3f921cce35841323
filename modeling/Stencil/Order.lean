/-!
# Sorting

Lists are put in order by insertion, which keeps elements of equal key in the order they came in.

* `sortBy`: the stable sort; `perm_sortBy`: it only reorders.
* `textLe`, `textsLe`: the order of texts, by code points, and of lists of texts.
* `dedup`: each element once; `firstRepeat?`: the first one that stands twice.
-/

namespace Stencil

variable {α : Type}

/-- Puts an element before the first one that is not before it. -/
def insertBy (le : α → α → Bool) (a : α) : List α → List α
  | [] => [a]
  | b :: l => if le a b then a :: b :: l else b :: insertBy le a l

/-- **The list in increasing order**; elements that are equal for the order keep their places. -/
def sortBy (le : α → α → Bool) : List α → List α
  | [] => []
  | a :: l => insertBy le a (sortBy le l)

theorem perm_insertBy (le : α → α → Bool) (a : α) (l : List α) :
    (insertBy le a l).Perm (a :: l) := by
  induction l with
  | nil => exact .refl _
  | cons b l ih =>
    unfold insertBy
    split
    · exact .refl _
    · exact (ih.cons b).trans (.swap a b l)

/-- **Sorting only reorders.** -/
theorem perm_sortBy (le : α → α → Bool) (l : List α) : (sortBy le l).Perm l := by
  induction l with
  | nil => exact .refl _
  | cons a l ih => exact (perm_insertBy le a _).trans (ih.cons a)

theorem length_sortBy (le : α → α → Bool) (l : List α) : (sortBy le l).length = l.length :=
  (perm_sortBy le l).length_eq

theorem mem_sortBy (le : α → α → Bool) {a : α} {l : List α} : a ∈ sortBy le l ↔ a ∈ l :=
  (perm_sortBy le l).mem_iff

/-- Texts in the order of their code points, a part before the whole. -/
def textLe (a b : String) : Bool := !decide (b < a)

/-- Lists of texts in lexicographic order, a part before the whole. -/
def textsLe (a b : List String) : Bool := !decide (b < a)

/-- Texts in increasing order. -/
def sortTexts (l : List String) : List String := sortBy textLe l

/-- The list without the later copies of its elements. -/
def dedup [BEq α] : List α → List α
  | [] => []
  | a :: l => a :: (dedup l).filter (!a == ·)

/-- The first element that stands twice, with the one it repeats, as a function of a key. -/
def firstRepeat? {κ : Type} [BEq κ] (key : α → κ) : List α → List α → Option (α × α)
  | _, [] => none
  | seen, a :: l =>
    match seen.find? (key · == key a) with
    | some b => some (b, a)
    | none => firstRepeat? key (a :: seen) l

end Stencil
