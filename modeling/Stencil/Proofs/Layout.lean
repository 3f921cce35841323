import Stencil.Code.Stmt

/-!
# The structure that indentation gives to lines

A line has those deeper lines below it that follow it directly. Lines that stand below the same line
stand at one level.

* `Tree`, `Tree.forest?`: a line with what stands below it, read off the levels of the lines.
* `Stmt.trees`: the structure that a statement was printed from.
* **`forest?_linesAll`**: the lines of statements have that structure.
-/

namespace Stencil

/-- **A line of code with the lines below it.** -/
inductive Tree where
  | node (head : Head) (below : List Tree)

namespace Tree

theorem length_dropWhile_le {α : Type} (p : α → Bool) (l : List α) :
    (l.dropWhile p).length ≤ l.length :=
  (l.dropWhile_suffix p).length_le

/-- **The structure of lines at a level**, which is that of the first line if none is given: each
line takes the deeper ones after it, all of which must stand below it at one level. -/
def forest? (level : Option Nat) : List Line → Option (List Tree)
  | [] => some []
  | l :: ls =>
    if level.all (· == l.indent) then do
      let below ← forest? none (ls.takeWhile (l.indent < ·.indent))
      let rest ← forest? (some l.indent) (ls.dropWhile (l.indent < ·.indent))
      return .node l.head below :: rest
    else none
termination_by ls => ls.length
decreasing_by
  · have := (ls.takeWhile_prefix (l.indent < ·.indent)).length_le
    simp only [List.length_cons]
    omega
  · have := length_dropWhile_le (l.indent < ·.indent) ls
    simp only [List.length_cons]
    omega

@[simp] theorem forest?_nil (level : Option Nat) : forest? level [] = some [] := by
  rw [forest?]

/-- Lines stand at a level if the first does. -/
theorem forest?_some {i : Nat} {ls : List Line} (h : ∀ l ∈ ls.head?, l.indent = i) :
    forest? (some i) ls = forest? none ls := by
  cases ls with
  | nil => rw [forest?, forest?]
  | cons l ls =>
    have hl : l.indent = i := h l rfl
    rw [forest?, forest?]
    simp [hl]

/-- A line has the deeper lines after it below it. -/
theorem forest?_cons {l : Line} {below rest : List Line}
    (hbelow : ∀ b ∈ below, l.indent < b.indent) (hrest : ∀ r ∈ rest.head?, r.indent ≤ l.indent) :
    forest? (some l.indent) (l :: (below ++ rest)) = (do
      let below ← forest? none below
      let rest ← forest? (some l.indent) rest
      return .node l.head below :: rest) := by
  have hb : ∀ b ∈ below, decide (l.indent < b.indent) = true := by simpa using hbelow
  have ht : (below ++ rest).takeWhile (l.indent < ·.indent) = below := by
    rw [List.takeWhile_append_of_pos hb]
    cases rest with
    | nil => simp
    | cons r rest => simp [hrest r rfl]
  have hd : (below ++ rest).dropWhile (l.indent < ·.indent) = rest := by
    rw [List.dropWhile_append_of_pos hb]
    cases rest with
    | nil => simp
    | cons r rest => simp [hrest r rfl]
  rw [forest?, ht, hd]
  simp

end Tree

namespace Stmt

/-! ## Statements as trees -/

/-- The structure of a body: one line that does nothing if there is nothing else. -/
def orPassTrees (ts : List Tree) : List Tree := if ts.isEmpty then [.node .pass []] else ts

mutual

/-- **The structure of the lines of a statement.** -/
def trees : Stmt → List Tree
  | write _ s => [.node (.write s) []]
  | interpolate _ raw e => [.node (.interpolate raw e) []]
  | evaluate _ e => [.node (.evaluate e) []]
  | call _ target args => [.node (.call target args) []]
  | define _ name body => [.node (.define name []) (orPassTrees (treesAll body))]
  | branch _ arms otherwise => armTrees true arms ++ otherwiseTrees otherwise
  | loop _ target iterable body => [.node (.loop target iterable) (orPassTrees (treesAll body))]
  | select _ subject cases => [.node (.select subject) (caseTrees cases)]

/-- The structure of the lines of statements. -/
def treesAll : List Stmt → List Tree
  | [] => []
  | s :: ss => s.trees ++ treesAll ss

/-- The structure of the lines of arms. -/
def armTrees (first : Bool) : List (Expr × List Stmt) → List Tree
  | [] => []
  | (e, body) :: arms =>
    .node (.branch first e) (orPassTrees (treesAll body)) :: armTrees false arms

/-- The structure of the lines of what is done if no arm is taken. -/
def otherwiseTrees : Option (List Stmt) → List Tree
  | none => []
  | some body => [.node .otherwise (orPassTrees (treesAll body))]

/-- The structure of the lines of cases. -/
def caseTrees : List (Pattern × Option Expr × List Stmt) → List Tree
  | [] => []
  | (pattern, guard, body) :: cases =>
    .node (.case pattern guard) (orPassTrees (treesAll body)) :: caseTrees cases

end

@[simp] theorem treesAll_nil : treesAll [] = [] := by rw [treesAll]

@[simp] theorem treesAll_cons (s : Stmt) (ss : List Stmt) :
    treesAll (s :: ss) = s.trees ++ treesAll ss := by rw [treesAll]

@[simp] theorem treesAll_append (ss ss' : List Stmt) :
    treesAll (ss ++ ss') = treesAll ss ++ treesAll ss' := by
  induction ss with
  | nil => simp
  | cons s ss ih => simp [ih]

/-! ## Levels of lines -/

variable {i p : Nat}

theorem mem_orPass {ls : List Line} {l : Line} (h : l ∈ orPass i p ls) :
    l ∈ ls ∨ l.indent = i := by
  unfold orPass at h
  split at h
  · simp_all
  · exact .inl h

theorem le_indent_block {h : Head} {ls : List Line} (hls : ∀ l ∈ ls, i + 1 ≤ l.indent) :
    ∀ l ∈ ⟨i, h, p⟩ :: orPass (i + 1) p ls, i ≤ l.indent := by
  intro l hl
  rcases List.mem_cons.mp hl with rfl | hl
  · exact Nat.le_refl _
  · rcases mem_orPass hl with hl | hl
    · exact Nat.le_of_succ_le (hls l hl)
    · omega

mutual

/-- The lines of a statement stand at its level or deeper. -/
theorem le_indent (i : Nat) : ∀ (s : Stmt), ∀ l ∈ s.lines i, i ≤ l.indent
  | write .. | interpolate .. | evaluate .. | call .. => by simp [lines]
  | define p name body => by
    rw [lines]
    exact le_indent_block (le_indent_all (i + 1) body)
  | branch p arms otherwise => by
    intro l hl
    rw [lines, List.mem_append] at hl
    rcases hl with hl | hl
    · exact le_indent_arms i p true arms l hl
    · exact le_indent_otherwise i p otherwise l hl
  | loop p target iterable body => by
    rw [lines]
    exact le_indent_block (le_indent_all (i + 1) body)
  | select p subject cases => by
    intro l hl
    rw [lines, List.mem_cons] at hl
    rcases hl with rfl | hl
    · exact Nat.le_refl _
    · exact Nat.le_of_succ_le (le_indent_cases (i + 1) p cases l hl)

theorem le_indent_all (i : Nat) : ∀ (ss : List Stmt), ∀ l ∈ linesAll i ss, i ≤ l.indent
  | [] => by simp [linesAll]
  | s :: ss => by
    intro l hl
    rw [linesAll, List.mem_append] at hl
    rcases hl with hl | hl
    · exact le_indent i s l hl
    · exact le_indent_all i ss l hl

theorem le_indent_arms (i p : Nat) (first : Bool) :
    ∀ (arms : List (Expr × List Stmt)), ∀ l ∈ armLines i p first arms, i ≤ l.indent
  | [] => by simp [armLines]
  | (e, body) :: arms => by
    intro l hl
    rw [armLines, List.mem_append] at hl
    rcases hl with hl | hl
    · exact le_indent_block (le_indent_all (i + 1) body) l hl
    · exact le_indent_arms i p false arms l hl

theorem le_indent_otherwise (i p : Nat) :
    ∀ (otherwise : Option (List Stmt)), ∀ l ∈ otherwiseLines i p otherwise, i ≤ l.indent
  | none => by simp [otherwiseLines]
  | some body => by
    rw [otherwiseLines]
    exact le_indent_block (le_indent_all (i + 1) body)

theorem le_indent_cases (i p : Nat) :
    ∀ (cases : List (Pattern × Option Expr × List Stmt)), ∀ l ∈ caseLines i p cases, i ≤ l.indent
  | [] => by simp [caseLines]
  | (pattern, guard, body) :: cases => by
    intro l hl
    rw [caseLines, List.mem_append] at hl
    rcases hl with hl | hl
    · exact le_indent_block (le_indent_all (i + 1) body) l hl
    · exact le_indent_cases i p cases l hl

end

/-! ## Lines have the structure they were printed from -/

/-- Lines that start at a level have a structure there, whatever comes after them. -/
structure Reads (i : Nat) (ls : List Line) (ts : List Tree) : Prop where
  head : ∀ l ∈ ls.head?, l.indent = i
  empty : ls = [] ↔ ts = []
  forest : ∀ rest : List Line, (∀ r ∈ rest.head?, r.indent ≤ i) →
    Tree.forest? (some i) (ls ++ rest) = (Tree.forest? (some i) rest).map (ts ++ ·)

namespace Reads

variable {ls ls' : List Line} {ts ts' : List Tree}

theorem nil : Reads i [] [] := ⟨by simp, by simp, fun rest _ => by simp⟩

theorem append (h : Reads i ls ts) (h' : Reads i ls' ts') : Reads i (ls ++ ls') (ts ++ ts') where
  head := by
    cases ls with
    | nil => simpa using h'.head
    | cons l ls => simpa using h.head
  empty := by simp [h.empty, h'.empty]
  forest rest hrest := by
    have hle : ∀ r ∈ (ls' ++ rest).head?, r.indent ≤ i := by
      cases ls' with
      | nil => simpa using hrest
      | cons l ls' => exact fun r hr => Nat.le_of_eq (h'.head r hr)
    rw [List.append_assoc, h.forest _ hle, h'.forest _ hrest, Option.map_map]
    congr 1
    funext us
    simp

/-- Lines at a level, read alone. -/
theorem forest_none (h : Reads i ls ts) : Tree.forest? none ls = some ts := by
  have := h.forest [] (by simp)
  rw [List.append_nil] at this
  rw [← Tree.forest?_some h.head, this]
  simp

/-- A line takes the lines of the next level after it. -/
theorem cons {h : Head} (hr : Reads (i + 1) ls ts) (hle : ∀ l ∈ ls, i + 1 ≤ l.indent) :
    Reads i (⟨i, h, p⟩ :: ls) [.node h ts] where
  head := by simp
  empty := by simp
  forest rest hrest := by
    rw [List.cons_append, Tree.forest?_cons (l := ⟨i, h, p⟩) hle hrest, hr.forest_none]
    cases Tree.forest? (some i) rest <;> rfl

theorem orPass (hr : Reads i ls ts) : Reads i (Stmt.orPass i p ls) (orPassTrees ts) := by
  unfold Stmt.orPass orPassTrees
  by_cases he : ls = []
  · have ht := hr.empty.mp he
    subst he ht
    exact nil.cons (by simp)
  · have ht := fun ht => he (hr.empty.mpr ht)
    rw [if_neg (by simpa using he), if_neg (by simpa using ht)]
    exact hr

/-- A body stands below the line that opens it. -/
theorem block {h : Head} {q : Nat} (hr : Reads (i + 1) ls ts) (hle : ∀ l ∈ ls, i + 1 ≤ l.indent) :
    Reads i (⟨i, h, p⟩ :: Stmt.orPass (i + 1) q ls) [.node h (orPassTrees ts)] := by
  refine hr.orPass.cons fun l hl => ?_
  rcases mem_orPass hl with hl | hl
  · exact hle l hl
  · omega

end Reads

mutual

theorem reads_lines (i : Nat) : ∀ s : Stmt, Reads i (s.lines i) s.trees
  | write p s => by
    rw [lines, trees]
    exact Reads.nil.cons (by simp)
  | interpolate p raw e => by
    rw [lines, trees]
    exact Reads.nil.cons (by simp)
  | evaluate p e => by
    rw [lines, trees]
    exact Reads.nil.cons (by simp)
  | call p target args => by
    rw [lines, trees]
    exact Reads.nil.cons (by simp)
  | define p name body => by
    rw [lines, trees]
    exact (reads_linesAll (i + 1) body).block (le_indent_all _ _)
  | branch p arms otherwise => by
    rw [lines, trees]
    exact (reads_armLines i p true arms).append (reads_otherwiseLines i p otherwise)
  | loop p target iterable body => by
    rw [lines, trees]
    exact (reads_linesAll (i + 1) body).block (le_indent_all _ _)
  | select p subject cases => by
    rw [lines, trees]
    exact (reads_caseLines (i + 1) p cases).cons (le_indent_cases _ _ _)

theorem reads_linesAll (i : Nat) : ∀ ss : List Stmt, Reads i (linesAll i ss) (treesAll ss)
  | [] => by
    rw [linesAll, treesAll]
    exact .nil
  | s :: ss => by
    rw [linesAll, treesAll]
    exact (reads_lines i s).append (reads_linesAll i ss)

theorem reads_armLines (i p : Nat) (first : Bool) :
    ∀ arms : List (Expr × List Stmt), Reads i (armLines i p first arms) (armTrees first arms)
  | [] => by
    rw [armLines, armTrees]
    exact .nil
  | (e, body) :: arms => by
    rw [armLines, armTrees]
    exact ((reads_linesAll (i + 1) body).block (le_indent_all _ _)).append
      (reads_armLines i p false arms)

theorem reads_otherwiseLines (i p : Nat) : ∀ otherwise : Option (List Stmt),
    Reads i (otherwiseLines i p otherwise) (otherwiseTrees otherwise)
  | none => by
    rw [otherwiseLines, otherwiseTrees]
    exact .nil
  | some body => by
    rw [otherwiseLines, otherwiseTrees]
    exact (reads_linesAll (i + 1) body).block (le_indent_all _ _)

theorem reads_caseLines (i p : Nat) : ∀ cases : List (Pattern × Option Expr × List Stmt),
    Reads i (caseLines i p cases) (caseTrees cases)
  | [] => by
    rw [caseLines, caseTrees]
    exact .nil
  | (pattern, guard, body) :: cases => by
    rw [caseLines, caseTrees]
    exact ((reads_linesAll (i + 1) body).block (le_indent_all _ _)).append
      (reads_caseLines i p cases)

end

/-- **The lines of statements have the structure of the statements.** -/
theorem forest?_linesAll (i : Nat) (ss : List Stmt) :
    Tree.forest? none (linesAll i ss) = some (treesAll ss) :=
  (reads_linesAll i ss).forest_none

end Stmt

end Stencil
