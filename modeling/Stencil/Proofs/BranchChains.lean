import Mathlib.Data.List.TakeWhile
import Stencil.Proofs.ReadNodes

/-!
# The branches of a chain

What follows an `else` decides how a chain goes on: a brace opens the last block, the word `if` and
white space start another condition. There is one case in between: a brace directly behind the white
space after `else if` opens the last block too, and no condition is read.

* `Cursor.Else`: how an `else` is written, and what follows it.
* **`Cursor.elseMark?_iff`**: the reader finds an `else` where one is written.
* `Chain`: the branches of a chain in the text, with the arms that they contribute.
* **`Template.Read.chain_of_branches`**: what is read of a chain is what it contributes.
* **`Outline.branch_chains`**: each branch of a text comes from a chain in it.
-/

namespace Stencil

open Text Expr

/-! ## How an `else` is written -/

namespace Cursor

/-- **What follows an `else`.** -/
inductive Follower where
  /-- A block. -/
  | block
  /-- The word `if`, white space and a condition. -/
  | condition
  /-- The word `if` and one white space character, directly followed by a block. -/
  | bareBlock
  deriving DecidableEq, Repr

/-- An `else`: with an `@` after any white space, or without one on the same line. -/
def IsElse (cs : List Char) : Prop :=
  ∃ gap, (∀ x ∈ gap, isBlank x = true) ∧ cs = gap ++ ['@', 'e', 'l', 's', 'e'] ∨
    (∀ x ∈ gap, isSpaceOrTab x = true) ∧ cs = gap ++ ['e', 'l', 's', 'e']

/-- **An `else` and what follows it are written** between two cursors: the second one stands at the
brace of a block, or behind the white space after `if`. -/
inductive Else (c d : Cursor) : Follower → Prop
  | block {mark gap : List Char} (hmark : IsElse mark) (hgap : ∀ x ∈ gap, isBlank x = true)
      (hpast : c.Past (mark ++ gap) d) (hbrace : d.startsWith "\x7b" = true) : Else c d .block
  | condition {mark gap : List Char} {b : Char} (hmark : IsElse mark) (hne : gap ≠ [])
      (hgap : ∀ x ∈ gap, isBlank x = true) (hb : isBlank b = true)
      (hpast : c.Past (mark ++ gap ++ ['i', 'f', b]) d) (hbrace : d.startsWith "\x7b" = false) :
      Else c d .condition
  | bareBlock {mark gap : List Char} {b : Char} (hmark : IsElse mark) (hne : gap ≠ [])
      (hgap : ∀ x ∈ gap, isBlank x = true) (hb : isBlank b = true)
      (hpast : c.Past (mark ++ gap ++ ['i', 'f', b]) d) (hbrace : d.startsWith "\x7b" = true) :
      Else c d .bareBlock

variable {c d e : Cursor} {part gap : List Char}

theorem Past.unique (h : c.Past part d) (h' : c.Past part e) : d = e := by
  obtain ⟨_, _⟩ := d
  obtain ⟨_, _⟩ := e
  have hrest := List.append_cancel_left (h.1.symm.trans h'.1)
  have hposition := h.2.trans h'.2.symm
  simp only at hrest hposition
  rw [hrest, hposition]

/-- Going past a run that ends there. -/
theorem skipWhile_eq {p : Char → Bool} (h : c.Past gap d) (hgap : ∀ x ∈ gap, p x = true)
    (hend : ∀ x ∈ d.rest.head?, p x = false) : c.skipWhile p = d := by
  have hstop : d.rest.takeWhile p = [] := by
    cases hr : d.rest with
    | nil => rfl
    | cons x r => exact List.takeWhile_cons_of_neg (by simp [hend x (by rw [hr]; rfl)])
  have hrun : c.rest.takeWhile p = gap := by
    rw [h.1, List.takeWhile_append_of_pos hgap, hstop, List.append_nil]
  have hpast := c.past_skipWhile p
  rw [hrun] at hpast
  exact hpast.unique h

/-- The text at the cursor starts with what it goes past. -/
theorem startsWith_of_past {w : String} (h : c.Past w.toList d) : c.startsWith w = true := by
  rw [startsWith, h.1]
  exact List.isPrefixOf_iff_prefix.mpr (List.prefix_append _ _)

/-- The text at the cursor starts with a word and white space. -/
theorem atWordBlank_of_past {w : String} {b : Char} (h : c.Past (w.toList ++ [b]) d)
    (hb : isBlank b = true) : c.atWordBlank w = true ∧ c.skip (w.length + 1) = d := by
  obtain ⟨e, hword, hblank⟩ := h.split
  have hskip : c.skip w.length = e := by
    rw [← String.length_toList]
    exact (past_skip hword.1).1.unique hword
  refine ⟨?_, ?_⟩
  · rw [atWordBlank, startsWith_of_past hword, hskip, hblank.1]
    exact hb
  · have hlength : w.length + 1 = (w.toList ++ [b]).length := by
      rw [List.length_append, String.length_toList, List.length_singleton]
    rw [hlength]
    exact (past_skip h.1).1.unique h

/-- What follows an `else`, as it is written. -/
theorem afterElse?_iff : c.afterElse? = some d ↔
    (∃ gap, (∀ x ∈ gap, isBlank x = true) ∧ c.Past gap d ∧ d.startsWith "\x7b" = true) ∨
    ∃ gap b, gap ≠ [] ∧ (∀ x ∈ gap, isBlank x = true) ∧ isBlank b = true ∧
      c.Past (gap ++ ['i', 'f', b]) d := by
  have hgap : ∀ x ∈ c.rest.takeWhile isBlank, isBlank x = true := fun x hx =>
    List.mem_takeWhile_imp hx
  constructor
  · intro h
    unfold afterElse? at h
    simp only at h
    split at h
    · cases h
      exact .inl ⟨_, hgap, c.past_skipWhile _, ‹_›⟩
    · split at h
      · rename_i hif
        rw [Bool.and_eq_true, bne_iff_ne] at hif
        obtain ⟨b, hb, hpast⟩ := past_of_atWordBlank hif.2
        cases h
        refine .inr ⟨_, b, fun hnil => hif.1 ?_, hgap, hb, (c.past_skipWhile _).append hpast⟩
        have hpast := c.past_skipWhile isBlank
        rw [hnil] at hpast
        exact hpast.2
      · cases h
  · rintro (⟨gap, hgap, hpast, hbrace⟩ | ⟨gap, b, hne, hgap, hb, hpast⟩)
    · have hd : c.skipBlank = d := skipWhile_eq hpast hgap fun x hx => by
        rw [(past_of_startsWith hbrace).1] at hx
        cases hx
        rfl
      unfold afterElse?
      simp only [hd, hbrace, if_true]
    · obtain ⟨e, he, hif⟩ := hpast.split
      have hskip : c.skipBlank = e := skipWhile_eq he hgap fun x hx => by
        rw [hif.1] at hx
        cases hx
        rfl
      obtain ⟨hword, hd⟩ := atWordBlank_of_past (w := "if") hif hb
      have hbrace : e.startsWith "\x7b" = false := by
        rw [startsWith, hif.1]
        rfl
      have hposition : e.position ≠ c.position := Nat.ne_of_gt (he.position_lt hne)
      unfold afterElse?
      simp only [hskip, hbrace, Bool.false_eq_true, if_false, hword, Bool.and_true, bne_iff_ne,
        hposition, ne_eq, not_false_eq_true, if_true]
      exact congrArg some hd

theorem else_of_afterElse? {mark : List Char} (hmark : IsElse mark) (h : c.Past mark d)
    (hafter : d.afterElse? = some e) : ∃ f, c.Else e f := by
  rcases afterElse?_iff.mp hafter with ⟨gap, hgap, hpast, hbrace⟩ | ⟨gap, b, hne, hgap, hb, hpast⟩
  · exact ⟨.block, .block hmark hgap (h.append hpast) hbrace⟩
  · have hall := h.append hpast
    rw [← List.append_assoc] at hall
    cases hbrace : e.startsWith "\x7b" with
    | true => exact ⟨.bareBlock, .bareBlock hmark hne hgap hb hall hbrace⟩
    | false => exact ⟨.condition, .condition hmark hne hgap hb hall hbrace⟩

theorem exists_afterElse? {f : Follower} (h : c.Else d f) :
    ∃ mark e, IsElse mark ∧ c.Past mark e ∧ e.afterElse? = some d := by
  cases h with
  | block hmark hgap hpast hbrace =>
    obtain ⟨e, he, hnext⟩ := hpast.split
    exact ⟨_, e, hmark, he, afterElse?_iff.mpr (.inl ⟨_, hgap, hnext, hbrace⟩)⟩
  | condition hmark hne hgap hb hpast _ | bareBlock hmark hne hgap hb hpast _ =>
    rw [List.append_assoc] at hpast
    obtain ⟨e, he, hnext⟩ := hpast.split
    exact ⟨_, e, hmark, he, afterElse?_iff.mpr (.inr ⟨_, _, hne, hgap, hb, hnext⟩)⟩

/-- The reader goes past an `else` that is written. -/
theorem elseMark?_eq {mark : List Char} (hmark : IsElse mark) (h : c.Past mark d) :
    c.elseMark? = d.afterElse? := by
  have htab (x : Char) (hx : isSpaceOrTab x = true) : isBlank x = true := by
    rw [isSpaceOrTab, Bool.or_eq_true, beq_iff_eq, beq_iff_eq] at hx
    rcases hx with rfl | rfl <;> decide
  obtain ⟨gap, ⟨hgap, rfl⟩ | ⟨hgap, rfl⟩⟩ := hmark
  · obtain ⟨e, he, hword⟩ := h.split
    have hfar : c.skipBlank = e := skipWhile_eq he hgap fun x hx => by
      rw [hword.1] at hx
      cases hx
      rfl
    have hstart : e.startsWith "@else" = true := startsWith_of_past (w := "@else") hword
    have hskip : e.skip 5 = d := (past_skip hword.1).1.unique hword
    unfold elseMark?
    simp only [hfar, hstart, if_true, hskip]
  · obtain ⟨e, he, hword⟩ := h.split
    have hnext : ∀ x ∈ e.rest.head?, x = 'e' := fun x hx => by
      rw [hword.1] at hx
      cases hx
      rfl
    have hfar : c.skipBlank = e := skipWhile_eq he (fun x hx => htab x (hgap x hx)) fun x hx => by
      rw [hnext x hx]
      rfl
    have hnear : c.skipWhile isSpaceOrTab = e := skipWhile_eq he hgap fun x hx => by
      rw [hnext x hx]
      rfl
    have hat : e.startsWith "@else" = false := by
      rw [startsWith, hword.1]
      rfl
    have hstart : e.startsWith "else" = true := startsWith_of_past (w := "else") hword
    have hskip : e.skip 4 = d := (past_skip hword.1).1.unique hword
    unfold elseMark?
    simp only [hfar, hnear, hat, Bool.false_eq_true, if_false, hstart, if_true, hskip]

/-- **The reader finds an `else`** that goes on with a block or a condition where one is written. -/
theorem elseMark?_iff : c.elseMark? = some d ↔ ∃ f, c.Else d f := by
  constructor
  · intro h
    unfold elseMark? at h
    simp only at h
    split at h
    · have hfar := past_of_startsWith (s := "@else") ‹_›
      refine else_of_afterElse? ⟨_, .inl ⟨fun x hx => List.mem_takeWhile_imp hx, rfl⟩⟩
        ((c.past_skipWhile isBlank).append hfar) h
    · split at h
      · have hnear := past_of_startsWith (s := "else") ‹_›
        refine else_of_afterElse? ⟨_, .inr ⟨fun x hx => List.mem_takeWhile_imp hx, rfl⟩⟩
          ((c.past_skipWhile isSpaceOrTab).append hnear) h
      · cases h
  · rintro ⟨f, h⟩
    obtain ⟨mark, e, hmark, he, hafter⟩ := exists_afterElse? h
    rw [elseMark?_eq hmark he, hafter]

end Cursor

/-! ## Chains -/

open Template.Read

/-- **The branches of a chain**, from the cursor behind its first `if` to the one behind its last
brace: what follows each `else` in the text, and the arms and the last body that the chain
contributes. -/
inductive Chain : Cursor → List Cursor.Follower → List (Condition × List Node) →
    Option (List Node) → Cursor → Prop
  /-- Nothing goes on behind the block. -/
  | done {c a d : Cursor} {cond : Condition} {ns : List Node} :
      condition c = .ok (cond, a) → Block.Spans a d ns → (∀ e f, ¬ d.Else e f) →
      Chain c [] [(cond, ns)] none d
  /-- The chain ends with a block that has no condition. -/
  | last {c a b e d : Cursor} {f : Cursor.Follower} {cond : Condition} {ns ms : List Node} :
      condition c = .ok (cond, a) → Block.Spans a b ns → b.Else e f → f ≠ .condition →
      Block.Spans e d ms → Chain c [f] [(cond, ns)] (some ms) d
  /-- The chain goes on with another condition, which is read behind the `if`. -/
  | more {c a b e d : Cursor} {fs : List Cursor.Follower} {cond : Condition} {ns : List Node}
      {arms : List (Condition × List Node)} {otherwise : Option (List Node)} :
      condition c = .ok (cond, a) → Block.Spans a b ns → b.Else e .condition →
      Chain e fs arms otherwise d → Chain c (.condition :: fs) ((cond, ns) :: arms) otherwise d

namespace Chain

variable {c d : Cursor} {fs : List Cursor.Follower} {arms : List (Condition × List Node)}
variable {otherwise : Option (List Node)}

/-- **A chain has one arm, and one more for each condition** behind an `else`. -/
theorem length_arms (h : Chain c fs arms otherwise d) : arms.length = 1 + fs.count .condition := by
  induction h with
  | done => rfl
  | last _ _ _ hf => rw [List.count_singleton, if_neg (by simpa using hf), List.length_singleton]
  | more _ _ _ _ ih => rw [List.length_cons, ih, List.count_cons_self, Nat.add_assoc]

/-- **A chain has a last body if the last `else` is followed by a block**, and only then. -/
theorem isSome_otherwise_iff (h : Chain c fs arms otherwise d) :
    otherwise.isSome = true ↔ ∃ f ∈ fs.getLast?, f ≠ .condition := by
  induction h with
  | done => simp
  | last _ _ _ hf => simpa using hf
  | @more _ _ _ _ _ fs _ _ _ _ _ _ _ hrest ih =>
    rw [ih]
    cases fs with
    | nil => simp
    | cons f fs => rw [List.getLast?_cons_cons]

/-- Only the last `else` may be followed by a block. -/
theorem dropLast_eq (h : Chain c fs arms otherwise d) : ∀ f ∈ fs.dropLast, f = .condition := by
  induction h with
  | done | last => simp
  | @more _ _ _ _ _ fs _ _ _ _ _ _ _ _ ih =>
    cases fs with
    | nil => simp
    | cons f fs =>
      rw [List.dropLast_cons_cons, List.forall_mem_cons]
      exact ⟨rfl, ih⟩

end Chain

namespace Template.Read

variable {s d : Nat} {c c' : Cursor} {arms : List (Condition × List Node)}
variable {otherwise : Option (List Node)}

/-- **What is read of a chain is what it contributes.** -/
theorem chain_of_branches : ∀ {s : Nat} {c c' : Cursor} {arms : List (Condition × List Node)}
    {otherwise : Option (List Node)},
    branches s d c = .ok (arms, otherwise, c') → ∃ fs, Chain c fs arms otherwise c'
  | 0, _, _, _, _, h => by cases h
  | s + 1, c, _, _, _, h => by
    rw [branches] at h
    obtain ⟨⟨cond, a⟩, hcond, h⟩ := Except.bind_ok.mp h
    obtain ⟨⟨ns, b⟩, hns, h⟩ := Except.bind_ok.mp h
    have hblock := (sound s).block hns
    simp only at h
    split at h
    · rename_i hmark
      cases h
      refine ⟨[], .done hcond hblock fun e f helse => ?_⟩
      have := Cursor.elseMark?_iff.mpr ⟨f, helse⟩
      rw [hmark] at this
      cases this
    · rename_i next hmark
      obtain ⟨f, helse⟩ := Cursor.elseMark?_iff.mp hmark
      split at h
      · rename_i hbrace
        obtain ⟨⟨ms, e⟩, hms, h⟩ := Except.bind_ok.mp h
        cases h
        refine ⟨[f], .last hcond hblock helse ?_ ((sound s).block hms)⟩
        rintro rfl
        cases helse with
        | condition _ _ _ _ _ hno =>
          rw [hbrace] at hno
          cases hno
      · rename_i hbrace
        obtain ⟨⟨more, o, e⟩, hmore, h⟩ := Except.bind_ok.mp h
        cases h
        obtain ⟨fs, hchain⟩ := chain_of_branches hmore
        refine ⟨.condition :: fs, .more hcond hblock ?_ hchain⟩
        cases helse with
        | condition hmark hne hgap hb hpast hno => exact .condition hmark hne hgap hb hpast hno
        | block _ _ _ hyes | bareBlock _ _ _ _ _ hyes => exact absurd hyes hbrace

/-- A branch that a construct returns is read behind `@if`. -/
theorem branches_of_construct {p : Nat} (hat : c.startsWith "@" = true)
    (h : construct (s + 1) d c = .ok (.branch p arms otherwise, c')) :
    p = c.position ∧ ∃ b a e, isBlank b = true ∧ c.Past ['@', 'i', 'f', b] a ∧
      branches s d a = .ok (arms, otherwise, e) := by
  have hmark := Cursor.past_of_startsWith hat
  rw [construct] at h
  simp only at h
  split at h
  · obtain ⟨⟨text, g⟩, -, h⟩ := Except.bind_ok.mp h
    cases h
  · split at h
    · obtain ⟨path, args, bs, he⟩ := eq_call_of_call h
      cases he
    · split at h
      · obtain ⟨⟨v, g⟩, -, h⟩ := Except.bind_ok.mp h
        cases h
      · split at h
        · rename_i hword
          obtain ⟨b, hb, hpast⟩ := Cursor.past_keyword? hword
          obtain ⟨⟨arms', o, e⟩, harms, h⟩ := Except.bind_ok.mp h
          cases h
          exact ⟨rfl, b, _, e, hb, hmark.append hpast, harms⟩
        · obtain ⟨⟨q, a⟩, -, h⟩ := Except.bind_ok.mp h
          simp only at h
          split at h
          · obtain ⟨⟨v, b⟩, -, h⟩ := Except.bind_ok.mp h
            obtain ⟨⟨ns, g⟩, -, h⟩ := Except.bind_ok.mp h
            cases h
          · cases h
        · obtain ⟨⟨v, a⟩, -, h⟩ := Except.bind_ok.mp h
          simp only at h
          split at h
          · obtain ⟨d', -, h⟩ := Except.bind_ok.mp h
            obtain ⟨⟨cs, g⟩, -, h⟩ := Except.bind_ok.mp h
            cases h
          · cases h
        · split at h
          · cases h
          · split at h
            · obtain ⟨⟨v, g⟩, -, h⟩ := Except.bind_ok.mp h
              cases h
            · cases h

end Template.Read

/-! ## Whole texts -/

namespace Outline

/-- **Each branch of a text comes from a chain in it.** The chain stands behind the `@if` of the
branch. Its arms are one for the `@if` and one for each `else if`, whose condition is read behind
the `if`, unless the white space there is directly followed by a brace; and it has a last body if its
last `else` is followed by a block in that way or, white space aside, directly. -/
theorem branch_chains {text : List Char} {o : Outline} {p : Nat}
    {arms : List (Condition × List Node)} {otherwise : Option (List Node)}
    (h : parse text = .ok o) (hn : .branch p arms otherwise ∈ Node.nodesAll o.body) :
    ∃ (c a d : Cursor) (b : Char) (fs : List Cursor.Follower), c.In text ∧ c.position = p ∧
      isBlank b = true ∧ c.Past ['@', 'i', 'f', b] a ∧ Chain a fs arms otherwise d ∧ arms.length = 1 + fs.count .condition ∧
      (otherwise.isSome = true ↔ ∃ f ∈ fs.getLast?, f ≠ .condition) := by
  obtain ⟨s, d, c, e, hleads, hc⟩ := exists_construct h hn (fun _ _ h => by cases h)
  obtain ⟨hin, hat⟩ := in_of_leadsTo hleads
  cases s with
  | zero => cases hc
  | succ s =>
    obtain ⟨rfl, b, a, e', hb, hpast, hbranches⟩ := branches_of_construct hat hc
    obtain ⟨fs, hchain⟩ := chain_of_branches hbranches
    exact ⟨c, a, e', b, fs, hin, rfl, hb, hpast, hchain, hchain.length_arms,
      hchain.isSome_otherwise_iff⟩

/-- Two chains, of which one stands inside the other. -/
def chainText : List Char :=
  "@(a: bool)\n@if a \x7bx\x7d\n@else if let b = a \x7b@if b \x7by\x7d else \x7b\x7d\x7d".toList

/-- A branch at a position, with so many arms and with or without a last body. -/
def isBranch (p count : Nat) (last : Bool) : Node → Bool
  | .branch q arms otherwise => q == p && arms.length == count && otherwise.isSome == last
  | _ => false

theorem exists_branch (text : List Char) (p count : Nat) (last : Bool)
    (h : ((parse text).toOption.any fun o =>
      (Node.nodesAll o.body).any (isBranch p count last)) = true) :
    ∃ o arms otherwise, parse text = .ok o ∧ .branch p arms otherwise ∈ Node.nodesAll o.body ∧
      arms.length = count ∧ otherwise.isSome = last := by
  obtain ⟨o, ho, hany⟩ := Except.exists_of_any h
  obtain ⟨n, hn, hshape⟩ := List.any_eq_true.mp hany
  cases n with
  | branch q arms otherwise =>
    simp only [isBranch, Bool.and_eq_true, beq_iff_eq] at hshape
    obtain ⟨⟨rfl, hcount⟩, hlast⟩ := hshape
    exact ⟨o, arms, otherwise, ho, hn, hcount, hlast⟩
  | _ => cases hshape

theorem branch_chains_nested : ∃ o arms otherwise, parse chainText = .ok o ∧
    .branch 41 arms otherwise ∈ Node.nodesAll o.body ∧
    ∃ (c a d : Cursor) (b : Char) (fs : List Cursor.Follower), c.In chainText ∧ c.position = 41 ∧
      isBlank b = true ∧ c.Past ['@', 'i', 'f', b] a ∧ Chain a fs arms otherwise d ∧
      arms.length = 1 + fs.count .condition ∧
      (otherwise.isSome = true ↔ ∃ f ∈ fs.getLast?, f ≠ .condition) := by
  obtain ⟨o, arms, otherwise, ho, hn, -, -⟩ :=
    exists_branch chainText 41 1 true (by decide +kernel)
  exact ⟨o, arms, otherwise, ho, hn, branch_chains ho hn⟩

/-- An `else if` that is directly followed by a block. -/
def bareText : List Char := "@(a: bool)\n@if a \x7bx\x7d@else if \x7by\x7d".toList

/-- **An `else if` without a condition is taken for an `else`.** -/
theorem else_if_without_condition : ∃ o arms otherwise, parse bareText = .ok o ∧
    .branch 11 arms otherwise ∈ Node.nodesAll o.body ∧ arms.length = 1 ∧
    otherwise.isSome = true ∧
    (Cursor.ofText bareText 20).Else (Cursor.ofText bareText 29) .bareBlock := by
  obtain ⟨o, arms, otherwise, ho, hn, hcount, hlast⟩ :=
    exists_branch bareText 11 1 true (by decide +kernel)
  refine ⟨o, arms, otherwise, ho, hn, hcount, hlast, ?_⟩
  have hmark : Cursor.IsElse ['@', 'e', 'l', 's', 'e'] := ⟨[], .inl ⟨by simp, rfl⟩⟩
  have hpast : (Cursor.ofText bareText 20).Past
      (['@', 'e', 'l', 's', 'e'] ++ [' '] ++ ['i', 'f', ' ']) (Cursor.ofText bareText 29) :=
    ⟨rfl, rfl⟩
  have hspace : isBlank ' ' = true := by decide
  exact .bareBlock hmark (List.cons_ne_nil _ _) (List.forall_mem_singleton.mpr hspace) hspace hpast
    rfl

end Outline

end Stencil
