import Stencil.Proofs.Advance
import Stencil.Proofs.PrintedTemplate
import Stencil.Template.Parser

/-!
# What the nodes of a body stand for in the text

A body is written in its text without gaps: a text node is a stretch with its escapes undone, a
construct runs from its `@` to its end, and the next node starts where the one before it ends. Only
behind the last brace of a construct a single line break may stand.

* `Template.unescape?`: a stretch of text with its escapes undone.
* `Body.Spans`, `Node.Spans`, `Block.Spans`, ...: what is written between two cursors.
* `Template.Read.Sound`: the functions of the reader return what is written.
* **`Template.Read.body_spans`**: a body that is read is written where it was read.
-/

namespace Stencil

open Text Expr

/-! ## Escapes -/

/-- **A stretch of text with its escapes undone**, if each `@` in it belongs to an escape. -/
def Template.unescape? : List Char → Option (List Char)
  | [] => some []
  | '@' :: c :: cs =>
    if c = '@' ∨ c = '\x7b' ∨ c = '\x7d' then (unescape? cs).map (c :: ·) else none
  | c :: cs => if c = '@' then none else (unescape? cs).map (c :: ·)

namespace Template

variable {c : Char} {cs ds s t : List Char}

theorem unescape?_cons (h : c ≠ '@') :
    unescape? (c :: cs) = (unescape? cs).map (c :: ·) := by
  rw [unescape?.eq_3, if_neg h]
  rintro _ _ rfl
  exact absurd rfl h

theorem unescape?_append (hs : unescape? cs = some s) (ht : unescape? ds = some t) :
    unescape? (cs ++ ds) = some (s ++ t) := by
  fun_induction unescape? cs generalizing s with
  | case1 =>
    cases hs
    exact ht
  | case2 c cs hc ih =>
    obtain ⟨s, h, rfl⟩ := Option.map_eq_some_iff.mp hs
    rw [List.cons_append, List.cons_append, unescape?, if_pos hc, ih h]
    rfl
  | case3 => cases hs
  | case4 => cases hs
  | case5 c cs _ hc ih =>
    obtain ⟨s, h, rfl⟩ := Option.map_eq_some_iff.mp hs
    rw [List.cons_append, unescape?_cons hc, ih h]
    rfl

/-- Text without `@` has no escapes. -/
theorem unescape?_plain (h : '@' ∉ cs) : unescape? cs = some cs := by
  induction cs with
  | nil => rfl
  | cons c cs ih =>
    rw [List.mem_cons, not_or] at h
    rw [unescape?_cons (Ne.symm h.1), ih h.2]
    rfl

theorem ne_nil_of_unescape? (h : unescape? cs = some s) (hne : s ≠ []) : cs ≠ [] := by
  rintro rfl
  cases h
  exact hne rfl

theorem eq_nil_of_unescape? (h : unescape? cs = some []) : cs = [] := by
  fun_cases unescape? cs with
  | case1 => rfl
  | case2 c cs hc =>
    rw [unescape?, if_pos hc] at h
    obtain ⟨_, _, h⟩ := Option.map_eq_some_iff.mp h
    cases h
  | case3 c cs hc =>
    rw [unescape?, if_neg hc] at h
    cases h
  | case4 => simp_all [unescape?]
  | case5 c cs _ hc =>
    rw [unescape?_cons hc] at h
    obtain ⟨_, _, h⟩ := Option.map_eq_some_iff.mp h
    cases h

end Template

/-! ## Where nodes are written -/

/-- The constructs that may end in a block. -/
def Node.endsInBlock : Node → Bool
  | .branch .. | .loop .. | .cases .. => true
  | .call _ _ _ blocks => !blocks.isEmpty
  | _ => false

/-- One line break. -/
def IsLineBreak (cs : List Char) : Prop := cs = ['\n'] ∨ cs = ['\r', '\n']

/-- **What stands behind a construct**: nothing, or one line break behind its last block. -/
def Node.Gap (n : Node) (gap : List Char) : Prop :=
  gap = [] ∨ n.endsInBlock = true ∧ IsLineBreak gap

section

open Template.Read

mutual

/-- **The nodes of a body are written one after another** between two cursors. -/
inductive Body.Spans : Cursor → Cursor → List Node → Prop
  | nil (c : Cursor) : Body.Spans c c []
  | text {c d e : Cursor} {part t : List Char} {ns : List Node} :
      c.Past part d → Template.unescape? part = some t → t ≠ [] → Body.Spans d e ns →
      Body.Spans c e (.text c.position (String.ofList t) :: ns)
  | construct {c d e f : Cursor} {gap : List Char} {n : Node} {ns : List Node} :
      Node.Spans c d n → d.Past gap e → n.Gap gap → Body.Spans e f ns → Body.Spans c f (n :: ns)

/-- **A construct is written** between two cursors: the second one stands behind its last token, its
end mark or its last brace. -/
inductive Node.Spans : Cursor → Cursor → Node → Prop
  | value {c a d : Cursor} {e : Expr} :
      c.Past ['@'] a → readChain a = .ok (e, d) → a.Ends d →
      Node.Spans c d (.value c.position e false)
  | raw {c a d : Cursor} {e : Expr} :
      c.Past ['@', '!'] a → readChain a = .ok (e, d) → a.Ends d →
      Node.Spans c d (.value c.position e true)
  | comment {c d : Cursor} {inside : List Char} :
      c.Past ('@' :: '*' :: (inside ++ ['*', '@'])) d → ¬ ['*', '@'] <:+: inside →
      Node.Spans c d (.comment c.position (String.ofList inside))
  | lineComment {c d : Cursor} {inside : List Char} :
      c.Past ('@' :: '/' :: '/' :: inside) d → '\n' ∉ inside →
      (d.rest = [] ∨ ∃ gap e, d.Past gap e ∧ IsLineBreak gap) →
      Node.Spans c d (.comment c.position (String.ofList inside))
  | branch {c a d : Cursor} {b : Char} {arms : List (Condition × List Node)}
      {otherwise : Option (List Node)} :
      c.Past ['@', 'i', 'f', b] a → isBlank b = true → Arms.Spans a d arms otherwise →
      Node.Spans c d (.branch c.position arms otherwise)
  | loop {c a f g h d : Cursor} {b : Char} {p : Pattern} {e : Expr} {ns : List Node} :
      c.Past ['@', 'f', 'o', 'r', b] a → isBlank b = true →
      Pattern.read a.skipBlank = .ok (p, f) → f.skipBlank.Past ['i', 'n'] g →
      readExpression g = .ok (e, h) → Block.Spans h d ns →
      Node.Spans c d (.loop c.position p e ns)
  | cases {c a f g d : Cursor} {b : Char} {e : Expr}
      {arms : List (Pattern × Option Expr × List Node)} :
      c.Past ['@', 'm', 'a', 't', 'c', 'h', b] a → isBlank b = true →
      readExpression a = .ok (e, f) → f.skipBlank.Past ['\x7b'] g → Cases.Spans g d arms →
      Node.Spans c d (.cases c.position e arms)
  | call {c a f g h d : Cursor} {path : List String} {args : List (Expr ⊕ List Node)}
      {blocks : List (List Node)} :
      c.Past ['@', ':'] a → readPath a = .ok (path, f) → f.Past ['('] g → Args.Spans g h args →
      Blocks.Spans h d blocks → Node.Spans c d (.call c.position path args blocks)

/-- **A block is written** with its braces; white space may stand before it. -/
inductive Block.Spans : Cursor → Cursor → List Node → Prop
  | braces {c a b d : Cursor} {ns : List Node} :
      c.skipBlank.Past ['\x7b'] a → Body.Spans a b ns → b.Past ['\x7d'] d → Block.Spans c d ns

/-- The conditions and blocks of a branch. -/
inductive Arms.Spans : Cursor → Cursor → List (Condition × List Node) → Option (List Node) → Prop
  | one {c a d : Cursor} {cond : Condition} {ns : List Node} :
      condition c = .ok (cond, a) → Block.Spans a d ns → Arms.Spans c d [(cond, ns)] none
  | otherwise {c a b e d : Cursor} {cond : Condition} {ns ms : List Node} :
      condition c = .ok (cond, a) → Block.Spans a b ns → b.elseMark? = some e →
      Block.Spans e d ms → Arms.Spans c d [(cond, ns)] (some ms)
  | more {c a b e d : Cursor} {cond : Condition} {ns : List Node}
      {arms : List (Condition × List Node)} {otherwise : Option (List Node)} :
      condition c = .ok (cond, a) → Block.Spans a b ns → b.elseMark? = some e →
      Arms.Spans e d arms otherwise → Arms.Spans c d ((cond, ns) :: arms) otherwise

/-- The cases of a match up to its closing brace. -/
inductive Cases.Spans : Cursor → Cursor → List (Pattern × Option Expr × List Node) → Prop
  | done {c a d : Cursor} :
      c.skipComments = .ok a → a.Past ['\x7d'] d → Cases.Spans c d []
  | more {c a b e f g h i d : Cursor} {comma : List Char} {p : Pattern} {guard : Option Expr}
      {ns : List Node} {arms : List (Pattern × Option Expr × List Node)} :
      c.skipComments = .ok a → Pattern.read a = .ok (p, b) →
      guard? b.skipBlank = .ok (guard, e) → e.Past ['=', '>'] f → Block.Spans f g ns →
      g.skipComments = .ok h → h.Past comma i → (comma = [] ∨ comma = [',']) →
      Cases.Spans i d arms → Cases.Spans c d ((p, guard, ns) :: arms)

/-- The arguments of a call up to its closing parenthesis. -/
inductive Args.Spans : Cursor → Cursor → List (Expr ⊕ List Node) → Prop
  | done {c d : Cursor} : c.skipBlank.Past [')'] d → Args.Spans c d []
  | last {c a d : Cursor} {arg : Expr ⊕ List Node} :
      Arg.Spans c.skipBlank a arg → a.skipBlank.Past [')'] d → Args.Spans c d [arg]
  | more {c a b d : Cursor} {arg : Expr ⊕ List Node} {args : List (Expr ⊕ List Node)} :
      Arg.Spans c.skipBlank a arg → a.skipBlank.Past [','] b → Args.Spans b d args →
      Args.Spans c d (arg :: args)

/-- An argument of a call. -/
inductive Arg.Spans : Cursor → Cursor → Expr ⊕ List Node → Prop
  | block {c d : Cursor} {ns : List Node} : Block.Spans c d ns → Arg.Spans c d (.inr ns)
  | value {c d : Cursor} {e : Expr} : readExpression c = .ok (e, d) → Arg.Spans c d (.inl e)

/-- The blocks after a call. -/
inductive Blocks.Spans : Cursor → Cursor → List (List Node) → Prop
  | done (c : Cursor) : Blocks.Spans c c []
  | more {c a b d : Cursor} {ns : List Node} {blocks : List (List Node)} :
      c.blockMark? = some a → Block.Spans a b ns → Blocks.Spans b d blocks →
      Blocks.Spans c d (ns :: blocks)

end

end

/-! ## Marks -/

namespace Cursor

variable {c d : Cursor}

/-- The word of a keyword. -/
def Word.text : Word → List Char
  | .if => ['i', 'f']
  | .for => ['f', 'o', 'r']
  | .match => ['m', 'a', 't', 'c', 'h']

theorem skip_skip (c : Cursor) (m n : Nat) : (c.skip m).skip n = c.skip (m + n) := by
  rw [skip, skip, skip, List.drop_drop, Nat.add_assoc]

/-- Going past a word and the white space after it. -/
theorem past_of_atWordBlank {w : String} (h : c.atWordBlank w = true) :
    ∃ b, isBlank b = true ∧ c.Past (w.toList ++ [b]) (c.skip (w.length + 1)) := by
  rw [atWordBlank, Bool.and_eq_true] at h
  have hword := past_of_startsWith h.1
  have hblank := h.2
  cases hr : (c.skip w.length).rest with
  | nil =>
    rw [hr] at hblank
    cases hblank
  | cons b r =>
    rw [hr] at hblank
    have hnext : (c.skip w.length).Past [b] ((c.skip w.length).skip 1) :=
      (past_skip (by rw [hr, List.singleton_append])).1
    rw [skip_skip] at hnext
    exact ⟨b, hblank, hword.append hnext⟩

theorem past_keyword? {w : Word} (h : c.keyword? = some (w, d)) :
    ∃ b, isBlank b = true ∧ c.Past (w.text ++ [b]) d := by
  unfold keyword? at h
  split at h
  · cases h
    exact past_of_atWordBlank ‹_›
  · split at h
    · cases h
      exact past_of_atWordBlank ‹_›
    · split at h
      · cases h
        exact past_of_atWordBlank ‹_›
      · cases h

/-- Going past a line break, if there is one. -/
theorem past_skipNewline (c : Cursor) :
    ∃ gap, c.Past gap c.skipNewline ∧ (gap = [] ∨ IsLineBreak gap) := by
  unfold skipNewline
  split
  · rename_i cs h
    exact ⟨['\r', '\n'], ⟨by rw [skip, h]; rfl, rfl⟩, .inr (.inr rfl)⟩
  · rename_i cs h
    exact ⟨['\n'], ⟨by rw [skip, h]; rfl, rfl⟩, .inr (.inl rfl)⟩
  · exact ⟨[], .nil c, .inl rfl⟩

/-- Going past the line break that stands there. -/
theorem past_lineBreak (h : (c.startsWith "\r\n" || c.startsWith "\n") = true) :
    ∃ gap, c.Past gap c.skipNewline ∧ IsLineBreak gap := by
  rw [Bool.or_eq_true] at h
  rcases h with h | h
  · obtain ⟨r, hr⟩ := List.isPrefixOf_iff_prefix.mp h
    have hrest : c.rest = ['\r', '\n'] ++ r := hr.symm
    refine ⟨['\r', '\n'], ?_, .inr rfl⟩
    rw [skipNewline, hrest]
    exact (past_skip hrest).1
  · obtain ⟨r, hr⟩ := List.isPrefixOf_iff_prefix.mp h
    have hrest : c.rest = ['\n'] ++ r := hr.symm
    refine ⟨['\n'], ?_, .inl rfl⟩
    rw [skipNewline, hrest]
    exact (past_skip hrest).1

theorem reaches_afterElse? (h : c.afterElse? = some d) : c.Reaches d := by
  have hblank := c.reaches_skipBlank
  unfold afterElse? at h
  simp only at h
  split at h
  · cases h
    exact hblank
  · split at h
    · rename_i hif
      rw [Bool.and_eq_true] at hif
      obtain ⟨b, -, hpast⟩ := past_of_atWordBlank hif.2
      cases h
      exact hblank.trans hpast.reaches
    · cases h

theorem reaches_elseMark? (h : c.elseMark? = some d) : c.Reaches d := by
  unfold elseMark? at h
  simp only at h
  split at h
  · have hmark := (past_of_startsWith (s := "@else") ‹_›).reaches
    exact c.reaches_skipBlank.trans (hmark.trans (reaches_afterElse? h))
  · split at h
    · have hmark := (past_of_startsWith (s := "else") ‹_›).reaches
      exact (c.past_skipWhile _).reaches.trans (hmark.trans (reaches_afterElse? h))
    · cases h

theorem reaches_blockMark? (h : c.blockMark? = some d) : c.Reaches d := by
  unfold blockMark? at h
  simp only at h
  split at h
  · cases h
    exact (c.past_skipWhile _).reaches
  · cases h

/-! ### Comments -/

/-- **A comment ends at its first end mark.** -/
theorem eq_of_beforeClose {cs inside rest : List Char} (h : beforeClose cs = some (inside, rest)) :
    cs = inside ++ '*' :: '@' :: rest ∧ ¬ ['*', '@'] <:+: inside := by
  fun_induction beforeClose cs generalizing inside with
  | case1 => cases h
  | case2 cs =>
    cases h
    exact ⟨rfl, by simp⟩
  | case3 c cs hc ih =>
    obtain ⟨⟨more, r⟩, hm, he⟩ := Option.map_eq_some_iff.mp h
    cases he
    obtain ⟨rfl, hfirst⟩ := ih hm
    refine ⟨rfl, ?_⟩
    rw [List.infix_cons_iff, not_or]
    refine ⟨?_, hfirst⟩
    rintro ⟨r', hr'⟩
    obtain ⟨hstar, hat⟩ := List.cons.inj hr'
    exact hc (r' ++ '*' :: '@' :: rest) hstar.symm (by rw [← hat]; rfl)

theorem spans_blockComment {text : String} (hs : c.startsWith "@*" = true)
    (h : c.blockComment = .ok (text, d)) : Node.Spans c d (.comment c.position text) := by
  have hmark := past_of_startsWith hs
  unfold blockComment at h
  split at h
  · rename_i inside rest hclose
    cases h
    obtain ⟨hrest, hfirst⟩ := eq_of_beforeClose hclose
    refine .comment ?_ hfirst
    have hinside : (c.skip 2).Past (inside ++ ['*', '@'])
        ⟨c.position + 4 + inside.length, rest⟩ := by
      refine ⟨by rw [hrest, List.append_assoc]; rfl, ?_⟩
      show c.position + 4 + inside.length = c.position + 2 + _
      rw [List.length_append]
      simp only [List.length_cons, List.length_nil]
      omega
    exact hmark.append hinside
  · cases h

/-- **A line comment ends in front of the line break.** -/
theorem lineComment_eq (c : Cursor) : ∃ inside left,
    c.lineComment = (String.ofList inside, (c.skip 3).skip inside.length) ∧
      (c.skip 3).rest = inside ++ left ∧ '\n' ∉ inside ∧
      (left = [] ∨ ∃ gap r, left = gap ++ r ∧ IsLineBreak gap) := by
  have hrest := (List.takeWhile_append_dropWhile (p := (· != '\n')) (l := (c.skip 3).rest)).symm
  have hfree : '\n' ∉ (c.skip 3).rest.takeWhile (· != '\n') := by
    intro hn
    have hne := List.all_eq_true.mp (List.all_takeWhile (l := (c.skip 3).rest)) _ hn
    simp at hne
  cases htail : (c.skip 3).rest.dropWhile (· != '\n') with
  | nil =>
    refine ⟨_, _, ?_, hrest, hfree, .inl htail⟩
    rw [lineComment]
    simp [htail]
  | cons x r =>
    obtain rfl : x = '\n' := by
      have hx := List.head?_dropWhile_not (· != '\n') (c.skip 3).rest
      simpa [htail] using hx
    by_cases hlast : ((c.skip 3).rest.takeWhile (· != '\n')).getLast? = some '\r'
    · obtain ⟨inside, hinside⟩ := List.getLast?_eq_some_iff.mp hlast
      rw [htail, hinside] at hrest
      rw [hinside, List.mem_append, not_or] at hfree
      refine ⟨inside, '\r' :: '\n' :: r, ?_, by rw [hrest]; simp, hfree.1,
        .inr ⟨['\r', '\n'], r, rfl, .inr rfl⟩⟩
      rw [lineComment]
      simp [htail, hinside]
    · refine ⟨_, _, ?_, hrest, hfree, .inr ⟨['\n'], r, htail, .inl rfl⟩⟩
      rw [lineComment]
      simp [htail, hlast]

theorem spans_lineComment (hs : c.startsWith "@//" = true) :
    Node.Spans c c.lineComment.2 (.comment c.position c.lineComment.1) := by
  obtain ⟨inside, left, hcomment, hrest, hfree, hleft⟩ := c.lineComment_eq
  obtain ⟨hpast, hend⟩ := past_skip hrest
  have hmark : c.Past ['@', '/', '/'] (c.skip 3) := past_of_startsWith hs
  rw [hcomment]
  refine .lineComment (hmark.append hpast) hfree ?_
  rw [hend]
  rcases hleft with rfl | ⟨gap, r, rfl, hgap⟩
  · exact .inl rfl
  · exact .inr ⟨gap, _, (past_skip hend).1, hgap⟩

/-- **A comment that is read is written.** -/
theorem spans_comment? {comment : Except Failure (String × Cursor)} {text : String}
    (h : c.comment? = some comment) (hc : comment = .ok (text, d)) :
    Node.Spans c d (.comment c.position text) := by
  subst hc
  unfold comment? at h
  split at h
  · exact spans_blockComment ‹_› (Option.some.inj h)
  · split at h
    · cases h
      exact spans_lineComment ‹_›
    · cases h

/-- Going past comments and the white space around them. -/
theorem reaches_skipCommentsIn {s : Nat} (h : skipCommentsIn s c = .ok d) : c.Reaches d := by
  induction s generalizing c with
  | zero => cases h
  | succ s ih =>
    rw [skipCommentsIn] at h
    split at h
    · cases h
      exact c.reaches_skipBlank
    · rename_i comment hcomment
      obtain ⟨⟨text, a⟩, hc, h⟩ := Except.bind_ok.mp h
      have hspans := spans_comment? hcomment hc
      have hreaches : c.skipBlank.Reaches a := by cases hspans <;> exact Past.reaches ‹_›
      exact c.reaches_skipBlank.trans (hreaches.trans (ih h))

theorem reaches_skipComments (h : c.skipComments = .ok d) : c.Reaches d :=
  reaches_skipCommentsIn h

end Cursor

/-! ## Conditions and guards -/

section Head

variable {c d : Cursor}

open Template.Read

theorem reaches_condition {cond : Condition} (h : condition c = .ok (cond, d)) : c.Reaches d := by
  have hblank := c.reaches_skipBlank
  unfold condition at h
  dsimp only at h
  split at h
  · rename_i hlet
    rw [Cursor.atWordBlank, Bool.and_eq_true] at hlet
    have hword := (Cursor.past_of_startsWith hlet.1).reaches
    obtain ⟨⟨p, a⟩, hp, h⟩ := Except.bind_ok.mp h
    have hpattern := (Pattern.ends_of_read hp).reaches.trans a.reaches_skipBlank
    split at h
    · rename_i heq
      rw [Bool.and_eq_true] at heq
      obtain ⟨⟨e, b⟩, he, h⟩ := Except.bind_ok.mp h
      cases h
      have hvalue := (Cursor.past_of_startsWith heq.1).reaches.trans (ends_of_readExpression he).reaches
      exact hblank.trans (hword.trans (hpattern.trans hvalue))
    · cases h
  · obtain ⟨⟨e, a⟩, he, h⟩ := Except.bind_ok.mp h
    cases h
    exact hblank.trans (ends_of_readExpression he).reaches

theorem past_of_atWord {w : String} (h : c.atWord w = true) :
    c.Past w.toList (c.skip w.length) := by
  rw [Cursor.atWord, Bool.and_eq_true] at h
  exact Cursor.past_of_startsWith h.1

theorem reaches_guard? {guard : Option Expr} (h : guard? c = .ok (guard, d)) : c.Reaches d := by
  unfold guard? at h
  split at h
  · have hword := (past_of_atWord (w := "if") ‹_›).reaches
    obtain ⟨⟨e, a⟩, he, h⟩ := Except.bind_ok.mp h
    cases h
    exact hword.trans ((ends_of_readExpression he).reaches.trans a.reaches_skipBlank)
  · cases h
    exact .refl c

end Head

/-! ## What is written lies between its cursors -/

/-- **A node starts where it is written.** -/
theorem Node.Spans.position {c d : Cursor} {n : Node} (h : Node.Spans c d n) :
    n.position = c.position := by
  cases h <;> rfl

/-- An `@` stands at a cursor, and another one is further on. -/
def Cursor.Marked (c d : Cursor) : Prop := ∃ part, c.Past ('@' :: part) d

theorem Cursor.Past.marked {c a d : Cursor} {part : List Char} (h : c.Past ('@' :: part) a)
    (h' : a.Reaches d) : c.Marked d := by
  obtain ⟨more, h'⟩ := h'
  exact ⟨part ++ more, h.append h'⟩

theorem Cursor.Marked.reaches {c d : Cursor} (h : c.Marked d) : c.Reaches d := by
  obtain ⟨part, h⟩ := h
  exact h.reaches

theorem Cursor.Marked.position_lt {c d : Cursor} (h : c.Marked d) : c.position < d.position := by
  obtain ⟨part, h⟩ := h
  rw [h.2, List.length_cons]
  omega

mutual

theorem Body.Spans.reaches {c d : Cursor} : ∀ {ns : List Node}, Body.Spans c d ns → c.Reaches d
  | _, .nil c => .refl c
  | _, .text hpast _ _ hrest => hpast.reaches.trans hrest.reaches
  | _, .construct hnode hpast _ hrest =>
    hnode.marked.reaches.trans (hpast.reaches.trans hrest.reaches)

theorem Node.Spans.marked {c d : Cursor} : ∀ {n : Node}, Node.Spans c d n → c.Marked d
  | _, .value hmark _ hends => hmark.marked hends.reaches
  | _, .raw hmark _ hends => hmark.marked hends.reaches
  | _, .comment hpast _ => hpast.marked (.refl d)
  | _, .lineComment hpast _ _ => hpast.marked (.refl d)
  | _, .branch hmark _ harms => hmark.marked harms.reaches
  | _, .loop hmark _ hpattern hword hiterable hbody =>
    hmark.marked ((Cursor.reaches_skipBlank _).trans
      ((Pattern.ends_of_read hpattern).reaches.trans ((Cursor.reaches_skipBlank _).trans
        (hword.reaches.trans ((ends_of_readExpression hiterable).reaches.trans hbody.reaches)))))
  | _, .cases hmark _ hsubject hbrace harms =>
    hmark.marked ((ends_of_readExpression hsubject).reaches.trans
      ((Cursor.reaches_skipBlank _).trans (hbrace.reaches.trans harms.reaches)))
  | _, .call hmark hpath hparen hargs hblocks =>
    hmark.marked ((ends_of_readPath hpath).reaches.trans
      (hparen.reaches.trans (hargs.reaches.trans hblocks.reaches)))

theorem Block.Spans.reaches {c d : Cursor} : ∀ {ns : List Node}, Block.Spans c d ns → c.Reaches d
  | _, .braces hopening hbody hclosing =>
    c.reaches_skipBlank.trans (hopening.reaches.trans (hbody.reaches.trans hclosing.reaches))

theorem Arms.Spans.reaches {c d : Cursor} : ∀ {arms : List (Condition × List Node)}
    {otherwise : Option (List Node)}, Arms.Spans c d arms otherwise → c.Reaches d
  | _, _, .one hhead hbody => (reaches_condition hhead).trans hbody.reaches
  | _, _, .otherwise hhead hbody hmark hlast =>
    (reaches_condition hhead).trans (hbody.reaches.trans
      ((Cursor.reaches_elseMark? hmark).trans hlast.reaches))
  | _, _, .more hhead hbody hmark hrest =>
    (reaches_condition hhead).trans (hbody.reaches.trans
      ((Cursor.reaches_elseMark? hmark).trans hrest.reaches))

theorem Cases.Spans.reaches {c d : Cursor} : ∀ {arms : List (Pattern × Option Expr × List Node)},
    Cases.Spans c d arms → c.Reaches d
  | _, .done hskipped hclosing => (Cursor.reaches_skipComments hskipped).trans hclosing.reaches
  | _, .more hskipped hpattern hguard harrow hbody hafter hcomma _ hrest =>
    (Cursor.reaches_skipComments hskipped).trans ((Pattern.ends_of_read hpattern).reaches.trans
      ((Cursor.reaches_skipBlank _).trans ((reaches_guard? hguard).trans (harrow.reaches.trans
        (hbody.reaches.trans ((Cursor.reaches_skipComments hafter).trans
          (hcomma.reaches.trans hrest.reaches)))))))

theorem Args.Spans.reaches {c d : Cursor} : ∀ {args : List (Expr ⊕ List Node)},
    Args.Spans c d args → c.Reaches d
  | _, .done hclosing => c.reaches_skipBlank.trans hclosing.reaches
  | _, .last harg hclosing =>
    c.reaches_skipBlank.trans (harg.reaches.trans
      ((Cursor.reaches_skipBlank _).trans hclosing.reaches))
  | _, .more harg hcomma hrest =>
    c.reaches_skipBlank.trans (harg.reaches.trans
      ((Cursor.reaches_skipBlank _).trans (hcomma.reaches.trans hrest.reaches)))

theorem Arg.Spans.reaches {c d : Cursor} : ∀ {arg : Expr ⊕ List Node},
    Arg.Spans c d arg → c.Reaches d
  | _, .block hbody => hbody.reaches
  | _, .value hread => (ends_of_readExpression hread).reaches

theorem Blocks.Spans.reaches {c d : Cursor} : ∀ {blocks : List (List Node)},
    Blocks.Spans c d blocks → c.Reaches d
  | _, .done c => .refl c
  | _, .more hmark hbody hrest =>
    (Cursor.reaches_blockMark? hmark).trans (hbody.reaches.trans hrest.reaches)

end

end Stencil
