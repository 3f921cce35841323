import Stencil.Proofs.PatternShapes
import Stencil.Proofs.TooDeepPattern

/-!
# How deep expressions and patterns are nested

The reader of patterns counts the brackets that are open. It does so in the text, as parentheses
around a single pattern leave no trace in the tree. The reader of expressions counts parentheses,
the brackets of lists and arguments, and unary operators; it does not count the brackets of indices.

* `Cursor.Nests`: whole tokens between which no more brackets are open than is allowed.
* `Pattern.Read.Counts`: the functions of the reader of patterns count the open brackets.
* `Pattern.nesting`: the number of brackets around the innermost part of a pattern.
* `Expr.enclosing`: the number of brackets and unary operators around the innermost part of an
  expression, those of indices included.
* **`nesting_isBounded`**: what is read is nested no deeper than is allowed, and what is nested
  deeper is refused; brackets of indices are allowed to any depth.
-/

namespace Stencil

open Text Expr Expr.Read

/-! ## Open brackets -/

namespace Expr.Token

/-- A bracket that opens a list of patterns or the fields of a structure. -/
def opensPattern (t : Token) : Bool := t.isOp "(" || t.isOp "\x7b"

/-- A bracket that closes a list of patterns or the fields of a structure. -/
def closesPattern (t : Token) : Bool := t.isOp ")" || t.isOp "\x7d"

variable {t : Token}

theorem not_bracket_of_kind (h : t.kind ≠ .op) :
    t.opensPattern = false ∧ t.closesPattern = false := by
  simp [opensPattern, closesPattern, isOp, h]

theorem not_bracket_of_isOp {o : String} (h : t.isOp o = true)
    (ho : o ∉ ["(", "\x7b", ")", "\x7d"]) :
    t.opensPattern = false ∧ t.closesPattern = false := by
  simp only [List.mem_cons, List.not_mem_nil, or_false, not_or] at ho
  obtain ⟨hparen, hbrace, hparen', hbrace'⟩ := ho
  rw [opensPattern, closesPattern, isOp_of_ne h hparen, isOp_of_ne h hbrace, isOp_of_ne h hparen',
    isOp_of_ne h hbrace']
  exact ⟨rfl, rfl⟩

end Expr.Token

namespace Cursor

/-- **Whole tokens between which at most `maxDepth` brackets are open**: `i` of them before the
tokens and `j` behind them. -/
inductive Nests : Nat → Cursor → Nat → Cursor → Prop
  | nil {i c} : Nests i c i c
  | opening {i j c c'} : (c.peek true).1.opensPattern = true → i < maxDepth →
    Nests (i + 1) (c.peek true).2 j c' → Nests i c j c'
  | closing {i j c c'} : (c.peek true).1.closesPattern = true → Nests i (c.peek true).2 j c' →
    Nests (i + 1) c j c'
  | other {i j c c'} : (c.peek true).1.kind.isSolid = true →
    (c.peek true).1.opensPattern = false ∧ (c.peek true).1.closesPattern = false →
    Nests i (c.peek true).2 j c' → Nests i c j c'

variable {i j k : Nat} {c d e : Cursor} {o : String}

theorem Nests.trans (h : Nests i c j d) (h' : Nests j d k e) : Nests i c k e := by
  induction h with
  | nil => exact h'
  | opening ho hi _ ih => exact .opening ho hi (ih h')
  | closing ho _ ih => exact .closing ho (ih h')
  | other hs ho _ ih => exact .other hs ho (ih h')

/-- No more brackets are open than is allowed. -/
theorem Nests.le (h : Nests i c j d) (hi : i ≤ maxDepth) : j ≤ maxDepth := by
  induction h with
  | nil => exact hi
  | opening _ hlt _ ih => exact ih hlt
  | closing _ _ ih => exact ih (Nat.le_of_succ_le hi)
  | other _ _ _ ih => exact ih hi

theorem nests_open (h : (c.peek true).1.isOp o = true) (ho : o = "(" ∨ o = "\x7b")
    (hi : i < maxDepth) : Nests i c (i + 1) (c.peek true).2 := by
  refine .opening ?_ hi .nil
  rcases ho with rfl | rfl
  · exact Bool.or_eq_true_iff.mpr (.inl h)
  · exact Bool.or_eq_true_iff.mpr (.inr h)

theorem nests_close (h : (c.peek true).1.isOp o = true) (ho : o = ")" ∨ o = "\x7d") :
    Nests (i + 1) c i (c.peek true).2 := by
  refine .closing ?_ .nil
  rcases ho with rfl | rfl
  · exact Bool.or_eq_true_iff.mpr (.inl h)
  · exact Bool.or_eq_true_iff.mpr (.inr h)

theorem nests_op (h : (c.peek true).1.isOp o = true) (ho : o ∉ ["(", "\x7b", ")", "\x7d"]) :
    Nests i c i (c.peek true).2 :=
  .other (Token.isSolid_of_isOp h) (Token.not_bracket_of_isOp h ho) .nil

theorem nests_word (hs : (c.peek true).1.kind.isSolid = true) (hk : (c.peek true).1.kind ≠ .op) :
    Nests i c i (c.peek true).2 :=
  .other hs (Token.not_bracket_of_kind hk) .nil

theorem nests_name (h : (c.peek true).1.kind = .name) : Nests i c i (c.peek true).2 :=
  nests_word (Token.isSolid_of_kind h rfl) (by rw [h]; decide)

end Cursor

/-! ## Patterns -/

namespace Expr.Read

variable {s i : Nat} {c c' : Cursor} {ns : List String}

theorem nests_pathRest (h : pathRest s c = .ok (ns, c')) : Cursor.Nests i c i c' := by
  induction s generalizing c ns with
  | zero => cases h
  | succ s ih =>
    rw [pathRest] at h
    simp only at h
    split at h
    · rename_i hmark
      split at h
      · rename_i hk
        obtain ⟨name, -, h⟩ := Except.bind_ok.mp h
        obtain ⟨⟨parts, c₁⟩, hparts, h⟩ := Except.bind_ok.mp h
        cases h
        have hmarked := Cursor.peek_of_isSolid (Token.isSolid_of_isOp hmark)
        have hnamed := Cursor.peek_of_isSolid (Token.isSolid_of_kind hk rfl)
        have hcolons : Cursor.Nests i c i (c.peek true).2 :=
          Cursor.nests_op (o := "::") (by rw [hmarked]; exact hmark) (by decide)
        have hname : Cursor.Nests i c.token.2 i (c.token.2.peek true).2 :=
          Cursor.nests_name (by rw [hnamed]; exact hk)
        rw [hmarked] at hcolons
        rw [hnamed] at hname
        exact (hcolons.trans hname).trans (ih hparts)
      · cases h
    · cases h
      exact .nil

theorem nests_path (h : path s true c = .ok (ns, c')) : Cursor.Nests i c i c' := by
  rw [path] at h
  simp only at h
  split at h
  · rename_i hk
    obtain ⟨name, -, h⟩ := Except.bind_ok.mp h
    obtain ⟨⟨parts, c₁⟩, hparts, h⟩ := Except.bind_ok.mp h
    cases h
    exact (Cursor.nests_name hk).trans (nests_pathRest hparts)
  · cases h

end Expr.Read

namespace Pattern

namespace Read

/-- **The functions of the reader count the open brackets**: the depth that they are given is their
number, and those that read up to a closing bracket end with one bracket less. -/
structure Counts (s : Nat) : Prop where
  pattern : ∀ {d c p c'}, pattern s d c = .ok (p, c') → Cursor.Nests d c d c'
  alternatives : ∀ {d c ps c'}, alternatives s d c = .ok (ps, c') → Cursor.Nests d c d c'
  single : ∀ {d c p c'}, single s d c = .ok (p, c') → Cursor.Nests d c d c'
  listed : ∀ {d count rest trailing c l c'},
    listed s (d + 1) count rest trailing c = .ok (l, c') → Cursor.Nests (d + 1) c d c'
  listedEnd : ∀ {d count rest c l c'}, listedEnd s (d + 1) count rest c = .ok (l, c') →
    Cursor.Nests (d + 1) c d c'
  fields : ∀ {d c fs o c'}, fields s (d + 1) c = .ok (fs, o, c') → Cursor.Nests (d + 1) c d c'

section Step

variable {s d count position : Nat} {rest : Option Nat} {trailing o : Bool} {c c' : Cursor}
variable {p : Pattern} {ps : List Pattern} {fs : List (String × Pattern)} {l : Listed}
variable {parts : List String} {n : String}

theorem counts_negative (h : negative position c = .ok (p, c')) : Cursor.Nests d c d c' := by
  unfold negative at h
  simp only at h
  split at h
  · rename_i hk
    split at h
    · rename_i v hv
      obtain ⟨v, -, h⟩ := Except.bind_ok.mp h
      cases h
      exact Cursor.nests_word (Token.isSolid_of_ofToken hv) (Token.not_op_of_ofToken hv)
    · cases h
  · cases h

variable (ih : Counts s)
include ih

theorem counts_pattern (h : pattern (s + 1) d c = .ok (p, c')) : Cursor.Nests d c d c' := by
  rw [pattern] at h
  obtain ⟨⟨first, c₁⟩, hfirst, h⟩ := Except.bind_ok.mp h
  obtain ⟨⟨more, c₂⟩, hmore, h⟩ := Except.bind_ok.mp h
  have hboth := (ih.single hfirst).trans (ih.alternatives hmore)
  simp only at h
  split at h <;> (cases h; exact hboth)

theorem counts_alternatives (h : alternatives (s + 1) d c = .ok (ps, c')) :
    Cursor.Nests d c d c' := by
  rw [alternatives] at h
  simp only at h
  split at h
  · rename_i hbar
    obtain ⟨⟨q, c₁⟩, hq, h⟩ := Except.bind_ok.mp h
    obtain ⟨⟨more, c₂⟩, hmore, h⟩ := Except.bind_ok.mp h
    cases h
    exact ((Cursor.nests_op hbar (by decide)).trans (ih.single hq)).trans (ih.alternatives hmore)
  · cases h
    exact .nil

theorem counts_afterPath (h : afterPath s d position parts c = .ok (p, c')) :
    Cursor.Nests d c d c' := by
  unfold afterPath at h
  split at h
  · rename_i hparen
    obtain ⟨d', hd', h⟩ := Except.bind_ok.mp h
    obtain ⟨hlt, rfl⟩ := enter_inv hd'
    obtain ⟨⟨l, c₂⟩, hl, h⟩ := Except.bind_ok.mp h
    cases h
    exact (Cursor.nests_open hparen (.inl rfl) hlt).trans (ih.listed hl)
  · split at h
    · rename_i hbrace
      obtain ⟨d', hd', h⟩ := Except.bind_ok.mp h
      obtain ⟨hlt, rfl⟩ := enter_inv hd'
      obtain ⟨⟨fs, o, c₂⟩, hfs, h⟩ := Except.bind_ok.mp h
      cases h
      exact (Cursor.nests_open hbrace (.inr rfl) hlt).trans (ih.fields hfs)
    · cases h
      exact .nil

theorem counts_single (h : single (s + 1) d c = .ok (p, c')) : Cursor.Nests d c d c' := by
  rw [single] at h
  simp only at h
  split at h
  · rename_i hword
    rw [Bool.and_eq_true, decide_eq_true_eq] at hword
    cases h
    exact Cursor.nests_name hword.1
  · split at h
    · rename_i hminus
      exact (Cursor.nests_op hminus (by decide)).trans (counts_negative h)
    · split at h
      · rename_i v hv
        obtain ⟨w, -, h⟩ := Except.bind_ok.mp h
        cases h
        exact Cursor.nests_word (Token.isSolid_of_ofToken hv) (Token.not_op_of_ofToken hv)
      · split at h
        · rename_i hparen
          obtain ⟨d', hd', h⟩ := Except.bind_ok.mp h
          obtain ⟨hlt, rfl⟩ := enter_inv hd'
          obtain ⟨⟨l, c₁⟩, hl, h⟩ := Except.bind_ok.mp h
          cases h
          exact (Cursor.nests_open hparen (.inl rfl) hlt).trans (ih.listed hl)
        · split at h
          · obtain ⟨⟨parts, c₁⟩, hparts, h⟩ := Except.bind_ok.mp h
            exact (nests_path hparts).trans (counts_afterPath ih h)
          · cases h

theorem counts_listed (h : listed (s + 1) (d + 1) count rest trailing c = .ok (l, c')) :
    Cursor.Nests (d + 1) c d c' := by
  rw [listed] at h
  simp only at h
  split at h
  · rename_i hclose
    cases h
    exact Cursor.nests_close hclose (.inl rfl)
  · split at h
    · rename_i hdots
      split at h
      · cases h
      · exact (Cursor.nests_op hdots (by decide)).trans (ih.listedEnd h)
    · obtain ⟨⟨q, c₁⟩, hq, h⟩ := Except.bind_ok.mp h
      obtain ⟨⟨m, c₂⟩, hm, h⟩ := Except.bind_ok.mp h
      cases h
      exact (ih.pattern hq).trans (ih.listedEnd hm)

theorem counts_listedEnd (h : listedEnd (s + 1) (d + 1) count rest c = .ok (l, c')) :
    Cursor.Nests (d + 1) c d c' := by
  rw [listedEnd] at h
  simp only at h
  split at h
  · rename_i hcomma
    exact (Cursor.nests_op hcomma (by decide)).trans (ih.listed h)
  · split at h
    · rename_i hclose
      cases h
      exact Cursor.nests_close hclose (.inl rfl)
    · cases h

theorem counts_fieldEnd (h : fieldEnd s (d + 1) n p c = .ok (fs, o, c')) :
    Cursor.Nests (d + 1) c d c' := by
  unfold fieldEnd at h
  split at h
  · rename_i hcomma
    obtain ⟨⟨more, o', c₁⟩, hmore, h⟩ := Except.bind_ok.mp h
    cases h
    exact (Cursor.nests_op hcomma (by decide)).trans (ih.fields hmore)
  · split at h
    · rename_i hclose
      cases h
      exact Cursor.nests_close hclose (.inr rfl)
    · cases h

theorem counts_fields (h : fields (s + 1) (d + 1) c = .ok (fs, o, c')) :
    Cursor.Nests (d + 1) c d c' := by
  rw [fields] at h
  simp only at h
  split at h
  · rename_i hclose
    cases h
    exact Cursor.nests_close hclose (.inr rfl)
  · split at h
    · rename_i hdots
      split at h
      · rename_i hclose
        cases h
        exact (Cursor.nests_op hdots (by decide)).trans (Cursor.nests_close hclose (.inr rfl))
      · cases h
    · split at h
      · rename_i hk
        obtain ⟨n, -, h⟩ := Except.bind_ok.mp h
        have hname : Cursor.Nests (d + 1) c (d + 1) (c.peek true).2 := Cursor.nests_name hk
        split at h
        · rename_i hcolon
          obtain ⟨⟨q, c₁⟩, hq, h⟩ := Except.bind_ok.mp h
          have hfield := (Cursor.nests_op hcolon (by decide)).trans (ih.pattern hq)
          exact (hname.trans hfield).trans (counts_fieldEnd ih h)
        · exact hname.trans
            (counts_fieldEnd (p := .binding (c.peek true).1.position n) ih h)
      · cases h

end Step

/-- **The reader counts the open brackets**, in any number of steps. -/
theorem counts : ∀ s, Counts s
  | 0 => by constructor <;> intros <;> contradiction
  | s + 1 => by
    have ih := counts s
    exact ⟨counts_pattern ih, counts_alternatives ih, counts_single ih, counts_listed ih,
      counts_listedEnd ih, counts_fields ih⟩

end Read

mutual

/-- **The brackets around the innermost part** of a pattern. -/
def nesting : Pattern → Nat
  | wildcard _ | binding _ _ | literal _ _ | value _ _ => 0
  | tuple _ is _ => nestingAll is + 1
  | variant _ _ is => nestingAll is + 1
  | struct _ _ fs _ => nestingFields fs + 1
  | or _ as => nestingAll as

/-- The deepest nesting in a list of patterns. -/
def nestingAll : List Pattern → Nat
  | [] => 0
  | p :: ps => max p.nesting (nestingAll ps)

/-- The deepest nesting in fields. -/
def nestingFields : List (String × Pattern) → Nat
  | [] => 0
  | (_, p) :: fs => max p.nesting (nestingFields fs)

end

mutual

theorem Shaped.nesting_le : ∀ {p : Pattern} {d : Nat}, p.Shaped d → d ≤ maxDepth →
    d + p.nesting ≤ maxDepth
  | wildcard _, _, _, hd | binding _ _, _, _, hd | literal _ _, _, _, hd | value _ _, _, _, hd => by
    rwa [nesting]
  | tuple _ is _, d, h, _ => by
    have := nestingAll_le h.2.1 h.1
    rw [nesting]
    omega
  | variant _ _ is, d, h, _ => by
    have := nestingAll_le h.2.2 h.2.1
    rw [nesting]
    omega
  | struct _ _ fs _, d, h, _ => by
    have := nestingFields_le h.2.2 h.2.1
    rw [nesting]
    omega
  | or _ as, _, h, hd => by
    rw [nesting]
    exact nestingAlternatives_le h.2 hd

theorem nestingAll_le : ∀ {ps : List Pattern} {d : Nat}, ShapedAll d ps → d ≤ maxDepth →
    d + nestingAll ps ≤ maxDepth
  | [], _, _, hd => by rwa [nestingAll]
  | p :: ps, _, h, hd => by
    have hp := h.1.nesting_le hd
    have hps := nestingAll_le h.2 hd
    rw [nestingAll]
    omega

theorem nestingFields_le : ∀ {fs : List (String × Pattern)} {d : Nat}, ShapedFields d fs →
    d ≤ maxDepth → d + nestingFields fs ≤ maxDepth
  | [], _, _, hd => by rwa [nestingFields]
  | (n, p) :: fs, d, h, hd => by
    have hfs := nestingFields_le h.2.2 hd
    have hp : d + p.nesting ≤ maxDepth := by
      rcases h.2.1 with hb | hp
      · cases p with
        | binding => rwa [nesting]
        | _ => cases hb
      · exact hp.nesting_le hd
    rw [nestingFields]
    omega

theorem nestingAlternatives_le : ∀ {ps : List Pattern} {d : Nat}, ShapedAlternatives d ps →
    d ≤ maxDepth → d + nestingAll ps ≤ maxDepth
  | [], _, _, hd => by rwa [nestingAll]
  | p :: ps, d, h, hd => by
    have hps := nestingAlternatives_le h.2 hd
    have hp : d + p.nesting ≤ maxDepth := by
      have hs := h.1
      split at hs
      · exact hs.2.of_deeper.nesting_le hd
      · exact hs.nesting_le hd
    rw [nestingAll]
    omega

end

end Pattern

/-! ## Indices -/

namespace Expr

mutual

/-- **The brackets and unary operators around the innermost part**, the brackets of indices
included. -/
def enclosing : Expr → Nat
  | literal _ _ | name _ _ | path _ _ => 0
  | field _ v _ => v.enclosing
  | method _ r _ as => max r.enclosing (enclosingAll as + 1)
  | call _ f as => max f.enclosing (enclosingAll as + 1)
  | index _ v i => max v.enclosing (i.enclosing + 1)
  | tuple _ is => enclosingAll is + 1
  | list _ is => enclosingAll is + 1
  | range _ s e _ => max s.enclosing e.enclosing
  | unary _ _ e => e.enclosing + 1
  | binary _ _ l r => max l.enclosing r.enclosing
  | group _ e => e.enclosing + 1

/-- The deepest part of a list. -/
def enclosingAll : List Expr → Nat
  | [] => 0
  | e :: es => max e.enclosing (enclosingAll es)

end

mutual

theorem enclosing_unplaced : ∀ e : Expr, e.unplaced.enclosing = e.enclosing
  | literal _ _ | name _ _ | path _ _ => rfl
  | field _ v _ => by rw [unplaced, enclosing, enclosing, v.enclosing_unplaced]
  | method _ r _ as => by
    rw [unplaced, enclosing, enclosing, r.enclosing_unplaced, enclosingAll_unplaced as]
  | call _ f as => by
    rw [unplaced, enclosing, enclosing, f.enclosing_unplaced, enclosingAll_unplaced as]
  | index _ v i => by
    rw [unplaced, enclosing, enclosing, v.enclosing_unplaced, i.enclosing_unplaced]
  | tuple _ is => by rw [unplaced, enclosing, enclosing, enclosingAll_unplaced is]
  | list _ is => by rw [unplaced, enclosing, enclosing, enclosingAll_unplaced is]
  | range _ s e _ => by
    rw [unplaced, enclosing, enclosing, s.enclosing_unplaced, e.enclosing_unplaced]
  | unary _ _ e => by rw [unplaced, enclosing, enclosing, e.enclosing_unplaced]
  | binary _ _ l r => by
    rw [unplaced, enclosing, enclosing, l.enclosing_unplaced, r.enclosing_unplaced]
  | group _ e => by rw [unplaced, enclosing, enclosing, e.enclosing_unplaced]

theorem enclosingAll_unplaced : ∀ es : List Expr,
    enclosingAll (unplacedAll es) = enclosingAll es
  | [] => rfl
  | e :: es => by
    rw [unplacedAll, enclosingAll, enclosingAll, e.enclosing_unplaced, enclosingAll_unplaced es]

end

/-- Indices of indices. -/
def indexed : Nat → Expr
  | 0 => .name 0 "a"
  | k + 1 => .index 0 (.name 0 "a") (indexed k)

theorem enclosing_indexed (k : Nat) : (indexed k).enclosing = k := by
  induction k with
  | zero => rfl
  | succ k ih => rw [indexed, enclosing, ih, enclosing, Nat.zero_max]

theorem printable_indexed (k d : Nat) : (indexed k).Printable d := by
  have ha : IsName "a" := by decide +kernel
  induction k with
  | zero => exact ha
  | succ k ih => exact ⟨ha, Nat.le_refl _, ih⟩

/-- **Indices are read to any depth.** -/
theorem exists_parse_indexed (k : Nat) :
    ∃ e, parse (indexed k).print = .ok e ∧ e.enclosing = k := by
  obtain ⟨e, h, hu⟩ := exists_parse_print (printable_indexed k 0)
  exact ⟨e, h, by rw [← enclosing_unplaced, hu, enclosing_unplaced, enclosing_indexed]⟩

end Expr

/-! ## The bound -/

/-- **Nesting is bounded, but for indices.** Of an expression or a chain that is read, and of a
pattern, no part stands in more parentheses, brackets, argument lists and unary operators than is
allowed; in the text of a pattern no more brackets are open anywhere, those included that leave no
trace in the tree. The text of an expression or a pattern that is nested deeper is refused as too
deep. The brackets of indices do not count: expressions are read in which any number of them stands
around a part. -/
theorem nesting_isBounded (text : List Char) (c c' : Cursor) (e : Expr) (p : Pattern) (k : Nat) :
    (readExpression c = .ok (e, c') ∨ readChain c = .ok (e, c') → e.nesting ≤ maxDepth) ∧
    (parse text = .ok e → e.nesting ≤ maxDepth) ∧
    (Pattern.read c = .ok (p, c') → p.nesting ≤ maxDepth ∧ Cursor.Nests 0 c 0 c') ∧
    (e.Levelled → (∀ v ∈ e.literals, v.Plain) → maxDepth < e.nesting →
      TooDeep (parse e.print)) ∧
    (p.Formed → maxDepth < p.brackets → TooDeep (Pattern.read (.ofText p.text 0))) ∧
    ∃ e, parse (indexed k).print = .ok e ∧ e.enclosing = k := by
  refine ⟨fun h => ?_, fun h => ?_, fun h => ?_, parse_tooDeep, Pattern.read_tooDeep,
    exists_parse_indexed k⟩
  · rcases h with h | h
    · exact Nat.zero_add e.nesting ▸ (fits_of_readExpression h).nesting_le
    · exact Nat.zero_add e.nesting ▸ (fits_of_readChain h).nesting_le
  · exact Nat.zero_add e.nesting ▸ (fits_of_parse h).nesting_le
  · have hshape := (Pattern.shaped_of_read h).nesting_le (Nat.zero_le _)
    exact ⟨Nat.zero_add p.nesting ▸ hshape, (Pattern.Read.counts _).pattern h⟩

/-- A name in parentheses of the given number. -/
def Expr.grouped : Nat → Expr
  | 0 => .name 0 "a"
  | k + 1 => .group 0 (grouped k)

/-- A name as the only item of tuples of the given number. -/
def Pattern.tupled : Nat → Pattern
  | 0 => .binding 0 "a"
  | k + 1 => .tuple 0 [tupled k] none

theorem nesting_isBounded_grouped :
    (∃ e c, readExpression (.ofText "((a))".toList 0) = .ok (e, c) ∧ e.nesting ≤ maxDepth) ∧
    (∃ e, parse "((a))".toList = .ok e ∧ e.nesting ≤ maxDepth) ∧
    (∃ p c, Pattern.read (.ofText "((a),)".toList 0) = .ok (p, c) ∧ p.nesting ≤ maxDepth) ∧
    TooDeep (parse (grouped 33).print) ∧
    TooDeep (Pattern.read (.ofText (Pattern.tupled 33).text 0)) ∧
    ∃ e, parse (indexed 33).print = .ok e ∧ e.enclosing = 33 := by
  have ha : IsName "a" := by decide +kernel
  have hgrouped : ∀ k, (grouped k).Levelled ∧ (grouped k).literals = [] ∧
      (grouped k).nesting = k := by
    intro k
    induction k with
    | zero => exact ⟨ha, rfl, rfl⟩
    | succ k ih =>
      refine ⟨ih.1, ?_, ?_⟩
      · rw [grouped, literals, ih.2.1]
      · rw [grouped, nesting, ih.2.2]
  have htupled : ∀ k, (Pattern.tupled k).Formed ∧ (Pattern.tupled k).brackets = k ∧
      (Pattern.tupled k).isOr = false := by
    intro k
    induction k with
    | zero => exact ⟨.binding ha (by decide), rfl, rfl⟩
    | succ k ih =>
      refine ⟨.tuple (List.forall_mem_singleton.mpr ih.1) (by simp), ?_, rfl⟩
      rw [Pattern.tupled, Pattern.brackets, Pattern.partBrackets, Pattern.partBrackets, ih.2.1,
        ih.2.2]
      simp
  obtain ⟨hl, hp, hn⟩ := hgrouped 33
  obtain ⟨hf, hb, -⟩ := htupled 33
  have hexpression : ∃ e c, readExpression (.ofText "((a))".toList 0) = .ok (e, c) :=
    ⟨.group 0 (.group 1 (.name 2 "a")), ⟨5, []⟩, by rfl⟩
  have hwhole : ∃ e, parse "((a))".toList = .ok e := ⟨.group 0 (.group 1 (.name 2 "a")), by rfl⟩
  have hparts : ∃ p c, Pattern.read (.ofText "((a),)".toList 0) = .ok (p, c) :=
    ⟨.tuple 0 [.binding 2 "a"] none, ⟨6, []⟩, by rfl⟩
  obtain ⟨e, c, he⟩ := hexpression
  obtain ⟨e₁, he₁⟩ := hwhole
  obtain ⟨p, c₁, hp'⟩ := hparts
  obtain ⟨hread, -, -, -, -, hindexed⟩ := nesting_isBounded [] _ c e p 33
  obtain ⟨-, hparse, -, -, -, -⟩ := nesting_isBounded _ c c e₁ p 33
  obtain ⟨-, -, hpattern, -, -, -⟩ := nesting_isBounded [] _ c₁ e p 33
  obtain ⟨-, -, -, hdeep, hdeep', -⟩ :=
    nesting_isBounded [] c c (grouped 33) (Pattern.tupled 33) 33
  exact ⟨⟨e, c, he, hread (.inl he)⟩, ⟨e₁, he₁, hparse he₁⟩, ⟨p, c₁, hp', (hpattern hp').1⟩,
    hdeep hl (by rw [hp]; simp) (by rw [hn]; decide), hdeep' hf (by rw [hb]; decide), hindexed⟩

/-- **Indices around indices, more than is allowed**, are read. -/
theorem indexed_not_tooDeep :
    ∃ e, parse (indexed 33).print = .ok e ∧ maxDepth < e.enclosing := by
  obtain ⟨e, h, he⟩ := exists_parse_indexed 33
  exact ⟨e, h, by rw [he]; decide⟩

end Stencil
