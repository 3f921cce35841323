import Stencil.Proofs.PrintedExpr
import Stencil.Proofs.Result

/-!
# What the reader of expressions returns

Whatever text is read, the operators of the tree that comes out group as their levels say, its names
are names, and it is nested no deeper than is allowed. The proof is by induction on the steps of the
reader; all its functions are treated together.

* `Expr.OfToken`: literals that tokens stand for.
* `Expr.Fits`: what is known of an expression that is returned at some place.
* `Expr.Read.Sound`: it is known of all that the functions of the reader return.
* **`Expr.fits_of_readExpression`**, **`Expr.fits_of_readChain`**: what is returned is levelled.
-/

namespace Stencil

open Text Expr

namespace Expr

/-! ## Names and literals -/

/-- A name is all that is taken of it again. -/
theorem name?_again {cs w r : List Char} (h : name? cs = some (w, r)) : name? w = some (w, []) := by
  cases cs with
  | nil => cases h
  | cons c cs =>
    rw [name?] at h
    split at h
    · rename_i hc
      cases h
      have hrun : ∀ d ∈ cs.takeWhile isWord, isWord d = true :=
        fun d hd => List.all_eq_true.mp List.all_takeWhile d hd
      obtain ⟨ht, hd⟩ := takeWhile_run hrun
        (fun d (hd : ([] : List Char).head? = some d) => by cases hd)
      rw [List.append_nil] at ht hd
      rw [name?, if_pos hc, ht, hd]
    · cases h

/-- **A name token that is not reserved is a name.** -/
theorem isName_of_checkName {c : Cursor} {n : String} (hk : c.token.1.kind = .name)
    (h : Read.checkName c.token.1 = .ok n) : IsName n := by
  obtain ⟨hname, hword⟩ := name?_of_scan hk
  unfold Read.checkName at h
  split at h
  · cases h
  · rename_i hr
    cases h
    refine ⟨?_, ?_, by simpa using hr⟩
    · rw [Token.value, String.toList_ofList]
      exact name?_again hname
    · unfold wordKind at hword
      split at hword
      · cases hword
      · rename_i hc
        exact Bool.not_eq_true _ ▸ hc

theorem isName_of_peek {c : Cursor} {spaced : Bool} {n : String}
    (hk : (c.peek spaced).1.kind = .name) (h : Read.checkName (c.peek spaced).1 = .ok n) :
    IsName n := by
  cases spaced with
  | true => exact isName_of_checkName (c := c.skipBlank) hk h
  | false => exact isName_of_checkName hk h

/-- A literal that a token stands for. -/
def OfToken (v : Literal) : Prop := ∃ t, Literal.ofToken t = some (.ok v)

/-- A literal token has no sign. -/
theorem unsigned_of_ofToken {t : Token} {v : Literal} (h : Literal.ofToken t = some (.ok v)) :
    v.Unsigned := by
  unfold Literal.ofToken at h
  split at h
  · cases hi : Literal.ofInt t.text with
    | error x =>
      rw [hi] at h
      cases h
    | ok n =>
      rw [hi] at h
      cases h
      exact Int.natCast_nonneg n
  · cases h
    trivial
  · cases hs : Literal.ofString t.position t.text with
    | error x =>
      rw [hs] at h
      cases h
    | ok ps =>
      rw [hs] at h
      cases h
      trivial
  · split at h
    · cases h
      trivial
    · split at h
      · cases h
        trivial
      · split at h <;> cases h
        trivial
  · cases h

theorem isName_of_pathRest {s : Nat} {c c' : Cursor} {ns : List String}
    (h : Read.pathRest s c = .ok (ns, c')) : ∀ n ∈ ns, IsName n := by
  induction s generalizing c ns with
  | zero => cases h
  | succ s ih =>
    rw [Read.pathRest] at h
    simp only at h
    split at h
    · split at h
      · rename_i hk
        obtain ⟨name, hname, h⟩ := Except.bind_ok.mp h
        obtain ⟨⟨parts, c₁⟩, hparts, h⟩ := Except.bind_ok.mp h
        cases h
        intro n hn
        rcases List.mem_cons.mp hn with rfl | hn
        · exact isName_of_checkName hk hname
        · exact ih hparts n hn
      · cases h
    · cases h
      intro n hn
      cases hn

/-- **The parts of a path are names**; the first one is the token that is read first. -/
theorem isName_of_path {s : Nat} {spaced : Bool} {c c' : Cursor} {ps : List String}
    (h : Read.path s spaced c = .ok (ps, c')) :
    (∃ ns, ps = (c.peek spaced).1.value :: ns) ∧ ∀ n ∈ ps, IsName n := by
  rw [Read.path] at h
  simp only at h
  split at h
  · rename_i hk
    obtain ⟨name, hname, h⟩ := Except.bind_ok.mp h
    obtain ⟨⟨parts, c₁⟩, hparts, h⟩ := Except.bind_ok.mp h
    cases h
    have hn := isName_of_peek hk hname
    unfold Read.checkName at hname
    split at hname
    · cases hname
    · cases hname
      refine ⟨⟨parts, rfl⟩, fun n hmem => ?_⟩
      rcases List.mem_cons.mp hmem with rfl | hmem
      · exact hn
      · exact isName_of_pathRest hparts n hmem
  · cases h

/-- **What is known of an expression that is returned** below the given number of brackets: it is
levelled, as tight as its place asks for, and not nested too deeply, and tokens stand for its
literals. -/
structure Fits (d rank : Nat) (e : Expr) : Prop where
  levelled : e.Levelled
  rank_le : rank ≤ e.rank
  nesting_le : d + e.nesting ≤ Read.maxDepth
  literals : ∀ v ∈ e.literals, OfToken v

/-- All expressions of a list fit. -/
structure FitsAll (d : Nat) (es : List Expr) : Prop where
  levelled : LevelledAll es
  nesting_le : d + nestingAll es ≤ Read.maxDepth
  literals : ∀ v ∈ literalsAll es, OfToken v

theorem Fits.mono {d rank rank' : Nat} {e : Expr} (h : Fits d rank' e) (hle : rank ≤ rank') :
    Fits d rank e :=
  { h with rank_le := Nat.le_trans hle h.rank_le }

theorem FitsAll.nil {d : Nat} (hd : d ≤ Read.maxDepth) : FitsAll d [] :=
  ⟨trivial, hd, List.forall_mem_nil _⟩

theorem FitsAll.cons {d rank : Nat} {e : Expr} {es : List Expr} (h : Fits d rank e)
    (hs : FitsAll d es) : FitsAll d (e :: es) := by
  have hn := h.nesting_le
  have hns := hs.nesting_le
  refine ⟨⟨h.levelled, hs.levelled⟩, ?_, List.forall_mem_append.mpr ⟨h.literals, hs.literals⟩⟩
  rw [nestingAll]
  omega

section Nodes

variable {d level position : Nat} {e l r i : Expr} {es : List Expr} {n : String} {o : BinaryOp}

theorem fits_ofPath {ps : List String} (hd : d ≤ Read.maxDepth) (hne : ps ≠ [])
    (h : ∀ n ∈ ps, IsName n) :
    Fits d 7 (Read.ofPath position ps) ∧ (Read.ofPath position ps).isField = false := by
  match ps, hne with
  | [n], _ => exact ⟨⟨h n List.mem_cons_self, Nat.le_refl _, hd, List.forall_mem_nil _⟩, rfl⟩
  | n :: m :: ns, _ => exact ⟨⟨⟨by simp, h⟩, Nat.le_refl _, hd, List.forall_mem_nil _⟩, rfl⟩

theorem Fits.range {b : Bool} (hl : Fits d 1 l) (hr : Fits d 1 r) :
    Fits d 0 (.range position l r b) := by
  have hln := hl.nesting_le
  have hrn := hr.nesting_le
  refine ⟨⟨hl.levelled, hl.rank_le, hr.levelled, hr.rank_le⟩, Nat.zero_le _, ?_,
    List.forall_mem_append.mpr ⟨hl.literals, hr.literals⟩⟩
  rw [nesting]
  omega

theorem Fits.binary (hl : Fits d (o.level + 1) l) (hr : Fits d (o.level + 2) r) :
    Fits d (o.level + 1) (.binary position o l r) := by
  have hln := hl.nesting_le
  have hrn := hr.nesting_le
  refine ⟨⟨hl.levelled, hl.rank_le, hr.levelled, hr.rank_le⟩, Nat.le_refl _, ?_,
    List.forall_mem_append.mpr ⟨hl.literals, hr.literals⟩⟩
  rw [nesting]
  omega

theorem Fits.unary {o : UnaryOp} (h : Fits (d + 1) 6 e) : Fits d 6 (.unary position o e) := by
  have hn := h.nesting_le
  refine ⟨⟨h.levelled, h.rank_le⟩, Nat.le_refl _, ?_, h.literals⟩
  rw [nesting]
  omega

theorem Fits.group (h : Fits (d + 1) 0 e) : Fits d 7 (.group position e) := by
  have hn := h.nesting_le
  refine ⟨h.levelled, Nat.le_refl _, ?_, h.literals⟩
  rw [nesting]
  omega

theorem FitsAll.tuple (h : FitsAll (d + 1) es) : Fits d 7 (.tuple position es) := by
  have hn := h.nesting_le
  refine ⟨h.levelled, Nat.le_refl _, ?_, h.literals⟩
  rw [nesting]
  omega

theorem FitsAll.list (h : FitsAll (d + 1) es) : Fits d 7 (.list position es) := by
  have hn := h.nesting_le
  refine ⟨h.levelled, Nat.le_refl _, ?_, h.literals⟩
  rw [nesting]
  omega

theorem Fits.field (h : Fits d 7 e) (hn : IsName n) : Fits d 7 (.field position e n) :=
  ⟨⟨h.levelled, h.rank_le, hn⟩, Nat.le_refl _, h.nesting_le, h.literals⟩

theorem Fits.method (h : Fits d 7 e) (hn : IsName n) (hs : FitsAll (d + 1) es) :
    Fits d 7 (.method position e n es) := by
  have hen := h.nesting_le
  have hsn := hs.nesting_le
  refine ⟨⟨h.levelled, h.rank_le, hn, hs.levelled⟩, Nat.le_refl _, ?_,
    List.forall_mem_append.mpr ⟨h.literals, hs.literals⟩⟩
  rw [nesting]
  omega

theorem Fits.call (h : Fits d 7 e) (hf : e.isField = false) (hs : FitsAll (d + 1) es) :
    Fits d 7 (.call position e es) := by
  have hen := h.nesting_le
  have hsn := hs.nesting_le
  refine ⟨⟨h.levelled, h.rank_le, hf, hs.levelled⟩, Nat.le_refl _, ?_,
    List.forall_mem_append.mpr ⟨h.literals, hs.literals⟩⟩
  rw [nesting]
  omega

theorem Fits.index (h : Fits d 7 e) (hi : Fits d 0 i) : Fits d 7 (.index position e i) := by
  have hen := h.nesting_le
  have hin := hi.nesting_le
  refine ⟨⟨h.levelled, h.rank_le, hi.levelled⟩, Nat.le_refl _, ?_,
    List.forall_mem_append.mpr ⟨h.literals, hi.literals⟩⟩
  rw [nesting]
  omega

end Nodes

namespace Read

/-- **What the functions of the reader return in a number of steps fits** where it is returned. -/
structure Sound (s : Nat) : Prop where
  expression : ∀ {spaced d c e c'}, d ≤ maxDepth →
    expression s spaced d c = .ok (e, c') → Fits d 0 e
  binary : ∀ {spaced d level c e c'}, d ≤ maxDepth → level ≤ BinaryOp.levels →
    binary s spaced d level c = .ok (e, c') → Fits d (level + 1) e
  binaryRest : ∀ {spaced d level left c e c'}, d ≤ maxDepth → level < BinaryOp.levels →
    Fits d (level + 1) left → binaryRest s spaced d level left c = .ok (e, c') →
    Fits d (level + 1) e
  unary : ∀ {spaced d c e c'}, d ≤ maxDepth → unary s spaced d c = .ok (e, c') → Fits d 6 e
  postfixed : ∀ {spaced d c e c'}, d ≤ maxDepth →
    postfixed s spaced d c = .ok (e, c') → Fits d 7 e
  links : ∀ {spaced d base c e c'}, d ≤ maxDepth → Fits d 7 base →
    (base.isField = true → (c.peek spaced).1.isOp "(" = false) →
    links s spaced d base c = .ok (e, c') → Fits d 7 e
  primary : ∀ {spaced d c e c'}, d ≤ maxDepth → primary s spaced d c = .ok (e, c') →
    Fits d 7 e ∧ e.isField = false
  parenthesized : ∀ {d position c e c'}, d < maxDepth →
    parenthesized s (d + 1) position c = .ok (e, c') → Fits d 7 e ∧ e.isField = false
  tupleRest : ∀ {d c es c'}, d ≤ maxDepth → tupleRest s d c = .ok (es, c') → FitsAll d es
  items : ∀ {spaced d closing c es c'}, items s spaced d closing c = .ok (es, c') →
    d < maxDepth ∧ FitsAll (d + 1) es
  itemsRest : ∀ {d closing c es c'}, d ≤ maxDepth →
    itemsRest s d closing c = .ok (es, c') → FitsAll d es

section Step

variable {s d level position : Nat} {spaced : Bool} {closing : Char} {c c' : Cursor}
variable {e left base : Expr} {es : List Expr}

theorem enter_inv {t : Token} {d' : Nat} (h : enter d t = .ok d') : d < maxDepth ∧ d' = d + 1 := by
  unfold enter at h
  split at h
  · cases h
    exact ⟨‹_›, rfl⟩
  · cases h

theorem fits_expression (ih : Sound s) (hd : d ≤ maxDepth)
    (h : expression (s + 1) spaced d c = .ok (e, c')) : Fits d 0 e := by
  rw [expression] at h
  obtain ⟨⟨start, c₁⟩, hstart, h⟩ := Except.bind_ok.mp h
  have hs := ih.binary hd (Nat.zero_le _) hstart
  simp only at h
  split at h
  · obtain ⟨⟨stop, c₂⟩, hstop, h⟩ := Except.bind_ok.mp h
    have he := ih.binary hd (Nat.zero_le _) hstop
    cases h
    exact hs.range he
  · cases h
    exact hs.mono (Nat.zero_le _)

theorem fits_binary (ih : Sound s) (hd : d ≤ maxDepth) (hl : level ≤ BinaryOp.levels)
    (h : binary (s + 1) spaced d level c = .ok (e, c')) : Fits d (level + 1) e := by
  rw [binary] at h
  split at h
  · rename_i hlt
    obtain ⟨⟨left, c₁⟩, hleft, h⟩ := Except.bind_ok.mp h
    exact ih.binaryRest hd hlt ((ih.binary hd hlt hleft).mono (Nat.le_succ _)) h
  · rename_i hlt
    obtain rfl : level = BinaryOp.levels := by omega
    exact ih.unary hd h

theorem fits_binaryRest (ih : Sound s) (hd : d ≤ maxDepth) (hl : level < BinaryOp.levels)
    (hleft : Fits d (level + 1) left)
    (h : binaryRest (s + 1) spaced d level left c = .ok (e, c')) : Fits d (level + 1) e := by
  rw [binaryRest] at h
  simp only at h
  split at h
  · cases h
    exact hleft
  · rename_i op hop
    obtain ⟨⟨right, c₁⟩, hright, h⟩ := Except.bind_ok.mp h
    have hr := ih.binary hd hl hright
    obtain ⟨-, hlevel⟩ := Option.filter_eq_some_iff.mp hop
    obtain rfl : op.level = level := by simpa using hlevel
    exact ih.binaryRest hd hl (hleft.binary hr) h

theorem fits_unary (ih : Sound s) (hd : d ≤ maxDepth)
    (h : unary (s + 1) spaced d c = .ok (e, c')) : Fits d 6 e := by
  rw [unary] at h
  simp only at h
  split at h
  · obtain ⟨d', hd', h⟩ := Except.bind_ok.mp h
    obtain ⟨hlt, rfl⟩ := enter_inv hd'
    obtain ⟨⟨operand, c₁⟩, hoperand, h⟩ := Except.bind_ok.mp h
    cases h
    exact (ih.unary hlt hoperand).unary
  · exact (ih.postfixed hd h).mono (Nat.le_succ _)

theorem fits_postfixed (ih : Sound s) (hd : d ≤ maxDepth)
    (h : postfixed (s + 1) spaced d c = .ok (e, c')) : Fits d 7 e := by
  rw [postfixed] at h
  obtain ⟨⟨base, c₁⟩, hbase, h⟩ := Except.bind_ok.mp h
  obtain ⟨hb, hf⟩ := ih.primary hd hbase
  exact ih.links hd hb (fun ht => absurd ht (by rw [hf]; decide)) h

theorem fits_items (ih : Sound s) (h : items (s + 1) spaced d closing c = .ok (es, c')) :
    d < maxDepth ∧ FitsAll (d + 1) es := by
  rw [items] at h
  simp only at h
  obtain ⟨d', hd', h⟩ := Except.bind_ok.mp h
  obtain ⟨hlt, rfl⟩ := enter_inv hd'
  exact ⟨hlt, ih.itemsRest hlt h⟩

theorem fits_itemsRest (ih : Sound s) (hd : d ≤ maxDepth)
    (h : itemsRest (s + 1) d closing c = .ok (es, c')) : FitsAll d es := by
  rw [itemsRest] at h
  simp only at h
  split at h
  · cases h
    exact .nil hd
  · obtain ⟨⟨item, c₁⟩, hitem, h⟩ := Except.bind_ok.mp h
    have hi := ih.expression hd hitem
    simp only at h
    split at h
    · obtain ⟨⟨more, c₂⟩, hmore, h⟩ := Except.bind_ok.mp h
      cases h
      exact .cons hi (ih.itemsRest hd hmore)
    · split at h
      · cases h
        exact .cons hi (.nil hd)
      · cases h

theorem fits_tupleRest (ih : Sound s) (hd : d ≤ maxDepth)
    (h : tupleRest (s + 1) d c = .ok (es, c')) : FitsAll d es := by
  rw [tupleRest] at h
  simp only at h
  split at h
  · split at h
    · cases h
      exact .nil hd
    · obtain ⟨⟨item, c₁⟩, hitem, h⟩ := Except.bind_ok.mp h
      obtain ⟨⟨more, c₂⟩, hmore, h⟩ := Except.bind_ok.mp h
      cases h
      exact .cons (ih.expression hd hitem) (ih.tupleRest hd hmore)
  · split at h
    · cases h
      exact .nil hd
    · cases h

theorem fits_parenthesized (ih : Sound s) (hd : d < maxDepth)
    (h : parenthesized (s + 1) (d + 1) position c = .ok (e, c')) :
    Fits d 7 e ∧ e.isField = false := by
  rw [parenthesized] at h
  simp only at h
  split at h
  · cases h
    exact ⟨(FitsAll.nil hd).tuple, rfl⟩
  · obtain ⟨⟨first, c₁⟩, hfirst, h⟩ := Except.bind_ok.mp h
    have hf := ih.expression hd hfirst
    simp only at h
    split at h
    · obtain ⟨⟨more, c₂⟩, hmore, h⟩ := Except.bind_ok.mp h
      cases h
      exact ⟨(FitsAll.cons hf (ih.tupleRest hd hmore)).tuple, rfl⟩
    · split at h
      · cases h
        exact ⟨hf.group, rfl⟩
      · cases h

theorem fits_links (ih : Sound s) (hd : d ≤ maxDepth) (hb : Fits d 7 base)
    (hcall : base.isField = true → (c.peek spaced).1.isOp "(" = false)
    (h : links (s + 1) spaced d base c = .ok (e, c')) : Fits d 7 e := by
  rw [links] at h
  simp only at h
  split at h
  · split at h
    · rename_i hk
      obtain ⟨name, hname, h⟩ := Except.bind_ok.mp h
      have hn := isName_of_checkName hk hname
      split at h
      · obtain ⟨⟨args, c₁⟩, hargs, h⟩ := Except.bind_ok.mp h
        exact ih.links hd (hb.method hn (ih.items hargs).2) (fun hfield => by cases hfield) h
      · rename_i hparen
        exact ih.links hd (hb.field hn) (fun _ => by simpa using hparen) h
    · split at h
      · cases h
      · cases h
        exact hb
  · split at h
    · rename_i hparen
      obtain ⟨⟨args, c₁⟩, hargs, h⟩ := Except.bind_ok.mp h
      obtain ⟨-, ha⟩ := ih.items hargs
      have hf : base.isField = false := by
        cases hf : base.isField with
        | false => rfl
        | true => rw [hcall hf] at hparen; cases hparen
      exact ih.links hd (hb.call hf ha) (fun hfield => by cases hfield) h
    · split at h
      · obtain ⟨⟨place, c₁⟩, hplace, h⟩ := Except.bind_ok.mp h
        simp only at h
        split at h
        · exact ih.links hd (hb.index (ih.expression hd hplace)) (fun hfield => by cases hfield) h
        · cases h
      · cases h
        exact hb

theorem fits_primary (ih : Sound s) (hd : d ≤ maxDepth)
    (h : primary (s + 1) spaced d c = .ok (e, c')) : Fits d 7 e ∧ e.isField = false := by
  rw [primary] at h
  simp only at h
  split at h
  · rename_i value hvalue
    obtain ⟨v, rfl, h⟩ := Except.bind_ok.mp h
    cases h
    exact ⟨⟨unsigned_of_ofToken hvalue, Nat.le_refl _, hd,
      List.forall_mem_singleton.mpr ⟨_, hvalue⟩⟩, rfl⟩
  · split at h
    · obtain ⟨⟨parts, c₁⟩, hparts, h⟩ := Except.bind_ok.mp h
      cases h
      obtain ⟨⟨ns, rfl⟩, hns⟩ := isName_of_path hparts
      exact fits_ofPath hd (List.cons_ne_nil _ _) hns
    · split at h
      · obtain ⟨d', hd', h⟩ := Except.bind_ok.mp h
        obtain ⟨hlt, rfl⟩ := enter_inv hd'
        exact ih.parenthesized hlt h
      · split at h
        · obtain ⟨⟨is, c₁⟩, his, h⟩ := Except.bind_ok.mp h
          cases h
          exact ⟨(ih.items his).2.list, rfl⟩
        · split at h <;> cases h

end Step

/-- **What the reader returns fits**, in any number of steps. -/
theorem sound : ∀ s, Sound s
  | 0 => by constructor <;> intros <;> contradiction
  | s + 1 => by
    have ih := sound s
    exact ⟨fits_expression ih, fits_binary ih, fits_binaryRest ih, fits_unary ih,
      fits_postfixed ih, fits_links ih, fits_primary ih, fits_parenthesized ih, fits_tupleRest ih,
      fits_items ih, fits_itemsRest ih⟩

end Read

variable {c c' : Cursor} {e : Expr}

/-- **An expression that is read is levelled** and nested no deeper than is allowed. -/
theorem fits_of_readExpression (h : readExpression c = .ok (e, c')) : Fits 0 0 e :=
  (Read.sound _).expression (Nat.zero_le _) h

theorem fits_of_readChain (h : readChain c = .ok (e, c')) : Fits 0 7 e := by
  unfold readChain at h
  split at h
  · exact ((Read.sound _).primary (Nat.zero_le _) h).1
  · exact (Read.sound _).postfixed (Nat.zero_le _) h

end Expr

end Stencil
