import Stencil.Proofs.ExprRoundTrip

/-!
# Expressions that are nested too deeply

The text of an expression is read up to the first bracket or unary operator for which there is no
room, and there reading fails. The brackets of an index take no room of their own.

* `TooDeep`: reading fails as there is no room for a bracket or an operator.
* `Expr.Read.Deep`: reading the text of an expression fails so wherever it may stand.
* `Expr.Read.deep_method`, `Expr.Read.deep_binary`, ...: the forms of expressions, each from its
  parts.
* **`Expr.parse_tooDeep`**: the text of an expression that is nested too deeply is refused.
-/

namespace Stencil

open Text

/-- **Reading fails as there is no room** for a bracket or an operator. -/
def TooDeep {α : Type} (r : Except Failure α) : Prop :=
  ∃ position, r = .error (.at .expressionTooDeep position)

theorem TooDeep.bind {α β : Type} {r : Except Failure α} (h : TooDeep r)
    (k : α → Except Failure β) : TooDeep (r >>= k) := by
  obtain ⟨position, rfl⟩ := h
  exact ⟨position, rfl⟩

namespace Expr

namespace Read

variable {d s pos : Nat} {cs rest : List Char} {e base : Expr} {es : List Expr}

/-- There is no room at the deepest place. -/
theorem enter_full (t : Token) : TooDeep (enter maxDepth t) :=
  ⟨t.position, if_neg (Nat.lt_irrefl _)⟩

/-! ## Where reading fails -/

/-- Reading fails inside a bracketed expression. -/
def DeepPrimary (d : Nat) (e : Expr) : Prop :=
  ∀ s pos rest, 16 * e.print.length ≤ s + 9 → Apart rest →
    TooDeep (primary s true d ⟨pos, e.print ++ rest⟩)

/-- Reading fails inside an expression or its links. -/
def DeepPostfixed (d : Nat) (e : Expr) : Prop :=
  ∀ s pos rest, 16 * e.print.length ≤ s + 8 → Apart rest →
    TooDeep (postfixed s true d ⟨pos, e.print ++ rest⟩)

/-- Reading fails at a unary operator or below it. -/
def DeepUnary (d : Nat) (e : Expr) : Prop :=
  ∀ s pos rest, 16 * e.print.length ≤ s + 7 → Apart rest →
    TooDeep (unary s true d ⟨pos, e.print ++ rest⟩)

/-- Reading fails inside an operand of a level. -/
def DeepOperand (d level : Nat) (e : Expr) : Prop :=
  ∀ s pos rest, 16 * e.print.length ≤ s + 1 + level → Apart rest →
    TooDeep (binary s true d level ⟨pos, e.print ++ rest⟩)

/-- Reading fails inside a whole expression. -/
def DeepWhole (d : Nat) (e : Expr) : Prop :=
  ∀ s pos rest, 16 * e.print.length ≤ s → Apart rest →
    TooDeep (expression s true d ⟨pos, e.print ++ rest⟩)

/-- Reading fails among the items of a bracketed list. -/
def DeepItems (d : Nat) (es : List Expr) : Prop :=
  ∀ s pos rest closing, closing = ')' ∨ closing = ']' → 16 * (printItems es).length + 16 ≤ s →
    TooDeep (itemsRest s d closing ⟨pos, printItems es ++ closing :: rest⟩)

/-- Reading fails among the items of a tuple after its first one. -/
def DeepTuple (d : Nat) (es : List Expr) : Prop :=
  ∀ s pos rest, 16 * (printItems es).length + 16 ≤ s →
    TooDeep (tupleRest s d ⟨pos, ' ' :: ',' :: ' ' :: (printItems es ++ rest)⟩)

/-- **Reading fails wherever the expression may stand.** -/
structure Deep (d : Nat) (e : Expr) : Prop where
  postfixed : 7 ≤ e.rank → DeepPostfixed d e
  unary : 6 ≤ e.rank → DeepUnary d e
  operand : ∀ level ≤ BinaryOp.levels, level + 1 ≤ e.rank → DeepOperand d level e
  whole : DeepWhole d e

/-- An expression that has a text. -/
structure Spelled (e : Expr) : Prop where
  levelled : e.Levelled
  plain : ∀ v ∈ e.literals, v.Plain

/-! ### From tight places to loose ones -/

section Levels

variable {level : Nat}

theorem Spelled.length_pos (h : Spelled e) : 0 < e.print.length :=
  length_pos_of_opens (first_of_levelled h.levelled h.plain (.inl rfl)).1

theorem Spelled.opens_next (h : Spelled e) (hr : Apart rest) :
    (next (e.print ++ rest)).opens = true := by
  have hf := first_of_levelled h.levelled h.plain hr
  rw [next_of_opens hf.1]
  exact hf.1

theorem Spelled.no_unary (h : Spelled e) (hrank : 7 ≤ e.rank) (hr : Apart rest) :
    unaryOp? (next (e.print ++ rest)) = none := by
  have hf := first_of_levelled h.levelled h.plain hr
  rw [next_of_opens hf.1]
  exact hf.2 hrank

/-- No closing bracket stands before an expression. -/
theorem Spelled.not_close (h : Spelled e) (hr : Apart rest) {closing : Char}
    (hc : closing = ')' ∨ closing = ']') :
    (next (e.print ++ rest)).isOp closing.toString = false := by
  rcases hc with rfl | rfl <;>
    exact not_op_of_opens (h.opens_next hr) (by decide) (by decide) (by decide)

theorem DeepPrimary.postfixed (h : DeepPrimary d e) (hp : 0 < e.print.length) :
    DeepPostfixed d e := by
  intro s pos rest hs hr
  obtain ⟨s, rfl⟩ : ∃ k, s = k + 1 := Nat.exists_eq_succ_of_ne_zero (by omega)
  rw [Read.postfixed]
  exact (h s pos rest (by omega) hr).bind _

theorem DeepPostfixed.unary (h : DeepPostfixed d e) (hp : 0 < e.print.length)
    (hnext : ∀ rest, Apart rest → unaryOp? (next (e.print ++ rest)) = none) : DeepUnary d e := by
  intro s pos rest hs hr
  obtain ⟨s, rfl⟩ : ∃ k, s = k + 1 := Nat.exists_eq_succ_of_ne_zero (by omega)
  rw [unary_of_postfixed (hnext rest hr)]
  exact h s pos rest (by omega) hr

theorem DeepUnary.operand (h : DeepUnary d e) (hp : 0 < e.print.length) :
    DeepOperand d BinaryOp.levels e := by
  intro s pos rest hs hr
  rw [levels_eq] at hs
  obtain ⟨s, rfl⟩ : ∃ k, s = k + 1 := Nat.exists_eq_succ_of_ne_zero (by omega)
  rw [binary_unary]
  exact h s pos rest (by omega) hr

/-- What fails as an operand of some level fails at all looser levels. -/
theorem DeepOperand.looser (h : DeepOperand d level e) (hl : level ≤ BinaryOp.levels)
    (hp : 0 < e.print.length) : ∀ l ≤ level, DeepOperand d l e := by
  induction level with
  | zero =>
    intro l hle
    obtain rfl : l = 0 := Nat.le_zero.mp hle
    exact h
  | succ level ih =>
    intro l hle
    rcases Nat.le_succ_iff.mp hle with hle | rfl
    · refine ih (fun s pos rest hs hr => ?_) (Nat.le_of_succ_le hl) l hle
      rw [levels_eq] at hl
      obtain ⟨s, rfl⟩ : ∃ k, s = k + 1 := Nat.exists_eq_succ_of_ne_zero (by omega)
      rw [binary_level hl]
      exact (h s pos rest (by omega) hr).bind _
    · exact h

theorem DeepOperand.whole (h : DeepOperand d 0 e) (hp : 0 < e.print.length) : DeepWhole d e := by
  intro s pos rest hs hr
  obtain ⟨s, rfl⟩ : ∃ k, s = k + 1 := Nat.exists_eq_succ_of_ne_zero (by omega)
  rw [expression]
  exact (h s pos rest (by omega) hr).bind _

/-- Where reading fails inside an operand of the level of its rank, it fails everywhere. -/
theorem Deep.of_operand (level : Nat) (h : DeepOperand d level e) (hl : level < BinaryOp.levels)
    (hp : 0 < e.print.length) (hrank : e.rank = level + 1) : Deep d e := by
  have hall := h.looser (Nat.le_of_lt hl) hp
  rw [levels_eq] at hl
  exact ⟨fun h7 => by omega, fun h6 => by omega, fun l _ hle => hall l (by omega),
    (hall 0 (Nat.zero_le _)).whole hp⟩

theorem Deep.of_unary (h : DeepUnary d e) (hp : 0 < e.print.length)
    (hpost : 7 ≤ e.rank → DeepPostfixed d e) : Deep d e := by
  have hall := (h.operand hp).looser (Nat.le_refl _) hp
  exact ⟨hpost, fun _ => h, fun l hl _ => hall l hl, (hall 0 (Nat.zero_le _)).whole hp⟩

theorem Deep.of_postfixed (h : DeepPostfixed d e) (he : Spelled e) (hrank : 7 ≤ e.rank) :
    Deep d e :=
  .of_unary (h.unary he.length_pos fun _ hr => he.no_unary hrank hr) he.length_pos fun _ => h

end Levels

/-! ## Items -/

/-- **What is known of the parts of an expression**: those for which there is room are read, in the
others reading fails. -/
structure Decided (d : Nat) (e : Expr) : Prop where
  spelled : Spelled e
  reads : d + e.nesting ≤ maxDepth → Reads d e
  deep : maxDepth < d + e.nesting → Deep d e

theorem Decided.printable (h : Decided d e) (hn : d + e.nesting ≤ maxDepth) : e.Printable d :=
  printable_of_levelled h.spelled.levelled hn h.spelled.plain

theorem printableAll_of_decided (h : ∀ e ∈ es, Decided d e) (hn : d + nestingAll es ≤ maxDepth) :
    PrintableAll d es := by
  induction es with
  | nil => trivial
  | cons e es ih =>
    rw [nestingAll] at hn
    exact ⟨(h e List.mem_cons_self).printable (by omega),
      ih (fun e he => h e (List.mem_cons_of_mem _ he)) (by omega)⟩

/-- **Reading fails in the first item for which there is no room.** -/
theorem deep_items (hd : d ≤ maxDepth) (h : ∀ e ∈ es, Decided d e)
    (hn : maxDepth < d + nestingAll es) : DeepItems d es := by
  induction es with
  | nil => simp only [nestingAll] at hn; omega
  | cons e es ih =>
    intro s pos rest closing hc hs
    obtain ⟨s, rfl⟩ : ∃ k, s = k + 1 := Nat.exists_eq_succ_of_ne_zero (by omega)
    have he := h e List.mem_cons_self
    have ih := ih fun e' he' => h e' (List.mem_cons_of_mem _ he')
    rw [nestingAll] at hn
    rw [printItems] at hs ⊢
    simp only [List.length_append, List.length_cons] at hs
    rw [List.append_assoc, List.cons_append]
    have hfirst := he.spelled.not_close (Apart.space ((if es.isEmpty then [] else [',', ' ']) ++
      printItems es ++ closing :: rest)) hc
    rw [itemsRest]
    simp only [isOp_next, hfirst]
    by_cases hdeep : maxDepth < d + e.nesting
    · exact ((he.deep hdeep).whole s pos _ (by omega) (.space _)).bind _
    · have hlater : maxDepth < d + nestingAll es := by omega
      obtain ⟨e₂, es, rfl⟩ : ∃ e₂ es', es = e₂ :: es' := by
        cases es with
        | nil => simp only [nestingAll] at hlater; omega
        | cons e₂ es => exact ⟨e₂, es, rfl⟩
      obtain ⟨e', pos', hread, -⟩ := (he.reads (Nat.not_lt.mp hdeep)).whole s pos
        (' ' :: ',' :: ' ' :: (printItems (e₂ :: es) ++ closing :: rest)) (by omega)
        (closes_comma _)
      have hcomma : scan (',' :: ' ' :: (printItems (e₂ :: es) ++ closing :: rest)) =
          ⟨.op, [','], ' ' :: (printItems (e₂ :: es) ++ closing :: rest)⟩ := rfl
      have hop : (⟨.op, [','], pos' + 1⟩ : Token).isOp "," = true := rfl
      simp only [List.length_cons, List.length_nil, List.isEmpty_cons, Bool.false_eq_true,
        if_false] at hs
      simp only [List.isEmpty_cons, Bool.false_eq_true, if_false, List.cons_append, List.nil_append,
        hread, Except.ok_bind, Cursor.peek_space hcomma (by decide), hop, if_true, itemsRest_space]
      exact (ih hlater s (pos' + 1 + [','].length + 1) rest closing hc (by omega)).bind _

theorem deep_tuple (hd : d ≤ maxDepth) (h : ∀ e ∈ es, Decided d e)
    (hn : maxDepth < d + nestingAll es) : DeepTuple d es := by
  induction es with
  | nil => simp only [nestingAll] at hn; omega
  | cons e es ih =>
    intro s pos rest hs
    have he := h e List.mem_cons_self
    have ih := ih fun e' he' => h e' (List.mem_cons_of_mem _ he')
    rw [nestingAll] at hn
    rw [printItems] at hs ⊢
    simp only [List.length_append, List.length_cons] at hs
    obtain ⟨s, rfl⟩ : ∃ k, s = k + 2 := ⟨s - 2, by omega⟩
    have hcomma : scan (',' :: ' ' :: (e.print ++ ' ' :: ((if es.isEmpty then [] else [',', ' ']) ++
        printItems es) ++ rest)) = ⟨.op, [','], ' ' :: (e.print ++ ' ' ::
          ((if es.isEmpty then [] else [',', ' ']) ++ printItems es) ++ rest)⟩ := rfl
    have hop : (⟨.op, [','], pos + 1⟩ : Token).isOp "," = true := rfl
    have hfirst := he.spelled.not_close (Apart.space ((if es.isEmpty then [] else [',', ' ']) ++
      printItems es ++ rest)) (.inl rfl)
    rw [tupleRest, Cursor.peek_space hcomma (by decide)]
    rw [List.append_assoc, List.cons_append]
    simp only [hop, if_true, peek_after_space, expression_space, isOp_next]
    rw [show (next _).isOp ")" = false from hfirst, if_neg (by decide)]
    by_cases hdeep : maxDepth < d + e.nesting
    · exact ((he.deep hdeep).whole (s + 1) _ _ (by omega) (.space _)).bind _
    · have hlater : maxDepth < d + nestingAll es := by omega
      obtain ⟨e₂, es, rfl⟩ : ∃ e₂ es', es = e₂ :: es' := by
        cases es with
        | nil => simp only [nestingAll] at hlater; omega
        | cons e₂ es => exact ⟨e₂, es, rfl⟩
      obtain ⟨e', pos', hread, -⟩ := (he.reads (Nat.not_lt.mp hdeep)).whole (s + 1)
        (pos + 1 + [','].length + 1) (' ' :: ',' :: ' ' :: (printItems (e₂ :: es) ++ rest))
        (by omega) (closes_comma _)
      simp only [List.length_cons, List.length_nil, List.isEmpty_cons, Bool.false_eq_true,
        if_false] at hs
      simp only [List.isEmpty_cons, Bool.false_eq_true, if_false, List.cons_append, List.nil_append,
        hread, Except.ok_bind]
      exact (ih hlater (s + 1) pos' rest (by omega)).bind _

/-! ## Brackets -/

theorem primary_enter (s d pos : Nat) (cs : List Char) (spaced : Bool) :
    ∃ t, primary (s + 1) spaced d ⟨pos, '(' :: cs⟩ =
    (enter d t >>= fun d' => parenthesized s d' pos ⟨pos + 1, cs⟩) := by
  have ht : scan ('(' :: cs) = ⟨.op, ['('], cs⟩ := rfl
  refine ⟨⟨.op, ['('], pos⟩, ?_⟩
  rw [primary, Cursor.peek_of_scan ht (by decide)]
  rfl

/-- **Reading fails at a parenthesis or behind it.** -/
theorem deep_parenthesis {p : Expr} (hd : d ≤ maxDepth) (hprint : p.print = '(' :: cs)
    (h : d < maxDepth → ∀ s pos rest, 16 * p.print.length ≤ s + 10 →
      TooDeep (parenthesized s (d + 1) pos ⟨pos + 1, cs ++ rest⟩)) : DeepPrimary d p := by
  intro s pos rest hs hr
  have hlen : p.print.length = cs.length + 1 := by rw [hprint, List.length_cons]
  obtain ⟨s, rfl⟩ : ∃ k, s = k + 1 := Nat.exists_eq_succ_of_ne_zero (by omega)
  obtain ⟨t, ht⟩ := primary_enter s d pos (cs ++ rest) true
  rw [hprint, List.cons_append, ht]
  rcases Nat.lt_or_eq_of_le hd with hlt | rfl
  · rw [enter_ok hlt]
    exact h hlt s pos rest (by omega)
  · exact (enter_full t).bind _

/-- Reading fails inside the first expression in parentheses. -/
theorem deep_parenthesized (he : Decided d e) (hn : maxDepth < d + e.nesting)
    (hs : 16 * e.print.length ≤ s) (pos position : Nat) (cs : List Char) :
    TooDeep (parenthesized (s + 1) d position ⟨pos, ' ' :: (e.print ++ ' ' :: cs)⟩) := by
  have hfirst := he.spelled.not_close (Apart.space cs) (.inl rfl)
  rw [parenthesized]
  simp only [peek_after_space, expression_space, isOp_next]
  rw [show (next _).isOp ")" = false from hfirst, if_neg (by decide)]
  exact ((he.deep hn).whole s _ _ hs (.space _)).bind _

theorem deep_group {p : Nat} (hd : d ≤ maxDepth) (h : d < maxDepth → Decided (d + 1) e)
    (hn : maxDepth < d + (e.nesting + 1)) : DeepPrimary d (.group p e) := by
  refine deep_parenthesis hd rfl fun hlt s pos rest hs => ?_
  simp only [print, List.length_cons, List.length_append, List.length_nil] at hs
  obtain ⟨s, rfl⟩ : ∃ k, s = k + 1 := Nat.exists_eq_succ_of_ne_zero (by omega)
  rw [List.cons_append, List.append_assoc, List.cons_append, List.singleton_append]
  exact deep_parenthesized (h hlt) (by omega) (by omega) _ _ _

theorem deep_tupleExpr {p : Nat} (hd : d ≤ maxDepth)
    (h : d < maxDepth → ∀ e ∈ es, Decided (d + 1) e) (hn : maxDepth < d + (nestingAll es + 1)) :
    DeepPrimary d (.tuple p es) := by
  refine deep_parenthesis hd rfl fun hlt s pos rest hs => ?_
  have h := h hlt
  simp only [print, List.length_cons, List.length_append] at hs
  obtain ⟨s, rfl⟩ : ∃ k, s = k + 1 := Nat.exists_eq_succ_of_ne_zero (by omega)
  cases es with
  | nil => simp only [nestingAll] at hn; omega
  | cons e es =>
    have he := h e List.mem_cons_self
    rw [nestingAll] at hn
    simp only [printItems, List.length_cons, List.length_append] at hs
    by_cases hdeep : maxDepth < d + 1 + e.nesting
    · rw [printItems, List.cons_append, List.append_assoc, List.append_assoc, List.cons_append]
      exact deep_parenthesized he hdeep (by omega) _ _ _
    · obtain ⟨e₂, es, rfl⟩ : ∃ e₂ es', es = e₂ :: es' := by
        cases es with
        | nil => simp only [nestingAll] at hn; omega
        | cons e₂ es => exact ⟨e₂, es, rfl⟩
      have hlater : maxDepth < d + 1 + nestingAll (e₂ :: es) := by omega
      simp only [List.length_cons, List.length_nil, List.isEmpty_cons, Bool.false_eq_true,
        if_false] at hs
      obtain ⟨e', pos', -, hread⟩ := parenthesized_comma (s := s) (pos + 1) pos
        (he.printable (Nat.not_lt.mp hdeep)) (he.reads (Nat.not_lt.mp hdeep)).whole (by omega)
        (printItems (e₂ :: es) ++ (')' :: rest))
      have htext : ' ' :: (printItems (e :: e₂ :: es) ++
          if (e :: e₂ :: es).length = 1 then [',', ' ', ')'] else [')']) ++ rest =
            ' ' :: (e.print ++ ' ' :: ',' :: ' ' :: (printItems (e₂ :: es) ++ (')' :: rest))) := by
        rw [printItems, if_neg (by simp)]
        simp
      rw [htext, hread]
      exact (deep_tuple hlt (fun e' he' => h e' (List.mem_cons_of_mem _ he')) hlater s pos'
        (')' :: rest) (by omega)).bind _

theorem items_enter (s d pos : Nat) {o : Char} (closing : Char)
    (ho : scan (o :: cs) = ⟨.op, [o], cs⟩) (spaced : Bool) :
    ∃ t, items (s + 1) spaced d closing ⟨pos, o :: cs⟩ =
      (enter d t >>= fun d' => itemsRest s d' closing ⟨pos + 1, cs⟩) := by
  refine ⟨⟨.op, [o], pos⟩, ?_⟩
  rw [items, Cursor.peek_of_scan ho (by decide)]
  rfl

/-- **Reading fails at the bracket of a list or behind it.** -/
theorem deep_bracketed {o closing : Char} (hd : d ≤ maxDepth)
    (ho : ∀ cs, scan (o :: cs) = ⟨.op, [o], cs⟩) (hc : closing = ')' ∨ closing = ']')
    (h : d < maxDepth → ∀ e ∈ es, Decided (d + 1) e) (hn : maxDepth < d + (nestingAll es + 1))
    (hs : 16 * (printItems es).length + 17 ≤ s) (spaced : Bool) :
    TooDeep (items s spaced d closing ⟨pos, o :: ' ' :: (printItems es ++ closing :: rest)⟩) := by
  obtain ⟨s, rfl⟩ : ∃ k, s = k + 1 := Nat.exists_eq_succ_of_ne_zero (by omega)
  obtain ⟨t, ht⟩ := items_enter s d pos closing
    (ho (' ' :: (printItems es ++ closing :: rest))) spaced
  rw [ht]
  rcases Nat.lt_or_eq_of_le hd with hlt | rfl
  · rw [enter_ok hlt, Except.ok_bind, itemsRest_space]
    exact deep_items hlt (h hlt) (by omega) s _ rest closing hc (by omega)
  · exact (enter_full t).bind _

theorem deep_list {p : Nat} (hd : d ≤ maxDepth) (h : d < maxDepth → ∀ e ∈ es, Decided (d + 1) e)
    (hn : maxDepth < d + (nestingAll es + 1)) : DeepPrimary d (.list p es) := by
  intro s pos rest hs _
  simp only [print, List.length_cons, List.length_append, List.length_nil] at hs
  obtain ⟨s, rfl⟩ : ∃ k, s = k + 1 := Nat.exists_eq_succ_of_ne_zero (by omega)
  have hitems : primary (s + 1) true d ⟨pos, (Expr.list p es).print ++ rest⟩ =
      (items s true d ']' ⟨pos, '[' :: ' ' :: (printItems es ++ ']' :: rest)⟩ >>= fun r =>
        .ok (.list pos r.1, r.2)) := by
    have ht : scan ('[' :: ' ' :: (printItems es ++ ']' :: rest)) =
      ⟨.op, ['['], ' ' :: (printItems es ++ ']' :: rest)⟩ := rfl
    rw [print, List.cons_append, List.cons_append, List.append_assoc, List.singleton_append,
      primary,
      Cursor.peek_of_scan ht (by decide)]
    rfl
  rw [hitems]
  exact (deep_bracketed hd (fun _ => rfl) (.inr rfl) h hn (by omega) true).bind _

/-! ## Links -/

section Links

variable {p : Nat} {n : String}

theorem DeepPostfixed.field (h : DeepPostfixed d base) : DeepPostfixed d (.field p base n) := by
  intro s pos rest hs _
  simp only [print, List.length_cons, List.length_append] at hs
  rw [print, List.append_assoc]
  exact h s pos _ (by omega) (.space _)

theorem DeepPostfixed.method (h : DeepPostfixed d base) :
    DeepPostfixed d (.method p base n es) := by
  intro s pos rest hs _
  simp only [print, List.length_cons, List.length_append] at hs
  rw [print, List.append_assoc]
  exact h s pos _ (by omega) (.space _)

theorem DeepPostfixed.call (h : DeepPostfixed d base) : DeepPostfixed d (.call p base es) := by
  intro s pos rest hs _
  simp only [print, List.length_cons, List.length_append] at hs
  rw [print, List.append_assoc]
  exact h s pos _ (by omega) (.space _)

theorem DeepPostfixed.index {i : Expr} (h : DeepPostfixed d base) :
    DeepPostfixed d (.index p base i) := by
  intro s pos rest hs _
  simp only [print, List.length_cons, List.length_append] at hs
  rw [print, List.append_assoc]
  exact h s pos _ (by omega) (.space _)

/-- Arguments after a space. -/
theorem items_after_space (closing : Char) :
    items s true d closing ⟨pos, ' ' :: cs⟩ = items s true d closing ⟨pos + 1, cs⟩ := by
  cases s with
  | zero => rfl
  | succ s => rw [items, items, peek_after_space]

theorem deep_method (hd : d ≤ maxDepth) (hb : ReadsPostfixed d base) (hname : IsName n)
    (h : d < maxDepth → ∀ e ∈ es, Decided (d + 1) e) (hn : maxDepth < d + (nestingAll es + 1)) :
    DeepPostfixed d (.method p base n es) := by
  intro s pos rest hs _
  simp only [print, List.length_cons, List.length_append, List.length_nil] at hs
  obtain ⟨s', e', pos', hle, -, he⟩ := hb s pos
    (' ' :: '.' :: (n.toList ++ ' ' :: '(' :: ' ' :: (printItems es ++ ')' :: rest))) (by omega)
    (.space _) fun _ => no_paren_point hname _
  obtain ⟨s', rfl⟩ : ∃ k, s' = k + 1 := Nat.exists_eq_succ_of_ne_zero (by omega)
  obtain ⟨pos'', hlink⟩ := links_point s' d pos' e' hname
    (Apart.space ('(' :: ' ' :: (printItems es ++ ')' :: rest))).wordless
  have hopen : (next (' ' :: '(' :: ' ' :: (printItems es ++ ')' :: rest))).isOp "(" = true := rfl
  simp only [print, List.append_assoc, List.cons_append, List.nil_append]
  rw [he, hlink, hopen, if_pos rfl, items_after_space]
  exact (deep_bracketed hd (fun _ => rfl) (.inl rfl) h hn (by omega) true).bind _

theorem deep_call (hd : d ≤ maxDepth) (hb : ReadsPostfixed d base) (hf : base.isField = false)
    (h : d < maxDepth → ∀ e ∈ es, Decided (d + 1) e) (hn : maxDepth < d + (nestingAll es + 1)) :
    DeepPostfixed d (.call p base es) := by
  intro s pos rest hs _
  simp only [print, List.length_cons, List.length_append, List.length_nil] at hs
  obtain ⟨s', e', pos', hle, -, he⟩ := hb s pos
    (' ' :: '(' :: ' ' :: (printItems es ++ ')' :: rest)) (by omega) (.space _)
    fun hfield => absurd hfield (by rw [hf]; decide)
  obtain ⟨s', rfl⟩ : ∃ k, s' = k + 1 := Nat.exists_eq_succ_of_ne_zero (by omega)
  have hlink :
      links (s' + 1) true d e' ⟨pos', ' ' :: '(' :: ' ' :: (printItems es ++ ')' :: rest)⟩ =
      (items s' true d ')' ⟨pos', ' ' :: '(' :: ' ' :: (printItems es ++ ')' :: rest)⟩ >>= fun r =>
        links s' true d (.call e'.position e' r.1) r.2) := by
    have ht : scan ('(' :: ' ' :: (printItems es ++ ')' :: rest)) =
      ⟨.op, ['('], ' ' :: (printItems es ++ ')' :: rest)⟩ := rfl
    rw [links, Cursor.peek_space ht (by decide)]
    rfl
  simp only [print, List.append_assoc, List.cons_append, List.nil_append]
  rw [he, hlink, items_after_space]
  exact (deep_bracketed hd (fun _ => rfl) (.inl rfl) h hn (by omega) true).bind _

/-- An index is read at the same depth as what it is an index of. -/
theorem deep_index {i : Expr} (hb : ReadsPostfixed d base) (hi : DeepWhole d i) :
    DeepPostfixed d (.index p base i) := by
  intro s pos rest hs _
  simp only [print, List.length_cons, List.length_append, List.length_nil] at hs
  obtain ⟨s', e', pos', hle, -, he⟩ := hb s pos
    (' ' :: '[' :: ' ' :: (i.print ++ ' ' :: ']' :: rest)) (by omega) (.space _) fun _ => rfl
  obtain ⟨s', rfl⟩ : ∃ k, s' = k + 1 := Nat.exists_eq_succ_of_ne_zero (by omega)
  simp only [print, List.append_assoc, List.cons_append, List.nil_append]
  rw [he, links_index]
  exact (hi s' _ _ (by omega) (.space _)).bind _

end Links

/-! ## Operators -/

section Operators

variable {p : Nat} {l r : Expr}

theorem deep_unary {o : UnaryOp} (hd : d ≤ maxDepth) (h : d < maxDepth → DeepUnary (d + 1) e) :
    DeepUnary d (.unary p o e) := by
  intro s pos rest hs hr
  simp only [print, List.length_cons, List.length_append] at hs
  obtain ⟨s, rfl⟩ : ∃ k, s = k + 1 := Nat.exists_eq_succ_of_ne_zero (by omega)
  have hstep : ∃ t, Read.unary (s + 1) true d ⟨pos, o.symbol.toList ++ ' ' :: (e.print ++ rest)⟩ =
      (enter d t >>= fun d' =>
        Read.unary s true d' ⟨pos + o.symbol.toList.length, ' ' :: (e.print ++ rest)⟩ >>=
          fun r => .ok (.unary pos o r.1, r.2)) := by
    cases o <;> rw [Read.unary] <;> exact ⟨_, rfl⟩
  obtain ⟨t, ht⟩ := hstep
  rw [print, List.append_assoc, List.cons_append, ht]
  rcases Nat.lt_or_eq_of_le hd with hlt | rfl
  · rw [enter_ok hlt, Except.ok_bind, unary_space]
    exact (h hlt s _ rest (by omega) hr).bind _
  · exact (enter_full t).bind _

theorem DeepOperand.binary {o : BinaryOp} (h : DeepOperand d o.level l) :
    DeepOperand d o.level (.binary p o l r) := by
  intro s pos rest hs _
  simp only [print, List.length_cons, List.length_append] at hs
  rw [print, List.append_assoc]
  exact h s pos _ (by omega) (.space _)

theorem deep_binary {o : BinaryOp} (hl : ReadsBinary d o.level l)
    (hr : DeepOperand d (o.level + 1) r) : DeepOperand d o.level (.binary p o l r) := by
  intro s pos rest hs hrest
  simp only [print, List.length_cons, List.length_append] at hs
  have hlevel : o.level < 5 := o.level_lt
  obtain ⟨s', l', pos', hle, -, hel⟩ := hl s pos
    (' ' :: (o.symbol.toList ++ ' ' :: (r.print ++ rest))) (by omega) (Ends.symbol o _)
  obtain ⟨s', rfl⟩ : ∃ k, s' = k + 1 := Nat.exists_eq_succ_of_ne_zero (by omega)
  obtain ⟨pos₂, hstep⟩ := binaryRest_symbol s' d pos' l' (r.print ++ rest) o
  simp only [print, List.append_assoc, List.cons_append]
  rw [hel, hstep]
  exact (hr s' pos₂ rest (by omega) hrest).bind _

theorem DeepOperand.range {i : Bool} (h : DeepOperand d 0 l) : DeepWhole d (.range p l r i) := by
  intro s pos rest hs _
  simp only [print, List.length_cons, List.length_append] at hs
  obtain ⟨s, rfl⟩ : ∃ k, s = k + 1 := Nat.exists_eq_succ_of_ne_zero (by omega)
  rw [print, List.append_assoc, expression]
  exact (h s pos _ (by omega) (.space _)).bind _

theorem deep_range {i : Bool} (hl : ReadsOperand d 0 l) (hr : DeepOperand d 0 r) :
    DeepWhole d (.range p l r i) := by
  intro s pos rest hs hrest
  simp only [print, List.length_cons, List.length_append] at hs
  obtain ⟨s, rfl⟩ : ∃ k, s = k + 1 := Nat.exists_eq_succ_of_ne_zero (by omega)
  obtain ⟨l', pos', hel, -⟩ := hl s pos
    (' ' :: '.' :: '.' :: ((if i then ['='] else []) ++ ' ' :: (r.print ++ rest))) (by omega)
    (ends_range i _)
  have hstep : ∃ pos₂, expression (s + 1) true d ⟨pos, l.print ++
      ' ' :: '.' :: '.' :: ((if i then ['='] else []) ++ ' ' :: (r.print ++ rest))⟩ =
        (binary s true d 0 ⟨pos₂, ' ' :: (r.print ++ rest)⟩ >>= fun x =>
          .ok (.range l'.position l' x.1 i, x.2)) := by
    cases i with
    | false => exact ⟨pos' + 1 + 2, by rw [expression, hel]; rfl⟩
    | true => exact ⟨pos' + 1 + 3, by rw [expression, hel]; rfl⟩
  obtain ⟨pos₂, hstep⟩ := hstep
  simp only [print, List.append_assoc, List.cons_append]
  rw [hstep, binary_space]
  exact (hr s _ rest (by omega) hrest).bind _

end Operators

/-! ## All expressions -/

theorem Decided.of_deep (h : Spelled e) (hdeep : maxDepth < d + e.nesting → Deep d e) :
    Decided d e :=
  ⟨h, fun hn => Read.reads (printable_of_levelled h.levelled hn h.plain), hdeep⟩

mutual

/-- **Reading the text of an expression for which there is no room fails**, wherever it stands. -/
theorem deep : ∀ {e : Expr} {d : Nat}, Spelled e → d ≤ maxDepth → maxDepth < d + e.nesting →
    Deep d e
  | .literal .., _, _, hd, hn | .name .., _, _, hd, hn | .path .., _, _, hd, hn => by
    rw [nesting] at hn
    omega
  | .field _ v n, d, h, hd, hn => by
    rw [nesting] at hn
    have hv : Spelled v := ⟨h.levelled.1, by simpa only [literals] using h.plain⟩
    exact .of_postfixed (((deep hv hd hn).postfixed h.levelled.2.1).field) h (Nat.le_refl _)
  | .method _ r n as, d, h, hd, hn => by
    have hp := h.plain
    rw [nesting] at hn
    simp only [literals, List.forall_mem_append] at hp
    have hr : Spelled r := ⟨h.levelled.1, hp.1⟩
    refine .of_postfixed ?_ h (Nat.le_refl _)
    by_cases hdeep : maxDepth < d + r.nesting
    · exact ((deep hr hd hdeep).postfixed h.levelled.2.1).method
    · have hread := ((Decided.of_deep hr fun hn => deep hr hd hn).reads (Nat.not_lt.mp hdeep))
      exact deep_method hd (hread.postfixed h.levelled.2.1) h.levelled.2.2.1
        (fun hlt => decidedAll hlt h.levelled.2.2.2 hp.2) (by omega)
  | .call _ f as, d, h, hd, hn => by
    have hp := h.plain
    rw [nesting] at hn
    simp only [literals, List.forall_mem_append] at hp
    have hf : Spelled f := ⟨h.levelled.1, hp.1⟩
    refine .of_postfixed ?_ h (Nat.le_refl _)
    by_cases hdeep : maxDepth < d + f.nesting
    · exact ((deep hf hd hdeep).postfixed h.levelled.2.1).call
    · have hread := ((Decided.of_deep hf fun hn => deep hf hd hn).reads (Nat.not_lt.mp hdeep))
      exact deep_call hd (hread.postfixed h.levelled.2.1) h.levelled.2.2.1
        (fun hlt => decidedAll hlt h.levelled.2.2.2 hp.2) (by omega)
  | .index _ v i, d, h, hd, hn => by
    have hp := h.plain
    rw [nesting] at hn
    simp only [literals, List.forall_mem_append] at hp
    have hv : Spelled v := ⟨h.levelled.1, hp.1⟩
    have hi : Spelled i := ⟨h.levelled.2.2, hp.2⟩
    refine .of_postfixed ?_ h (Nat.le_refl _)
    by_cases hdeep : maxDepth < d + v.nesting
    · exact ((deep hv hd hdeep).postfixed h.levelled.2.1).index
    · have hread := ((Decided.of_deep hv fun hn => deep hv hd hn).reads (Nat.not_lt.mp hdeep))
      exact deep_index (hread.postfixed h.levelled.2.1) (deep hi hd (by omega)).whole
  | .tuple _ is, d, h, hd, hn => by
    have hp := h.plain
    rw [nesting] at hn
    rw [literals] at hp
    exact .of_postfixed ((deep_tupleExpr hd (fun hlt => decidedAll hlt h.levelled hp) hn).postfixed
      h.length_pos) h (Nat.le_refl _)
  | .list _ is, d, h, hd, hn => by
    have hp := h.plain
    rw [nesting] at hn
    rw [literals] at hp
    exact .of_postfixed ((deep_list hd (fun hlt => decidedAll hlt h.levelled hp) hn).postfixed
      h.length_pos) h (Nat.le_refl _)
  | .range _ a b _, d, h, hd, hn => by
    have hp := h.plain
    rw [nesting] at hn
    simp only [literals, List.forall_mem_append] at hp
    have ha : Spelled a := ⟨h.levelled.1, hp.1⟩
    have hb : Spelled b := ⟨h.levelled.2.2.1, hp.2⟩
    refine ⟨fun hr => absurd hr (by simp [rank]), fun hr => absurd hr (by simp [rank]),
      fun _ _ hr => absurd hr (by simp [rank]), ?_⟩
    by_cases hdeep : maxDepth < d + a.nesting
    · exact ((deep ha hd hdeep).operand 0 (Nat.zero_le _) h.levelled.2.1).range
    · have hread := ((Decided.of_deep ha fun hn => deep ha hd hn).reads (Nat.not_lt.mp hdeep))
      exact deep_range (hread.operand 0 (Nat.zero_le _) h.levelled.2.1)
        ((deep hb hd (by omega)).operand 0 (Nat.zero_le _) h.levelled.2.2.2)
  | .unary _ _ e, d, h, hd, hn => by
    rw [nesting] at hn
    have he : Spelled e := ⟨h.levelled.1, by simpa only [literals] using h.plain⟩
    exact .of_unary (deep_unary hd fun hlt => (deep he hlt (by omega)).unary h.levelled.2)
      h.length_pos fun hr => absurd hr (by simp [rank])
  | .binary _ o l r, d, h, hd, hn => by
    have hp := h.plain
    rw [nesting] at hn
    simp only [literals, List.forall_mem_append] at hp
    have hl : Spelled l := ⟨h.levelled.1, hp.1⟩
    have hr : Spelled r := ⟨h.levelled.2.2.1, hp.2⟩
    have hlevel := o.level_lt
    refine .of_operand o.level ?_ hlevel h.length_pos rfl
    by_cases hdeep : maxDepth < d + l.nesting
    · exact ((deep hl hd hdeep).operand o.level (Nat.le_of_lt hlevel) h.levelled.2.1).binary
    · have hread := ((Decided.of_deep hl fun hn => deep hl hd hn).reads (Nat.not_lt.mp hdeep))
      exact deep_binary (hread.binary o.level hlevel h.levelled.2.1)
        ((deep hr hd (by omega)).operand (o.level + 1) hlevel h.levelled.2.2.2)
  | .group _ e, d, h, hd, hn => by
    rw [nesting] at hn
    have he : Spelled e := ⟨h.levelled, by simpa only [literals] using h.plain⟩
    exact .of_postfixed ((deep_group hd (fun hlt => .of_deep he fun hn => deep he hlt hn)
      hn).postfixed h.length_pos) h (Nat.le_refl _)

theorem decidedAll : ∀ {es : List Expr} {d : Nat}, d ≤ maxDepth → LevelledAll es →
    (∀ v ∈ literalsAll es, v.Plain) → ∀ e ∈ es, Decided d e
  | [], _, _, _, _, _, he => by cases he
  | e :: es, _, hd, h, hp, e', he' => by
    simp only [literalsAll, List.forall_mem_append] at hp
    rcases List.mem_cons.mp he' with heq | he'
    · rw [heq]
      have he : Spelled e := ⟨h.1, hp.1⟩
      exact .of_deep he fun hn => deep he hd hn
    · exact decidedAll hd h.2 hp.2 e' he'

end

end Read

/-- **The text of an expression that is nested too deeply is refused**, and for no other reason. -/
theorem parse_tooDeep {e : Expr} (h : e.Levelled) (hp : ∀ v ∈ e.literals, v.Plain)
    (hn : Read.maxDepth < e.nesting) : TooDeep (parse e.print) := by
  rw [parse, Cursor.ofText_zero, ← List.append_nil e.print]
  refine ((Read.deep ⟨h, hp⟩ (Nat.zero_le _) (by omega)).whole _ 0 [] ?_ (.inl rfl)).bind _
  simp only [Cursor.steps, List.length_append]
  omega

end Expr

end Stencil
