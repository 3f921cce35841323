import Stencil.Proofs.CodeGrammar

/-!
# Reading tokens of generated code

Tokens that are a primary are read as one, whatever operators stand around them; what stands between
parentheses is a primary again. So an operation in parentheses is never regrouped.

* `CodeExpr.IsPrimary`: tokens are an atom with links.
* `CodeExpr.IsFull`: tokens are an expression up to a comma or a closing bracket.
* `CodeExpr.IsItems`: tokens are a list of expressions.
* **`CodeExpr.IsFull.paren`**: an expression in parentheses is a primary.
-/

namespace Stencil.CodeExpr

open Text

variable {n : Nat} {before after ls : List Level} {l : Level} {ts ts' rest : List CodeToken}
variable {e e' : CodeExpr} {es : List CodeExpr}

/-- A token that a primary can start with. -/
def starts : CodeToken → Bool
  | .word w => w ≠ "not"
  | .op o => o = "(" ∨ o = "["
  | _ => true

/-- A token that is a link, or a text after a text. -/
def links : CodeToken → Bool
  | .op o => o = "." ∨ o = "(" ∨ o = "["
  | .text _ => true
  | _ => false

/-- A token that ends an expression: a comma or a closing bracket. -/
def ends : CodeToken → Bool
  | .op o => o = "," ∨ o = ")" ∨ o = "]"
  | _ => false

/-- **Tokens that are a primary**: an atom with links, which more links may follow. -/
structure IsPrimary (ts : List CodeToken) (e : CodeExpr) : Prop where
  starts : ∃ t ts', ts = t :: ts' ∧ starts t = true
  reads : ∀ n rest, 16 * ts.length ≤ n → (∀ ps, rest.head? ≠ some (.text ps)) →
    ∃ k, n ≤ k + ts.length ∧ level n [] (ts ++ rest) = trailers k e rest

/-- **Tokens that are an expression** where a comma, a closing bracket or nothing follows them. -/
structure IsFull (ts : List CodeToken) (e : CodeExpr) : Prop where
  starts : ∃ t ts', ts = t :: ts' ∧ ends t = false
  reads : ∀ n rest, 16 * ts.length + 15 ≤ n → (∀ t, rest.head? = some t → ends t = true) →
    level n levels (ts ++ rest) = some (e, rest)

/-- **Tokens that are items** before a closing bracket. -/
def IsItems (ts : List CodeToken) (es : List CodeExpr) : Prop :=
  ∀ closing ∈ [")", "]"], ∀ n rest, 16 * ts.length + 17 ≤ n →
    items n closing (ts ++ .op closing :: rest) = some (es, rest)

/-! ## Operators around primaries -/

theorem opens_eq_false {t : CodeToken} (h : starts t = true) (l : Level) : l.opens t = false := by
  cases l with
  | inversion =>
    refine decide_eq_false ?_
    rintro rfl
    cases h
  | sign =>
    cases t with
    | op o =>
      refine decide_eq_false fun ho => ?_
      obtain rfl | rfl := of_decide_eq_true h <;> exact absurd ho (by decide)
    | _ => rfl
  | _ => rfl

theorem trailers_of_not_links (h : Avoids links rest) :
    trailers (n + 1) e rest = some (e, rest) := by
  rw [trailers]
  · rintro m ts rfl
    exact absurd (h _ rfl) (by decide)
  · rintro ts rfl
    exact absurd (h _ rfl) (by decide)
  · rintro ts rfl
    exact absurd (h _ rfl) (by decide)

/-- **A primary is read at every level**, if no operator of these levels follows. -/
theorem IsPrimary.level (h : IsPrimary ts e) (hn : 16 * ts.length + ls.length ≤ n)
    (hlinks : Avoids links rest) (hcont : ∀ l ∈ ls, Avoids l.continues rest) :
    level n ls (ts ++ rest) = some (e, rest) := by
  obtain ⟨t, ts', hts, hstart⟩ := h.starts
  have hpos : 0 < ts.length := by
    rw [hts]
    exact Nat.succ_pos _
  -- from the tightest level outwards: none of the levels opens at a primary
  induction ls generalizing n with
  | nil =>
    obtain ⟨k, hk, hread⟩ := h.reads n rest hn fun ps hps => by
      exact Bool.noConfusion (hlinks _ hps)
    obtain ⟨k, rfl⟩ := Nat.exists_eq_succ_of_ne_zero (by omega : k ≠ 0)
    rw [hread, trailers_of_not_links hlinks]
  | cons l ls ih =>
    rw [List.length_cons] at hn
    obtain ⟨n, rfl⟩ : ∃ k, n = k + 1 := ⟨n - 1, by omega⟩
    refine level_pass (ih (by omega) fun l hl => hcont l (List.mem_cons_of_mem _ hl)) ?_
      (hcont l List.mem_cons_self)
    intro t' ht'
    rw [hts] at ht'
    cases ht'
    exact opens_eq_false hstart l

/-- What ends an expression goes on with no operation. -/
theorem avoids_of_ends {t : CodeToken} (h : ends t = true) :
    links t = false ∧ ∀ l ∈ levels, l.continues t = false := by
  cases t with
  | op o =>
    obtain rfl | rfl | rfl := of_decide_eq_true h <;> decide
  | _ => cases h

theorem ends_eq_false {t : CodeToken} (h : starts t = true) : ends t = false := by
  cases t with
  | op o => obtain rfl | rfl := of_decide_eq_true h <;> rfl
  | _ => rfl

theorem IsPrimary.isFull (h : IsPrimary ts e) : IsFull ts e := by
  obtain ⟨t, ts', hts, hstart⟩ := h.starts
  refine ⟨⟨t, ts', hts, ends_eq_false hstart⟩, fun n rest hn hends => ?_⟩
  exact h.level (Nat.le_trans (Nat.add_le_add_left (by decide) _) hn)
    (fun t ht => (avoids_of_ends (hends t ht)).1)
    fun l hl t ht => (avoids_of_ends (hends t ht)).2 l hl

/-! ## Operations -/

section Operations

variable {o w : String} {a b : List CodeToken} {ea eb : CodeExpr}

/-- Looser levels than that of an operation are passed. -/
theorem level_before (h : level n ls ts = some (e, rest))
    (hopen : ∀ l ∈ before, Avoids l.opens ts) (hcont : ∀ l ∈ before, Avoids l.continues rest) :
    level (n + before.length) (before ++ ls) ts = some (e, rest) := by
  induction before with
  | nil => exact h
  | cons l before ih =>
    exact level_pass (ih (fun l hl => hopen l (List.mem_cons_of_mem _ hl)) fun l hl =>
      hcont l (List.mem_cons_of_mem _ hl)) (hopen l List.mem_cons_self) (hcont l List.mem_cons_self)

theorem length_before_after (hlevels : levels = before ++ l :: after) :
    before.length + after.length = 11 := by
  have := congrArg List.length hlevels
  simp only [levels, List.length_append, List.length_cons, List.length_nil] at this
  omega

/-- **An operation is an expression** if it is read at its own level. -/
theorem isFull_of_level (hlevels : levels = before ++ l :: after)
    (hstart : ∃ t ts', ts = t :: ts' ∧ ends t = false ∧ ∀ l ∈ before, l.opens t = false)
    (h : ∀ n rest, 16 * ts.length ≤ n → (∀ t, rest.head? = some t → ends t = true) →
      level n (l :: after) (ts ++ rest) = some (e, rest)) : IsFull ts e := by
  obtain ⟨t, ts', hts, hends, hopen⟩ := hstart
  have hlen := length_before_after hlevels
  refine ⟨⟨t, ts', hts, hends⟩, fun n rest hn hrest => ?_⟩
  obtain ⟨n, rfl⟩ : ∃ k, n = k + before.length := ⟨n - before.length, by omega⟩
  rw [hlevels]
  refine level_before (h n rest (by omega) hrest) (fun l hl t' ht' => ?_) fun l hl t ht => ?_
  · rw [hts] at ht'
    cases ht'
    exact hopen l hl
  · exact (avoids_of_ends (hrest t ht)).2 l (hlevels ▸ List.mem_append_left _ hl)

/-- The left operand of an operation ends at its operator. -/
theorem IsPrimary.left (ha : IsPrimary a ea) {t : CodeToken} (hn : 16 * a.length + 11 ≤ n)
    (hlevels : levels = before ++ l :: after) (hlink : links t = false)
    (hafter : ∀ l ∈ after, l.continues t = false) :
    CodeExpr.level n after (a ++ t :: ts) = some (ea, t :: ts) := by
  have hlen := length_before_after hlevels
  exact ha.level (by omega) (fun t' ht' => by cases ht'; exact hlink) fun l hl t' ht' => by
    cases ht'
    exact hafter l hl

/-- The right operand of an operation ends where the operation does. -/
theorem IsPrimary.right (hb : IsPrimary b eb) (hn : 16 * b.length + 11 ≤ n)
    (hlevels : levels = before ++ l :: after)
    (hrest : ∀ t, rest.head? = some t → ends t = true) :
    CodeExpr.level n after (b ++ rest) = some (eb, rest) := by
  have hlen := length_before_after hlevels
  exact hb.level (by omega) (fun t ht => (avoids_of_ends (hrest t ht)).1) fun l hl t ht =>
    (avoids_of_ends (hrest t ht)).2 l
      (hlevels ▸ List.mem_append_right _ (List.mem_cons_of_mem _ hl))

/-- An operation starts as its left operand does. -/
theorem IsPrimary.starts_append (ha : IsPrimary a ea) (b : List CodeToken) (before : List Level) :
    ∃ t ts', a ++ b = t :: ts' ∧ ends t = false ∧ ∀ l ∈ before, l.opens t = false := by
  obtain ⟨t, ts', hts, hstart⟩ := ha.starts
  exact ⟨t, ts' ++ b, by rw [hts]; rfl, ends_eq_false hstart, fun l _ => opens_eq_false hstart l⟩

theorem IsPrimary.length_pos (ha : IsPrimary a ea) : 0 < a.length := by
  obtain ⟨t, ts', hts, -⟩ := ha.starts
  rw [hts]
  exact Nat.succ_pos _

/-- **Two primaries and an operator between them.** -/
theorem isFull_binary {ops : List String} (hlevels : levels = before ++ .binary ops :: after)
    (ho : o ∈ ops) (hlink : links (.op o) = false)
    (hafter : ∀ l ∈ after, l.continues (.op o) = false)
    (ha : IsPrimary a ea) (hb : IsPrimary b eb) :
    IsFull (a ++ .op o :: b) (binary o ea eb) := by
  have hpos := ha.length_pos
  refine isFull_of_level hlevels (ha.starts_append _ _) fun n rest hn hrest => ?_
  rw [List.length_append, List.length_cons] at hn
  obtain ⟨n, rfl⟩ : ∃ k, n = k + 3 := ⟨n - 3, by omega⟩
  have hsome : operator? ops (.op o :: (b ++ rest)) = some o := if_pos ho
  have hnone : operator? ops rest = none := operator?_eq_none fun o' ho' => by
    have := (avoids_of_ends (hrest _ ho')).2 (.binary ops) (hlevels ▸ by simp)
    simpa [Level.continues] using this
  rw [level, List.append_assoc, List.cons_append, ha.left (by omega) hlevels hlink hafter,
    Option.bind_some, chained, hsome]
  dsimp only
  rw [List.tail_cons, hb.right (by omega) hlevels hrest, Option.bind_some, chained, hnone]

/-- **Two primaries and a comparison between them**: a chain of one. -/
theorem isFull_compare (ho : o ∈ comparisons) (ha : IsPrimary a ea) (hb : IsPrimary b eb) :
    IsFull (a ++ .op o :: b) (compare ea [(o, eb)]) := by
  have hlevels : levels = levels.take 3 ++ .comparison :: levels.drop 4 := rfl
  have hop : ∀ o ∈ comparisons, links (.op o) = false ∧
      ∀ l ∈ levels.drop 4, l.continues (.op o) = false := by decide
  have hpos := ha.length_pos
  refine isFull_of_level hlevels (ha.starts_append _ _) fun n rest hn hrest => ?_
  rw [List.length_append, List.length_cons] at hn
  obtain ⟨n, rfl⟩ : ∃ k, n = k + 3 := ⟨n - 3, by omega⟩
  have hsome : comparison? (.op o :: (b ++ rest)) = some (o, b ++ rest) := if_pos ho
  -- the chain ends here, as no comparison follows the right operand
  have hnone : comparison? rest = none := comparison?_eq_none fun t ht =>
    (avoids_of_ends (hrest t ht)).2 .comparison (by decide)
  rw [level, List.append_assoc, List.cons_append,
    ha.left (by omega) hlevels (hop o ho).1 (hop o ho).2, Option.bind_some, compared, hsome]
  dsimp only
  rw [hb.right (by omega) hlevels hrest, Option.bind_some, compared, hnone]
  rfl

/-- **Two primaries and a word that joins them.** -/
theorem isFull_junction (hlevels : levels = before ++ .junction w :: after)
    (hafter : ∀ l ∈ after, l.continues (.word w) = false)
    (ha : IsPrimary a ea) (hb : IsPrimary b eb) :
    IsFull (a ++ .word w :: b) (junction w [ea, eb]) := by
  have hpos := ha.length_pos
  refine isFull_of_level hlevels (ha.starts_append _ _) fun n rest hn hrest => ?_
  rw [List.length_append, List.length_cons] at hn
  obtain ⟨n, rfl⟩ : ∃ k, n = k + 3 := ⟨n - 3, by omega⟩
  have hnone : rest.head? ≠ some (.word w) := fun h => by
    have := hrest _ h
    cases this
  rw [level, List.append_assoc, List.cons_append, ha.left (by omega) hlevels rfl hafter,
    Option.bind_some, operands]
  dsimp only
  rw [List.head?_cons, if_pos rfl, List.tail_cons, hb.right (by omega) hlevels hrest,
    Option.bind_some, operands, if_neg hnone]
  rfl

/-- **A primary after `not`.** -/
theorem isFull_not (ha : IsPrimary a ea) : IsFull (.word "not" :: a) (unary "not" ea) := by
  have hlevels : levels = levels.take 2 ++ .inversion :: levels.drop 3 := rfl
  refine isFull_of_level hlevels ⟨_, a, rfl, rfl, by decide⟩ fun n rest hn hrest => ?_
  rw [List.length_cons] at hn
  obtain ⟨n, rfl⟩ : ∃ k, n = k + 1 := ⟨n - 1, by omega⟩
  have hin : ∀ l ∈ .inversion :: levels.drop 3, l ∈ levels := by decide
  have hread : level n (.inversion :: levels.drop 3) (a ++ rest) = some (ea, rest) :=
    ha.level (by simp [levels]; omega) (fun t ht => (avoids_of_ends (hrest t ht)).1)
      fun l hl t ht => (avoids_of_ends (hrest t ht)).2 l (hin l hl)
  rw [level, List.cons_append, List.head?_cons, if_pos rfl, List.tail_cons, hread]
  rfl

/-- **A primary after a sign.** -/
theorem isFull_sign (ho : o ∈ signs) (ha : IsPrimary a ea) : IsFull (.op o :: a) (unary o ea) := by
  have hlevels : levels = levels.take 10 ++ .sign :: levels.drop 11 := rfl
  have hop : ∀ o ∈ signs, ends (.op o) = false ∧
      ∀ l ∈ levels.take 10, l.opens (.op o) = false := by decide
  refine isFull_of_level hlevels ⟨_, a, rfl, (hop o ho).1, (hop o ho).2⟩ fun n rest hn hrest => ?_
  rw [List.length_cons] at hn
  obtain ⟨n, rfl⟩ : ∃ k, n = k + 1 := ⟨n - 1, by omega⟩
  have hin : ∀ l ∈ .sign :: levels.drop 11, l ∈ levels := by decide
  have hread : level n (.sign :: levels.drop 11) (a ++ rest) = some (ea, rest) :=
    ha.level (by simp [levels]; omega) (fun t ht => (avoids_of_ends (hrest t ht)).1)
      fun l hl t ht => (avoids_of_ends (hrest t ht)).2 l (hin l hl)
  have hsome : operator? signs (.op o :: (a ++ rest)) = some o := if_pos ho
  rw [level, List.cons_append, hsome]
  dsimp only
  rw [List.tail_cons, hread]
  rfl

end Operations

/-! ## Items -/

section Items

variable {a : List CodeToken} {ea : CodeExpr}

theorem IsFull.length_pos (ha : IsFull a ea) : 0 < a.length := by
  obtain ⟨t, ts', hts, -⟩ := ha.starts
  rw [hts]
  exact Nat.succ_pos _

/-- An expression does not start with a closing bracket. -/
theorem IsFull.head?_ne (ha : IsFull a ea) {t : CodeToken} (ht : ends t = true) :
    (a ++ rest).head? ≠ some t := by
  obtain ⟨t', ts', rfl, hends⟩ := ha.starts
  intro h
  cases h
  rw [hends] at ht
  cases ht

theorem ends_closing {closing : String} (h : closing ∈ [")", "]"]) :
    ends (.op closing) = true ∧ closing ≠ "," := by
  revert closing
  decide

theorem isItems_nil : IsItems [] [] := by
  intro closing _ n rest hn
  obtain ⟨n, rfl⟩ : ∃ k, n = k + 1 := ⟨n - 1, by omega⟩
  rw [items, List.nil_append, List.head?_cons, if_pos rfl]
  rfl

theorem isItems_single (ha : IsFull a ea) : IsItems a [ea] := by
  intro closing hc n rest hn
  obtain ⟨n, rfl⟩ : ∃ k, n = k + 1 := ⟨n - 1, by omega⟩
  have hends := ends_closing hc
  rw [items, if_neg (ha.head?_ne hends.1), ha.reads n _ (by omega) (fun t ht => by
    cases ht
    exact hends.1), Option.bind_some]
  dsimp only
  rw [List.head?_cons, if_neg (by simp [hends.2]), if_pos rfl]
  rfl

theorem isItems_cons (ha : IsFull a ea) (h : IsItems ts es) :
    IsItems (a ++ .op "," :: ts) (ea :: es) := by
  intro closing hc n rest hn
  rw [List.length_append, List.length_cons] at hn
  obtain ⟨n, rfl⟩ : ∃ k, n = k + 1 := ⟨n - 1, by omega⟩
  rw [List.append_assoc, List.cons_append, items, if_neg (ha.head?_ne (ends_closing hc).1),
    ha.reads n _ (by omega) (fun t ht => by cases ht; rfl), Option.bind_some]
  dsimp only
  rw [List.head?_cons, if_pos rfl, List.tail_cons, h closing hc n rest (by omega)]
  rfl

end Items

/-! ## Primaries -/

section Primaries

variable {a b : List CodeToken} {ea eb : CodeExpr} {m : String}

/-- An atom is a primary. -/
theorem isPrimary_of_atom {t : CodeToken} (hstart : starts t = true)
    (h : ∀ n rest, 16 * (t :: ts).length ≤ n + 1 → (∀ ps, rest.head? ≠ some (.text ps)) →
      atom n (t :: ts ++ rest) = some (e, rest)) : IsPrimary (t :: ts) e := by
  refine ⟨⟨t, ts, rfl, hstart⟩, fun n rest hn hrest => ?_⟩
  rw [List.length_cons] at hn
  obtain ⟨n, rfl⟩ : ∃ k, n = k + 1 := ⟨n - 1, by omega⟩
  refine ⟨n, by rw [List.length_cons]; omega, ?_⟩
  rw [level, h n rest hn hrest, Option.bind_some]

theorem isPrimary_int (m : Nat) : IsPrimary [.int m] (int m) :=
  isPrimary_of_atom rfl fun n rest hn _ => by
    obtain ⟨n, rfl⟩ : ∃ k, n = k + 1 := ⟨n - 1, by simp at hn; omega⟩
    rw [List.singleton_append, atom]

theorem isPrimary_float (x : Binary64) : IsPrimary [.float x] (float x) :=
  isPrimary_of_atom rfl fun n rest hn _ => by
    obtain ⟨n, rfl⟩ : ∃ k, n = k + 1 := ⟨n - 1, by simp at hn; omega⟩
    rw [List.singleton_append, atom]

/-- A text is a primary, as no text follows it. -/
theorem isPrimary_text (ps : List CodePoint) : IsPrimary [.text ps] (text ps) :=
  isPrimary_of_atom rfl fun n rest hn hrest => by
    obtain ⟨n, rfl⟩ : ∃ k, n = k + 1 := ⟨n - 1, by simp at hn; omega⟩
    have htexts : texts rest = ([], rest) := by
      unfold texts
      split
      · exact absurd rfl (hrest _)
      · rfl
    rw [List.singleton_append, atom, htexts, List.append_nil]

theorem isPrimary_word (hstart : m ≠ "not") (h : ofWord? m = some e) : IsPrimary [.word m] e :=
  isPrimary_of_atom (decide_eq_true hstart) fun n rest hn _ => by
    obtain ⟨n, rfl⟩ : ∃ k, n = k + 1 := ⟨n - 1, by simp at hn; omega⟩
    rw [List.singleton_append, atom, h]
    rfl

/-- A word that is not reserved is a name. -/
theorem isPrimary_name (h : isReserved m = false) : IsPrimary [.word m] (name m) := by
  have hne : ∀ w, isReserved w = true → m ≠ w := fun w hw he => by
    rw [he, hw] at h
    cases h
  refine isPrimary_word (hne _ (by decide +kernel)) ?_
  rw [ofWord?, if_neg (hne _ (by decide +kernel)), if_neg (hne _ (by decide +kernel)),
    if_neg (hne _ (by decide +kernel)), if_neg (by simp [h])]

/-- **An expression in parentheses** is a primary. -/
theorem IsFull.paren (ha : IsFull a ea) : IsPrimary (.op "(" :: (a ++ [.op ")"])) ea := by
  refine isPrimary_of_atom rfl fun n rest hn _ => ?_
  rw [List.length_cons, List.length_append, List.length_singleton] at hn
  obtain ⟨n, rfl⟩ : ∃ k, n = k + 1 := ⟨n - 1, by omega⟩
  rw [List.cons_append, List.append_assoc, List.singleton_append, atom,
    ha.reads n _ (by omega) (fun t ht => by cases ht; rfl), Option.bind_some]
  · rfl
  · intro ts h
    exact ha.head?_ne rfl (by rw [h]; rfl)

/-- A list of items in brackets. -/
theorem IsItems.list (ha : IsItems a es) : IsPrimary (.op "[" :: (a ++ [.op "]"])) (list es) := by
  refine isPrimary_of_atom rfl fun n rest hn _ => ?_
  rw [List.length_cons, List.length_append, List.length_singleton] at hn
  obtain ⟨n, rfl⟩ : ∃ k, n = k + 1 := ⟨n - 1, by omega⟩
  rw [List.cons_append, List.append_assoc, List.singleton_append, atom,
    ha "]" (by simp) n rest (by omega)]
  rfl

/-- **A tuple**: an item, a comma and more items, or none. -/
theorem IsFull.tuple (ha : IsFull a ea) (h : IsItems ts es) :
    IsPrimary (.op "(" :: (a ++ .op "," :: (ts ++ [.op ")"]))) (tuple (ea :: es)) := by
  refine isPrimary_of_atom rfl fun n rest hn _ => ?_
  simp only [List.length_cons, List.length_append, List.length_nil] at hn
  obtain ⟨n, rfl⟩ : ∃ k, n = k + 1 := ⟨n - 1, by omega⟩
  rw [List.cons_append, List.append_assoc, List.cons_append, List.append_assoc,
    List.singleton_append, atom, ha.reads n _ (by omega) (fun t ht => by cases ht; rfl),
    Option.bind_some]
  · dsimp only
    rw [List.head?_cons, if_neg (by simp), if_pos rfl, List.tail_cons,
      h ")" (by simp) n rest (by omega)]
    rfl
  · intro ts h
    exact ha.head?_ne rfl (by rw [h]; rfl)

theorem isPrimary_unit : IsPrimary [.op "(", .op ")"] (CodeExpr.tuple []) := by
  refine isPrimary_of_atom rfl fun n rest hn _ => ?_
  obtain ⟨n, rfl⟩ : ∃ k, n = k + 1 := ⟨n - 1, by simp at hn; omega⟩
  rw [List.cons_append, List.cons_append, List.nil_append, atom]

/-- **A primary with links** is one. -/
theorem IsPrimary.links (ha : IsPrimary a ea) {t : CodeToken} (ht : ∀ ps, t ≠ .text ps)
    (h : ∀ k rest, 16 * (t :: ts).length ≤ k → ∃ k', k ≤ k' + (t :: ts).length ∧
      trailers k ea (t :: ts ++ rest) = trailers k' e rest) : IsPrimary (a ++ t :: ts) e := by
  obtain ⟨t', ts', hts, hstart⟩ := ha.starts
  refine ⟨⟨t', ts' ++ t :: ts, by rw [hts]; rfl, hstart⟩, fun n rest hn _ => ?_⟩
  rw [List.length_append] at hn
  have hpos := ha.length_pos
  obtain ⟨k, hk, hread⟩ := ha.reads n (t :: ts ++ rest) (by omega) fun ps hps => by
    cases hps
    exact ht ps rfl
  obtain ⟨k', hk', hlinks⟩ := h k rest (by omega)
  refine ⟨k', by rw [List.length_append]; omega, ?_⟩
  rw [List.append_assoc, hread, hlinks]

theorem IsPrimary.member (ha : IsPrimary a ea) (hm : isReserved m = false) :
    IsPrimary (a ++ [.op ".", .word m]) (member ea m) := by
  refine ha.links (by simp) fun k rest hk => ?_
  simp only [List.length_cons, List.length_nil] at hk ⊢
  obtain ⟨k, rfl⟩ : ∃ k', k = k' + 1 := ⟨k - 1, by omega⟩
  refine ⟨k, by omega, ?_⟩
  rw [List.cons_append, List.singleton_append, trailers, if_neg (by simp [hm])]

theorem IsPrimary.call (ha : IsPrimary a ea) (h : IsItems ts es) :
    IsPrimary (a ++ .op "(" :: (ts ++ [.op ")"])) (call ea es) := by
  refine ha.links (by simp) fun k rest hk => ?_
  simp only [List.length_cons, List.length_append, List.length_nil] at hk ⊢
  obtain ⟨k, rfl⟩ : ∃ k', k = k' + 1 := ⟨k - 1, by omega⟩
  refine ⟨k, by omega, ?_⟩
  rw [List.cons_append, List.append_assoc, List.singleton_append, trailers,
    h ")" (by simp) k rest (by omega), Option.bind_some]

theorem IsPrimary.subscript (ha : IsPrimary a ea) (hb : IsFull b eb) :
    IsPrimary (a ++ .op "[" :: (b ++ [.op "]"])) (subscript ea eb) := by
  refine ha.links (by simp) fun k rest hk => ?_
  simp only [List.length_cons, List.length_append, List.length_nil] at hk ⊢
  obtain ⟨k, rfl⟩ : ∃ k', k = k' + 1 := ⟨k - 1, by omega⟩
  refine ⟨k, by omega, ?_⟩
  rw [List.cons_append, List.append_assoc, List.singleton_append, trailers,
    hb.reads k _ (by omega) (fun t ht => by cases ht; rfl), Option.bind_some]
  rfl

end Primaries

end Stencil.CodeExpr
