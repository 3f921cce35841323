import Stencil.Proofs.ExprLevels
import Stencil.Proofs.ReadExpr

/-!
# Printed expressions are read back

* `Expr.Read.reads_binary`, `Expr.Read.reads_method`, ...: the forms of expressions, each from its
  parts.
* **`Expr.Read.reads`**: every printable expression is read wherever it may stand.
* **`Expr.readExpression_print`**: reading the text of an expression gives the expression.
* `Expr.fits_of_parse`: what a whole text is read as.
* `Expr.exists_parse_print`: the text of an expression is read as that expression.
* **`Expr.parse_levelled`**: among the trees of expressions, the levelled ones are those that reading
  a text can give, and each of them has a text that gives nothing else.
-/

namespace Stencil.Expr

open Text

namespace Read

variable {d : Nat}

/-! ## Atoms -/

theorem reads_literal {p : Nat} {v : Literal} (h : v.Unsigned ∧ v.Plain) :
    ReadsPrimary d (.literal p v) := by
  intro s pos rest hs hr
  have hp : 0 < (Expr.literal p v).print.length := length_print_pos (d := d) h
  obtain ⟨s, rfl⟩ : ∃ k, s = k + 1 := Nat.exists_eq_succ_of_ne_zero (by omega)
  rw [primary, print, Cursor.peek_of_scan (Literal.scan_print h.2 h.1 hr.parted) v.kind_ne.1]
  simp only [Literal.ofToken_print h.2 h.1, Except.ok_bind]
  exact ⟨_, _, rfl, rfl⟩

theorem primary_path (s pos : Nat) (n : String) (ns : List String) {rest : List Char}
    (h : ∀ m ∈ n :: ns, IsName m) (hs : ns.length < s) (hr : Apart rest) : ∃ pos',
    primary (s + 1) true d ⟨pos, printPath (n :: ns) ++ rest⟩ =
      .ok (ofPath pos (n :: ns), ⟨pos', rest⟩) := by
  obtain ⟨r, hscan⟩ := scan_printPath ns (h n List.mem_cons_self) hr.wordless
  obtain ⟨pos', hpath⟩ := path_print h hs hr.wordless (.of_apart hr) true pos
  refine ⟨pos', ?_⟩
  rw [primary, Cursor.peek_of_scan hscan (by decide)]
  show (path s true _ >>= _) = _
  rw [hpath]
  rfl

theorem reads_name {p : Nat} {n : String} (h : IsName n) : ReadsPrimary d (.name p n) := by
  intro s pos rest hs hr
  have hp : 0 < (Expr.name p n).print.length := length_print_pos (d := d) h
  obtain ⟨s, rfl⟩ : ∃ k, s = k + 1 := Nat.exists_eq_succ_of_ne_zero (by omega)
  obtain ⟨pos', he⟩ := primary_path (d := d) s pos n []
    (by simpa using h) (by simp only [List.length_nil]; omega) hr
  exact ⟨_, pos', he, rfl⟩

theorem reads_path {p : Nat} {ps : List String} (hl : 2 ≤ ps.length) (h : ∀ n ∈ ps, IsName n) :
    ReadsPrimary d (.path p ps) := by
  intro s pos rest hs hr
  match ps, hl with
  | n :: m :: ms, _ =>
    have hlen := length_le_printPath h
    rw [print] at hs
    simp only [List.length_cons] at hlen
    obtain ⟨s, rfl⟩ : ∃ k, s = k + 1 := Nat.exists_eq_succ_of_ne_zero (by omega)
    obtain ⟨pos', he⟩ := primary_path (d := d) s pos n (m :: ms) h
      (by simp only [List.length_cons]; omega) hr
    exact ⟨_, pos', he, rfl⟩

/-! ## Items -/

theorem isOp_next {pos : Nat} {cs : List Char} (o : String) :
    ((⟨pos, cs⟩ : Cursor).peek true).1.isOp o = (next cs).isOp o := rfl

theorem not_close_print {e : Expr} (h : e.Printable d) {rest : List Char} (hr : Apart rest)
    {closing : Char} (hc : closing = ')' ∨ closing = ']') :
    (next (e.print ++ rest)).isOp closing.toString = false := by
  have hopen := (next_print h hr).1
  rcases hc with rfl | rfl <;>
    exact not_op_of_opens hopen (by decide) (by decide) (by decide)

theorem scan_closing {closing : Char} (hc : closing = ')' ∨ closing = ']') (rest : List Char) :
    scan (closing :: rest) = ⟨.op, [closing], rest⟩ := by
  rcases hc with rfl | rfl <;> rfl

theorem closes_close {closing : Char} (hc : closing = ')' ∨ closing = ']') (rest : List Char) :
    Closes (' ' :: closing :: rest) := by
  refine .of_next (.space _) ?_
  rcases hc with rfl | rfl <;> rfl

theorem closes_comma (rest : List Char) : Closes (' ' :: ',' :: ' ' :: rest) :=
  .of_next (.space _) rfl

theorem itemsRest_space {s pos : Nat} {closing : Char} {cs : List Char} :
    itemsRest s d closing ⟨pos, ' ' :: cs⟩ = itemsRest s d closing ⟨pos + 1, cs⟩ := by
  cases s with
  | zero => rfl
  | succ s => rw [itemsRest, itemsRest, peek_after_space, expression_space]

/-- **The items of a list are read**, each with what follows it. -/
theorem reads_items {es : List Expr} (hp : PrintableAll d es) (h : ∀ e ∈ es, ReadsWhole d e) :
    ReadsItems d es := by
  induction es with
  | nil =>
    intro s pos rest closing hc hs
    obtain ⟨s, rfl⟩ : ∃ k, s = k + 1 := Nat.exists_eq_succ_of_ne_zero (by omega)
    have hop : (⟨.op, [closing], pos⟩ : Token).isOp closing.toString = true := by
      rcases hc with rfl | rfl <;> rfl
    rw [printItems, List.nil_append, itemsRest,
      Cursor.peek_of_scan (scan_closing hc rest) (by decide)]
    simp only [hop, if_true]
    exact ⟨[], _, rfl, rfl⟩
  | cons e es ih =>
    intro s pos rest closing hc hs
    obtain ⟨s, rfl⟩ : ∃ k, s = k + 1 := Nat.exists_eq_succ_of_ne_zero (by omega)
    have ih := ih hp.2 fun e' he => h e' (List.mem_cons_of_mem _ he)
    rw [printItems] at hs ⊢
    simp only [List.length_append, List.length_cons] at hs
    rw [List.append_assoc, List.cons_append]
    have hfirst := not_close_print hp.1 (Apart.space ((if es.isEmpty then [] else [',', ' ']) ++
      printItems es ++ closing :: rest)) hc
    rw [itemsRest]
    simp only [isOp_next, hfirst]
    cases es with
    | nil =>
      obtain ⟨e', pos', he, hu⟩ := h e List.mem_cons_self s pos (' ' :: closing :: rest) (by omega)
        (closes_close hc rest)
      have hcomma : (⟨.op, [closing], pos' + 1⟩ : Token).isOp "," = false := by
        rcases hc with rfl | rfl <;> rfl
      have hclose : (⟨.op, [closing], pos' + 1⟩ : Token).isOp closing.toString = true := by
        rcases hc with rfl | rfl <;> rfl
      simp only [List.isEmpty_nil, if_true, printItems, List.append_nil, List.nil_append, he,
        Except.ok_bind, Cursor.peek_space (scan_closing hc rest) (by decide : TokenKind.op ≠ .blank),
        hcomma, hclose]
      refine ⟨[e'], _, rfl, ?_⟩
      rw [unplacedAll, unplacedAll, unplacedAll, unplacedAll, hu]
    | cons e₂ es =>
      obtain ⟨e', pos', he, hu⟩ := h e List.mem_cons_self s pos
        (' ' :: ',' :: ' ' :: (printItems (e₂ :: es) ++ closing :: rest)) (by omega)
        (closes_comma _)
      have hcomma : scan (',' :: ' ' :: (printItems (e₂ :: es) ++ closing :: rest)) =
          ⟨.op, [','], ' ' :: (printItems (e₂ :: es) ++ closing :: rest)⟩ := rfl
      have hop : (⟨.op, [','], pos' + 1⟩ : Token).isOp "," = true := rfl
      simp only [List.length_cons, List.length_nil, List.isEmpty_cons, Bool.false_eq_true,
        if_false] at hs
      obtain ⟨es', pos'', hes, hus⟩ := ih s (pos' + 1 + [','].length + 1) rest closing hc (by omega)
      simp only [List.isEmpty_cons, Bool.false_eq_true, if_false, List.cons_append, List.nil_append,
        he, Except.ok_bind, Cursor.peek_space hcomma (by decide), hop, if_true, itemsRest_space, hes]
      refine ⟨e' :: es', pos'', rfl, ?_⟩
      rw [unplacedAll, unplacedAll, hu, hus]

theorem tupleRest_end {s pos : Nat} {rest : List Char} :
    tupleRest (s + 1) d ⟨pos, ' ' :: ')' :: rest⟩ = .ok ([], ⟨pos + 2, rest⟩) := by
  rw [tupleRest, Cursor.peek_space (scan_close rest) (by decide)]
  rfl

/-- The items of a tuple are read, each after its comma. -/
theorem reads_tuple {es : List Expr} (hne : es ≠ []) (hp : PrintableAll d es)
    (h : ∀ e ∈ es, ReadsWhole d e) : ReadsTuple d es := by
  induction es with
  | nil => exact absurd rfl hne
  | cons e es ih =>
    intro s pos rest hs
    rw [printItems] at hs ⊢
    simp only [List.length_append, List.length_cons] at hs
    obtain ⟨s, rfl⟩ : ∃ k, s = k + 2 := ⟨s - 2, by omega⟩
    have hcomma : scan (',' :: ' ' :: (e.print ++ ' ' :: ((if es.isEmpty then [] else [',', ' ']) ++
        printItems es) ++ ')' :: rest)) = ⟨.op, [','], ' ' :: (e.print ++ ' ' ::
          ((if es.isEmpty then [] else [',', ' ']) ++ printItems es) ++ ')' :: rest)⟩ := rfl
    have hop : (⟨.op, [','], pos + 1⟩ : Token).isOp "," = true := rfl
    have hfirst := not_close_print hp.1 (Apart.space ((if es.isEmpty then [] else [',', ' ']) ++
      printItems es ++ ')' :: rest)) (.inl rfl)
    rw [tupleRest, Cursor.peek_space hcomma (by decide)]
    rw [List.append_assoc, List.cons_append]
    simp only [hop, if_true, peek_after_space, expression_space, isOp_next]
    rw [show (next _).isOp ")" = false from hfirst, if_neg (by decide)]
    cases es with
    | nil =>
      obtain ⟨e', pos', he, hu⟩ := h e List.mem_cons_self (s + 1) (pos + 1 + [','].length + 1)
        (' ' :: ')' :: rest) (by omega) (closes_close (.inl rfl) rest)
      simp only [List.isEmpty_nil, if_true, printItems, List.append_nil, List.nil_append, he,
        Except.ok_bind, tupleRest_end]
      refine ⟨[e'], _, rfl, ?_⟩
      rw [unplacedAll, unplacedAll, unplacedAll, unplacedAll, hu]
    | cons e₂ es =>
      obtain ⟨e', pos', he, hu⟩ := h e List.mem_cons_self (s + 1) (pos + 1 + [','].length + 1)
        (' ' :: ',' :: ' ' :: (printItems (e₂ :: es) ++ ')' :: rest)) (by omega) (closes_comma _)
      simp only [List.length_cons, List.length_nil, List.isEmpty_cons, Bool.false_eq_true,
        if_false] at hs
      obtain ⟨es', pos'', hes, hus⟩ := ih (List.cons_ne_nil _ _) hp.2
        (fun e' he => h e' (List.mem_cons_of_mem _ he)) (s + 1) pos' rest (by omega)
      simp only [List.isEmpty_cons, Bool.false_eq_true, if_false, List.cons_append, List.nil_append,
        he, Except.ok_bind, hes]
      refine ⟨e' :: es', pos'', rfl, ?_⟩
      rw [unplacedAll, unplacedAll, hu, hus]

/-! ## Brackets -/

/-- The text of a tuple after its items. -/
def tupleEnd (es : List Expr) : List Char := if es.length = 1 then [',', ' ', ')'] else [')']

section Parenthesis

variable {s : Nat} (pos position : Nat)

/-- **A group is read** after its parenthesis, whatever follows it. -/
theorem parenthesized_group {e : Expr} (hp : e.Printable d) (h : ReadsWhole d e)
    (hs : 16 * e.print.length + 16 ≤ s) (rest : List Char) :
    ∃ e' pos', e'.unplaced = e.unplaced ∧
      parenthesized s d position ⟨pos, ' ' :: (e.print ++ ' ' :: ')' :: rest)⟩ =
        .ok (.group position e', ⟨pos', rest⟩) := by
  obtain ⟨s, rfl⟩ : ∃ k, s = k + 1 := Nat.exists_eq_succ_of_ne_zero (by omega)
  have hfirst := not_close_print hp (Apart.space (')' :: rest)) (.inl rfl)
  obtain ⟨e', pos', he, hu⟩ := h s (pos + 1) (' ' :: ')' :: rest) (by omega)
    (closes_close (.inl rfl) rest)
  have hcomma : (⟨.op, [')'], pos' + 1⟩ : Token).isOp "," = false := rfl
  have hclose : (⟨.op, [')'], pos' + 1⟩ : Token).isOp ")" = true := rfl
  refine ⟨e', pos' + 1 + [')'].length, hu, ?_⟩
  rw [parenthesized]
  simp only [peek_after_space, expression_space, isOp_next]
  rw [show (next _).isOp ")" = false from hfirst, if_neg (by decide), he, Except.ok_bind]
  simp only [Cursor.peek_space (scan_close rest) (by decide : TokenKind.op ≠ .blank), hcomma,
    hclose]
  rfl

theorem tupleRest_one {rest : List Char} :
    tupleRest (s + 1) d ⟨pos, ' ' :: ',' :: ' ' :: ')' :: rest⟩ = .ok ([], ⟨pos + 4, rest⟩) := by
  have hcomma : scan (',' :: ' ' :: ')' :: rest) = ⟨.op, [','], ' ' :: ')' :: rest⟩ := rfl
  rw [tupleRest, Cursor.peek_space hcomma (by decide)]
  show (if ((⟨pos + 1 + [','].length, ' ' :: ')' :: rest⟩ : Cursor).peek true).1.isOp ")" then _
    else _) = _
  rw [Cursor.peek_space (scan_close rest) (by decide)]
  rfl

/-- The first item of a tuple in parentheses, up to the comma that tells it from a group. -/
theorem parenthesized_comma {e : Expr} (hp : e.Printable d) (h : ReadsWhole d e)
    (hs : 16 * e.print.length ≤ s) (cs : List Char) : ∃ e' pos', e'.unplaced = e.unplaced ∧
      parenthesized (s + 1) d position ⟨pos, ' ' :: (e.print ++ ' ' :: ',' :: ' ' :: cs)⟩ =
        (tupleRest s d ⟨pos', ' ' :: ',' :: ' ' :: cs⟩ >>= fun r =>
          .ok (.tuple position (e' :: r.1), r.2)) := by
  have hfirst := not_close_print hp (Apart.space (',' :: ' ' :: cs)) (.inl rfl)
  obtain ⟨e', pos', he, hu⟩ := h s (pos + 1) (' ' :: ',' :: ' ' :: cs) hs (closes_comma cs)
  have hcomma : scan (',' :: ' ' :: cs) = ⟨.op, [','], ' ' :: cs⟩ := rfl
  have hop : (⟨.op, [','], pos' + 1⟩ : Token).isOp "," = true := rfl
  refine ⟨e', pos', hu, ?_⟩
  rw [parenthesized]
  simp only [peek_after_space, expression_space, isOp_next]
  rw [show (next _).isOp ")" = false from hfirst, if_neg (by decide), he, Except.ok_bind]
  simp only [Cursor.peek_space hcomma (by decide : TokenKind.op ≠ .blank), hop, if_true]
  rfl

/-- **A tuple is read** after its parenthesis, whatever follows it. -/
theorem parenthesized_tuple {es : List Expr} (hp : PrintableAll d es)
    (h : ∀ e ∈ es, ReadsWhole d e) (hs : 16 * (printItems es).length + 32 ≤ s)
    (rest : List Char) :
    ∃ es' pos', unplacedAll es' = unplacedAll es ∧
      parenthesized s d position ⟨pos, ' ' :: (printItems es ++ (tupleEnd es ++ rest))⟩ =
        .ok (.tuple position es', ⟨pos', rest⟩) := by
  obtain ⟨s, rfl⟩ : ∃ k, s = k + 2 := ⟨s - 2, by omega⟩
  match es with
  | [] =>
    refine ⟨[], pos + 1 + [')'].length, rfl, ?_⟩
    show parenthesized _ _ _ ⟨pos, ' ' :: ')' :: rest⟩ = _
    rw [parenthesized, Cursor.peek_space (scan_close rest) (by decide)]
    rfl
  | [e] =>
    simp only [printItems, List.length_append, List.length_cons] at hs
    have htext : printItems [e] ++ (tupleEnd [e] ++ rest) =
        e.print ++ ' ' :: ',' :: ' ' :: ')' :: rest := by simp [printItems, tupleEnd]
    obtain ⟨e', pos', hu, he⟩ := parenthesized_comma (s := s + 1) pos position hp.1
      (h e List.mem_cons_self) (by omega) (')' :: rest)
    refine ⟨[e'], pos' + 4, by rw [unplacedAll, unplacedAll, unplacedAll, unplacedAll, hu], ?_⟩
    rw [htext, he, tupleRest_one]
    rfl
  | e :: e₂ :: es =>
    have htext : printItems (e :: e₂ :: es) ++ (tupleEnd (e :: e₂ :: es) ++ rest) =
        e.print ++ ' ' :: ',' :: ' ' :: (printItems (e₂ :: es) ++ ')' :: rest) := by
      simp [printItems, tupleEnd]
    have hlen : (printItems (e :: e₂ :: es)).length =
        e.print.length + 3 + (printItems (e₂ :: es)).length := by
      simp only [printItems, List.length_append, List.length_cons, List.isEmpty_cons,
        Bool.false_eq_true, if_false, List.length_nil]
      omega
    obtain ⟨e', pos', hu, he⟩ := parenthesized_comma (s := s + 1) pos position hp.1
      (h e List.mem_cons_self) (by omega) (printItems (e₂ :: es) ++ ')' :: rest)
    obtain ⟨es', pos'', hes, hus⟩ := reads_tuple (List.cons_ne_nil _ _) hp.2
      (fun e' he => h e' (List.mem_cons_of_mem _ he)) (s + 1) pos' rest (by omega)
    refine ⟨e' :: es', pos'', by rw [unplacedAll, unplacedAll, hu, hus], ?_⟩
    rw [htext, he, hes]
    rfl

end Parenthesis

/-- A group is read with or without white space around, whatever follows it. -/
theorem gives_group {p s pos : Nat} {e : Expr} (hd : d < maxDepth) (hp : e.Printable (d + 1))
    (h : ReadsWhole (d + 1) e) (hs : 16 * (Expr.group p e).print.length ≤ s + 9) (spaced : Bool)
    (rest : List Char) :
    Gives (primary s spaced d ⟨pos, (Expr.group p e).print ++ rest⟩) (.group p e) rest := by
  simp only [print, List.length_cons, List.length_append, List.length_nil] at hs
  obtain ⟨s, rfl⟩ : ∃ k, s = k + 1 := Nat.exists_eq_succ_of_ne_zero (by omega)
  obtain ⟨e', pos', hu, he⟩ := parenthesized_group (s := s) (pos + 1) pos hp h
    (by omega) rest
  refine ⟨.group pos e', pos', ?_, by rw [unplaced, unplaced, hu]⟩
  rw [print, List.cons_append, List.cons_append, List.append_assoc, primary_paren hd]
  exact he

theorem gives_tuple {p s pos : Nat} {es : List Expr} (hd : d < maxDepth)
    (hp : PrintableAll (d + 1) es) (h : ∀ e ∈ es, ReadsWhole (d + 1) e)
    (hs : 16 * (Expr.tuple p es).print.length ≤ s + 9) (spaced : Bool) (rest : List Char) :
    Gives (primary s spaced d ⟨pos, (Expr.tuple p es).print ++ rest⟩) (.tuple p es) rest := by
  have hend : 1 ≤ (if es.length = 1 then [',', ' ', ')'] else [')'] : List Char).length := by
    split <;> simp
  simp only [print, List.length_cons, List.length_append] at hs
  obtain ⟨s, rfl⟩ : ∃ k, s = k + 1 := Nat.exists_eq_succ_of_ne_zero (by omega)
  obtain ⟨es', pos', hu, he⟩ := parenthesized_tuple (s := s) (pos + 1) pos hp
    h (by omega) rest
  refine ⟨.tuple pos es', pos', ?_, by rw [unplaced, unplaced, hu]⟩
  rw [print, List.cons_append, List.cons_append, List.append_assoc, primary_paren hd]
  exact he

theorem reads_list {p : Nat} {es : List Expr} (hd : d < maxDepth) (hp : PrintableAll (d + 1) es)
    (h : ∀ e ∈ es, ReadsWhole (d + 1) e) : ReadsPrimary d (.list p es) := by
  intro s pos rest hs _
  simp only [print, List.length_cons, List.length_append, List.length_nil] at hs
  obtain ⟨s, rfl⟩ : ∃ k, s = k + 2 := ⟨s - 2, by omega⟩
  obtain ⟨es', pos', he, hu⟩ := reads_items hp h s (pos + 1 + 1) rest ']' (.inr rfl) (by omega)
  refine ⟨.list pos es', pos', ?_, by rw [unplaced, unplaced, hu]⟩
  rw [print, List.cons_append, List.cons_append, List.append_assoc, primary_bracket hd,
    itemsRest_space]
  show (itemsRest s (d + 1) ']' ⟨pos + 1 + 1, printItems es ++ ']' :: rest⟩ >>= _) = _
  rw [he]
  rfl

/-! ## Links -/

section Links

variable {p : Nat} {base : Expr}

/-- No call follows a point. -/
theorem no_paren_point {n : String} (hn : IsName n) (rest : List Char) :
    (next (' ' :: '.' :: (n.toList ++ rest))).isOp "(" = false := by
  rw [next_space (scan_point hn rest) (by decide)]
  rfl

theorem reads_field {n : String} (h : ReadsPostfixed d base) (hn : IsName n) :
    ReadsPostfixed d (.field p base n) := by
  intro s pos rest hs hr hopen
  simp only [print, List.length_cons, List.length_append] at hs ⊢
  obtain ⟨s', e', pos', hle, hu, he⟩ := h s pos (' ' :: '.' :: (n.toList ++ rest)) (by omega)
    (.space _) fun _ => no_paren_point hn rest
  obtain ⟨s', rfl⟩ : ∃ k, s' = k + 1 := Nat.exists_eq_succ_of_ne_zero (by omega)
  obtain ⟨pos'', hlink⟩ := links_point s' d pos' e' hn hr.wordless
  refine ⟨s', .field e'.position e' n, pos'', by omega, by rw [unplaced, unplaced, hu], ?_⟩
  rw [List.append_assoc, List.cons_append, List.cons_append, he, hlink, hopen rfl,
    if_neg (by decide)]

theorem items_space_open {s pos : Nat} {cs : List Char} (hd : d < maxDepth) :
    items (s + 1) true d ')' ⟨pos, ' ' :: '(' :: ' ' :: cs⟩ =
      itemsRest s (d + 1) ')' ⟨pos + 3, cs⟩ := by
  have ht : scan ('(' :: ' ' :: cs) = ⟨.op, ['('], ' ' :: cs⟩ := rfl
  rw [items, Cursor.peek_space ht (by decide)]
  show (enter d _ >>= _) = _
  rw [enter_ok hd]
  show itemsRest s (d + 1) ')' ⟨pos + 2, ' ' :: cs⟩ = _
  rw [itemsRest_space]

theorem reads_method {n : String} {es : List Expr} (h : ReadsPostfixed d base) (hn : IsName n)
    (hd : d < maxDepth) (hp : PrintableAll (d + 1) es) (hes : ∀ e ∈ es, ReadsWhole (d + 1) e) :
    ReadsPostfixed d (.method p base n es) := by
  intro s pos rest hs hr _
  simp only [print, List.length_cons, List.length_append, List.length_nil] at hs ⊢
  obtain ⟨s', e', pos', hle, hu, he⟩ := h s pos
    (' ' :: '.' :: (n.toList ++ ' ' :: '(' :: ' ' :: (printItems es ++ ')' :: rest))) (by omega)
    (.space _) fun _ => no_paren_point hn _
  obtain ⟨s', rfl⟩ : ∃ k, s' = k + 2 := ⟨s' - 2, by omega⟩
  obtain ⟨pos'', hlink⟩ := links_point (s' + 1) d pos' e' hn
    (Apart.space ('(' :: ' ' :: (printItems es ++ ')' :: rest))).wordless
  have hopen : (next (' ' :: '(' :: ' ' :: (printItems es ++ ')' :: rest))).isOp "(" = true := rfl
  obtain ⟨es', pos₃, hitems, hus⟩ := reads_items hp hes s' (pos'' + 3) rest ')' (.inl rfl) (by omega)
  refine ⟨s' + 1, .method e'.position e' n es', pos₃, by omega,
    by rw [unplaced, unplaced, hu, hus], ?_⟩
  simp only [List.append_assoc, List.cons_append, List.nil_append]
  rw [he, hlink, hopen, if_pos rfl, items_space_open hd, hitems]
  rfl

theorem reads_call {es : List Expr} (h : ReadsPostfixed d base) (hf : base.isField = false)
    (hd : d < maxDepth) (hp : PrintableAll (d + 1) es) (hes : ∀ e ∈ es, ReadsWhole (d + 1) e) :
    ReadsPostfixed d (.call p base es) := by
  intro s pos rest hs hr _
  simp only [print, List.length_cons, List.length_append, List.length_nil] at hs ⊢
  obtain ⟨s', e', pos', hle, hu, he⟩ := h s pos
    (' ' :: '(' :: ' ' :: (printItems es ++ ')' :: rest)) (by omega) (.space _)
    fun hfield => absurd hfield (by rw [hf]; decide)
  obtain ⟨s', rfl⟩ : ∃ k, s' = k + 2 := ⟨s' - 2, by omega⟩
  obtain ⟨es', pos₃, hitems, hus⟩ := reads_items hp hes s' (pos' + 3) rest ')' (.inl rfl) (by omega)
  refine ⟨s' + 1, .call e'.position e' es', pos₃, by omega, by rw [unplaced, unplaced, hu, hus], ?_⟩
  simp only [List.append_assoc, List.cons_append, List.nil_append]
  rw [he, links_call hd, itemsRest_space, hitems]
  rfl

theorem reads_index {i : Expr} (h : ReadsPostfixed d base) (hi : ReadsWhole d i) :
    ReadsPostfixed d (.index p base i) := by
  intro s pos rest hs hr _
  simp only [print, List.length_cons, List.length_append, List.length_nil] at hs ⊢
  obtain ⟨s', e', pos', hle, hu, he⟩ := h s pos
    (' ' :: '[' :: ' ' :: (i.print ++ ' ' :: ']' :: rest)) (by omega) (.space _) fun _ => rfl
  obtain ⟨s', rfl⟩ : ∃ k, s' = k + 1 := Nat.exists_eq_succ_of_ne_zero (by omega)
  obtain ⟨i', pos'', hidx, hui⟩ := hi s' (pos' + 3) (' ' :: ']' :: rest) (by omega)
    (closes_close (.inr rfl) rest)
  have hclose : scan (']' :: rest) = ⟨.op, [']'], rest⟩ := rfl
  refine ⟨s', .index e'.position e' i', pos'' + 1 + [']'].length, by omega,
    by rw [unplaced, unplaced, hu, hui], ?_⟩
  simp only [List.append_assoc, List.cons_append, List.nil_append]
  rw [he, links_index, hidx, Except.ok_bind]
  simp only [Cursor.peek_space hclose (by decide : TokenKind.op ≠ .blank)]
  rfl

end Links

/-! ## Operators -/

theorem reads_unary {p : Nat} {o : UnaryOp} {e : Expr} (hd : d < maxDepth)
    (h : ReadsUnary (d + 1) e) : ReadsUnary d (.unary p o e) := by
  intro s pos rest hs hr
  simp only [print, List.length_cons, List.length_append] at hs
  obtain ⟨s, rfl⟩ : ∃ k, s = k + 1 := Nat.exists_eq_succ_of_ne_zero (by omega)
  obtain ⟨e', pos', he, hu⟩ := h s (pos + o.symbol.toList.length + 1) rest (by omega) hr
  have hstep : Read.unary (s + 1) true d ⟨pos, o.symbol.toList ++ ' ' :: (e.print ++ rest)⟩ =
      (Read.unary s true (d + 1) ⟨pos + o.symbol.toList.length, ' ' :: (e.print ++ rest)⟩ >>=
        fun r => .ok (.unary pos o r.1, r.2)) := by
    cases o <;> rw [Read.unary] <;> show (enter d _ >>= _) = _ <;> rw [enter_ok hd] <;> rfl
  refine ⟨.unary pos o e', pos', ?_, by rw [unplaced, unplaced, hu]⟩
  rw [print, List.append_assoc, List.cons_append, hstep, unary_space, he]
  rfl

/-- **An operator is read** after its left operand, before its right one. -/
theorem reads_binary {p : Nat} {o : BinaryOp} {l r : Expr} (hl : ReadsBinary d o.level l)
    (hr : ReadsOperand d (o.level + 1) r) : ReadsBinary d o.level (.binary p o l r) := by
  intro s pos rest hs hrest
  simp only [print, List.length_cons, List.length_append] at hs ⊢
  have hlevel : o.level < 5 := o.level_lt
  obtain ⟨s', l', pos', hle, hul, hel⟩ := hl s pos
    (' ' :: (o.symbol.toList ++ ' ' :: (r.print ++ rest))) (by omega) (Ends.symbol o _)
  obtain ⟨s', rfl⟩ : ∃ k, s' = k + 1 := Nat.exists_eq_succ_of_ne_zero (by omega)
  obtain ⟨pos₂, hstep⟩ := binaryRest_symbol s' d pos' l' (r.print ++ rest) o
  obtain ⟨r', pos₃, her, hur⟩ := hr s' pos₂ rest (by omega) hrest
  refine ⟨s', .binary l'.position o l' r', pos₃, by omega, by rw [unplaced, unplaced, hul, hur], ?_⟩
  simp only [List.append_assoc, List.cons_append]
  rw [hel, hstep, her]
  rfl

theorem ends_range (i : Bool) (rest : List Char) :
    Ends 0 (' ' :: '.' :: '.' :: ((if i then ['='] else []) ++ ' ' :: rest)) := by
  cases i <;> exact ⟨.space _, rfl, rfl, rfl, fun _ h => by cases h⟩

theorem reads_range {p : Nat} {a b : Expr} {i : Bool} (ha : ReadsOperand d 0 a)
    (hb : ReadsOperand d 0 b) : ReadsWhole d (.range p a b i) := by
  intro s pos rest hs hr
  simp only [print, List.length_cons, List.length_append] at hs
  obtain ⟨s, rfl⟩ : ∃ k, s = k + 1 := Nat.exists_eq_succ_of_ne_zero (by omega)
  obtain ⟨a', pos', hea, hua⟩ := ha s pos
    (' ' :: '.' :: '.' :: ((if i then ['='] else []) ++ ' ' :: (b.print ++ rest))) (by omega)
    (ends_range i _)
  have hstep : ∃ pos₂, ∀ p₀, (binary s true d 0 p₀ = .ok (a', ⟨pos', ' ' :: '.' :: '.' ::
      ((if i then ['='] else []) ++ ' ' :: (b.print ++ rest))⟩)) →
      expression (s + 1) true d p₀ = (binary s true d 0 ⟨pos₂, ' ' :: (b.print ++ rest)⟩ >>=
        fun r => .ok (.range a'.position a' r.1 i, r.2)) := by
    cases i with
    | false =>
      refine ⟨pos' + 1 + 2, fun p₀ h => ?_⟩
      rw [expression, h]
      rfl
    | true =>
      refine ⟨pos' + 1 + 3, fun p₀ h => ?_⟩
      rw [expression, h]
      rfl
  obtain ⟨pos₂, hstep⟩ := hstep
  obtain ⟨b', pos₃, heb, hub⟩ := hb s (pos₂ + 1) rest (by omega) hr.toEnds
  refine ⟨.range a'.position a' b' i, pos₃, ?_, by rw [unplaced, unplaced, hua, hub]⟩
  simp only [print, List.append_assoc, List.cons_append]
  rw [hstep _ hea, binary_space, heb]
  rfl

/-! ## All expressions -/

mutual

/-- **Every printable expression is read wherever it may stand.** -/
theorem reads : ∀ {e : Expr} {d : Nat}, e.Printable d → Reads d e
  | .literal _ _, _, h =>
    .of_postfixed ((reads_literal h).postfixed (length_print_pos h)) h (Nat.le_refl _)
  | .name _ _, _, h =>
    .of_postfixed ((reads_name h).postfixed (length_print_pos h)) h (Nat.le_refl _)
  | .path _ _, _, h =>
    .of_postfixed ((reads_path h.1 h.2).postfixed (length_print_pos h)) h (Nat.le_refl _)
  | .field _ v _, _, h =>
    .of_postfixed (reads_field ((reads h.1).postfixed h.2.1) h.2.2) h (Nat.le_refl _)
  | .method _ r _ as, _, h =>
    .of_postfixed (reads_method ((reads h.1).postfixed h.2.1) h.2.2.1 h.2.2.2.1 h.2.2.2.2
      (readsAll h.2.2.2.2)) h (Nat.le_refl _)
  | .call _ f as, _, h =>
    .of_postfixed (reads_call ((reads h.1).postfixed h.2.1) h.2.2.1 h.2.2.2.1 h.2.2.2.2
      (readsAll h.2.2.2.2)) h (Nat.le_refl _)
  | .index _ v i, _, h =>
    .of_postfixed (reads_index ((reads h.1).postfixed h.2.1) (reads h.2.2).whole) h (Nat.le_refl _)
  | .tuple _ is, _, h =>
    .of_postfixed (ReadsPrimary.postfixed
      (fun _ _ _ hs _ => gives_tuple h.1 h.2 (readsAll h.2) hs true _) (length_print_pos h)) h
      (Nat.le_refl _)
  | .list _ is, _, h =>
    .of_postfixed ((reads_list h.1 h.2 (readsAll h.2)).postfixed (length_print_pos h)) h
      (Nat.le_refl _)
  | .range _ s e _, _, h =>
    ⟨fun hr => absurd hr (by simp [rank]), fun hr => absurd hr (by simp [rank]),
      fun _ _ hr => absurd hr (by simp [rank]), fun _ _ hr => absurd hr (by simp [rank]),
      reads_range ((reads h.1).operand 0 (Nat.zero_le _) h.2.1)
        ((reads h.2.2.1).operand 0 (Nat.zero_le _) h.2.2.2)⟩
  | .unary _ _ e, _, h =>
    .of_unary (reads_unary h.1 ((reads h.2.1).unary h.2.2)) (length_print_pos h)
      fun hr => absurd hr (by simp [rank])
  | .binary _ o l r, _, h =>
    .of_binary (reads_binary ((reads h.1).binary o.level o.level_lt h.2.1)
      ((reads h.2.2.1).operand (o.level + 1) o.level_lt h.2.2.2)) o.level_lt (length_print_pos h) rfl
  | .group _ e, _, h =>
    .of_postfixed (ReadsPrimary.postfixed
      (fun _ _ _ hs _ => gives_group h.1 h.2 (reads h.2).whole hs true _) (length_print_pos h)) h
      (Nat.le_refl _)

theorem readsAll : ∀ {es : List Expr} {d : Nat}, PrintableAll d es → ∀ e ∈ es, ReadsWhole d e
  | [], _, _, _, he => by cases he
  | e :: es, _, h, e', he => by
    rcases List.mem_cons.mp he with heq | he
    · rw [heq]
      exact (reads h.1).whole
    · exact readsAll h.2 e' he

end

end Read

/-! ## Entry points -/

section Entry

open Read

variable {e : Expr} {rest : List Char}

/-- **Reading the text of an expression gives the expression**, whatever follows that is no part of
it. -/
theorem readExpression_print (h : e.Printable 0) (hr : Closes rest) (pos : Nat) :
    Gives (readExpression ⟨pos, e.print ++ rest⟩) e rest := by
  refine (reads h).whole _ pos rest ?_ hr
  simp only [Cursor.steps, List.length_append]
  omega

theorem readExpression_space_print (h : e.Printable 0) (hr : Closes rest) (pos : Nat) :
    Gives (readExpression ⟨pos, ' ' :: (e.print ++ rest)⟩) e rest := by
  rw [readExpression, expression_space]
  refine (reads h).whole _ (pos + 1) rest ?_ hr
  simp only [Cursor.steps, List.length_cons, List.length_append]
  omega

/-- An expression in parentheses. -/
def isParenthesized : Expr → Bool
  | group .. | tuple .. => true
  | _ => false

/-- **A chain that starts with a parenthesis ends with the matching one**, whatever follows it. -/
theorem readChain_print (h : e.Printable 0) (hp : e.isParenthesized = true) (pos : Nat)
    (rest : List Char) : Gives (readChain ⟨pos, e.print ++ rest⟩) e rest := by
  have hs : 16 * e.print.length ≤ (⟨pos, e.print ++ rest⟩ : Cursor).steps + 9 := by
    simp only [Cursor.steps, List.length_append]
    omega
  cases e with
  | group p i =>
    exact gives_group h.1 h.2 (reads h.2).whole hs false rest
  | tuple p is =>
    exact gives_tuple h.1 h.2 (readsAll h.2) hs false rest
  | _ => cases hp

end Entry

/-! ## Texts of whole expressions -/

section Whole

variable {e : Expr} {text : List Char}

/-- A text that is read has a reading of its start, and white space after it. -/
theorem readExpression_of_parse (h : parse text = .ok e) :
    ∃ c, readExpression (.ofText text 0) = .ok (e, c) ∧ c.skipBlank.rest = [] := by
  rw [parse, Except.bind_ok] at h
  obtain ⟨⟨e', c⟩, hread, h⟩ := h
  dsimp only at h
  split at h
  · rename_i hrest
    cases h
    exact ⟨c, hread, List.isEmpty_iff.mp hrest⟩
  · cases h

theorem fits_of_parse (h : parse text = .ok e) : Fits 0 0 e := by
  obtain ⟨c, hread, -⟩ := readExpression_of_parse h
  exact fits_of_readExpression hread

/-- Nothing follows at the end of a text. -/
theorem closes_nil : Read.Closes [] := .of_next (.inl rfl) rfl

/-- **The text of an expression is read as that expression.** -/
theorem exists_parse_print (h : e.Printable 0) :
    ∃ e', parse e.print = .ok e' ∧ e'.unplaced = e.unplaced := by
  obtain ⟨e', pos, hread, hu⟩ := readExpression_print h closes_nil 0
  rw [List.append_nil] at hread
  refine ⟨e', ?_, hu⟩
  rw [parse, Cursor.ofText_zero, hread]
  rfl

/-- **Texts and levelled expressions.** A levelled expression whose literals can be written and that
is nested no deeper than is allowed is what its text is read as; so no two of them share a text.
Whatever text is read, the expression that comes out is levelled and nested no deeper. -/
theorem parse_levelled :
    (∀ e : Expr, e.Levelled → e.nesting ≤ Read.maxDepth → (∀ v ∈ e.literals, v.Plain) →
      (∃ e', parse e.print = .ok e' ∧ e'.unplaced = e.unplaced) ∧
      ∀ e₂ : Expr, e₂.Levelled → e₂.nesting ≤ Read.maxDepth → (∀ v ∈ e₂.literals, v.Plain) →
        e.print = e₂.print → e.unplaced = e₂.unplaced) ∧
    ∀ text e, parse text = .ok e → e.Levelled ∧ e.nesting ≤ Read.maxDepth := by
  have hread : ∀ e : Expr, e.Levelled → e.nesting ≤ Read.maxDepth → (∀ v ∈ e.literals, v.Plain) →
      ∃ e', parse e.print = .ok e' ∧ e'.unplaced = e.unplaced := fun e hl hn hp =>
    exists_parse_print (printable_of_levelled hl (by rwa [Nat.zero_add]) hp)
  refine ⟨fun e hl hn hp => ⟨hread e hl hn hp, fun e₂ hl₂ hn₂ hp₂ he => ?_⟩, fun text e h => ?_⟩
  · -- one text, one reading
    obtain ⟨e', h, hu⟩ := hread e hl hn hp
    obtain ⟨e₂', h₂, hu₂⟩ := hread e₂ hl₂ hn₂ hp₂
    rw [he, h₂] at h
    cases h
    exact hu.symm.trans hu₂
  · have hf := fits_of_parse h
    exact ⟨hf.levelled, by simpa using hf.nesting_le⟩

instance (n : String) : Decidable (IsName n) :=
  decidable_of_iff (name? n.toList = some (n.toList, []) ∧ keywords.contains n = false ∧
    isReserved n = false) ⟨fun ⟨hw, hk, hr⟩ => ⟨hw, hk, hr⟩,
      fun h => ⟨h.word, h.not_keyword, h.not_reserved⟩⟩

/-- An expression with a node of every kind. -/
def everyForm : Expr :=
  .binary 0 .or
    (.binary 0 .eq
      (.unary 0 .not
        (.index 0
          (.method 0 (.path 0 ["a", "b"]) "c" [.literal 0 (.int 1), .literal 0 (.text [.ofChar '"'])])
          (.range 0 (.literal 0 (.int 2)) (.field 0 (.name 0 "x") "c") true)))
      (.tuple 0 [.unary 0 .neg (.group 0 (.range 0 (.name 0 "a") (.name 0 "b") false))]))
    (.call 0 (.list 0 [.literal 0 (.bool true), .literal 0 .null]) [])

theorem parse_levelled_everyForm :
    everyForm.Levelled ∧ everyForm.nesting ≤ Read.maxDepth ∧ (∀ v ∈ everyForm.literals, v.Plain) ∧
      ∃ e', parse everyForm.print = .ok e' ∧ e'.unplaced = everyForm.unplaced ∧
        e'.Levelled ∧ e'.nesting ≤ Read.maxDepth := by
  have hname : ∀ n ∈ ["a", "b", "c", "x"], IsName n := by decide +kernel
  have hl : everyForm.Levelled := by
    simp only [everyForm, Levelled, LevelledAll, rank, isField, BinaryOp.level, Literal.Unsigned]
    refine ⟨?_, ?_⟩ <;> simp [hname]
  have hp : ∀ v ∈ everyForm.literals, v.Plain := by
    simp only [everyForm, literals, literalsAll]
    simp only [List.nil_append, List.cons_append, List.append_nil, List.forall_mem_cons,
      Literal.Plain]
    exact ⟨by decide, trivial, by decide, trivial, trivial, by simp⟩
  have hn : everyForm.nesting ≤ Read.maxDepth := by decide
  obtain ⟨⟨e', h, hu⟩, -⟩ := parse_levelled.1 everyForm hl hn hp
  exact ⟨hl, hn, hp, e', h, hu, parse_levelled.2 _ _ h⟩

end Whole

end Stencil.Expr
