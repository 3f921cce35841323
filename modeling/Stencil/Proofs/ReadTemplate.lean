import Stencil.Proofs.PrintedTemplate

/-!
# Reading printed templates

What the reader does at the marks of a printed template: the characters of texts, comments,
conditions, guards, and the marks at which a construct goes on or ends.

* `Template.Read.body_text`: reading comes to the point behind a text.
* `Template.Read.condition_print`, `Template.Read.guard_print`, ...: the parts of constructs that
  hold no nodes.
* `Template.Read.ReadsBody`: a body is read, whatever text is pending before it.
* **`Template.Read.ReadsBody.block`**: a block is read from its opening brace on.
-/

namespace Stencil

open Text Expr

/-! ## Marks -/

namespace Cursor

variable {pos : Nat} {cs : List Char}

/-- No keyword stands where an expression starts. -/
theorem not_let (h : (first cs).opens = true) : (⟨pos, cs⟩ : Cursor).atWordBlank "let" = false := by
  cases hlet : (⟨pos, cs⟩ : Cursor).atWordBlank "let" with
  | false => rfl
  | true =>
    rw [atWordBlank, Bool.and_eq_true] at hlet
    obtain ⟨hstart, hblank⟩ := hlet
    obtain ⟨r, rfl⟩ := List.isPrefixOf_iff_prefix.mp hstart
    have hw : Wordless r := by
      intro c hc
      refine isWord_of_isBlank ?_
      have hr : (r.head?).any isBlank = true := hblank
      rwa [hc] at hr
    have hscan : scan ("let".toList ++ r) = ⟨.keyword, "let".toList, r⟩ := by
      have hrun : ∀ c ∈ ['e', 't'], isWord c = true := by
        intro c hc
        rw [List.mem_pair] at hc
        rcases hc with rfl | rfl <;> exact isWord_of_isAlphanum rfl
      obtain ⟨ht, hd⟩ := takeWhile_run hrun hw
      show scan ('l' :: (['e', 't'] ++ r)) = _
      rw [scan_of_isNameStart (by decide), ht, hd]
      rfl
    rw [first_of_scan hscan] at h
    cases h

end Cursor

namespace Template.Read

variable {s d pos : Nat} {cs rest : List Char}

theorem closes_brace (cs : List Char) : Expr.Read.Closes (' ' :: '\x7b' :: cs) :=
  .of_next (.space _) rfl

theorem closes_arrow (cs : List Char) : Expr.Read.Closes (' ' :: '=' :: '>' :: cs) :=
  .of_next (.space _) rfl

theorem closed_equals (cs : List Char) : Pattern.Read.Closed (' ' :: '=' :: ' ' :: cs) :=
  ⟨⟨.space _, rfl, rfl⟩, rfl⟩

theorem closed_in (cs : List Char) : Pattern.Read.Closed (' ' :: 'i' :: 'n' :: ' ' :: cs) :=
  ⟨⟨.space _, rfl, rfl⟩, rfl⟩

theorem closed_guard (g : Option Expr) (cs : List Char) :
    Pattern.Read.Closed (' ' :: (printGuard g ++ '=' :: '>' :: ' ' :: cs)) := by
  cases g <;> exact ⟨⟨.space _, rfl, rfl⟩, rfl⟩

/-- **A condition is read** before its block. -/
theorem condition_print {c : Condition} (h : c.Writable) (pos : Nat) (cs : List Char) :
    ∃ c' pos', condition ⟨pos, c.print ++ ' ' :: '\x7b' :: cs⟩ =
      .ok (c', ⟨pos', ' ' :: '\x7b' :: cs⟩) ∧ c'.unplaced = c.unplaced := by
  cases c with
  | holds e =>
    have hopen := (first_print h.printable (Apart.space ('\x7b' :: cs))).1
    obtain ⟨e', pos', he, hu⟩ := readExpression_print h.printable (closes_brace cs) pos
    refine ⟨.holds e', pos', ?_, by rw [Condition.unplaced, Condition.unplaced, hu]⟩
    rw [condition, Condition.print, skipBlank_of_opens hopen]
    simp only [Cursor.not_let hopen, Bool.false_eq_true, if_false, he, Except.ok_bind]
    rfl
  | «matches» p e =>
    obtain ⟨p', pos', hp, hup⟩ := Pattern.read_space_print h.1.shaped h.1.plain
      (closed_equals (e.print ++ ' ' :: '\x7b' :: cs)) (pos + 3)
    obtain ⟨e', pos'', he, hue⟩ := readExpression_space_print h.2.printable (closes_brace cs)
      (pos' + 1 + 1)
    refine ⟨.matches p' e', pos'', ?_, by rw [Condition.unplaced, Condition.unplaced, hup, hue]⟩
    simp only [Condition.print, List.cons_append, List.append_assoc]
    show (Pattern.read ⟨pos + 3, ' ' :: (p.print ++ ' ' :: '=' :: ' ' ::
      (e.print ++ ' ' :: '\x7b' :: cs))⟩ >>= _) = _
    rw [hp]
    show (readExpression ⟨pos' + 1 + 1, ' ' :: (e.print ++ ' ' :: '\x7b' :: cs)⟩ >>= _) = _
    rw [he]
    rfl

/-- **A guard is read** before its arrow. -/
theorem guard_print {g : Option Expr} (h : ∀ e, g = some e → e.Writable) (pos : Nat)
    (cs : List Char) :
    ∃ g' pos', guard? ⟨pos, printGuard g ++ '=' :: '>' :: cs⟩ =
      .ok (g', ⟨pos', '=' :: '>' :: cs⟩) ∧ g'.map Expr.unplaced = g.map Expr.unplaced := by
  cases g with
  | none => exact ⟨none, pos, rfl, rfl⟩
  | some e =>
    obtain ⟨e', pos', he, hu⟩ := readExpression_space_print (h e rfl).printable (closes_arrow cs)
      (pos + 2)
    refine ⟨some e', pos' + 1, ?_, by rw [Option.map_some, Option.map_some, hu]⟩
    simp only [printGuard, List.cons_append, List.append_assoc, List.nil_append]
    show (readExpression ⟨pos + 2, ' ' :: (e.print ++ ' ' :: '=' :: '>' :: cs)⟩ >>= _) = _
    rw [he]
    rfl

/-! ## Comments -/

theorem beforeClose_cons {c : Char} {cs : List Char} (h : c = '*' → cs.head? ≠ some '@') :
    Cursor.beforeClose (c :: cs) = (Cursor.beforeClose cs).map fun (inside, rest) =>
      (c :: inside, rest) := by
  rw [Cursor.beforeClose]
  rintro ds rfl rfl
  exact h rfl rfl

/-- **A comment ends with its first end mark.** -/
theorem beforeClose_print {t : List Char} (h : ¬ ['*', '@'] <:+: t) (rest : List Char) :
    Cursor.beforeClose (t ++ '*' :: '@' :: rest) = some (t, rest) := by
  induction t with
  | nil => rfl
  | cons c t ih =>
    rw [List.cons_append, beforeClose_cons, ih fun ht => h (ht.trans (List.suffix_cons c t).isInfix)]
    · rfl
    · rintro rfl
      cases t with
      | nil => exact fun h => by cases h
      | cons e t =>
        intro he
        obtain rfl : e = '@' := Option.some.inj he
        exact h ⟨[], t, rfl⟩

theorem comment_print {t : List Char} (h : ¬ ['*', '@'] <:+: t) (pos : Nat) (rest : List Char) :
    ∃ pos', (⟨pos, '@' :: '*' :: (t ++ '*' :: '@' :: rest)⟩ : Cursor).comment? =
      some (.ok (String.ofList t, ⟨pos', rest⟩)) := by
  refine ⟨pos + 4 + t.length, ?_⟩
  have hclose : Cursor.beforeClose
      ((⟨pos, '@' :: '*' :: (t ++ '*' :: '@' :: rest)⟩ : Cursor).skip 2).rest = some (t, rest) :=
    beforeClose_print h rest
  show some (Cursor.blockComment _) = _
  rw [Cursor.blockComment, hclose]

/-! ## Texts -/

theorem Pending.add_text (p : Pending) (pos : Nat) (t : List Char) :
    (p.add pos t).text = p.text ++ t := by
  unfold Pending.add
  split
  · rename_i h
    rw [List.isEmpty_iff.mp h]
    rfl
  · rfl

/-- Text that comes in two parts is pending as one. -/
theorem Pending.add_cons (p : Pending) (pos : Nat) (c : Char) (t : List Char) :
    p.add pos (c :: t) = (p.add pos [c]).add (pos + 1) t := by
  unfold Pending.add
  by_cases h : p.text.isEmpty = true
  · simp [h]
  · simp [h]

theorem Pending.nodes_add_nil (p : Pending) (pos : Nat) : (p.add pos []).nodes = p.nodes := by
  unfold Pending.add
  split
  · rename_i h
    rw [nodes, nodes, h]
    rfl
  · rw [List.append_nil]

section Body

variable {b : Bool} {p : Pending}

/-- A character that is no mark. -/
theorem body_plain {c : Char} (h : ¬ (c = '@' ∨ c = '\x7b' ∨ c = '\x7d')) :
    body (s + 1) b d 0 p ⟨pos, c :: cs⟩ = body (s + 1) b d 0 (p.add pos [c]) ⟨pos + 1, cs⟩ := by
  rw [not_or, not_or] at h
  have hrun : Cursor.plainRun b 0 (c :: cs) =
      (c :: (Cursor.plainRun b 0 cs).1, (Cursor.plainRun b 0 cs).2) := by
    rw [Cursor.plainRun, if_neg h.1, if_neg (by simp [h.2.1]), if_neg (by simp [h.2.2])]
  have hskip : (⟨pos, c :: cs⟩ : Cursor).skip ((Cursor.plainRun b 0 cs).1.length + 1) =
      (⟨pos + 1, cs⟩ : Cursor).skip (Cursor.plainRun b 0 cs).1.length := by
    simp [Cursor.skip, Nat.add_assoc, Nat.add_comm 1]
  rw [body, body]
  simp only [hrun, List.length_cons, hskip]
  rw [Pending.add_cons p pos c]

/-- An escape. -/
theorem body_escape {c : Char} (h : c = '@' ∨ c = '\x7b' ∨ c = '\x7d') :
    body (s + 1) b d 0 p ⟨pos, '@' :: c :: cs⟩ =
      body s b d 0 ((p.add pos []).add pos [c]) ⟨pos + 2, cs⟩ := by
  rw [body]
  rcases h with rfl | rfl | rfl <;> rfl

/-- **Reading comes to the point behind a text**, which is pending then. -/
theorem body_text (t : List Char) (s pos : Nat) (p : Pending) (rest : List Char)
    (hs : (t.flatMap printChar).length + 1 ≤ s) :
    ∃ s' p' pos', s ≤ s' + (t.flatMap printChar).length ∧ p'.text = p.text ++ t ∧
      body s b d 0 p ⟨pos, t.flatMap printChar ++ rest⟩ = body s' b d 0 p' ⟨pos', rest⟩ := by
  induction t generalizing s pos p with
  | nil => exact ⟨s, p, pos, Nat.le_refl _, (List.append_nil _).symm, rfl⟩
  | cons c t ih =>
    rw [List.flatMap_cons, List.length_append] at hs
    obtain ⟨s, rfl⟩ : ∃ k, s = k + 1 := Nat.exists_eq_succ_of_ne_zero (by omega)
    rw [List.flatMap_cons, List.append_assoc, List.length_append]
    by_cases hc : c = '@' ∨ c = '\x7b' ∨ c = '\x7d'
    · have hprint : printChar c = ['@', c] := if_pos hc
      rw [hprint] at hs ⊢
      simp only [List.length_cons, List.length_nil] at hs ⊢
      obtain ⟨s', p', pos', hle, htext, he⟩ := ih s (pos + 2) ((p.add pos []).add pos [c])
        (by omega)
      refine ⟨s', p', pos', by omega, ?_, ?_⟩
      · rw [htext, Pending.add_text, Pending.add_text, List.append_nil, List.append_assoc]
        rfl
      · rw [List.cons_append, List.cons_append, List.nil_append, body_escape hc, he]
    · have hprint : printChar c = [c] := if_neg hc
      rw [hprint] at hs ⊢
      simp only [List.length_cons, List.length_nil] at hs ⊢
      obtain ⟨s', p', pos', hle, htext, he⟩ := ih (s + 1) (pos + 1) (p.add pos [c]) (by omega)
      refine ⟨s', p', pos', by omega, ?_, ?_⟩
      · rw [htext, Pending.add_text, List.append_assoc]
        rfl
      · rw [List.cons_append, List.nil_append, body_plain hc, he]

/-- A construct: the text before it becomes a node. -/
theorem body_construct {c : Char} (hat : c ≠ '@') (hopen : c ≠ '\x7b') (hclose : c ≠ '\x7d') :
    body (s + 1) b d 0 p ⟨pos, '@' :: c :: cs⟩ =
      (construct s d ⟨pos, '@' :: c :: cs⟩ >>= fun (node, c) =>
        body s b d 0 ⟨c.position, []⟩ c >>= fun (nodes, c) => .ok (p.nodes ++ node :: nodes, c)) := by
  have hescaped : (⟨pos, '@' :: c :: cs⟩ : Cursor).escaped? = none := by
    unfold Cursor.escaped?
    split
    · rename_i h
      exact absurd (List.cons.inj (List.cons.inj h).2).1 hat
    · rename_i h
      exact absurd (List.cons.inj (List.cons.inj h).2).1 hopen
    · rename_i h
      exact absurd (List.cons.inj (List.cons.inj h).2).1 hclose
    · rfl
  have hrun : Cursor.plainRun b 0 ('@' :: c :: cs) = ([], 0) := rfl
  have hskip : (⟨pos, '@' :: c :: cs⟩ : Cursor).skip 0 = ⟨pos, '@' :: c :: cs⟩ := rfl
  have hstart : (⟨pos, '@' :: c :: cs⟩ : Cursor).startsWith "@" = true := rfl
  rw [body, ← p.nodes_add_nil pos]
  simp only [hrun, List.length_nil, hskip, hescaped, hstart, if_true]
  rfl

/-- Where a body ends: a block at its brace, other bodies with the text. -/
def Stops (inBlock : Bool) (rest : List Char) : Prop :=
  if inBlock then ∃ cs, rest = '\x7d' :: cs else rest = []

theorem body_end (h : Stops b rest) :
    body (s + 1) b d 0 p ⟨pos, rest⟩ = .ok (p.nodes, ⟨pos, rest⟩) := by
  rw [body, ← p.nodes_add_nil pos]
  cases b with
  | true =>
    obtain ⟨cs, rfl⟩ := h
    rfl
  | false =>
    cases h
    rfl

theorem Stops.detached (h : Stops b rest) : Detached rest := by
  cases b with
  | true =>
    obtain ⟨cs, rfl⟩ := h
    exact ⟨rfl, fun h => by cases h⟩
  | false =>
    cases h
    exact ⟨rfl, fun h => by cases h⟩

end Body

/-! ## Bodies and blocks -/

/-- **A body is read**, and the text that is pending before it becomes a node. -/
def ReadsBody (d : Nat) (ns : List Node) : Prop :=
  ∀ b s pos p rest, 16 * (Node.printAll ns).length + 8 ≤ s → Stops b rest →
    (p.text = [] ∨ ∀ m, ns.head? = some m → m.isText = false) →
    ∃ ns' pos', body s b d 0 p ⟨pos, Node.printAll ns ++ rest⟩ = .ok (ns', ⟨pos', rest⟩) ∧
      Node.unplacedAll ns' = Node.unplacedAll (p.nodes ++ ns)

/-- A construct is read. -/
def ReadsNode (d : Nat) (n : Node) : Prop :=
  ∀ s pos rest, 16 * n.print.length ≤ s + 8 → Detached rest →
    ∃ n' pos', construct s d ⟨pos, n.print ++ rest⟩ = .ok (n', ⟨pos', rest⟩) ∧
      n'.unplaced = n.unplaced

theorem unplacedAll_append (ns ms : List Node) :
    Node.unplacedAll (ns ++ ms) = Node.unplacedAll ns ++ Node.unplacedAll ms := by
  induction ns with
  | nil => rfl
  | cons n ns ih => rw [List.cons_append, Node.unplacedAll, Node.unplacedAll, ih, List.cons_append]

/-- **A body is read if its constructs are.** -/
theorem reads_body {ns : List Node} (hp : Node.PrintableAll d ns)
    (h : ∀ n ∈ ns, n.isText = false → ReadsNode d n) : ReadsBody d ns := by
  induction ns with
  | nil =>
    intro b s pos p rest hs hr _
    obtain ⟨s, rfl⟩ : ∃ k, s = k + 1 := Nat.exists_eq_succ_of_ne_zero (by omega)
    refine ⟨p.nodes, pos, body_end hr, by rw [List.append_nil]⟩
  | cons n ns ih =>
    intro b s pos p rest hs hr hpending
    rw [Node.PrintableAll] at hp
    have ih := ih hp.2.1 fun m hm => h m (List.mem_cons_of_mem _ hm)
    rw [Node.printAll, List.length_append] at hs
    rw [Node.printAll, List.append_assoc]
    cases ht : n.isText with
    | true =>
      cases n with
      | text q t =>
        rw [Node.print] at hs ⊢
        have hempty : p.text = [] := hpending.resolve_right fun hm => by
          rw [hm _ rfl] at ht
          cases ht
        obtain ⟨s', p', pos', hle, htext, he⟩ := body_text (b := b) (d := d) t.toList s pos p
          (Node.printAll ns ++ rest) (by omega)
        obtain ⟨ns', pos'', hns, hu⟩ := ih b s' pos' p' rest (by omega) hr (.inr (hp.2.2 rfl))
        have hne : t.toList.isEmpty = false := List.isEmpty_eq_false_iff.mpr hp.1
        refine ⟨ns', pos'', by rw [he, hns], ?_⟩
        rw [hempty, List.nil_append] at htext
        rw [hu, unplacedAll_append, unplacedAll_append, Pending.nodes, Pending.nodes, htext, hempty,
          hne, String.ofList_toList]
        rfl
      | _ => cases ht
    | false =>
      obtain ⟨c, cs, -, hat, hopen, hclose, hprint⟩ := Node.print_mark hp.1 ht
      have hlen : 2 ≤ n.print.length := by simp [hprint]
      obtain ⟨s, rfl⟩ : ∃ k, s = k + 1 := Nat.exists_eq_succ_of_ne_zero (by omega)
      obtain ⟨n', pos', hn, hun⟩ := h n List.mem_cons_self ht s pos (Node.printAll ns ++ rest)
        (by omega) (Node.detached_printAll hp.2.1 hr.detached)
      obtain ⟨ns', pos'', hns, hu⟩ := ih b s pos' ⟨pos', []⟩ rest (by omega) hr (.inl rfl)
      refine ⟨p.nodes ++ n' :: ns', pos'', ?_, ?_⟩
      · rw [hprint] at hn ⊢
        rw [List.cons_append, List.cons_append] at hn ⊢
        rw [body_construct hat hopen hclose, hn, Except.ok_bind]
        simp only [hns, Except.ok_bind]
      · rw [unplacedAll_append, unplacedAll_append, Node.unplacedAll, Node.unplacedAll, hun, hu]
        rfl

theorem enter_ok (h : d < maxNesting) (pos : Nat) : Template.Read.enter d pos = .ok (d + 1) :=
  if_pos h

theorem block_space : block s d ⟨pos, ' ' :: cs⟩ = block s d ⟨pos + 1, cs⟩ := by
  cases s with
  | zero => rfl
  | succ s => rw [block, block, Cursor.skipBlank_space]

/-- **A block is read** from its opening brace on. -/
theorem ReadsBody.block {ns : List Node} (h : ReadsBody (d + 1) ns) (hd : d < maxNesting)
    (s pos : Nat) (rest : List Char) (hs : 16 * (Node.printAll ns).length + 16 ≤ s) :
    ∃ ns' pos', block s d ⟨pos, '\x7b' :: (Node.printAll ns ++ '\x7d' :: rest)⟩ =
      .ok (ns', ⟨pos', rest⟩) ∧ Node.unplacedAll ns' = Node.unplacedAll ns := by
  obtain ⟨s, rfl⟩ : ∃ k, s = k + 1 := Nat.exists_eq_succ_of_ne_zero (by omega)
  obtain ⟨ns', pos', he, hu⟩ := h true s (pos + 1) ⟨pos, []⟩ ('\x7d' :: rest) (by omega) ⟨rest, rfl⟩
    (.inl rfl)
  refine ⟨ns', pos' + 1, ?_, hu⟩
  rw [Read.block]
  show (Template.Read.enter d pos >>= _) = _
  rw [enter_ok hd]
  show (body s true (d + 1) 0 ⟨pos, []⟩ ⟨pos + 1, Node.printAll ns ++ '\x7d' :: rest⟩ >>= _) = _
  rw [he]
  rfl

end Template.Read

end Stencil
