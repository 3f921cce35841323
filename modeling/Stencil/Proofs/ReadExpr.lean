import Stencil.Proofs.PrintedExpr
import Stencil.Proofs.Result

/-!
# Reading printed expressions

Each function of the reader is followed on the text of the expressions it is made for. An operator
of some level reads its left operand first and goes on from there, so what is shown of it is not
that it ends, but that it comes to the point behind the operand.

* `Ends`, `Closes`: what may stand after an operand, and after a whole expression.
* `Reads`: an expression is read at each place where it may stand.
* **`Expr.reads`**: printed expressions are read, by induction on the expression.
-/

namespace Stencil.Expr.Read

open Text

/-! ## What stands after an expression -/

/-- **What may stand after an operand** of an operator of the given level: no link, and no operator
of this level or a tighter one. -/
structure Ends (level : Nat) (rest : List Char) : Prop where
  apart : Apart rest
  no_point : (next rest).isOp "." = false
  no_paren : (next rest).isOp "(" = false
  no_bracket : (next rest).isOp "[" = false
  looser : ∀ op, binaryOp? (next rest) = some op → op.level < level

/-- **What may stand after an expression**: no link and no operator. -/
structure Closes (rest : List Char) : Prop extends Ends 0 rest where
  no_range : (next rest).isOp ".." = false
  no_range_end : (next rest).isOp "..=" = false

/-- A token with which no expression goes on. -/
def closes (t : Token) : Bool :=
  !t.isOp "." && !t.isOp "(" && !t.isOp "[" && (binaryOp? t).isNone && !t.isOp ".." &&
    !t.isOp "..="

theorem Ends.mono {level level' : Nat} {rest : List Char} (h : Ends level rest)
    (hle : level ≤ level') : Ends level' rest :=
  { h with looser := fun op hop => Nat.lt_of_lt_of_le (h.looser op hop) hle }

theorem Closes.of_next {rest : List Char} (ha : Apart rest) (h : closes (next rest) = true) :
    Closes rest := by
  simp only [closes, Bool.and_eq_true, Bool.not_eq_true', Option.isNone_iff_eq_none] at h
  obtain ⟨⟨⟨⟨⟨hp, hpar⟩, hb⟩, hop⟩, hr⟩, hre⟩ := h
  refine ⟨⟨ha, hp, hpar, hb, fun op h => ?_⟩, hr, hre⟩
  rw [hop] at h
  cases h

/-- The operator that a token stands for. -/
theorem scan_symbol (o : BinaryOp) (rest : List Char) : ∃ k, k ≠ .blank ∧
    scan (o.symbol.toList ++ ' ' :: rest) = ⟨k, o.symbol.toList, ' ' :: rest⟩ ∧
    ∀ pos, binaryOp? ⟨k, o.symbol.toList, pos⟩ = some o ∧
      (⟨k, o.symbol.toList, pos⟩ : Token).isOp "." = false ∧
      (⟨k, o.symbol.toList, pos⟩ : Token).isOp "(" = false ∧
      (⟨k, o.symbol.toList, pos⟩ : Token).isOp "[" = false := by
  cases o <;>
    first
    | exact ⟨.op, by decide, rfl, fun _ => ⟨rfl, rfl, rfl, rfl⟩⟩
    | exact ⟨.keyword, by decide, rfl, fun _ => ⟨rfl, rfl, rfl, rfl⟩⟩

theorem Ends.symbol (o : BinaryOp) (rest : List Char) :
    Ends (o.level + 1) (' ' :: (o.symbol.toList ++ ' ' :: rest)) := by
  obtain ⟨k, hk, hs, ht⟩ := scan_symbol o rest
  have hn : next (' ' :: (o.symbol.toList ++ ' ' :: rest)) = ⟨k, o.symbol.toList, 1⟩ :=
    next_space hs hk
  obtain ⟨hop, hp, hpar, hb⟩ := ht 1
  refine ⟨Apart.space _, hn ▸ hp, hn ▸ hpar, hn ▸ hb, fun op h => ?_⟩
  rw [hn, hop] at h
  cases h
  exact Nat.lt_succ_self _

/-! ## White space before an expression -/

section Space

variable {d pos : Nat} {cs : List Char}

theorem peek_after_space :
    (⟨pos, ' ' :: cs⟩ : Cursor).peek true = (⟨pos + 1, cs⟩ : Cursor).peek true := by
  show (Cursor.skipBlank _).token = (Cursor.skipBlank _).token
  rw [Cursor.skipBlank_space]

theorem path_space (s : Nat) : path s true ⟨pos, ' ' :: cs⟩ = path s true ⟨pos + 1, cs⟩ := by
  rw [path, path, peek_after_space]

theorem primary_space (s : Nat) :
    primary s true d ⟨pos, ' ' :: cs⟩ = primary s true d ⟨pos + 1, cs⟩ := by
  cases s with
  | zero => rfl
  | succ s =>
    have hitems : items s true d ']' ⟨pos, ' ' :: cs⟩ = items s true d ']' ⟨pos + 1, cs⟩ := by
      cases s with
      | zero => rfl
      | succ s => rw [items, items, peek_after_space]
    rw [primary, primary, peek_after_space, path_space, hitems]

theorem postfixed_space (s : Nat) :
    postfixed s true d ⟨pos, ' ' :: cs⟩ = postfixed s true d ⟨pos + 1, cs⟩ := by
  cases s with
  | zero => rfl
  | succ s => rw [postfixed, postfixed, primary_space]

theorem unary_space (s : Nat) :
    unary s true d ⟨pos, ' ' :: cs⟩ = unary s true d ⟨pos + 1, cs⟩ := by
  cases s with
  | zero => rfl
  | succ s => rw [unary, unary, peek_after_space, postfixed_space]

theorem binary_space (s level : Nat) :
    binary s true d level ⟨pos, ' ' :: cs⟩ = binary s true d level ⟨pos + 1, cs⟩ := by
  induction s generalizing level with
  | zero => rfl
  | succ s ih => rw [binary, binary, unary_space, ih]

theorem expression_space (s : Nat) :
    expression s true d ⟨pos, ' ' :: cs⟩ = expression s true d ⟨pos + 1, cs⟩ := by
  cases s with
  | zero => rfl
  | succ s => rw [expression, expression, binary_space]

end Space

/-! ## One step of the reader -/

section Step

variable {d s pos : Nat} {cs rest : List Char} {e : Expr}

theorem enter_ok (h : d < maxDepth) (t : Token) : enter d t = .ok (d + 1) := if_pos h

theorem unary_of_postfixed (h : unaryOp? (next cs) = none) :
    unary (s + 1) true d ⟨pos, cs⟩ = postfixed s true d ⟨pos, cs⟩ := by
  have ht : unaryOp? ((⟨pos, cs⟩ : Cursor).peek true).1 = none := h
  rw [unary]
  simp only [ht]

theorem links_end {level : Nat} (h : Ends level rest) :
    links (s + 1) true d e ⟨pos, rest⟩ = .ok (e, ⟨pos, rest⟩) := by
  have hp : ((⟨pos, rest⟩ : Cursor).peek true).1.isOp "." = false := h.no_point
  have hpar : ((⟨pos, rest⟩ : Cursor).peek true).1.isOp "(" = false := h.no_paren
  have hb : ((⟨pos, rest⟩ : Cursor).peek true).1.isOp "[" = false := h.no_bracket
  rw [links]
  simp only [hp, hpar, hb]
  rfl

theorem binaryRest_end {level : Nat} (h : Ends level rest) :
    binaryRest (s + 1) true d level e ⟨pos, rest⟩ = .ok (e, ⟨pos, rest⟩) := by
  have hop : binaryOpAt? level ((⟨pos, rest⟩ : Cursor).peek true).1 = none := by
    rw [binaryOpAt?, Option.filter_eq_none_iff]
    intro op hop
    have := h.looser op hop
    simp only [beq_iff_eq]
    omega
  rw [binaryRest]
  simp only [hop]

/-- An operator of the level that is read, and its right operand. -/
theorem binaryRest_symbol (s d pos : Nat) (e : Expr) (cs : List Char) (o : BinaryOp) : ∃ pos',
    binaryRest (s + 1) true d o.level e ⟨pos, ' ' :: (o.symbol.toList ++ ' ' :: cs)⟩ =
      (binary s true d (o.level + 1) ⟨pos', cs⟩ >>= fun (right, c) =>
        binaryRest s true d o.level (.binary e.position o e right) c) := by
  obtain ⟨k, hk, hs, ht⟩ := scan_symbol o cs
  have hop : binaryOpAt? o.level ⟨k, o.symbol.toList, pos + 1⟩ = some o := by
    rw [binaryOpAt?, (ht _).1]
    simp
  rw [binaryRest, Cursor.peek_space hs hk]
  simp only [hop, binary_space]
  exact ⟨_, rfl⟩

theorem binary_level {level : Nat} (h : level < BinaryOp.levels) (c : Cursor) :
    binary (s + 1) true d level c = (binary s true d (level + 1) c >>= fun (left, c) =>
      binaryRest s true d level left c) := by
  rw [binary, if_pos h]

theorem binary_unary (c : Cursor) : binary (s + 1) true d BinaryOp.levels c = unary s true d c := by
  rw [binary, if_neg (Nat.lt_irrefl _)]

theorem expression_end {pos' : Nat} (h : Closes rest)
    (hb : binary s true d 0 ⟨pos, cs⟩ = .ok (e, ⟨pos', rest⟩)) :
    expression (s + 1) true d ⟨pos, cs⟩ = .ok (e, ⟨pos', rest⟩) := by
  have hr : ((⟨pos', rest⟩ : Cursor).peek true).1.isOp ".." = false := h.no_range
  have hre : ((⟨pos', rest⟩ : Cursor).peek true).1.isOp "..=" = false := h.no_range_end
  rw [expression, hb, Except.ok_bind]
  simp only [hr, hre]
  rfl

end Step

/-! ## Reading an expression -/

/-- What a reader gives, positions aside, and where it stops. -/
def Gives (r : Except Failure (Expr × Cursor)) (e : Expr) (rest : List Char) : Prop :=
  ∃ e' pos, r = .ok (e', ⟨pos, rest⟩) ∧ e'.unplaced = e.unplaced

/-- What a reader of several expressions gives. -/
def GivesAll (r : Except Failure (List Expr × Cursor)) (es : List Expr) (rest : List Char) : Prop :=
  ∃ es' pos, r = .ok (es', ⟨pos, rest⟩) ∧ unplacedAll es' = unplacedAll es

/-- **A bracketed or atomic expression is read.** -/
def ReadsPrimary (d : Nat) (e : Expr) : Prop :=
  ∀ s pos rest, 16 * e.print.length ≤ s + 9 → Apart rest →
    Gives (primary s true d ⟨pos, e.print ++ rest⟩) e rest

/-- **Reading comes to the point after an expression**, where its links are looked for. -/
def ReadsPostfixed (d : Nat) (e : Expr) : Prop :=
  ∀ s pos rest, 16 * e.print.length ≤ s + 8 → Apart rest →
    (e.isField = true → (next rest).isOp "(" = false) →
    ∃ s' e' pos', s ≤ s' + e.print.length ∧ e'.unplaced = e.unplaced ∧
      postfixed s true d ⟨pos, e.print ++ rest⟩ = links s' true d e' ⟨pos', rest⟩

/-- An expression is read below the unary operators. -/
def ReadsUnary (d : Nat) (e : Expr) : Prop :=
  ∀ s pos rest, 16 * e.print.length ≤ s + 7 → Ends BinaryOp.levels rest →
    Gives (unary s true d ⟨pos, e.print ++ rest⟩) e rest

/-- **Reading comes to the point after an operand**, where the operators of a level are looked
for. -/
def ReadsBinary (d level : Nat) (e : Expr) : Prop :=
  ∀ s pos rest, 16 * e.print.length ≤ s + 1 + level → Ends (level + 1) rest →
    ∃ s' e' pos', s ≤ s' + e.print.length ∧ e'.unplaced = e.unplaced ∧
      binary s true d level ⟨pos, e.print ++ rest⟩ = binaryRest s' true d level e' ⟨pos', rest⟩

/-- An operand of a level is read. -/
def ReadsOperand (d level : Nat) (e : Expr) : Prop :=
  ∀ s pos rest, 16 * e.print.length ≤ s + 1 + level → Ends level rest →
    Gives (binary s true d level ⟨pos, e.print ++ rest⟩) e rest

/-- A whole expression is read. -/
def ReadsWhole (d : Nat) (e : Expr) : Prop :=
  ∀ s pos rest, 16 * e.print.length ≤ s → Closes rest →
    Gives (expression s true d ⟨pos, e.print ++ rest⟩) e rest

/-- Items of a bracketed list are read. -/
def ReadsItems (d : Nat) (es : List Expr) : Prop :=
  ∀ s pos rest closing, closing = ')' ∨ closing = ']' → 16 * (printItems es).length + 16 ≤ s →
    GivesAll (itemsRest s d closing ⟨pos, printItems es ++ closing :: rest⟩) es rest

/-- The items of a tuple after its first one are read. -/
def ReadsTuple (d : Nat) (es : List Expr) : Prop :=
  ∀ s pos rest, 16 * (printItems es).length + 16 ≤ s →
    GivesAll (tupleRest s d ⟨pos, ' ' :: ',' :: ' ' :: (printItems es ++ ')' :: rest)⟩) es rest

/-- **An expression is read wherever it may stand.** -/
structure Reads (d : Nat) (e : Expr) : Prop where
  postfixed : 7 ≤ e.rank → ReadsPostfixed d e
  unary : 6 ≤ e.rank → ReadsUnary d e
  binary : ∀ level < BinaryOp.levels, level + 1 ≤ e.rank → ReadsBinary d level e
  operand : ∀ level ≤ BinaryOp.levels, level + 1 ≤ e.rank → ReadsOperand d level e
  whole : ReadsWhole d e

theorem levels_eq : BinaryOp.levels = 5 := rfl

theorem length_print_pos {d : Nat} {e : Expr} (h : e.Printable d) : 0 < e.print.length :=
  length_pos_of_opens (first_print h (.inl rfl)).1

/-! ### From tight places to loose ones -/

section Levels

variable {d level : Nat} {e : Expr}

theorem ReadsPrimary.postfixed (h : ReadsPrimary d e) (hp : 0 < e.print.length) :
    ReadsPostfixed d e := by
  intro s pos rest hs hr _
  obtain ⟨s, rfl⟩ : ∃ k, s = k + 1 := Nat.exists_eq_succ_of_ne_zero (by omega)
  obtain ⟨e', pos', he, hu⟩ := h s pos rest (by omega) hr
  refine ⟨s, e', pos', by omega, hu, ?_⟩
  rw [Read.postfixed, he, Except.ok_bind]

theorem ReadsPostfixed.unary (h : ReadsPostfixed d e) (hp : 0 < e.print.length)
    (hnext : ∀ rest, Apart rest → unaryOp? (next (e.print ++ rest)) = none) : ReadsUnary d e := by
  intro s pos rest hs hr
  obtain ⟨s, rfl⟩ : ∃ k, s = k + 1 := Nat.exists_eq_succ_of_ne_zero (by omega)
  obtain ⟨s', e', pos', hle, hu, he⟩ := h s pos rest (by omega) hr.apart fun _ => hr.no_paren
  obtain ⟨s', rfl⟩ : ∃ k, s' = k + 1 := Nat.exists_eq_succ_of_ne_zero (by omega)
  rw [unary_of_postfixed (hnext rest hr.apart), he, links_end hr]
  exact ⟨e', pos', rfl, hu⟩

theorem ReadsUnary.operand (h : ReadsUnary d e) (hp : 0 < e.print.length) :
    ReadsOperand d BinaryOp.levels e := by
  intro s pos rest hs hr
  rw [levels_eq] at hs
  obtain ⟨s, rfl⟩ : ∃ k, s = k + 1 := Nat.exists_eq_succ_of_ne_zero (by omega)
  rw [binary_unary]
  exact h s pos rest (by omega) hr

theorem ReadsOperand.binary (h : ReadsOperand d (level + 1) e) (hl : level < BinaryOp.levels)
    (hp : 0 < e.print.length) : ReadsBinary d level e := by
  intro s pos rest hs hr
  rw [levels_eq] at hl
  obtain ⟨s, rfl⟩ : ∃ k, s = k + 1 := Nat.exists_eq_succ_of_ne_zero (by omega)
  obtain ⟨e', pos', he, hu⟩ := h s pos rest (by omega) hr
  refine ⟨s, e', pos', by omega, hu, ?_⟩
  rw [binary_level hl, he, Except.ok_bind]

theorem ReadsBinary.operand (h : ReadsBinary d level e) (hl : level < BinaryOp.levels)
    (hp : 0 < e.print.length) : ReadsOperand d level e := by
  intro s pos rest hs hr
  rw [levels_eq] at hl
  obtain ⟨s', e', pos', hle, hu, he⟩ := h s pos rest hs (hr.mono (Nat.le_succ _))
  obtain ⟨s', rfl⟩ : ∃ k, s' = k + 1 := Nat.exists_eq_succ_of_ne_zero (by omega)
  rw [he, binaryRest_end hr]
  exact ⟨e', pos', rfl, hu⟩

/-- What is read as an operand of some level is read at all looser levels. -/
theorem ReadsOperand.looser (h : ReadsOperand d level e) (hl : level ≤ BinaryOp.levels)
    (hp : 0 < e.print.length) : ∀ l < level, ReadsBinary d l e ∧ ReadsOperand d l e := by
  induction level with
  | zero => exact fun l hl => absurd hl (Nat.not_lt_zero l)
  | succ level ih =>
    have hb := h.binary hl hp
    have ho := hb.operand hl hp
    intro l hlt
    rcases Nat.lt_succ_iff_lt_or_eq.mp hlt with hlt | rfl
    · exact ih ho (Nat.le_of_succ_le hl) l hlt
    · exact ⟨hb, ho⟩

theorem ReadsOperand.whole (h : ReadsOperand d 0 e) (hp : 0 < e.print.length) : ReadsWhole d e := by
  intro s pos rest hs hr
  obtain ⟨s, rfl⟩ : ∃ k, s = k + 1 := Nat.exists_eq_succ_of_ne_zero (by omega)
  obtain ⟨e', pos', he, hu⟩ := h s pos rest (by omega) hr.toEnds
  exact ⟨e', pos', expression_end hr he, hu⟩

/-- An expression that is read as an operand of the level of its rank is read everywhere. -/
theorem Reads.of_binary (h : ReadsBinary d level e) (hl : level < BinaryOp.levels)
    (hp : 0 < e.print.length) (hrank : e.rank = level + 1) : Reads d e := by
  have ho := h.operand hl hp
  rw [levels_eq] at hl
  refine ⟨fun h7 => by omega, fun h6 => by omega, fun l _ hle => ?_, fun l _ hle => ?_, ?_⟩
  · rcases Nat.lt_or_eq_of_le (Nat.le_of_succ_le_succ (hrank ▸ hle)) with hlt | rfl
    · exact (ho.looser (Nat.le_of_lt hl) hp l hlt).1
    · exact h
  · rcases Nat.lt_or_eq_of_le (Nat.le_of_succ_le_succ (hrank ▸ hle)) with hlt | rfl
    · exact (ho.looser (Nat.le_of_lt hl) hp l hlt).2
    · exact ho
  · rcases Nat.eq_zero_or_pos level with rfl | hpos
    · exact ho.whole hp
    · exact (ho.looser (Nat.le_of_lt hl) hp 0 hpos).2.whole hp

theorem Reads.of_unary (h : ReadsUnary d e) (hp : 0 < e.print.length)
    (hpost : 7 ≤ e.rank → ReadsPostfixed d e) : Reads d e := by
  have ho := h.operand hp
  have hall := ho.looser (Nat.le_refl _) hp
  refine ⟨hpost, fun _ => h, fun l hl _ => (hall l hl).1, fun l hl _ => ?_,
    (hall 0 (by decide)).2.whole hp⟩
  rcases Nat.lt_or_eq_of_le hl with hlt | rfl
  · exact (hall l hlt).2
  · exact ho

/-- **What is read as a postfix expression is read everywhere.** -/
theorem Reads.of_postfixed (h : ReadsPostfixed d e) (hprint : e.Printable d) (hrank : 7 ≤ e.rank) :
    Reads d e :=
  have hp := length_print_pos hprint
  .of_unary (h.unary hp fun _ hr => (next_print hprint hr).2 hrank) hp fun _ => h

end Levels

/-! ### Names and paths -/

section Path

variable {s pos : Nat} {rest : List Char}

/-- No further part of a path follows. -/
def Unmarked (rest : List Char) : Prop := ((⟨0, rest⟩ : Cursor).token).1.isOp "::" = false

theorem Unmarked.of_apart (h : Apart rest) : Unmarked rest := by
  rcases h with rfl | ⟨r, rfl⟩ <;> rfl

theorem Unmarked.of_parted (h : Parted rest) : Unmarked rest := by
  rw [Unmarked, ← Bool.not_eq_true]
  intro hmark
  rw [Token.isOp, Bool.and_eq_true, decide_eq_true_eq, decide_eq_true_eq] at hmark
  have htext : (scan rest).text = "::".toList := hmark.2
  obtain ⟨o, ho, he⟩ := Option.map_eq_some_iff.mp (op?_of_scan hmark.1)
  have hstart : o.toList.isPrefixOf rest = true := by simpa using List.find?_some ho
  rw [(Prod.mk.inj he).1, htext] at hstart
  obtain ⟨r, rfl⟩ := List.isPrefixOf_iff_prefix.mp hstart
  exact h.no_colon rfl

theorem checkName_ok {n : String} (h : IsName n) (p : Nat) :
    checkName ⟨.name, n.toList, p⟩ = .ok n := by
  have hv : (⟨.name, n.toList, p⟩ : Token).value = n := String.ofList_toList
  rw [checkName, hv, h.not_reserved]
  rfl

theorem pathRest_print {ns : List String} (hns : ∀ n ∈ ns, IsName n) (hs : ns.length < s)
    (hw : Wordless rest) (hm : Unmarked rest) (pos : Nat) : ∃ pos', pathRest s
      ⟨pos, (if ns.isEmpty then [] else ':' :: ':' :: printPath ns) ++ rest⟩ =
        .ok (ns, ⟨pos', rest⟩) := by
  induction ns generalizing s pos with
  | nil =>
    obtain ⟨s, rfl⟩ : ∃ k, s = k + 1 := Nat.exists_eq_succ_of_ne_zero (by omega)
    have hm' : ((⟨pos, rest⟩ : Cursor).token).1.isOp "::" = false := hm
    refine ⟨pos, ?_⟩
    rw [pathRest]
    simp [hm']
  | cons n ns ih =>
    obtain ⟨s, rfl⟩ : ∃ k, s = k + 1 := Nat.exists_eq_succ_of_ne_zero (by omega)
    have hn := hns n List.mem_cons_self
    have hmark : scan (':' :: ':' :: (printPath (n :: ns) ++ rest)) =
        ⟨.op, [':', ':'], printPath (n :: ns) ++ rest⟩ := rfl
    have hname : scan (printPath (n :: ns) ++ rest) = ⟨.name, n.toList,
        (if ns.isEmpty then [] else ':' :: ':' :: printPath ns) ++ rest⟩ := by
      rw [printPath_cons, List.append_assoc]
      cases ns with
      | nil => exact scan_name hn hw
      | cons m ms => exact scan_name hn (wordless_mark _)
    have hop : (⟨.op, [':', ':'], pos⟩ : Token).isOp "::" = true := rfl
    obtain ⟨pos', hrest⟩ := ih (s := s) (fun m hm => hns m (List.mem_cons_of_mem _ hm))
      (by simpa using hs) (pos + [':', ':'].length + n.toList.length)
    refine ⟨pos', ?_⟩
    rw [if_neg (by simp), List.cons_append, List.cons_append, pathRest,
      Cursor.token_of_scan hmark]
    simp only [hop, if_true, Cursor.token_of_scan hname, checkName_ok hn, Except.ok_bind, hrest]
    rfl

theorem length_le_printPath {ns : List String} (h : ∀ n ∈ ns, IsName n) :
    ns.length ≤ (printPath ns).length := by
  induction ns with
  | nil => simp
  | cons n ns ih =>
    obtain ⟨c, cs, hn, -⟩ := (h n List.mem_cons_self).exists_cons
    have := ih fun m hm => h m (List.mem_cons_of_mem _ hm)
    rw [printPath_cons, hn]
    cases ns with
    | nil => simp
    | cons m ms =>
      simp only [List.length_append, List.length_cons, List.isEmpty_cons] at this ⊢
      simp only [Bool.false_eq_true, if_false, List.length_cons]
      omega

/-- **A printed path is read.** -/
theorem path_print {n : String} {ns : List String} (h : ∀ m ∈ n :: ns, IsName m)
    (hs : ns.length < s) (hw : Wordless rest) (hm : Unmarked rest) (spaced : Bool) (pos : Nat) :
    ∃ pos', path s spaced ⟨pos, printPath (n :: ns) ++ rest⟩ = .ok (n :: ns, ⟨pos', rest⟩) := by
  have hn := h n List.mem_cons_self
  have hname : scan (printPath (n :: ns) ++ rest) = ⟨.name, n.toList,
      (if ns.isEmpty then [] else ':' :: ':' :: printPath ns) ++ rest⟩ := by
    rw [printPath_cons, List.append_assoc]
    cases ns with
    | nil => exact scan_name hn hw
    | cons m ms => exact scan_name hn (wordless_mark _)
  obtain ⟨pos', hrest⟩ := pathRest_print
    (fun m hm => h m (List.mem_cons_of_mem _ hm)) hs hw hm (pos + n.toList.length)
  refine ⟨pos', ?_⟩
  rw [path, Cursor.peek_of_scan hname (by decide)]
  simp only [if_true, checkName_ok hn, Except.ok_bind, hrest]
  rfl

end Path

/-! ### Brackets and links -/

section Bracket

variable {d s pos : Nat} {cs rest : List Char} {base : Expr}

theorem primary_paren (hd : d < maxDepth) (spaced : Bool) :
    primary (s + 1) spaced d ⟨pos, '(' :: cs⟩ = parenthesized s (d + 1) pos ⟨pos + 1, cs⟩ := by
  have ht : scan ('(' :: cs) = ⟨.op, ['('], cs⟩ := rfl
  rw [primary, Cursor.peek_of_scan ht (by decide)]
  show (enter d _ >>= _) = _
  rw [enter_ok hd]
  rfl

theorem items_open {o closing : Char} (hd : d < maxDepth) (ho : scan (o :: cs) = ⟨.op, [o], cs⟩)
    (spaced : Bool) : items (s + 1) spaced d closing ⟨pos, o :: cs⟩ =
      itemsRest s (d + 1) closing ⟨pos + 1, cs⟩ := by
  rw [items, Cursor.peek_of_scan ho (by decide)]
  show (enter d _ >>= _) = _
  rw [enter_ok hd]
  rfl

theorem primary_bracket (hd : d < maxDepth) :
    primary (s + 2) true d ⟨pos, '[' :: cs⟩ =
      (itemsRest s (d + 1) ']' ⟨pos + 1, cs⟩ >>= fun (is, c) => .ok (.list pos is, c)) := by
  have ht : scan ('[' :: cs) = ⟨.op, ['['], cs⟩ := rfl
  rw [primary, Cursor.peek_of_scan ht (by decide)]
  show (items (s + 1) true d ']' _ >>= _) = _
  rw [items_open hd rfl]
  rfl

theorem links_call (hd : d < maxDepth) : links (s + 2) true d base ⟨pos, ' ' :: '(' :: cs⟩ =
    (itemsRest s (d + 1) ')' ⟨pos + 2, cs⟩ >>= fun (args, c) =>
      links (s + 1) true d (.call base.position base args) c) := by
  have ht : scan ('(' :: cs) = ⟨.op, ['('], cs⟩ := rfl
  have hi : items (s + 1) true d ')' ⟨pos, ' ' :: '(' :: cs⟩ =
      itemsRest s (d + 1) ')' ⟨pos + 2, cs⟩ := by
    rw [items, Cursor.peek_space ht (by decide)]
    show (enter d _ >>= _) = _
    rw [enter_ok hd]
    rfl
  rw [links, Cursor.peek_space ht (by decide), ← hi]
  rfl

theorem links_index : links (s + 1) true d base ⟨pos, ' ' :: '[' :: ' ' :: cs⟩ =
    (expression s true d ⟨pos + 3, cs⟩ >>= fun (place, c) =>
      if (c.peek true).1.isOp "]" then
        links s true d (.index base.position base place) (c.peek true).2
      else fail .expectedIndexEnd (c.peek true).1) := by
  have ht : scan ('[' :: ' ' :: cs) = ⟨.op, ['['], ' ' :: cs⟩ := rfl
  rw [links, Cursor.peek_space ht (by decide)]
  show (expression s true d ⟨pos + 2, ' ' :: cs⟩ >>= _) = _
  rw [expression_space]

/-- A point that a name follows is no longer operator. -/
theorem scan_point {n : String} (hn : IsName n) (rest : List Char) :
    scan ('.' :: (n.toList ++ rest)) = ⟨.op, ['.'], n.toList ++ rest⟩ := by
  obtain ⟨c, cs, hcons, hc, -⟩ := hn.exists_cons
  have hword := (isNameStart_iff.mp hc).1
  have hne : c ≠ '.' := by rintro rfl; exact absurd hword (by decide)
  have hop : op? ('.' :: (n.toList ++ rest)) = some (['.'], n.toList ++ rest) := by
    rw [hcons]
    simp [op?, operators, List.find?, List.isPrefixOf, beq_eq_false_iff_ne.mpr hne.symm]
    rfl
  have hblank : blank? ('.' :: (n.toList ++ rest)) = none := rfl
  have hfloat : float? ('.' :: (n.toList ++ rest)) = none := rfl
  have hint : int? ('.' :: (n.toList ++ rest)) = none := rfl
  have hstring : string? ('.' :: (n.toList ++ rest)) = none := rfl
  have hname : name? ('.' :: (n.toList ++ rest)) = none := rfl
  simp only [scan, hblank, hfloat, hint, hstring, hname, hop]
  rfl

/-- A point with a name after it. -/
theorem links_point (s d pos : Nat) (base : Expr) {n : String} {rest : List Char} (hn : IsName n)
    (hw : Wordless rest) : ∃ pos',
    links (s + 1) true d base ⟨pos, ' ' :: '.' :: (n.toList ++ rest)⟩ =
      if (next rest).isOp "(" then
        items s true d ')' ⟨pos', rest⟩ >>= fun (args, c) =>
          links s true d (.method base.position base n args) c
      else links s true d (.field base.position base n) ⟨pos', rest⟩ := by
  refine ⟨pos + 1 + ['.'].length + n.toList.length, ?_⟩
  have hpoint : (⟨.op, ['.'], pos + 1⟩ : Token).isOp "." = true := rfl
  rw [links, Cursor.peek_space (scan_point hn rest) (by decide)]
  simp only [hpoint, if_true, Cursor.token_of_scan (scan_name hn hw), checkName_ok hn,
    Except.ok_bind]
  rfl

end Bracket

end Stencil.Expr.Read
