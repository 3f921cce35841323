import Stencil.Proofs.ReadExpr
import Stencil.Proofs.WrittenPattern

/-!
# Written patterns are read back

A text that writes a pattern is read as that pattern, positions aside, and reading stops where the
text ends. One lemma for each form of the grammar; the forms are put together at the end.

* `Pattern.Read.ReadsSingle`, `Pattern.Read.ReadsWhole`, ...: a text is read as a part of a pattern.
* `Pattern.Read.ReadsItems.item`, `Pattern.Read.reads_or`, ...: the forms of the grammar.
* **`Pattern.Read.reads`**: a pattern is read wherever it may stand.
* **`Pattern.read_writes`**, **`Pattern.read_print`**: reading a text of a pattern, and the one that
  is printed, gives the pattern.
-/

namespace Stencil.Pattern

open Text Expr Expr.Read

namespace Read

variable {d : Nat} {p : Pattern} {ps : List Pattern} {fs : List (String × Pattern)} {o : Bool}
variable {b : Bool} {l : Listed} {w w' w'' t ts : List Char}

/-- A pattern that is read, positions aside, and where reading stops. -/
def Gives (r : Except Failure (Pattern × Cursor)) (p : Pattern) (rest : List Char) : Prop :=
  ∃ p' pos, r = .ok (p', ⟨pos, rest⟩) ∧ p'.unplaced = p.unplaced

/-- A text is read as a pattern without alternatives at its top. -/
def ReadsSingle (d : Nat) (p : Pattern) (t : List Char) : Prop :=
  ∀ s pos rest, 16 * t.length ≤ s + 8 → Stops rest → Gives (single s d ⟨pos, t ++ rest⟩) p rest

/-- A text is read as a whole pattern. -/
def ReadsWhole (d : Nat) (p : Pattern) (t : List Char) : Prop :=
  ∀ s pos rest, 16 * t.length ≤ s → Closed rest → Gives (pattern s d ⟨pos, t ++ rest⟩) p rest

/-- A text is read as further alternatives. -/
def ReadsMore (d : Nat) (ps : List Pattern) (t : List Char) : Prop :=
  ∀ s pos rest, 16 * t.length + 8 ≤ s → Closed rest → ∃ ps' pos',
    unplacedAll ps' = unplacedAll ps ∧ alternatives s d ⟨pos, t ++ rest⟩ = .ok (ps', ⟨pos', rest⟩)

/-- What is read of a list whose items so far and whose mark of the rest are given. -/
def GivesList (r : Except Failure (Listed × Cursor)) (count : Nat) (mark : Option Nat) (l : Listed)
    (rest : List Char) : Prop :=
  ∃ is pos, unplacedAll is = unplacedAll l.items ∧
    r = .ok (⟨is, mark.or (l.rest.map (count + ·)), l.trailing⟩, ⟨pos, rest⟩)

/-- A text is read as the items of a list, in which there is one mark of the rest at most. -/
def ReadsItems (d : Nat) (comma : Bool) (l : Listed) (t : List Char) : Prop :=
  ∀ s pos count mark rest, 16 * t.length + 7 ≤ s → mark = none ∨ l.rest = none →
    GivesList (listed s d count mark comma ⟨pos, t ++ rest⟩) count mark l rest

/-- A text is read as what stands after an item. -/
def ReadsItemsEnd (d : Nat) (l : Listed) (t : List Char) : Prop :=
  ∀ s pos count mark rest, 16 * t.length + 7 ≤ s → mark = none ∨ l.rest = none →
    GivesList (listedEnd s d count mark ⟨pos, t ++ rest⟩) count mark l rest

/-- What is read of the fields of a structure. -/
def GivesFields (r : Except Failure (List (String × Pattern) × Bool × Cursor))
    (fs : List (String × Pattern)) (o : Bool) (rest : List Char) : Prop :=
  ∃ fs' pos, unplacedFields fs' = unplacedFields fs ∧ r = .ok (fs', o, ⟨pos, rest⟩)

/-- A text is read as the fields of a structure. -/
def ReadsFields (d : Nat) (fs : List (String × Pattern)) (o : Bool) (t : List Char) : Prop :=
  ∀ s pos rest, 16 * t.length + 7 ≤ s → GivesFields (fields s d ⟨pos, t ++ rest⟩) fs o rest

/-! ## White space before a part -/

section Gap

variable {pos : Nat} {cs : List Char}

theorem path_gap (hw : IsGap w) (s : Nat) :
    Expr.Read.path s true ⟨pos, w ++ cs⟩ = Expr.Read.path s true ⟨pos + w.length, cs⟩ := by
  rw [Expr.Read.path, Expr.Read.path, Cursor.peek_gap hw]

theorem single_gap (hw : IsGap w) (s : Nat) :
    single s d ⟨pos, w ++ cs⟩ = single s d ⟨pos + w.length, cs⟩ := by
  cases s with
  | zero => rfl
  | succ s => rw [single, single, Cursor.peek_gap hw, path_gap hw]

theorem pattern_gap (hw : IsGap w) (s : Nat) :
    pattern s d ⟨pos, w ++ cs⟩ = pattern s d ⟨pos + w.length, cs⟩ := by
  cases s with
  | zero => rfl
  | succ s => rw [pattern, pattern, single_gap hw]

end Gap

/-! ## Items -/

section Items

theorem ReadsItems.close (hw : IsGap w) : ReadsItems d b ⟨[], none, b⟩ (w ++ [')']) := by
  intro s pos count mark rest hs _
  obtain ⟨s, rfl⟩ : ∃ k, s = k + 1 := Nat.exists_eq_succ_of_ne_zero (by omega)
  refine ⟨[], pos + w.length + 1, rfl, ?_⟩
  rw [List.append_assoc, List.singleton_append, listed, Cursor.peek_gap hw,
    Cursor.peek_of_scan (scan_close rest) (by decide), Option.map_none, Option.or_none]
  rfl

theorem ReadsItemsEnd.close (hw : IsGap w) : ReadsItemsEnd d ⟨[], none, false⟩ (w ++ [')']) := by
  intro s pos count mark rest hs _
  obtain ⟨s, rfl⟩ : ∃ k, s = k + 1 := Nat.exists_eq_succ_of_ne_zero (by omega)
  refine ⟨[], pos + w.length + 1, rfl, ?_⟩
  rw [List.append_assoc, List.singleton_append, listedEnd, Cursor.peek_gap hw,
    Cursor.peek_of_scan (scan_close rest) (by decide), Option.map_none, Option.or_none]
  rfl

theorem ReadsItemsEnd.comma (hw : IsGap w) (h : ReadsItems d true l t) :
    ReadsItemsEnd d l (w ++ ',' :: t) := by
  intro s pos count mark rest hs hmark
  simp only [List.length_append, List.length_cons] at hs
  obtain ⟨s, rfl⟩ : ∃ k, s = k + 1 := Nat.exists_eq_succ_of_ne_zero (by omega)
  have hscan : scan (',' :: (t ++ rest)) = ⟨.op, [','], t ++ rest⟩ := rfl
  rw [List.append_assoc, List.cons_append, listedEnd, Cursor.peek_gap hw,
    Cursor.peek_of_scan hscan (by decide)]
  exact h s _ count mark rest (by omega) hmark

/-- The mark of the rest, and what follows it. -/
theorem ReadsItems.rest (hw : IsGap w) (hl : l.rest = none) (h : ReadsItemsEnd d l t)
    (hend : ∀ cs, (t ++ cs).head? ≠ some '=') :
    ReadsItems d b { l with rest := some 0 } (w ++ '.' :: '.' :: t) := by
  intro s pos count mark rest hs hmark
  obtain rfl : mark = none := hmark.resolve_right fun h => by cases h
  simp only [List.length_append, List.length_cons] at hs
  obtain ⟨s, rfl⟩ : ∃ k, s = k + 1 := Nat.exists_eq_succ_of_ne_zero (by omega)
  obtain ⟨is, pos', hu, he⟩ := h s (pos + w.length + 2) count (some count) rest (by omega) (.inr hl)
  refine ⟨is, pos', hu, ?_⟩
  rw [List.append_assoc, List.cons_append, List.cons_append, listed, Cursor.peek_gap hw,
    Cursor.peek_of_scan (scan_dots (hend rest)) (by decide)]
  exact he

/-- **An item**, and what follows it. -/
theorem ReadsItems.item (hw : IsGap w) (ht : Writes d p t) (hp : ReadsWhole d p t)
    (hts : ∀ cs, Closed (ts ++ cs)) (h : ReadsItemsEnd d l ts) (hpos : 0 < ts.length) :
    ReadsItems d b ⟨p :: l.items, l.rest.map (· + 1), l.trailing⟩ (w ++ (t ++ ts)) := by
  intro s pos count mark rest hs hmark
  simp only [List.length_append] at hs
  have htpos := ht.length_pos
  obtain ⟨s, rfl⟩ : ∃ k, s = k + 1 := Nat.exists_eq_succ_of_ne_zero (by omega)
  have hopen := ht.opens (hts rest).parted
  have hno {o : String} (hpar : o ≠ "(") (hbracket : o ≠ "[") (hminus : o ≠ "-") :
      ((⟨pos + w.length, t ++ (ts ++ rest)⟩ : Cursor).peek true).1.isOp o = false := by
    have := not_op_of_opens hopen hpar hbracket hminus
    rwa [← next_of_opens hopen] at this
  obtain ⟨p', pos', he, hu⟩ := hp s (pos + w.length) (ts ++ rest) (by omega) (hts rest)
  obtain ⟨is, pos'', hus, hes⟩ := h s pos' (count + 1) mark rest (by omega) (by
    rcases hmark with hmark | hmark
    · exact .inl hmark
    · exact .inr (Option.map_eq_none_iff.mp hmark))
  refine ⟨p' :: is, pos'', by rw [unplacedAll, unplacedAll, hu, hus], ?_⟩
  have hmap : (l.rest.map (· + 1)).map (count + ·) = l.rest.map (count + 1 + ·) := by
    rw [Option.map_map]
    exact congrArg (l.rest.map ·) (funext fun k => by simp only [Function.comp]; omega)
  rw [List.append_assoc, List.append_assoc, listed, Cursor.peek_gap hw, pattern_gap hw]
  simp only [hno (o := ")") (by decide) (by decide) (by decide),
    hno (o := "..") (by decide) (by decide) (by decide), he, Except.ok_bind, hes, hmap]
  rfl

end Items

/-! ## Patterns without alternatives -/

section Single

theorem single_paren {s pos : Nat} {cs : List Char} (hd : d < maxDepth) :
    single (s + 1) d ⟨pos, '(' :: cs⟩ =
      (listed s (d + 1) 0 none false ⟨pos + 1, cs⟩ >>= fun x => .ok (x.1.pattern pos, x.2)) := by
  have hscan : scan ('(' :: cs) = ⟨.op, ['('], cs⟩ := rfl
  rw [single, Cursor.peek_of_scan hscan (by decide)]
  show (Expr.Read.enter d _ >>= _) = _
  rw [enter_ok hd]
  rfl

theorem length_unplacedAll (ps : List Pattern) : (unplacedAll ps).length = ps.length := by
  induction ps with
  | nil => rfl
  | cons p ps ih => rw [unplacedAll, List.length_cons, ih, List.length_cons]

/-- Only a single pattern in parentheses is no tuple. -/
theorem pattern_eq_tuple {is : List Pattern} {mark : Option Nat} {trailing : Bool}
    (h : is.length = 1 → mark = none → trailing = true) (position : Nat) :
    Listed.pattern ⟨is, mark, trailing⟩ position = .tuple position is mark := by
  rcases is with _ | ⟨p, _ | ⟨q, qs⟩⟩
  · rfl
  · cases mark with
    | none =>
      rw [h rfl rfl]
      rfl
    | some k => rfl
  · rfl

/-- **A tuple is read.** -/
theorem reads_tuple {position : Nat} (hd : d < maxDepth) (h : ReadsItems (d + 1) false l t)
    (hl : l.items.length = 1 → l.rest = none → l.trailing = true) :
    ReadsSingle d (.tuple position l.items l.rest) ('(' :: t) := by
  intro s pos rest hs _
  rw [List.length_cons] at hs
  obtain ⟨s, rfl⟩ : ∃ k, s = k + 1 := Nat.exists_eq_succ_of_ne_zero (by omega)
  obtain ⟨is, pos', hu, he⟩ := h s (pos + 1) 0 none rest (by omega) (.inl rfl)
  have hlen : is.length = l.items.length := by
    rw [← length_unplacedAll, hu, length_unplacedAll]
  have hmark : none.or (l.rest.map (0 + ·)) = l.rest := by
    cases l.rest <;> simp
  refine ⟨.tuple pos is l.rest, pos', ?_, by rw [unplaced, unplaced, hu]⟩
  rw [List.cons_append, single_paren hd, he, hmark, Except.ok_bind]
  simp only [pattern_eq_tuple fun h => hl (hlen ▸ h)]

/-- **A pattern in parentheses is itself.** -/
theorem reads_group (hd : d < maxDepth) (hw : IsGap w) (hw' : IsGap w') (ht : Writes (d + 1) p t)
    (h : ReadsWhole (d + 1) p t) : ReadsSingle d p ('(' :: (w ++ (t ++ (w' ++ [')'])))) := by
  intro s pos rest hs _
  rw [List.length_cons] at hs
  obtain ⟨s, rfl⟩ : ∃ k, s = k + 1 := Nat.exists_eq_succ_of_ne_zero (by omega)
  have hitems := ReadsItems.item (b := false) hw ht h
    (WritesItemsEnd.closed (d := d + 1) (.close hw')) (.close hw') (by simp)
  obtain ⟨is, pos', hu, he⟩ := hitems s (pos + 1) 0 none rest (by omega) (.inl rfl)
  obtain ⟨p', rfl⟩ : ∃ p', is = [p'] := by
    refine List.length_eq_one_iff.mp ?_
    rw [← length_unplacedAll, hu, length_unplacedAll]
    rfl
  refine ⟨p', pos', ?_, ?_⟩
  · rw [List.cons_append, single_paren hd, he]
    rfl
  · rw [unplacedAll, unplacedAll, unplacedAll, unplacedAll] at hu
    exact (List.cons.inj hu).1

/-- What is read after the path of a pattern. -/
def afterPath (s d position : Nat) (parts : List String) (c : Cursor) :
    Except Failure (Pattern × Cursor) :=
  if (c.peek true).1.isOp "(" then do
    let (l, c) ← listed s (← Expr.Read.enter d (c.peek true).1) 0 none false (c.peek true).2
    return (.variant position parts l.items, c)
  else if (c.peek true).1.isOp "\x7b" then do
    let (fs, o, c) ← fields s (← Expr.Read.enter d (c.peek true).1) (c.peek true).2
    return (.struct position parts fs o, c)
  else return (ofPath position parts, c)

/-- **A path is read**, and then what follows it. -/
theorem single_path (s pos : Nat) {ps : List String} {rest : List Char} (h : IsPath ps)
    (hs : (printPath ps).length ≤ s) (hr : Parted rest) : ∃ pos',
    single (s + 1) d ⟨pos, printPath ps ++ rest⟩ = afterPath s d pos ps ⟨pos', rest⟩ := by
  obtain ⟨n, ns, rfl, hne⟩ := h.head
  obtain ⟨r, hscan⟩ := scan_printPath ns (h.names n List.mem_cons_self) hr.wordless
  have hlen := length_le_printPath h.names
  obtain ⟨pos', hpath⟩ := path_print (s := s) h.names (by
    rw [List.length_cons] at hlen
    omega) hr.wordless (.of_parted hr) true pos
  have hword : n.toList ≠ ['_'] := fun hn => hne (String.toList_inj.mp hn)
  refine ⟨pos', ?_⟩
  rw [single, Cursor.peek_of_scan hscan (by decide)]
  simp only [hword, decide_false, Bool.and_false, Bool.false_eq_true, if_false]
  show (path s true ⟨pos, printPath (n :: ns) ++ rest⟩ >>= _) = _
  rw [hpath]
  rfl

theorem afterPath_end {s pos position : Nat} {parts : List String} {rest : List Char}
    (h : Stops rest) :
    afterPath s d position parts ⟨pos, rest⟩ = .ok (ofPath position parts, ⟨pos, rest⟩) := by
  have hpar : ((⟨pos, rest⟩ : Cursor).peek true).1.isOp "(" = false := h.no_paren
  have hbrace : ((⟨pos, rest⟩ : Cursor).peek true).1.isOp "\x7b" = false := h.no_brace
  rw [afterPath, hpar, hbrace]
  rfl

theorem afterPath_paren {s pos position : Nat} {parts : List String} {cs : List Char}
    (hd : d < maxDepth) (hw : IsGap w) : afterPath s d position parts ⟨pos, w ++ '(' :: cs⟩ =
      (listed s (d + 1) 0 none false ⟨pos + w.length + 1, cs⟩ >>= fun x =>
        .ok (.variant position parts x.1.items, x.2)) := by
  have hscan : scan ('(' :: cs) = ⟨.op, ['('], cs⟩ := rfl
  rw [afterPath, Cursor.peek_gap hw, Cursor.peek_of_scan hscan (by decide)]
  show (Expr.Read.enter d _ >>= _) = _
  rw [enter_ok hd]
  rfl

theorem afterPath_brace {s pos position : Nat} {parts : List String} {cs : List Char}
    (hd : d < maxDepth) (hw : IsGap w) : afterPath s d position parts ⟨pos, w ++ '\x7b' :: cs⟩ =
      (fields s (d + 1) ⟨pos + w.length + 1, cs⟩ >>= fun x =>
        .ok (.struct position parts x.1 x.2.1, x.2.2)) := by
  have hscan : scan ('\x7b' :: cs) = ⟨.op, ['\x7b'], cs⟩ := rfl
  rw [afterPath, Cursor.peek_gap hw, Cursor.peek_of_scan hscan (by decide)]
  show (Expr.Read.enter d _ >>= _) = _
  rw [enter_ok hd]
  rfl

theorem reads_wildcard {position : Nat} : ReadsSingle d (.wildcard position) ['_'] := by
  intro s pos rest hs hr
  rw [List.length_singleton] at hs
  obtain ⟨s, rfl⟩ : ∃ k, s = k + 1 := Nat.exists_eq_succ_of_ne_zero (by omega)
  have hscan : scan ('_' :: rest) = ⟨.name, ['_'], rest⟩ :=
    scan_name isName_wildcard hr.parted.wordless
  refine ⟨.wildcard pos, pos + 1, ?_, rfl⟩
  rw [List.singleton_append, single, Cursor.peek_of_scan hscan (by decide)]
  rfl

theorem printPath_pos {ps : List String} (h : IsPath ps) : 0 < (printPath ps).length := by
  have hlen := length_le_printPath h.names
  obtain ⟨n, ns, rfl, -⟩ := h.head
  rw [List.length_cons] at hlen
  omega

/-- **A path alone**: a name, or a variant without data. -/
theorem reads_path {ps : List String} (h : IsPath ps)
    (hp : ∀ pos, (ofPath pos ps).unplaced = p.unplaced) : ReadsSingle d p (printPath ps) := by
  intro s pos rest hs hr
  have hpos := printPath_pos h
  obtain ⟨s, rfl⟩ : ∃ k, s = k + 1 := Nat.exists_eq_succ_of_ne_zero (by omega)
  obtain ⟨pos', he⟩ := single_path (d := d) s pos h (by omega) hr.parted
  rw [he, afterPath_end hr]
  exact ⟨_, _, rfl, hp pos⟩

theorem reads_binding {position : Nat} {n : String} (h : IsName n) (hne : n ≠ "_") :
    ReadsSingle d (.binding position n) n.toList :=
  have hpath : IsPath [n] := ⟨by simpa using h, n, [], rfl, hne⟩
  reads_path hpath fun _ => rfl

theorem reads_value {position : Nat} {ps : List String} (h : IsPath ps) (hl : 2 ≤ ps.length) :
    ReadsSingle d (.value position ps) (printPath ps) := by
  refine reads_path h fun pos => ?_
  rcases ps with _ | ⟨n, _ | ⟨m, ns⟩⟩
  · cases hl
  · rw [List.length_singleton] at hl
    omega
  · rfl

/-- **A variant with data is read.** -/
theorem reads_variant {position : Nat} {ps : List String} (hp : IsPath ps) (hd : d < maxDepth)
    (hw : IsGap w) (h : ReadsItems (d + 1) false l t) :
    ReadsSingle d (.variant position ps l.items) (printPath ps ++ (w ++ '(' :: t)) := by
  intro s pos rest hs _
  have hpos := printPath_pos hp
  simp only [List.length_append, List.length_cons] at hs
  obtain ⟨s, rfl⟩ : ∃ k, s = k + 1 := Nat.exists_eq_succ_of_ne_zero (by omega)
  rw [List.append_assoc, List.append_assoc, List.cons_append]
  obtain ⟨pos', he⟩ := single_path (d := d) s pos hp (by omega) (parted_paren hw (t ++ rest))
  obtain ⟨is, pos'', hu, hes⟩ := h s (pos' + w.length + 1) 0 none rest (by omega) (.inl rfl)
  refine ⟨.variant pos ps is, pos'', ?_, by rw [unplaced, unplaced, hu]⟩
  rw [he, afterPath_paren hd hw, hes]
  rfl

/-- **A structure is read.** -/
theorem reads_struct {position : Nat} {ps : List String} (hp : IsPath ps) (hd : d < maxDepth)
    (hw : IsGap w) (h : ReadsFields (d + 1) fs o t) :
    ReadsSingle d (.struct position ps fs o) (printPath ps ++ (w ++ '\x7b' :: t)) := by
  intro s pos rest hs _
  have hpos := printPath_pos hp
  simp only [List.length_append, List.length_cons] at hs
  obtain ⟨s, rfl⟩ : ∃ k, s = k + 1 := Nat.exists_eq_succ_of_ne_zero (by omega)
  rw [List.append_assoc, List.append_assoc, List.cons_append]
  obtain ⟨pos', he⟩ := single_path (d := d) s pos hp (by omega) (parted_brace hw (t ++ rest))
  obtain ⟨fs', pos'', hu, hes⟩ := h s (pos' + w.length + 1) rest (by omega)
  refine ⟨.struct pos ps fs' o, pos'', ?_, by rw [unplaced, unplaced, hu]⟩
  rw [he, afterPath_brace hd hw, hes]
  rfl

/-- **A literal without a sign is read.** -/
theorem reads_literal {position : Nat} {v : Literal} (h : v.Plain) (hu : v.Unsigned) :
    ReadsSingle d (.literal position v) v.print := by
  intro s pos rest hs hr
  have hlen : 0 < v.print.length :=
    length_pos_of_opens (opens_literal h (Apart.parted (.inl rfl)))
  obtain ⟨s, rfl⟩ : ∃ k, s = k + 1 := Nat.exists_eq_succ_of_ne_zero (by omega)
  have hminus : (⟨v.kind, v.print, pos⟩ : Token).isOp "-" = false := by
    simp [Token.isOp, v.kind_ne.2.2]
  refine ⟨.literal pos v, pos + v.print.length, ?_, rfl⟩
  rw [single, Cursor.peek_of_scan (Literal.scan_print h hu hr.parted) v.kind_ne.1]
  simp only [v.kind_ne.2.1, decide_false, Bool.false_and, Bool.false_eq_true, if_false, hminus,
    Literal.ofToken_print h hu]
  rfl

/-- **A number with a sign is read.** -/
theorem reads_negative {position n : Nat} (hw : IsGap w) (h : (Literal.int n).Plain) :
    ReadsSingle d (.literal position (.int (-n))) ('-' :: (w ++ Nat.toDigits 10 n)) := by
  intro s pos rest hs hr
  rw [List.length_cons] at hs
  obtain ⟨s, rfl⟩ : ∃ k, s = k + 1 := Nat.exists_eq_succ_of_ne_zero (by omega)
  have hscan : scan (Nat.toDigits 10 n ++ rest) = ⟨.int, Nat.toDigits 10 n, rest⟩ :=
    scan_digits n hr.parted
  have hint : Literal.ofInt (Nat.toDigits 10 n) = .ok n := Literal.ofInt_toDigits h
  have htoken : Literal.ofToken ⟨.int, Nat.toDigits 10 n, pos + 1 + w.length⟩ =
      some (.ok (.int n)) := by
    simp only [Literal.ofToken]
    rw [hint]
    rfl
  refine ⟨.literal pos (.int (-n)), pos + 1 + w.length + (Nat.toDigits 10 n).length, ?_, rfl⟩
  rw [List.cons_append, List.append_assoc, single, Cursor.peek_of_scan (scan_minus _) (by decide)]
  show negative pos ⟨pos + 1, w ++ (Nat.toDigits 10 n ++ rest)⟩ = _
  rw [negative, Cursor.peek_gap hw, Cursor.peek_of_scan hscan (by decide)]
  simp only [htoken, decide_true, Bool.true_or, if_true]
  rfl

end Single

/-! ## Fields -/

section Fields

variable {n : String}

/-- What is read after a field. -/
def fieldEnd (s d : Nat) (n : String) (p : Pattern) (c : Cursor) :
    Except Failure (List (String × Pattern) × Bool × Cursor) :=
  if (c.peek true).1.isOp "," then do
    let (fs, o, c) ← fields s d (c.peek true).2
    return ((n, p) :: fs, o, c)
  else if (c.peek true).1.isOp "\x7d" then return ([(n, p)], false, (c.peek true).2)
  else fail .expectedFieldEnd (c.peek true).1

/-- A text is read as what stands after a field. -/
def ReadsFieldsEnd (d : Nat) (fs : List (String × Pattern)) (o : Bool) (t : List Char) : Prop :=
  ∀ s pos rest n p, 16 * t.length + 7 ≤ s →
    ∃ fs' pos', unplacedFields fs' = unplacedFields fs ∧
      fieldEnd s d n p ⟨pos, t ++ rest⟩ = .ok ((n, p) :: fs', o, ⟨pos', rest⟩)

theorem ReadsFieldsEnd.comma (hw : IsGap w) (h : ReadsFields d fs o t) :
    ReadsFieldsEnd d fs o (w ++ ',' :: t) := by
  intro s pos rest n p hs
  simp only [List.length_append, List.length_cons] at hs
  have hscan : scan (',' :: (t ++ rest)) = ⟨.op, [','], t ++ rest⟩ := rfl
  obtain ⟨fs', pos', hu, he⟩ := h s (pos + w.length + 1) rest (by omega)
  refine ⟨fs', pos', hu, ?_⟩
  rw [List.append_assoc, List.cons_append, fieldEnd, Cursor.peek_gap hw,
    Cursor.peek_of_scan hscan (by decide)]
  show (fields s d ⟨pos + w.length + 1, t ++ rest⟩ >>= _) = _
  rw [he]
  rfl

theorem ReadsFieldsEnd.close (hw : IsGap w) : ReadsFieldsEnd d [] false (w ++ ['\x7d']) := by
  intro s pos rest n p _
  have hscan : scan ('\x7d' :: rest) = ⟨.op, ['\x7d'], rest⟩ := rfl
  refine ⟨[], pos + w.length + 1, rfl, ?_⟩
  rw [List.append_assoc, List.singleton_append, fieldEnd, Cursor.peek_gap hw,
    Cursor.peek_of_scan hscan (by decide)]
  rfl

theorem ReadsFields.close (hw : IsGap w) : ReadsFields d [] false (w ++ ['\x7d']) := by
  intro s pos rest hs
  obtain ⟨s, rfl⟩ : ∃ k, s = k + 1 := Nat.exists_eq_succ_of_ne_zero (by omega)
  have hscan : scan ('\x7d' :: rest) = ⟨.op, ['\x7d'], rest⟩ := rfl
  refine ⟨[], pos + w.length + 1, rfl, ?_⟩
  rw [List.append_assoc, List.singleton_append, fields, Cursor.peek_gap hw,
    Cursor.peek_of_scan hscan (by decide)]
  rfl

/-- The mark of an open structure. -/
theorem ReadsFields.rest (hw : IsGap w) (hw' : IsGap w') :
    ReadsFields d [] true (w ++ '.' :: '.' :: (w' ++ ['\x7d'])) := by
  intro s pos rest hs
  obtain ⟨s, rfl⟩ : ∃ k, s = k + 1 := Nat.exists_eq_succ_of_ne_zero (by omega)
  have hbrace : scan ('\x7d' :: rest) = ⟨.op, ['\x7d'], rest⟩ := rfl
  have hdots : scan ('.' :: '.' :: (w' ++ '\x7d' :: rest)) =
      ⟨.op, ['.', '.'], w' ++ '\x7d' :: rest⟩ :=
    scan_dots (hw'.head_ne (by decide) (by simp))
  refine ⟨[], pos + w.length + 2 + w'.length + 1, rfl, ?_⟩
  rw [List.append_assoc, List.cons_append, List.cons_append, List.append_assoc,
    List.singleton_append, fields, Cursor.peek_gap hw, Cursor.peek_of_scan hdots (by decide)]
  have hno : (⟨.op, ['.', '.'], pos + w.length⟩ : Token).isOp "\x7d" = false := rfl
  have hyes : (⟨.op, ['.', '.'], pos + w.length⟩ : Token).isOp ".." = true := rfl
  simp only [hno, hyes, if_true, Cursor.peek_gap hw',
    Cursor.peek_of_scan hbrace (by decide : TokenKind.op ≠ .blank)]
  rfl

/-- The name of a field. -/
theorem fields_name {s pos : Nat} {rest : List Char} (hw : IsGap w) (hn : IsName n)
    (hr : Wordless rest) :
    fields (s + 1) d ⟨pos, w ++ (n.toList ++ rest)⟩ =
      ((if ((⟨pos + w.length + n.toList.length, rest⟩ : Cursor).peek true).1.isOp ":" then
          pattern s d ((⟨pos + w.length + n.toList.length, rest⟩ : Cursor).peek true).2
        else .ok (.binding (pos + w.length) n, ⟨pos + w.length + n.toList.length, rest⟩)) >>=
          fun x => fieldEnd s d n x.1 x.2) := by
  rw [fields, Cursor.peek_gap hw, Cursor.peek_of_scan (scan_name hn hr) (by decide)]
  show (checkName _ >>= _) = _
  rw [checkName_ok hn, Except.ok_bind]
  cases hc : ((⟨pos + w.length + n.toList.length, rest⟩ : Cursor).peek true).1.isOp ":" <;>
    · simp only [hc]
      rfl

/-- A field that is bound to its name. -/
theorem ReadsFields.bound {position : Nat} (hw : IsGap w) (hn : IsName n)
    (hparted : ∀ cs, Closed (t ++ cs)) (hcolon : ∀ cs, (next (t ++ cs)).isOp ":" = false)
    (h : ReadsFieldsEnd d fs o t) :
    ReadsFields d ((n, .binding position n) :: fs) o (w ++ (n.toList ++ t)) := by
  intro s pos rest hs
  simp only [List.length_append] at hs
  obtain ⟨c, cs, hcons, -⟩ := hn.exists_cons
  rw [hcons, List.length_cons] at hs
  obtain ⟨s, rfl⟩ : ∃ k, s = k + 1 := Nat.exists_eq_succ_of_ne_zero (by omega)
  obtain ⟨fs', pos', hu, he⟩ := h s (pos + w.length + n.toList.length) rest n
    (.binding (pos + w.length) n) (by omega)
  have hno : ((⟨pos + w.length + n.toList.length, t ++ rest⟩ : Cursor).peek true).1.isOp ":" =
      false := hcolon rest
  refine ⟨(n, .binding (pos + w.length) n) :: fs', pos', by
    rw [unplacedFields, unplacedFields, hu]; rfl, ?_⟩
  rw [List.append_assoc, List.append_assoc, fields_name hw hn (hparted rest).parted.wordless, hno]
  exact he

/-- **A field with its pattern.** -/
theorem ReadsFields.field (hw : IsGap w) (hn : IsName n) (hw' : IsGap w') (hw'' : IsGap w'')
    (ht : Writes d p t) (hp : ReadsWhole d p t) (hparted : ∀ cs, Closed (ts ++ cs))
    (h : ReadsFieldsEnd d fs o ts) :
    ReadsFields d ((n, p) :: fs) o (w ++ (n.toList ++ (w' ++ ':' :: (w'' ++ (t ++ ts))))) := by
  intro s pos rest hs
  simp only [List.length_append, List.length_cons] at hs
  obtain ⟨s, rfl⟩ : ∃ k, s = k + 1 := Nat.exists_eq_succ_of_ne_zero (by omega)
  have hopen := ht.opens (hparted rest).parted
  have hcolon := scan_single (c := ':') (.inr rfl)
    (hw''.head_ne (by decide) (head_ne_of_opens (.inr rfl) hopen))
  have hword : Wordless (w' ++ ':' :: (w'' ++ (t ++ (ts ++ rest)))) := by
    cases w' with
    | nil => exact wordless_mark _
    | cons x w' =>
      intro c hc
      cases hc
      exact isWord_of_isBlank (hw' x List.mem_cons_self)
  obtain ⟨p', pos', he, hu⟩ := hp s (pos + w.length + n.toList.length + w'.length + 1 + w''.length)
    (ts ++ rest) (by omega) (hparted rest)
  obtain ⟨fs', pos'', hus, hes⟩ := h s pos' rest n p' (by omega)
  refine ⟨(n, p') :: fs', pos'', by rw [unplacedFields, unplacedFields, hu, hus], ?_⟩
  simp only [List.append_assoc, List.cons_append]
  rw [fields_name hw hn hword, Cursor.peek_gap hw', Cursor.peek_of_scan hcolon (by decide)]
  show (pattern s d ⟨pos + w.length + n.toList.length + w'.length + 1, w'' ++ (t ++ (ts ++ rest))⟩
    >>= _) = _
  rw [pattern_gap hw'', he, Except.ok_bind]
  exact hes

end Fields

/-! ## Alternatives -/

section Alternatives

theorem alternatives_end {s pos : Nat} {rest : List Char} (h : Closed rest) :
    alternatives (s + 1) d ⟨pos, rest⟩ = .ok ([], ⟨pos, rest⟩) := by
  have hbar : ((⟨pos, rest⟩ : Cursor).peek true).1.isOp "|" = false := h.no_bar
  rw [alternatives]
  simp only [hbar]
  rfl

theorem ReadsMore.nil : ReadsMore d [] [] := by
  intro s pos rest hs hr
  obtain ⟨s, rfl⟩ : ∃ k, s = k + 1 := Nat.exists_eq_succ_of_ne_zero (by omega)
  exact ⟨[], pos, rfl, alternatives_end hr⟩

/-- An alternative after its bar, and the alternatives after it. -/
theorem ReadsMore.cons (hw : IsGap w) (hw' : IsGap w') (ht : WritesSingle d p t)
    (hts : WritesMore d ps ts) (hp : ReadsSingle d p t) (h : ReadsMore d ps ts) :
    ReadsMore d (p :: ps) (w ++ '|' :: (w' ++ (t ++ ts))) := by
  intro s pos rest hs hr
  simp only [List.length_append, List.length_cons] at hs
  obtain ⟨s, rfl⟩ : ∃ k, s = k + 1 := Nat.exists_eq_succ_of_ne_zero (by omega)
  have hstops := hts.stops hr.toStops
  have hbar := scan_single (c := '|') (.inl rfl)
    (hw'.head_ne (by decide) (ht.head_ne (.inl rfl) hstops.parted))
  obtain ⟨p', pos', he, hu⟩ := hp s (pos + w.length + 1 + w'.length) (ts ++ rest) (by omega) hstops
  obtain ⟨ps', pos'', hus, hes⟩ := h s pos' rest (by omega) hr
  refine ⟨p' :: ps', pos'', by rw [unplacedAll, unplacedAll, hu, hus], ?_⟩
  simp only [List.append_assoc, List.cons_append]
  rw [alternatives, Cursor.peek_gap hw, Cursor.peek_of_scan hbar (by decide)]
  show (single s d ⟨pos + w.length + 1, w' ++ (t ++ (ts ++ rest))⟩ >>= _) = _
  rw [single_gap hw', he, Except.ok_bind]
  simp only [hes]
  rfl

theorem ReadsSingle.whole (h : ReadsSingle d p t) (ht : 0 < t.length) : ReadsWhole d p t := by
  intro s pos rest hs hr
  obtain ⟨s, rfl⟩ : ∃ k, s = k + 2 := ⟨s - 2, by omega⟩
  obtain ⟨p', pos', he, hu⟩ := h (s + 1) pos rest (by omega) hr.toStops
  refine ⟨p', pos', ?_, hu⟩
  rw [pattern, he, Except.ok_bind]
  simp only [alternatives_end hr, Except.ok_bind]
  rfl

/-- **A choice is read.** -/
theorem reads_or {position : Nat} (ht : WritesSingle d p t) (hts : WritesMore d ps ts)
    (hne : ps ≠ []) (hp : ReadsSingle d p t) (h : ReadsMore d ps ts) :
    ReadsWhole d (.or position (p :: ps)) (t ++ ts) := by
  intro s pos rest hs hr
  rw [List.length_append] at hs
  have hpos := ht.length_pos
  obtain ⟨s, rfl⟩ : ∃ k, s = k + 1 := Nat.exists_eq_succ_of_ne_zero (by omega)
  obtain ⟨p', pos', he, hu⟩ := hp s pos (ts ++ rest) (by omega) (hts.stops hr.toStops)
  obtain ⟨ps', pos'', hus, hes⟩ := h s pos' rest (by omega) hr
  obtain ⟨q, qs, rfl⟩ := List.exists_cons_of_ne_nil hne
  have hempty : ps'.isEmpty = false := by
    cases ps' with
    | nil => simp [unplacedAll] at hus
    | cons p ps => rfl
  refine ⟨.or p'.position (p' :: ps'), pos'', ?_, by
    rw [unplaced, unplaced, unplacedAll, hu, hus, ← unplacedAll]⟩
  rw [List.append_assoc, pattern, he, Except.ok_bind]
  simp only [hes, Except.ok_bind, hempty]
  rfl

end Alternatives

/-! ## All forms -/

mutual

/-- **A text that writes a pattern is read as that pattern.** -/
theorem reads : ∀ {d p t}, Writes d p t → ReadsWhole d p t
  | _, _, _, .single h => (readsSingle h).whole h.length_pos
  | _, _, _, .or h hne hmore => reads_or h hmore hne (readsSingle h) (readsMore hmore)

theorem readsMore : ∀ {d ps t}, WritesMore d ps t → ReadsMore d ps t
  | _, _, _, .nil => .nil
  | _, _, _, .cons hw hw' h hmore => .cons hw hw' h hmore (readsSingle h) (readsMore hmore)

theorem readsSingle : ∀ {d p t}, WritesSingle d p t → ReadsSingle d p t
  | _, _, _, .wildcard => reads_wildcard
  | _, _, _, .binding hn hne => reads_binding hn hne
  | _, _, _, .literal hv hu => reads_literal hv hu
  | _, _, _, .negative hw hn => reads_negative hw hn
  | _, _, _, .value hp hl => reads_value hp hl
  | _, _, _, .group hd hw hw' h => reads_group hd hw hw' h (reads h)
  | _, _, _, .tuple hd h hl => reads_tuple hd (readsItems h) hl
  | _, _, _, .variant hp hd hw h => reads_variant hp hd hw (readsItems h)
  | _, _, _, .struct hp hd hw h => reads_struct hp hd hw (readsFields h)

theorem readsItems : ∀ {d b l t}, WritesItems d b l t → ReadsItems d b l t
  | _, _, _, _, .close hw => .close hw
  | _, _, _, _, .rest hw hl h => .rest hw hl (readsItemsEnd h) h.head_ne
  | _, _, _, _, .item hw h hend =>
    .item hw h (reads h) hend.closed (readsItemsEnd hend) hend.length_pos

theorem readsItemsEnd : ∀ {d l t}, WritesItemsEnd d l t → ReadsItemsEnd d l t
  | _, _, _, .comma hw h => .comma hw (readsItems h)
  | _, _, _, .close hw => .close hw

theorem readsFields : ∀ {d fs o t}, WritesFields d fs o t → ReadsFields d fs o t
  | _, _, _, _, .close hw => .close hw
  | _, _, _, _, .rest hw hw' => .rest hw hw'
  | _, _, _, _, .bound hw hn hend =>
    .bound hw hn hend.closed hend.no_colon (readsFieldsEnd hend)
  | _, _, _, _, .field hw hn hw' hw'' h hend =>
    .field hw hn hw' hw'' h (reads h) hend.closed (readsFieldsEnd hend)

theorem readsFieldsEnd : ∀ {d fs o t}, WritesFieldsEnd d fs o t → ReadsFieldsEnd d fs o t
  | _, _, _, _, .comma hw h => .comma hw (readsFields h)
  | _, _, _, _, .close hw => .close hw

end

end Read

open Read

variable {p : Pattern} {t rest : List Char}

/-- **Reading a text of a pattern gives the pattern**, whatever follows that is no part of it. -/
theorem read_writes (h : Writes 0 p t) (hr : Closed rest) (pos : Nat) :
    Gives (Pattern.read ⟨pos, t ++ rest⟩) p rest := by
  refine reads h _ pos rest ?_ hr
  simp only [Cursor.steps, List.length_append]
  omega

theorem read_print (h : p.Shaped 0) (hp : ∀ v ∈ p.literals, v.Plain) (hr : Closed rest)
    (pos : Nat) : Gives (Pattern.read ⟨pos, p.print ++ rest⟩) p rest :=
  read_writes (writes_print h hp) hr pos

theorem read_space_print (h : p.Shaped 0) (hp : ∀ v ∈ p.literals, v.Plain) (hr : Closed rest)
    (pos : Nat) : Gives (Pattern.read ⟨pos, ' ' :: (p.print ++ rest)⟩) p rest := by
  rw [Pattern.read, ← List.singleton_append, pattern_gap isGap_space]
  refine reads (writes_print h hp) _ _ rest ?_ hr
  simp only [Cursor.steps, List.length_append]
  omega

end Stencil.Pattern
