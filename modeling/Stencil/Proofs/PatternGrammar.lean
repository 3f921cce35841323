import Stencil.Proofs.PrintedPattern

/-!
# The grammar of patterns

The texts that a pattern can have: any white space may stand between its tokens, parentheses around
any part of it that is a pattern, a comma behind the last item of a list and behind the last field,
and a field that is bound to its own name may be written as that name.

* `IsGap`: white space between two tokens, perhaps none.
* `Pattern.Writes`: a text writes a pattern below a number of brackets.
* `Pattern.Read.Stops`, `Pattern.Read.Closed`: what may stand after an alternative, and after a
  pattern.
* **`Pattern.Writes.opens`**: a pattern starts with a token that can start one.
-/

namespace Stencil

open Text Expr

/-! ## White space -/

/-- **White space between two tokens**, perhaps none. -/
def IsGap (w : List Char) : Prop := ∀ c ∈ w, isBlank c = true

section Gap

variable {w cs : List Char} {c : Char}

theorem isGap_nil : IsGap [] := fun _ h => by cases h

theorem isGap_space : IsGap [' '] := fun c h => by
  rw [List.mem_singleton.mp h]
  decide

theorem IsGap.head_ne (hw : IsGap w) (hc : isBlank c = false) (h : cs.head? ≠ some c) :
    (w ++ cs).head? ≠ some c := by
  cases w with
  | nil => exact h
  | cons x w =>
    intro hx
    obtain rfl : x = c := by simpa using hx
    rw [hw x List.mem_cons_self] at hc
    cases hc

theorem IsGap.parted (hw : IsGap w) (h : Parted cs) : Parted (w ++ cs) := by
  cases w with
  | nil => exact h
  | cons x w =>
    have hx := hw x List.mem_cons_self
    exact .cons (isWord_of_isBlank hx) (by rintro rfl; cases hx) (by rintro rfl; cases hx) _

theorem Cursor.skipBlank_gap (hw : IsGap w) (pos : Nat) :
    (⟨pos, w ++ cs⟩ : Cursor).skipBlank = (⟨pos + w.length, cs⟩ : Cursor).skipBlank := by
  simp only [skipBlank, skipWhile, List.takeWhile_append_of_pos hw, List.dropWhile_append_of_pos hw,
    List.length_append, Nat.add_assoc]

/-- **The next token after white space.** -/
theorem Cursor.peek_gap (hw : IsGap w) (pos : Nat) :
    (⟨pos, w ++ cs⟩ : Cursor).peek true = (⟨pos + w.length, cs⟩ : Cursor).peek true := by
  show (skipBlank _).token = (skipBlank _).token
  rw [skipBlank_gap hw]

theorem isOp_next_gap (hw : IsGap w) (o : String) : (next (w ++ cs)).isOp o = (next cs).isOp o := by
  rw [next, Cursor.peek_gap hw]
  rfl

end Gap

/-! ## Marks -/

/-- A bar or a colon that is not doubled. -/
theorem scan_single {c : Char} (hc : c = '|' ∨ c = ':') {cs : List Char} (h : cs.head? ≠ some c) :
    scan (c :: cs) = ⟨.op, [c], cs⟩ := by
  have hop : op? (c :: cs) = some ([c], cs) := by
    cases cs with
    | nil => rcases hc with rfl | rfl <;> rfl
    | cons x cs =>
      have hx : (c == x) = false := beq_eq_false_iff_ne.mpr fun hx => h (by rw [hx]; rfl)
      rcases hc with rfl | rfl <;> (simp [op?, operators, List.isPrefixOf, hx]; rfl)
  have hscan : scan (c :: cs) = ((op? (c :: cs)).scan fun _ => .op).getD ⟨.unknown, [c], cs⟩ := by
    rcases hc with rfl | rfl <;> rfl
  rw [hscan, hop]
  rfl

/-- Two points that no equals sign follows. -/
theorem scan_dots {cs : List Char} (h : cs.head? ≠ some '=') :
    scan ('.' :: '.' :: cs) = ⟨.op, ['.', '.'], cs⟩ := by
  have hop : op? ('.' :: '.' :: cs) = some (['.', '.'], cs) := by
    cases cs with
    | nil => rfl
    | cons x cs =>
      have hx : ('=' == x) = false := beq_eq_false_iff_ne.mpr fun hx => h (by rw [hx]; rfl)
      simp [op?, operators, List.isPrefixOf, hx]
      rfl
  have hscan : scan ('.' :: '.' :: cs) =
      ((op? ('.' :: '.' :: cs)).scan fun _ => .op).getD ⟨.unknown, ['.'], '.' :: cs⟩ := rfl
  rw [hscan, hop]
  rfl

theorem head_ne_of_opens {c : Char} (hc : c = '|' ∨ c = ':') {cs : List Char}
    (h : (first cs).opens = true) : cs.head? ≠ some c := by
  intro hhead
  obtain ⟨cs, rfl⟩ : ∃ r, cs = c :: r := by
    cases cs with
    | nil => cases hhead
    | cons x cs => exact ⟨cs, by simpa using hhead⟩
  by_cases hnext : cs.head? = some c
  · obtain ⟨cs, rfl⟩ : ∃ r, cs = c :: r := by
      cases cs with
      | nil => cases hnext
      | cons x cs => exact ⟨cs, by simpa using hnext⟩
    rcases hc with rfl | rfl <;> cases h
  · rw [first_of_scan (scan_single hc hnext)] at h
    rcases hc with rfl | rfl <;> cases h

namespace Pattern

open Expr.Read Read

/-! ## The grammar -/

mutual

/-- **A text writes a pattern** below the given number of brackets. -/
inductive Writes : Nat → Pattern → List Char → Prop
  | single {d p t} : WritesSingle d p t → Writes d p t
  | or {d position p ps t ts} : WritesSingle d p t → ps ≠ [] → WritesMore d ps ts →
    Writes d (.or position (p :: ps)) (t ++ ts)

/-- Further alternatives, each after its bar. -/
inductive WritesMore : Nat → List Pattern → List Char → Prop
  | nil {d} : WritesMore d [] []
  | cons {d p ps w w' t ts} : IsGap w → IsGap w' → WritesSingle d p t → WritesMore d ps ts →
    WritesMore d (p :: ps) (w ++ '|' :: (w' ++ (t ++ ts)))

/-- A pattern without alternatives at its top: in parentheses it is itself, unless a comma or the
mark of the rest makes a tuple of it. -/
inductive WritesSingle : Nat → Pattern → List Char → Prop
  | wildcard {d position} : WritesSingle d (.wildcard position) ['_']
  | binding {d position n} : IsName n → n ≠ "_" → WritesSingle d (.binding position n) n.toList
  | literal {d position v} : v.Plain → v.Unsigned → WritesSingle d (.literal position v) v.print
  | negative {d position w} {n : Nat} : IsGap w → (Literal.int n).Plain →
    WritesSingle d (.literal position (.int (-n))) ('-' :: (w ++ Nat.toDigits 10 n))
  | value {d position ps} : IsPath ps → 2 ≤ ps.length →
    WritesSingle d (.value position ps) (printPath ps)
  | group {d p w w' t} : d < maxDepth → IsGap w → IsGap w' → Writes (d + 1) p t →
    WritesSingle d p ('(' :: (w ++ (t ++ (w' ++ [')']))))
  | tuple {d position t} {l : Listed} : d < maxDepth → WritesItems (d + 1) false l t →
    (l.items.length = 1 → l.rest = none → l.trailing = true) →
    WritesSingle d (.tuple position l.items l.rest) ('(' :: t)
  | variant {d position ps w t} {l : Listed} : IsPath ps → d < maxDepth → IsGap w →
    WritesItems (d + 1) false l t →
    WritesSingle d (.variant position ps l.items) (printPath ps ++ (w ++ '(' :: t))
  | struct {d position ps w t fs o} : IsPath ps → d < maxDepth → IsGap w →
    WritesFields (d + 1) fs o t →
    WritesSingle d (.struct position ps fs o) (printPath ps ++ (w ++ '\x7b' :: t))

/-- The items of a list up to its closing parenthesis, after a comma or not. -/
inductive WritesItems : Nat → Bool → Listed → List Char → Prop
  | close {d comma w} : IsGap w → WritesItems d comma ⟨[], none, comma⟩ (w ++ [')'])
  | rest {d comma w t} {l : Listed} : IsGap w → l.rest = none → WritesItemsEnd d l t →
    WritesItems d comma { l with rest := some 0 } (w ++ '.' :: '.' :: t)
  | item {d comma p w s t} {l : Listed} : IsGap w → Writes d p s → WritesItemsEnd d l t →
    WritesItems d comma ⟨p :: l.items, l.rest.map (· + 1), l.trailing⟩ (w ++ (s ++ t))

/-- What stands after an item. -/
inductive WritesItemsEnd : Nat → Listed → List Char → Prop
  | comma {d w t} {l : Listed} : IsGap w → WritesItems d true l t →
    WritesItemsEnd d l (w ++ ',' :: t)
  | close {d w} : IsGap w → WritesItemsEnd d ⟨[], none, false⟩ (w ++ [')'])

/-- The fields of a structure up to its closing brace. -/
inductive WritesFields : Nat → List (String × Pattern) → Bool → List Char → Prop
  | close {d w} : IsGap w → WritesFields d [] false (w ++ ['\x7d'])
  | rest {d w w'} : IsGap w → IsGap w' →
    WritesFields d [] true (w ++ '.' :: '.' :: (w' ++ ['\x7d']))
  | bound {d position n fs o w t} : IsGap w → IsName n → WritesFieldsEnd d fs o t →
    WritesFields d ((n, .binding position n) :: fs) o (w ++ (n.toList ++ t))
  | field {d n p fs o w w' w'' s t} : IsGap w → IsName n → IsGap w' → IsGap w'' → Writes d p s →
    WritesFieldsEnd d fs o t →
    WritesFields d ((n, p) :: fs) o (w ++ (n.toList ++ (w' ++ ':' :: (w'' ++ (s ++ t)))))

/-- What stands after a field. -/
inductive WritesFieldsEnd : Nat → List (String × Pattern) → Bool → List Char → Prop
  | comma {d fs o w t} : IsGap w → WritesFields d fs o t → WritesFieldsEnd d fs o (w ++ ',' :: t)
  | close {d w} : IsGap w → WritesFieldsEnd d [] false (w ++ ['\x7d'])

end

variable {d : Nat} {p : Pattern} {ps : List Pattern} {fs : List (String × Pattern)} {o : Bool}
variable {l : Listed} {t rest : List Char}

/-! ## What stands after a part -/

namespace Read

/-- **What may stand after an alternative**: no data of a path. -/
structure Stops (rest : List Char) : Prop where
  parted : Parted rest
  no_paren : (next rest).isOp "(" = false
  no_brace : (next rest).isOp "\x7b" = false

/-- **What may stand after a pattern**: no data and no further alternative. -/
structure Closed (rest : List Char) : Prop extends Stops rest where
  no_bar : (next rest).isOp "|" = false

theorem Stops.gap {w : List Char} (hw : IsGap w) (h : Stops rest) : Stops (w ++ rest) :=
  ⟨hw.parted h.parted, by rw [isOp_next_gap hw, h.no_paren], by rw [isOp_next_gap hw, h.no_brace]⟩

theorem Closed.gap {w : List Char} (hw : IsGap w) (h : Closed rest) : Closed (w ++ rest) :=
  ⟨h.toStops.gap hw, by rw [isOp_next_gap hw, h.no_bar]⟩

theorem closed_nil : Closed [] := ⟨⟨Apart.parted (.inl rfl), rfl, rfl⟩, rfl⟩

theorem closed_comma (cs : List Char) : Closed (',' :: cs) :=
  ⟨⟨.cons (by decide) (by decide) (by decide) cs, rfl, rfl⟩, rfl⟩

theorem closed_paren (cs : List Char) : Closed (')' :: cs) :=
  ⟨⟨.cons (by decide) (by decide) (by decide) cs, rfl, rfl⟩, rfl⟩

theorem closed_brace (cs : List Char) : Closed ('\x7d' :: cs) :=
  ⟨⟨.cons (by decide) (by decide) (by decide) cs, rfl, rfl⟩, rfl⟩

theorem stops_bar (h : rest.head? ≠ some '|') : Stops ('|' :: rest) := by
  have hnext : next ('|' :: rest) = ⟨.op, ['|'], 0⟩ := by
    rw [next, Cursor.peek_of_scan (scan_single (.inl rfl) h) (by decide)]
  exact ⟨.cons (by decide) (by decide) (by decide) rest, by rw [hnext]; rfl, by rw [hnext]; rfl⟩

end Read

/-! ## The first token -/

theorem parted_paren {w : List Char} (hw : IsGap w) (cs : List Char) : Parted (w ++ '(' :: cs) :=
  hw.parted (.cons (by decide) (by decide) (by decide) cs)

theorem parted_brace {w : List Char} (hw : IsGap w) (cs : List Char) :
    Parted (w ++ '\x7b' :: cs) :=
  hw.parted (.cons (by decide) (by decide) (by decide) cs)

/-- A pattern without alternatives starts with a token that can start one. -/
theorem WritesSingle.opens (h : WritesSingle d p t) (hr : Parted rest) :
    (first (t ++ rest)).opens = true := by
  cases h with
  | wildcard =>
    have hscan : scan ('_' :: rest) = ⟨.name, ['_'], rest⟩ :=
      scan_name isName_wildcard hr.wordless
    rw [List.singleton_append, first_of_scan hscan]
    rfl
  | binding hn _ =>
    rw [first_of_scan (scan_name hn hr.wordless)]
    rfl
  | literal hv _ => exact opens_literal hv hr
  | negative => rfl
  | value hp _ => exact hp.opens hr.wordless
  | group => rfl
  | tuple => rfl
  | variant hp _ hw _ =>
    rw [List.append_assoc, List.append_assoc]
    exact hp.opens (parted_paren hw _).wordless
  | struct hp _ hw _ =>
    rw [List.append_assoc, List.append_assoc]
    exact hp.opens (parted_brace hw _).wordless

theorem WritesSingle.length_pos (h : WritesSingle d p t) : 0 < t.length :=
  length_pos_of_opens (h.opens (Apart.parted (.inl rfl)))

theorem WritesSingle.head_ne (h : WritesSingle d p t) {c : Char} (hc : c = '|' ∨ c = ':')
    (hr : Parted rest) : (t ++ rest).head? ≠ some c :=
  head_ne_of_opens hc (h.opens hr)

theorem WritesMore.parted (h : WritesMore d ps t) (hr : Parted rest) : Parted (t ++ rest) := by
  cases h with
  | nil => exact hr
  | cons hw =>
    rw [List.append_assoc]
    exact hw.parted (.cons (by decide) (by decide) (by decide) _)

/-- After an alternative stands what may stand there. -/
theorem WritesMore.stops (h : WritesMore d ps t) (hr : Stops rest) : Stops (t ++ rest) := by
  cases h with
  | nil => exact hr
  | cons hw hw' hp hmore =>
    simp only [List.append_assoc, List.cons_append]
    refine (stops_bar ?_).gap hw
    exact hw'.head_ne (by decide) (hp.head_ne (.inl rfl) (hmore.parted hr.parted))

/-- **A pattern starts with a token that can start one.** -/
theorem Writes.opens (h : Writes d p t) (hr : Parted rest) : (first (t ++ rest)).opens = true := by
  cases h with
  | single h => exact h.opens hr
  | or h _ hmore =>
    rw [List.append_assoc]
    exact h.opens (hmore.parted hr)

theorem Writes.length_pos (h : Writes d p t) : 0 < t.length :=
  length_pos_of_opens (h.opens (Apart.parted (.inl rfl)))

/-- What writes no choice is no choice. -/
theorem Writes.single_of_isOr (h : Writes d p t) (ho : p.isOr = false) : WritesSingle d p t := by
  cases h with
  | single h => exact h
  | or => cases ho

/-- After an item stands a comma or the closing parenthesis. -/
theorem WritesItemsEnd.closed (h : WritesItemsEnd d l t) (rest : List Char) :
    Closed (t ++ rest) := by
  cases h with
  | comma hw _ =>
    rw [List.append_assoc]
    exact (closed_comma _).gap hw
  | close hw =>
    rw [List.append_assoc]
    exact (closed_paren _).gap hw

theorem WritesItemsEnd.length_pos (h : WritesItemsEnd d l t) : 0 < t.length := by
  cases h <;> simp only [List.length_append, List.length_cons] <;> omega

theorem WritesItemsEnd.head_ne (h : WritesItemsEnd d l t) (rest : List Char) :
    (t ++ rest).head? ≠ some '=' := by
  cases h with
  | comma hw _ =>
    rw [List.append_assoc]
    exact hw.head_ne (by decide) (by simp)
  | close hw =>
    rw [List.append_assoc]
    exact hw.head_ne (by decide) (by simp)

/-- After a field stands a comma or the closing brace. -/
theorem WritesFieldsEnd.closed (h : WritesFieldsEnd d fs o t) (rest : List Char) :
    Closed (t ++ rest) := by
  cases h with
  | comma hw _ =>
    rw [List.append_assoc]
    exact (closed_comma _).gap hw
  | close hw =>
    rw [List.append_assoc]
    exact (closed_brace _).gap hw

/-- After a field that is written as its name stands no colon. -/
theorem WritesFieldsEnd.no_colon (h : WritesFieldsEnd d fs o t) (rest : List Char) :
    (next (t ++ rest)).isOp ":" = false := by
  cases h with
  | comma hw _ =>
    rw [List.append_assoc, isOp_next_gap hw]
    rfl
  | close hw =>
    rw [List.append_assoc, isOp_next_gap hw]
    rfl

end Pattern

end Stencil
