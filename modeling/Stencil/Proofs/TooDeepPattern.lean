import Stencil.Proofs.ParsePattern
import Stencil.Proofs.TooDeep

/-!
# Patterns that are nested too deeply

The text of a pattern is read up to the first bracket for which there is no room, and there reading
fails; the parentheses around a choice that is a part of another pattern take room like all others.

* `Pattern.Read.Decided`: a part of a pattern is written by its text if there is room for it, and
  reading fails inside it otherwise.
* `Pattern.Read.Overflows`: among the items of a list is one for which there is no room.
* `Pattern.Read.deep_listed`, `Pattern.Read.deep_fields`, `Pattern.Read.deep_barred`: lists, fields
  and choices with such a part.
* **`Pattern.read_tooDeep`**: the text of a pattern that is nested too deeply is refused.
-/

namespace Stencil.Pattern

open Text Expr Expr.Read Read

variable {d : Nat} {p : Pattern} {is : List Pattern} {fs : List (String × Pattern)}
variable {t w rest : List Char} {ts : List (List Char)}

/-! ## The first token -/

theorem opens_partText (h : ∀ rest, Parted rest → (first (p.text ++ rest)).opens = true)
    (hr : Parted rest) : (first (p.partText ++ rest)).opens = true := by
  unfold partText
  split
  · rfl
  · exact h rest hr

theorem partTexts_cons (p : Pattern) (is : List Pattern) :
    partTexts (p :: is) = p.partText :: partTexts is := by
  rw [partTexts, partText]

/-- **A pattern starts with a token that can start one**, however deep it is nested. -/
theorem Formed.opens (h : Formed p) :
    ∀ rest, Parted rest → (first (p.text ++ rest)).opens = true := by
  induction h with
  | wildcard => exact fun rest hr => (@WritesSingle.wildcard 0 0).opens hr
  | binding hn hne =>
    exact fun rest hr => (@WritesSingle.binding 0 0 _ hn hne).opens hr
  | literal hv => exact fun rest hr => opens_literal hv hr
  | value hp _ => exact fun rest hr => hp.opens hr.wordless
  | tuple => exact fun _ _ => rfl
  | variant hp =>
    intro rest _
    rw [text, List.append_assoc]
    exact hp.opens (parted_paren isGap_nil _).wordless
  | struct hp =>
    intro rest _
    rw [text, List.append_assoc]
    exact hp.opens (parted_brace isGap_space _).wordless
  | @or _ as hl _ ih =>
    intro rest hr
    obtain ⟨p, q, as, rfl⟩ : ∃ p q qs, as = p :: q :: qs := by
      match as, hl with
      | p :: q :: qs, _ => exact ⟨p, q, qs, rfl⟩
    rw [text, partTexts_cons, partTexts_cons, barred, List.append_assoc]
    exact opens_partText (ih p List.mem_cons_self)
      (.cons (by decide) (by decide) (by decide) _)
    simp

namespace Read

/-! ## Where reading fails -/

/-- Reading fails inside a text that stands for a pattern without alternatives. -/
def DeepSingle (d : Nat) (t : List Char) : Prop :=
  ∀ s pos rest, 16 * t.length ≤ s + 8 → Stops rest → TooDeep (single s d ⟨pos, t ++ rest⟩)

/-- Reading fails inside a text that stands for a pattern. -/
def DeepWhole (d : Nat) (t : List Char) : Prop :=
  ∀ s pos rest, 16 * t.length ≤ s → Closed rest → TooDeep (pattern s d ⟨pos, t ++ rest⟩)

theorem DeepSingle.whole (h : DeepSingle d t) (ht : 0 < t.length) : DeepWhole d t := by
  intro s pos rest hs hr
  obtain ⟨s, rfl⟩ : ∃ k, s = k + 1 := Nat.exists_eq_succ_of_ne_zero (by omega)
  rw [pattern]
  exact (h s pos rest (by omega) hr.toStops).bind _

/-- **A part of a pattern**: if there is room for it, it is written by its text, and otherwise
reading fails inside it. -/
structure Decided (d : Nat) (p : Pattern) : Prop where
  opens : ∀ rest, Parted rest → (first (p.partText ++ rest)).opens = true
  writes : d + (p.brackets + if p.isOr then 1 else 0) ≤ maxDepth → WritesSingle d p p.partText
  deep : maxDepth < d + (p.brackets + if p.isOr then 1 else 0) → DeepSingle d p.partText

theorem Decided.length_pos (h : Decided d p) : 0 < p.partText.length :=
  length_pos_of_opens (h.opens [] (Apart.parted (.inl rfl)))

/-! ## Lists -/

/-- **Among the items of a list is one for which there is no room**; those before it are written,
with one mark of the rest between them if there has been none yet. -/
inductive Overflows (d : Nat) : Bool → List (List Char) → Prop
  | deep {b : Bool} {t : List Char} {ts : List (List Char)} :
    (∀ rest, Parted rest → (first (t ++ rest)).opens = true) → DeepWhole d t →
    Overflows d b (t :: ts)
  | item {b : Bool} {p : Pattern} {t : List Char} {ts : List (List Char)} : Writes d p t →
    Overflows d b ts → Overflows d b (t :: ts)
  | mark {ts : List (List Char)} : Overflows d false ts → Overflows d true (['.', '.'] :: ts)

theorem Overflows.ne_nil {b : Bool} (h : Overflows d b ts) : ts ≠ [] := by
  cases h <;> exact List.cons_ne_nil _ _

/-- What stands after an item of a list. -/
def enclosedRest (closing : Char) (ts : List (List Char)) : List Char :=
  match ts with
  | [] => [closing]
  | t :: ts => ',' :: ' ' :: enclosed [] [' '] closing (t :: ts)

theorem enclosed_eq (closing : Char) (t : List Char) (ts : List (List Char)) :
    enclosed [] [' '] closing (t :: ts) = t ++ enclosedRest closing ts := by
  cases ts <;> rfl

theorem enclosedRest_pos (closing : Char) (ts : List (List Char)) :
    0 < (enclosedRest closing ts).length := by
  cases ts <;> exact Nat.succ_pos _

theorem closed_enclosedRest {closing : Char} (hc : closing = ')' ∨ closing = '\x7d')
    (ts : List (List Char)) (rest : List Char) : Closed (enclosedRest closing ts ++ rest) := by
  cases ts with
  | nil =>
    rcases hc with rfl | rfl
    · exact closed_paren rest
    · exact closed_brace rest
  | cons => exact closed_comma _

/-- Only a bracket or a sign that starts a pattern is the operator that starts one. -/
theorem not_isOp_of_opens {pos : Nat} {cs : List Char} {o : String} (hw : IsGap w)
    (h : (first cs).opens = true) (hpar : o ≠ "(") (hbracket : o ≠ "[") (hminus : o ≠ "-") :
    ((⟨pos, w ++ cs⟩ : Cursor).peek true).1.isOp o = false := by
  have hno := not_op_of_opens h hpar hbracket hminus
  rw [← next_of_opens h] at hno
  rw [Cursor.peek_gap hw]
  exact hno

/-- Reading a list fails at its first item. -/
theorem deep_listed_first {s pos count : Nat} {mark : Option Nat} {comma : Bool} (hw : IsGap w)
    (ho : ∀ rest, Parted rest → (first (t ++ rest)).opens = true) (h : DeepWhole d t)
    (hs : 16 * t.length ≤ s) (hr : Closed rest) :
    TooDeep (listed (s + 1) d count mark comma ⟨pos, w ++ (t ++ rest)⟩) := by
  have hfirst := ho rest hr.parted
  rw [listed, pattern_gap hw]
  simp only [not_isOp_of_opens hw hfirst (o := ")") (by decide) (by decide) (by decide),
    not_isOp_of_opens hw hfirst (o := "..") (by decide) (by decide) (by decide)]
  exact (h s _ rest hs hr).bind _

/-- **Reading a list fails at the item for which there is no room.** -/
theorem deep_listed {b : Bool} (h : Overflows d b ts) : ∀ {w : List Char}, IsGap w →
    ∀ s pos count mark comma rest, 16 * (enclosed [] [' '] ')' ts).length ≤ s →
      (b = true → mark = none) →
      TooDeep (listed s d count mark comma ⟨pos, w ++ (enclosed [] [' '] ')' ts ++ rest)⟩) := by
  induction h with
  | @deep b t ts hopen hdeep =>
    intro w hw s pos count mark comma rest hs _
    rw [enclosed_eq, List.length_append] at hs
    have hpos := enclosedRest_pos ')' ts
    obtain ⟨s, rfl⟩ : ∃ k, s = k + 1 := Nat.exists_eq_succ_of_ne_zero (by omega)
    rw [enclosed_eq, List.append_assoc]
    exact deep_listed_first hw hopen hdeep (by omega) (closed_enclosedRest (.inl rfl) ts rest)
  | @item b p t ts hp hts ih =>
    intro w hw s pos count mark comma rest hs hmark
    rw [enclosed_cons [] [' '] ')' t hts.ne_nil] at hs ⊢
    simp only [List.length_append, List.length_cons, List.length_nil] at hs
    have hpos := hp.length_pos
    obtain ⟨s, rfl⟩ : ∃ k, s = k + 2 := ⟨s - 2, by omega⟩
    have hclosed := closed_comma ([' '] ++ (enclosed [] [' '] ')' ts ++ rest))
    have hfirst := hp.opens hclosed.parted
    obtain ⟨p', pos', hread, -⟩ := reads hp (s + 1) (pos + w.length)
      (',' :: ([' '] ++ (enclosed [] [' '] ')' ts ++ rest))) (by omega) hclosed
    have hcomma : scan (',' :: ([' '] ++ (enclosed [] [' '] ')' ts ++ rest))) =
        ⟨.op, [','], [' '] ++ (enclosed [] [' '] ')' ts ++ rest)⟩ := rfl
    simp only [List.nil_append, List.append_assoc, List.cons_append] at hfirst hread hcomma ⊢
    rw [listed, pattern_gap hw]
    simp only [not_isOp_of_opens hw hfirst (o := ")") (by decide) (by decide) (by decide),
      not_isOp_of_opens hw hfirst (o := "..") (by decide) (by decide) (by decide), hread,
      Except.ok_bind, Bool.false_eq_true, if_false]
    rw [listedEnd, Cursor.peek_of_scan hcomma (by decide)]
    exact (ih isGap_space s _ _ mark true rest (by omega) hmark).bind _
  | @mark ts hts ih =>
    intro w hw s pos count mark comma rest hs hmark
    obtain rfl : mark = none := hmark rfl
    rw [enclosed_cons [] [' '] ')' _ hts.ne_nil] at hs ⊢
    simp only [List.length_append, List.length_cons, List.length_nil] at hs
    obtain ⟨s, rfl⟩ : ∃ k, s = k + 2 := ⟨s - 2, by omega⟩
    have hdots : scan ('.' :: '.' :: ',' :: ' ' :: (enclosed [] [' '] ')' ts ++ rest)) =
        ⟨.op, ['.', '.'], ',' :: ' ' :: (enclosed [] [' '] ')' ts ++ rest)⟩ :=
      scan_dots (by simp)
    have hcomma : scan (',' :: ' ' :: (enclosed [] [' '] ')' ts ++ rest)) =
        ⟨.op, [','], ' ' :: (enclosed [] [' '] ')' ts ++ rest)⟩ := rfl
    have hno : (⟨.op, ['.', '.'], pos + w.length⟩ : Token).isOp ")" = false := rfl
    have hyes : (⟨.op, ['.', '.'], pos + w.length⟩ : Token).isOp ".." = true := rfl
    simp only [List.nil_append, List.cons_append]
    rw [listed, Cursor.peek_gap hw, Cursor.peek_of_scan hdots (by decide)]
    simp only [hno, hyes, if_true, Bool.false_eq_true, if_false, Option.isSome_none]
    rw [listedEnd, Cursor.peek_of_scan hcomma (by decide)]
    exact ih isGap_space s _ count (some count) true rest (by omega) fun h => by cases h

theorem overflows_partTexts {b : Bool} (hd : d ≤ maxDepth) (h : ∀ p ∈ is, Decided d p)
    (hn : maxDepth < d + partBrackets is) : Overflows d b (partTexts is) := by
  induction is with
  | nil => rw [partBrackets] at hn; omega
  | cons p is ih =>
    have hp := h p List.mem_cons_self
    rw [partBrackets] at hn
    rw [partTexts_cons]
    by_cases hdeep : maxDepth < d + (p.brackets + if p.isOr then 1 else 0)
    · exact .deep hp.opens ((hp.deep hdeep).whole hp.length_pos)
    · exact .item (.single (hp.writes (Nat.not_lt.mp hdeep)))
        (ih (fun q hq => h q (List.mem_cons_of_mem _ hq)) (by omega))

/-- The mark of the rest may stand before or behind the item for which there is no room. -/
theorem overflows_insertRest {k : Nat} (hd : d ≤ maxDepth) (h : ∀ p ∈ is, Decided d p)
    (hn : maxDepth < d + partBrackets is) :
    Overflows d true (insertRest (some k) (partTexts is)) := by
  induction k generalizing is with
  | zero => exact .mark (overflows_partTexts hd h hn)
  | succ k ih =>
    cases is with
    | nil => rw [partBrackets] at hn; omega
    | cons p is =>
      have hp := h p List.mem_cons_self
      have hcons : insertRest (some (k + 1)) (partTexts (p :: is)) =
          p.partText :: insertRest (some k) (partTexts is) := by
        rw [partTexts_cons]
        simp [insertRest]
      rw [partBrackets] at hn
      rw [hcons]
      by_cases hdeep : maxDepth < d + (p.brackets + if p.isOr then 1 else 0)
      · exact .deep hp.opens ((hp.deep hdeep).whole hp.length_pos)
      · exact .item (.single (hp.writes (Nat.not_lt.mp hdeep)))
          (ih (fun q hq => h q (List.mem_cons_of_mem _ hq)) (by omega))

/-! ## Brackets -/

section Brackets

variable {o : Bool} {mark : Option Nat} {parts : List String}

theorem single_enter (s d pos : Nat) (cs : List Char) : ∃ k,
    single (s + 1) d ⟨pos, '(' :: cs⟩ = (Expr.Read.enter d k >>= fun d' =>
      listed s d' 0 none false ⟨pos + 1, cs⟩ >>= fun x => .ok (x.1.pattern pos, x.2)) := by
  have hscan : scan ('(' :: cs) = ⟨.op, ['('], cs⟩ := rfl
  refine ⟨⟨.op, ['('], pos⟩, ?_⟩
  rw [single, Cursor.peek_of_scan hscan (by decide)]
  rfl

/-- **Reading fails at a parenthesis or behind it.** -/
theorem deep_parenthesis {cs : List Char} (hd : d ≤ maxDepth)
    (h : d < maxDepth → ∀ s pos rest, 16 * cs.length + 7 ≤ s →
      TooDeep (listed s (d + 1) 0 none false ⟨pos, cs ++ rest⟩)) : DeepSingle d ('(' :: cs) := by
  intro s pos rest hs _
  rw [List.length_cons] at hs
  obtain ⟨s, rfl⟩ : ∃ k, s = k + 1 := Nat.exists_eq_succ_of_ne_zero (by omega)
  obtain ⟨k, hk⟩ := single_enter s d pos (cs ++ rest)
  rw [List.cons_append, hk]
  rcases Nat.lt_or_eq_of_le hd with hlt | rfl
  · rw [enter_ok hlt]
    exact (h hlt s (pos + 1) rest (by omega)).bind _
  · exact (enter_full k).bind _

theorem deep_tuple (hd : d ≤ maxDepth) (h : d < maxDepth → ∀ p ∈ is, Decided (d + 1) p)
    (hn : maxDepth < d + (partBrackets is + 1)) :
    DeepSingle d ('(' :: tupleText mark (partTexts is)) := by
  refine deep_parenthesis hd fun hlt s pos rest hs => ?_
  obtain ⟨s, rfl⟩ : ∃ k, s = k + 1 := Nat.exists_eq_succ_of_ne_zero (by omega)
  have h := h hlt
  have hn : maxDepth < d + 1 + partBrackets is := by omega
  cases mark with
  | some k =>
    have htext : tupleText (some k) (partTexts is) =
        enclosed [] [' '] ')' (insertRest (some k) (partTexts is)) := rfl
    rw [htext] at hs ⊢
    exact deep_listed (overflows_insertRest hlt h hn) isGap_nil (s + 1) pos 0 none false rest
      (by omega) fun _ => rfl
  | none =>
    match is, h, hn with
    | [], _, hn => rw [partBrackets] at hn; omega
    | [p], h, hn =>
      have hp := h p List.mem_cons_self
      have htext : tupleText none (partTexts [p]) = p.partText ++ [',', ')'] := rfl
      rw [partBrackets, partBrackets] at hn
      rw [htext] at hs ⊢
      rw [List.length_append] at hs
      rw [List.append_assoc]
      exact deep_listed_first (w := []) isGap_nil hp.opens
        ((hp.deep (by omega)).whole hp.length_pos)
        (by omega) (closed_comma _)
    | p :: q :: is, h, hn =>
      have htext : tupleText none (partTexts (p :: q :: is)) =
          enclosed [] [' '] ')' (partTexts (p :: q :: is)) := rfl
      rw [htext] at hs ⊢
      exact deep_listed (b := false) (overflows_partTexts hlt h hn) isGap_nil (s + 1) pos 0 none
        false rest (by omega) fun _ => rfl

/-- A choice in parentheses. -/
theorem deep_group (hd : d ≤ maxDepth)
    (ho : ∀ rest, Parted rest → (first (t ++ rest)).opens = true)
    (h : d < maxDepth → DeepWhole (d + 1) t) : DeepSingle d ('(' :: (t ++ [')'])) := by
  refine deep_parenthesis hd fun hlt s pos rest hs => ?_
  rw [List.length_append] at hs
  obtain ⟨s, rfl⟩ : ∃ k, s = k + 1 := Nat.exists_eq_succ_of_ne_zero (by omega)
  rw [List.append_assoc]
  exact deep_listed_first (w := []) isGap_nil ho (h hlt) (by omega) (closed_paren _)

theorem afterPath_paren_enter (s d pos position : Nat) (parts : List String) (cs : List Char) : ∃ k,
    afterPath s d position parts ⟨pos, '(' :: cs⟩ = (Expr.Read.enter d k >>= fun d' =>
      listed s d' 0 none false ⟨pos + 1, cs⟩ >>= fun x =>
        .ok (.variant position parts x.1.items, x.2)) := by
  have hscan : scan ('(' :: cs) = ⟨.op, ['('], cs⟩ := rfl
  refine ⟨⟨.op, ['('], pos⟩, ?_⟩
  rw [afterPath, Cursor.peek_of_scan hscan (by decide)]
  rfl

theorem afterPath_brace_enter (s d pos position : Nat) (parts : List String) (hw : IsGap w)
    (cs : List Char) : ∃ k,
    afterPath s d position parts ⟨pos, w ++ '\x7b' :: cs⟩ = (Expr.Read.enter d k >>= fun d' =>
      fields s d' ⟨pos + w.length + 1, cs⟩ >>= fun x =>
        .ok (.struct position parts x.1 x.2.1, x.2.2)) := by
  have hscan : scan ('\x7b' :: cs) = ⟨.op, ['\x7b'], cs⟩ := rfl
  refine ⟨⟨.op, ['\x7b'], pos + w.length⟩, ?_⟩
  rw [afterPath, Cursor.peek_gap hw, Cursor.peek_of_scan hscan (by decide)]
  rfl

theorem deep_variant (hp : IsPath parts) (hd : d ≤ maxDepth)
    (h : d < maxDepth → ∀ p ∈ is, Decided (d + 1) p) (hn : maxDepth < d + (partBrackets is + 1)) :
    DeepSingle d (printPath parts ++ '(' :: enclosed [] [' '] ')' (partTexts is)) := by
  intro s pos rest hs _
  simp only [List.length_append, List.length_cons] at hs
  obtain ⟨s, rfl⟩ : ∃ k, s = k + 1 := Nat.exists_eq_succ_of_ne_zero (by omega)
  obtain ⟨pos', he⟩ := single_path (d := d) s pos hp (by omega)
    (parted_paren isGap_nil (enclosed [] [' '] ')' (partTexts is) ++ rest))
  obtain ⟨k, hk⟩ := afterPath_paren_enter s d pos' pos parts
    (enclosed [] [' '] ')' (partTexts is) ++ rest)
  rw [List.append_assoc, List.cons_append]
  rw [List.nil_append] at he
  rw [he, hk]
  rcases Nat.lt_or_eq_of_le hd with hlt | rfl
  · rw [enter_ok hlt]
    exact (deep_listed (b := false) (overflows_partTexts hlt (h hlt) (by omega)) isGap_nil s
      (pos' + 1) 0 none false rest (by omega) fun _ => rfl).bind _
  · exact (enter_full k).bind _

theorem fieldPartTexts_cons (f : String × Pattern) (fs : List (String × Pattern)) :
    fieldPartTexts (f :: fs) = (f.1.toList ++ ':' :: ' ' :: f.2.partText) :: fieldPartTexts fs := by
  obtain ⟨n, p⟩ := f
  rw [fieldPartTexts, partText]

/-- **Reading fields fails at the one for which there is no room.** -/
theorem deep_fields (hd : d ≤ maxDepth) (hns : ∀ f ∈ fs, IsName f.1)
    (h : ∀ f ∈ fs, Decided d f.2) (hn : maxDepth < d + fieldBrackets fs) : ∀ {w : List Char},
    IsGap w → ∀ s pos rest,
      16 * (enclosed [] [' '] '\x7d'
        (fieldPartTexts fs ++ if o then [['.', '.']] else [])).length ≤ s →
      TooDeep (fields s d ⟨pos, w ++ (enclosed [] [' '] '\x7d'
        (fieldPartTexts fs ++ if o then [['.', '.']] else []) ++ rest)⟩) := by
  induction fs with
  | nil => rw [fieldBrackets] at hn; omega
  | cons f fs ih =>
    intro w hw s pos rest hs
    have hp := h f List.mem_cons_self
    have hname := hns f List.mem_cons_self
    rw [fieldBrackets] at hn
    rw [fieldPartTexts_cons, List.cons_append] at hs ⊢
    generalize hmore : fieldPartTexts fs ++ (if o then [['.', '.']] else []) = more at hs ih ⊢
    rw [enclosed_eq, List.length_append, List.length_append, List.length_cons,
      List.length_cons] at hs
    have hpos := enclosedRest_pos '\x7d' more
    obtain ⟨s, rfl⟩ : ∃ k, s = k + 1 := Nat.exists_eq_succ_of_ne_zero (by omega)
    have hclosed := closed_enclosedRest (.inr rfl) more rest
    have hcolon : scan (':' :: ' ' :: (f.2.partText ++ (enclosedRest '\x7d' more ++ rest))) =
        ⟨.op, [':'], ' ' :: (f.2.partText ++ (enclosedRest '\x7d' more ++ rest))⟩ :=
      scan_single (.inr rfl) (by simp)
    have hop : (⟨.op, [':'], pos + w.length + f.1.toList.length⟩ : Token).isOp ":" = true := rfl
    rw [enclosed_eq, List.append_assoc, List.append_assoc, List.cons_append, List.cons_append,
      fields_name hw hname (wordless_mark _), Cursor.peek_of_scan hcolon (by decide)]
    simp only [hop, if_true]
    rw [show ' ' :: (f.2.partText ++ (enclosedRest '\x7d' more ++ rest)) =
      [' '] ++ (f.2.partText ++ (enclosedRest '\x7d' more ++ rest)) from rfl,
      pattern_gap isGap_space]
    by_cases hdeep : maxDepth < d + (f.2.brackets + if f.2.isOr then 1 else 0)
    · exact ((hp.deep hdeep).whole hp.length_pos s _ _ (by omega) hclosed).bind _
    · have hlater : maxDepth < d + fieldBrackets fs := by omega
      obtain ⟨g, fs, rfl⟩ : ∃ g gs, fs = g :: gs := by
        cases fs with
        | nil => rw [fieldBrackets] at hlater; omega
        | cons g gs => exact ⟨g, gs, rfl⟩
      obtain ⟨cell, cells, rfl⟩ : ∃ cell cells, more = cell :: cells :=
        ⟨_, _, by rw [← hmore, fieldPartTexts_cons, List.cons_append]⟩
      obtain ⟨p', pos', hread, -⟩ := reads (.single (hp.writes (Nat.not_lt.mp hdeep))) s _ _
        (by omega) hclosed
      have hcomma : scan (',' :: ' ' :: (enclosed [] [' '] '\x7d' (cell :: cells) ++ rest)) =
          ⟨.op, [','], ' ' :: (enclosed [] [' '] '\x7d' (cell :: cells) ++ rest)⟩ := rfl
      rw [hread, Except.ok_bind, enclosedRest, List.cons_append, List.cons_append, fieldEnd,
        Cursor.peek_of_scan hcomma (by decide)]
      simp only [enclosedRest, List.length_cons] at hs
      exact (ih (fun f hf => hns f (List.mem_cons_of_mem _ hf))
        (fun f hf => h f (List.mem_cons_of_mem _ hf)) hlater isGap_space s _ rest (by omega)).bind _

theorem deep_struct (hp : IsPath parts) (hd : d ≤ maxDepth) (hns : ∀ f ∈ fs, IsName f.1)
    (h : d < maxDepth → ∀ f ∈ fs, Decided (d + 1) f.2)
    (hn : maxDepth < d + (fieldBrackets fs + 1)) :
    DeepSingle d (printPath parts ++ ' ' :: '\x7b' :: enclosed [] [' '] '\x7d'
      (fieldPartTexts fs ++ if o then [['.', '.']] else [])) := by
  intro s pos rest hs _
  rw [List.length_append, List.length_cons, List.length_cons] at hs
  obtain ⟨s, rfl⟩ : ∃ k, s = k + 1 := Nat.exists_eq_succ_of_ne_zero (by omega)
  obtain ⟨pos', he⟩ := single_path (d := d) s pos hp (by omega)
    (parted_brace isGap_space (enclosed [] [' '] '\x7d'
      (fieldPartTexts fs ++ if o then [['.', '.']] else []) ++ rest))
  obtain ⟨k, hk⟩ := afterPath_brace_enter s d pos' pos parts isGap_space (enclosed [] [' '] '\x7d'
      (fieldPartTexts fs ++ if o then [['.', '.']] else []) ++ rest)
  rw [List.append_assoc, List.cons_append, List.cons_append]
  rw [List.singleton_append] at he hk
  rw [he, hk]
  rcases Nat.lt_or_eq_of_le hd with hlt | rfl
  · rw [enter_ok hlt]
    exact (deep_fields hlt hns (h hlt) (by omega) isGap_nil s _ rest (by omega)).bind _
  · exact (enter_full k).bind _

end Brackets

/-! ## Alternatives -/

section Alternatives

/-- What stands after an alternative. -/
def barredRest (ts : List (List Char)) : List Char :=
  match ts with
  | [] => []
  | t :: ts => ' ' :: '|' :: ' ' :: barred (t :: ts)

theorem barred_eq (t : List Char) (ts : List (List Char)) :
    barred (t :: ts) = t ++ barredRest ts := by
  cases ts with
  | nil => exact (List.append_nil t).symm
  | cons => rfl

theorem length_barred_le (ts : List (List Char)) :
    (barred ts).length ≤ (barredRest ts).length := by
  cases ts with
  | nil => exact Nat.le_refl _
  | cons =>
    simp only [barredRest, List.length_cons]
    omega

theorem stops_barredRest (hr : Closed rest) (ts : List (List Char)) :
    Stops (barredRest ts ++ rest) := by
  cases ts with
  | nil => exact hr.toStops
  | cons u ts =>
    have hbar : Stops ('|' :: ' ' :: (barred (u :: ts) ++ rest)) := stops_bar (by simp)
    exact hbar.gap (w := [' ']) isGap_space

/-- Reading fails in a later alternative. -/
theorem deep_alternatives (hd : d ≤ maxDepth) (h : ∀ p ∈ is, Decided d p)
    (hn : maxDepth < d + partBrackets is) : ∀ s pos rest,
    16 * (barred (partTexts is)).length + 8 ≤ s → Closed rest →
      TooDeep (alternatives s d ⟨pos, barredRest (partTexts is) ++ rest⟩) := by
  induction is with
  | nil => rw [partBrackets] at hn; omega
  | cons p is ih =>
    intro s pos rest hs hr
    have hp := h p List.mem_cons_self
    have hpos := hp.length_pos
    rw [partBrackets] at hn
    rw [partTexts_cons, barred_eq, List.length_append] at hs
    obtain ⟨s, rfl⟩ : ∃ k, s = k + 1 := Nat.exists_eq_succ_of_ne_zero (by omega)
    have hstops := stops_barredRest hr (partTexts is)
    have hbar : scan ('|' :: ' ' :: (p.partText ++ (barredRest (partTexts is) ++ rest))) =
        ⟨.op, ['|'], ' ' :: (p.partText ++ (barredRest (partTexts is) ++ rest))⟩ :=
      scan_single (.inl rfl) (by simp)
    have hop : (⟨.op, ['|'], pos + 1⟩ : Token).isOp "|" = true := rfl
    rw [partTexts_cons, barredRest, barred_eq, List.cons_append, List.cons_append, List.cons_append,
      List.append_assoc, alternatives, Cursor.peek_space hbar (by decide)]
    simp only [hop, if_true]
    rw [show ' ' :: (p.partText ++ (barredRest (partTexts is) ++ rest)) =
      [' '] ++ (p.partText ++ (barredRest (partTexts is) ++ rest)) from rfl, single_gap isGap_space]
    by_cases hdeep : maxDepth < d + (p.brackets + if p.isOr then 1 else 0)
    · exact (hp.deep hdeep s _ _ (by omega) hstops).bind _
    · obtain ⟨p', pos', hread, -⟩ := readsSingle (hp.writes (Nat.not_lt.mp hdeep)) s _ _ (by omega)
        hstops
      have hlen := length_barred_le (partTexts is)
      rw [hread, Except.ok_bind]
      exact (ih (fun q hq => h q (List.mem_cons_of_mem _ hq)) (by omega) s pos' rest (by omega)
        hr).bind _

/-- **Reading a choice fails at the alternative for which there is no room.** -/
theorem deep_barred (hd : d ≤ maxDepth) (h : ∀ p ∈ is, Decided d p)
    (hn : maxDepth < d + partBrackets is) : DeepWhole d (barred (partTexts is)) := by
  intro s pos rest hs hr
  cases is with
  | nil => rw [partBrackets] at hn; omega
  | cons p is =>
    have hp := h p List.mem_cons_self
    have hpos := hp.length_pos
    rw [partBrackets] at hn
    rw [partTexts_cons, barred_eq] at hs ⊢
    rw [List.length_append] at hs
    obtain ⟨s, rfl⟩ : ∃ k, s = k + 1 := Nat.exists_eq_succ_of_ne_zero (by omega)
    have hstops := stops_barredRest hr (partTexts is)
    rw [List.append_assoc, pattern]
    by_cases hdeep : maxDepth < d + (p.brackets + if p.isOr then 1 else 0)
    · exact (hp.deep hdeep s _ _ (by omega) hstops).bind _
    · obtain ⟨p', pos', hread, -⟩ := readsSingle (hp.writes (Nat.not_lt.mp hdeep)) s pos _
        (by omega) hstops
      have hlen := length_barred_le (partTexts is)
      rw [hread, Except.ok_bind]
      exact (deep_alternatives hd (fun q hq => h q (List.mem_cons_of_mem _ hq)) (by omega) s pos'
        rest (by omega) hr).bind _

end Alternatives

/-! ## All forms -/

/-- Reading fails inside the text of a pattern, alone or as a part of another one. -/
structure DeepText (p : Pattern) : Prop where
  single : p.isOr = false → ∀ d ≤ maxDepth, maxDepth < d + p.brackets → DeepSingle d p.text
  whole : ∀ d ≤ maxDepth, maxDepth < d + p.brackets → DeepWhole d p.text

theorem DeepText.of_single (hf : Formed p)
    (h : ∀ d ≤ maxDepth, maxDepth < d + p.brackets → DeepSingle d p.text) : DeepText p :=
  ⟨fun _ => h, fun d hd hn => (h d hd hn).whole
    (length_pos_of_opens (hf.opens [] (Apart.parted (.inl rfl))))⟩

theorem DeepText.of_brackets (h : p.brackets = 0) : DeepText p :=
  ⟨fun _ d hd hn => by omega, fun d hd hn => by omega⟩

theorem DeepText.decided (h : DeepText p) (hf : Formed p) (hd : d ≤ maxDepth) : Decided d p := by
  refine ⟨fun rest hr => opens_partText hf.opens hr, fun hn => (writes_text hf).part hn,
    fun hn => ?_⟩
  unfold partText
  cases ho : p.isOr with
  | true =>
    rw [ho, if_pos rfl] at hn
    exact deep_group hd hf.opens fun hlt => h.whole (d + 1) hlt (by omega)
  | false =>
    rw [ho, if_neg (by decide)] at hn
    exact h.single ho d hd hn

/-- **Reading the text of a pattern for which there is no room fails.** -/
theorem deepText (h : Formed p) : DeepText p := by
  induction h with
  | wildcard | binding | literal | value => exact .of_brackets rfl
  | @tuple _ is rest his hrest ih =>
    refine .of_single (.tuple his hrest) fun d hd hn => ?_
    rw [brackets] at hn
    exact deep_tuple hd (fun hlt p hp => (ih p hp).decided (his p hp) hlt) hn
  | @variant _ ps is hps his ih =>
    refine .of_single (.variant hps his) fun d hd hn => ?_
    rw [brackets] at hn
    exact deep_variant hps hd (fun hlt p hp => (ih p hp).decided (his p hp) hlt) hn
  | @struct _ ps fs o hps hns hfs ih =>
    refine .of_single (.struct hps hns hfs) fun d hd hn => ?_
    rw [brackets] at hn
    exact deep_struct hps hd hns (fun hlt f hf => (ih f hf).decided (hfs f hf) hlt) hn
  | @or _ as hl has ih =>
    refine ⟨fun ho => (by cases ho), fun d hd hn => ?_⟩
    rw [brackets] at hn
    exact deep_barred hd (fun p hp => (ih p hp).decided (has p hp) hd) hn

end Read

/-- **The text of a pattern that is nested too deeply is refused**, and for no other reason. -/
theorem read_tooDeep (h : Formed p) (hn : maxDepth < p.brackets) :
    TooDeep (Pattern.read (.ofText p.text 0)) := by
  rw [Cursor.ofText_zero, ← List.append_nil p.text]
  refine (deepText h).whole 0 (Nat.zero_le _) (by omega) _ 0 [] ?_ closed_nil
  simp only [Cursor.steps, List.length_append]
  omega

end Stencil.Pattern
