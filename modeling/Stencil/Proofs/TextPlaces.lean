import Mathlib.Data.List.GetD
import Stencil.Proofs.ErrorPlaces

/-!
# Lines and columns as coordinates

A position of a text is known by its line and column, and by the number of bytes before it. Line and
column are the same whether the text is gone through up to the position or the line is looked up in
a table of where lines start.

* `Source.lineStarts`, `bisectRight`: the table, and the search in it.
* `Source.locateBy`, `Source.lineTextBy`: lines, columns and the text of a line by the table.
* `Source.locate_eq`, `Source.locateBy_eq`: both ways lead to the number of line feeds before a
  position and what follows the last of them.
* `Source.InReturns`: the carriage returns at the end of a line.
* **`Source.coordinates`**: lines, columns and bytes are coordinates of the positions of a text.
-/

namespace Stencil

/-! ## Searching a table -/

/-- **Where a number belongs in a table** that increases, between two of its places: behind all
entries that are not greater. -/
def bisectRight (table : List Nat) (x low high : Nat) : Nat :=
  if low < high then
    let middle := (low + high) / 2
    if x < table.getD middle 0 then bisectRight table x low middle
    else bisectRight table x (middle + 1) high
  else low
termination_by high - low

/-- **The search finds the border** between entries that are not greater and greater ones. -/
theorem bisectRight_append {front back : List Nat} {x low high : Nat} (hfront : ∀ a ∈ front, a ≤ x)
    (hback : ∀ a ∈ back, x < a) (hlow : low ≤ front.length) (hhigh : front.length ≤ high)
    (hlength : high ≤ (front ++ back).length) :
    bisectRight (front ++ back) x low high = front.length := by
  fun_induction bisectRight (front ++ back) x low high with
  | case1 low high hlt middle hless ih =>
    refine ih hlow (Nat.le_of_not_lt fun hin => ?_) (by omega)
    have hentry : (front ++ back).getD middle 0 = front[middle] := by
      rw [List.getD_append _ _ _ _ hin, List.getD_eq_getElem _ _ hin]
    have := hfront _ (List.getElem_mem hin)
    omega
  | case2 low high hlt middle hless ih =>
    refine ih (Nat.lt_of_not_le fun hout => ?_) hhigh hlength
    have hin : middle - front.length < back.length := by
      rw [List.length_append] at hlength
      omega
    have hentry : (front ++ back).getD middle 0 = back[middle - front.length] := by
      rw [List.getD_append_right _ _ _ _ hout, List.getD_eq_getElem _ _ hin]
    have := hback _ (List.getElem_mem hin)
    omega
  | case3 low high hle => omega

/-! ## The last line and the first one -/

/-- What follows the last line feed of a text. -/
def lastLine (cs : List Char) : List Char := cs.rtakeWhile (· ≠ '\n')

/-- What comes before the first line feed of a text. -/
def firstLine (cs : List Char) : List Char := cs.takeWhile (· ≠ '\n')

section Lines

variable {c : Char} {cs : List Char}

theorem lastLine_append_singleton (cs : List Char) (c : Char) :
    lastLine (cs ++ [c]) = if c = '\n' then [] else lastLine cs ++ [c] := by
  rw [lastLine, List.rtakeWhile_concat, lastLine]
  by_cases hc : c = '\n' <;> simp [hc]

/-- A text without line feeds is one line. -/
theorem lastLine_of_not_mem (h : '\n' ∉ cs) : lastLine cs = cs :=
  List.rtakeWhile_eq_self_iff.mpr fun _ hx => decide_eq_true fun heq => h (heq ▸ hx)

theorem lastLine_append (cs : List Char) {ds : List Char} (h : '\n' ∉ ds) :
    lastLine (cs ++ ds) = lastLine cs ++ ds := by
  induction ds using List.reverseRecOn with
  | nil => rw [List.append_nil, List.append_nil]
  | append_singleton ds d ih =>
    rw [List.mem_append, not_or, List.mem_singleton] at h
    rw [← List.append_assoc, lastLine_append_singleton, if_neg (Ne.symm h.2), ih h.1,
      List.append_assoc]

/-- A character in front of a text with line feeds is in no last line, and a line feed in none. -/
theorem lastLine_cons (h : '\n' ∈ c :: cs) : lastLine (c :: cs) = lastLine cs := by
  induction cs using List.reverseRecOn with
  | nil =>
    obtain rfl := List.mem_singleton.mp h
    rfl
  | append_singleton cs x ih =>
    rw [← List.cons_append, lastLine_append_singleton, lastLine_append_singleton]
    by_cases hx : x = '\n'
    · rw [if_pos hx, if_pos hx]
    · rw [← List.cons_append, List.mem_append, List.mem_singleton] at h
      rw [ih (h.resolve_right (Ne.symm hx))]

/-- **A text ends in its last line.** -/
theorem exists_append_lastLine (cs : List Char) :
    ∃ before, cs = before ++ lastLine cs ∧ '\n' ∉ lastLine cs := by
  refine ⟨_, List.rdropWhile_append_rtakeWhile.symm, fun hmem => ?_⟩
  have := List.mem_rtakeWhile_imp hmem
  simp at this

theorem firstLine_cons (h : c ≠ '\n') : firstLine (c :: cs) = c :: firstLine cs := by
  simp [firstLine, h]

theorem firstLine_append {ds : List Char} (h : '\n' ∉ cs) :
    firstLine (cs ++ ds) = cs ++ firstLine ds := by
  induction cs with
  | nil => rfl
  | cons c cs ih =>
    rw [List.mem_cons, not_or] at h
    rw [List.cons_append, firstLine_cons (Ne.symm h.1), ih h.2, List.cons_append]

/-- **A text starts with its first line**; what follows is a line feed, if anything. -/
theorem exists_firstLine_append (cs : List Char) :
    ∃ rest, cs = firstLine cs ++ rest ∧ (rest = [] ∨ rest.head? = some '\n') := by
  refine ⟨cs.dropWhile (· ≠ '\n'), List.takeWhile_append_dropWhile.symm, ?_⟩
  have hhead := List.head?_dropWhile_not (· ≠ '\n') cs
  generalize cs.dropWhile (· ≠ '\n') = rest at hhead
  cases rest with
  | nil => exact .inl rfl
  | cons c rest => exact .inr (by simpa using hhead)

/-! ## The lines of a text -/

/-- The first line of a text. -/
theorem head_splitLines (cs : List Char) : (splitLines cs).getD 0 [] = firstLine cs := by
  induction cs with
  | nil => rfl
  | cons c cs ih =>
    obtain ⟨l, ls, hl⟩ := List.exists_cons_of_ne_nil (splitLines_ne_nil cs)
    rw [hl] at ih
    rw [splitLines, hl]
    by_cases hc : c = '\n'
    · simp [hc, firstLine]
    · rw [if_neg hc, firstLine_cons hc, ← ih]
      rfl

/-- **The line of a position** holds what is before it since the last line feed, and what follows up
to the next one. -/
theorem splitLines_append (cs ds : List Char) :
    (splitLines (cs ++ ds)).getD (cs.count '\n') [] = lastLine cs ++ firstLine ds := by
  induction cs with
  | nil => exact head_splitLines ds
  | cons c cs ih =>
    obtain ⟨l, ls, hl⟩ := List.exists_cons_of_ne_nil (splitLines_ne_nil (cs ++ ds))
    rw [hl] at ih
    rw [List.cons_append, splitLines, hl]
    by_cases hc : c = '\n'
    · rw [if_pos hc, lastLine_cons (hc ▸ List.mem_cons_self), ← ih, hc, List.count_cons_self]
      rfl
    · rw [if_neg hc, List.count_cons_of_ne hc]
      by_cases hmem : '\n' ∈ cs
      · obtain ⟨k, hk⟩ := Nat.exists_eq_add_of_lt (List.count_pos_iff.mpr hmem)
        rw [lastLine_cons (List.mem_cons_of_mem c hmem), ← ih, hk]
        rfl
      · rw [lastLine_of_not_mem hmem, List.count_eq_zero_of_not_mem hmem] at ih
        rw [lastLine_of_not_mem (List.not_mem_cons_of_ne_of_not_mem (Ne.symm hc) hmem),
          List.count_eq_zero_of_not_mem hmem, List.cons_append, ← ih]
        rfl

end Lines

/-! ## Where lines start -/

/-- The positions behind the line feeds of a text that starts at a position. -/
def lineStartsFrom (position : Nat) : List Char → List Nat
  | [] => []
  | c :: cs =>
    if c = '\n' then (position + 1) :: lineStartsFrom (position + 1) cs
    else lineStartsFrom (position + 1) cs

section LineStarts

variable {position : Nat} {cs : List Char}

theorem lineStartsFrom_append (position : Nat) (cs ds : List Char) :
    lineStartsFrom position (cs ++ ds) =
      lineStartsFrom position cs ++ lineStartsFrom (position + cs.length) ds := by
  induction cs generalizing position with
  | nil => rfl
  | cons c cs ih =>
    rw [List.cons_append, lineStartsFrom, lineStartsFrom, ih, List.length_cons]
    split
    · rw [List.cons_append, Nat.add_right_comm, Nat.add_assoc]
    · rw [Nat.add_right_comm, Nat.add_assoc]

theorem length_lineStartsFrom (position : Nat) (cs : List Char) :
    (lineStartsFrom position cs).length = cs.count '\n' := by
  induction cs generalizing position with
  | nil => rfl
  | cons c cs ih =>
    rw [lineStartsFrom]
    split
    · rename_i hc
      rw [List.length_cons, ih, hc, List.count_cons_self]
    · rename_i hc
      rw [ih, List.count_cons_of_ne hc]

/-- Lines start inside the text or at its end, and not where it starts. -/
theorem mem_lineStartsFrom {a : Nat} (h : a ∈ lineStartsFrom position cs) :
    position < a ∧ a ≤ position + cs.length := by
  induction cs generalizing position with
  | nil => cases h
  | cons c cs ih =>
    rw [lineStartsFrom] at h
    rw [List.length_cons]
    split at h
    · rcases List.mem_cons.mp h with rfl | h
      · omega
      · have := ih h
        omega
    · have := ih h
      omega

/-- **The last line of a text** starts behind its last line feed. -/
theorem getLast_lineStartsFrom (cs : List Char) :
    (0 :: lineStartsFrom 0 cs).getLast (by simp) + (lastLine cs).length = cs.length := by
  induction cs using List.reverseRecOn with
  | nil => rfl
  | append_singleton cs c ih =>
    rw [lastLine_append_singleton]
    by_cases hc : c = '\n'
    · simp [hc, lineStartsFrom_append, lineStartsFrom]
    · rw [if_neg hc, List.length_append, List.length_append, ← ih]
      simp only [lineStartsFrom_append, lineStartsFrom, if_neg hc, List.append_nil]
      omega

end LineStarts

namespace Source

variable (s : Source)

/-- **Where the lines of a text start.** -/
def lineStarts : List Nat := 0 :: lineStartsFrom 0 s.text

/-- **Line and column of a position, looked up in the table of lines.** -/
def locateBy (position : Nat) : Nat × Nat :=
  let position := min position s.text.length
  let line := bisectRight s.lineStarts position 0 s.lineStarts.length - 1
  (line + 1, position - s.lineStarts.getD line 0 + 1)

/-- **The line of a number, cut out of the text** from where it starts, without the carriage returns
at its end. -/
def lineTextBy (line : Nat) : List Char :=
  (firstLine (s.text.drop (s.lineStarts.getD (line - 1) 0))).rdropWhile (· = '\r')

/-! ## Lines and columns -/

theorem advance_take (line column n : Nat) (cs : List Char) :
    advance line column n cs = advance line column (cs.take n).length (cs.take n) := by
  induction n generalizing line column cs with
  | zero => cases cs <;> rfl
  | succ n ih =>
    cases cs with
    | nil => rfl
    | cons c cs =>
      rw [List.take_succ_cons, List.length_cons, advance, advance]
      split <;> exact ih ..

/-- **Line and column**: one more than the line feeds before a position, and than the characters
that follow the last of them. -/
theorem locate_eq (position : Nat) :
    s.locate position =
      ((s.text.take position).count '\n' + 1, (lastLine (s.text.take position)).length + 1) :=
  (advance_take 1 1 position s.text).trans (locate_end _ s.file)

/-- The table in front of a position and behind it. -/
theorem lineStarts_eq (position : Nat) :
    s.lineStarts = (0 :: lineStartsFrom 0 (s.text.take position)) ++
      lineStartsFrom (s.text.take position).length (s.text.drop position) := by
  conv_lhs => rw [lineStarts, ← List.take_append_drop position s.text, lineStartsFrom_append]
  rw [List.cons_append, Nat.zero_add]

theorem length_take_text (position : Nat) :
    (s.text.take position).length = min position s.text.length := List.length_take

/-- **The line of a position** starts before what follows the last line feed. -/
theorem lineStart_add (position : Nat) :
    s.lineStarts.getD ((s.text.take position).count '\n') 0 +
      (lastLine (s.text.take position)).length = (s.text.take position).length := by
  have hlast := getLast_lineStartsFrom (s.text.take position)
  rw [List.getLast_eq_getElem] at hlast
  have hin : (s.text.take position).count '\n' <
      (0 :: lineStartsFrom 0 (s.text.take position)).length := by
    rw [List.length_cons, length_lineStartsFrom]
    exact Nat.lt_succ_self _
  rw [lineStarts_eq s position, List.getD_append _ _ _ _ hin, List.getD_eq_getElem _ _ hin, ← hlast]
  simp only [List.length_cons, length_lineStartsFrom, Nat.add_sub_cancel]

/-- **The table says the same of a position** as going through the text. -/
theorem locateBy_eq (position : Nat) : s.locateBy position = s.locate position := by
  have hlength := s.length_take_text position
  have hsearch : bisectRight s.lineStarts (min position s.text.length) 0 s.lineStarts.length =
      (s.text.take position).count '\n' + 1 := by
    rw [lineStarts_eq s position, bisectRight_append (fun a ha => ?_) (fun a ha => ?_)
      (Nat.zero_le _) (by rw [List.length_append]; omega) le_rfl, List.length_cons,
      length_lineStartsFrom]
    · rcases List.mem_cons.mp ha with rfl | ha
      · exact Nat.zero_le _
      · have := (mem_lineStartsFrom ha).2
        omega
    · have := (mem_lineStartsFrom ha).1
      omega
  have hstart := s.lineStart_add position
  rw [locate_eq, locateBy]
  simp only [hsearch, Nat.add_sub_cancel]
  congr 1
  omega

/-! ## The order of positions -/

variable {s} {p q : Nat}

/-- What is between two positions. -/
theorem exists_take_append (hlt : p < q) (hq : q ≤ s.text.length) :
    ∃ part, part ≠ [] ∧ s.text.take q = s.text.take p ++ part := by
  refine ⟨(s.text.drop p).take (q - p), List.ne_nil_of_length_pos ?_, ?_⟩
  · rw [List.length_take, List.length_drop]
    omega
  · rw [← List.take_add, Nat.add_sub_cancel' hlt.le]

/-- **A later position** is in a later line, or in a later column of the same line. -/
theorem locate_lt (hlt : p < q) (hq : q ≤ s.text.length) :
    (s.locate p).1 < (s.locate q).1 ∨
      (s.locate p).1 = (s.locate q).1 ∧ (s.locate p).2 < (s.locate q).2 := by
  obtain ⟨part, hne, hpart⟩ := exists_take_append hlt hq
  rw [locate_eq, locate_eq, hpart, List.count_append]
  by_cases hmem : '\n' ∈ part
  · have := List.count_pos_iff.mpr hmem
    exact .inl (by dsimp only; omega)
  · refine .inr ⟨by rw [List.count_eq_zero_of_not_mem hmem, Nat.add_zero], ?_⟩
    have := List.length_pos_iff.mpr hne
    rw [lastLine_append _ hmem, List.length_append]
    omega

/-- **More bytes are before a later position.** -/
theorem byteOffset_lt (hlt : p < q) (hq : q ≤ s.text.length) : s.byteOffset p < s.byteOffset q := by
  obtain ⟨part, hne, hpart⟩ := exists_take_append hlt hq
  obtain ⟨c, part, rfl⟩ := List.exists_cons_of_ne_nil hne
  have hwidth : 0 < (Utf8.encodeChar c).length := by
    rw [Utf8.length_encodeChar, Utf8.width]
    split <;> first | decide | (split <;> first | decide | (split <;> decide))
  rw [byteOffset_eq, byteOffset_eq, hpart, Utf8.encode, Utf8.encode, List.flatMap_append,
    List.flatMap_cons, List.length_append, List.length_append]
  omega

/-- What increases with the position tells positions apart. -/
theorem eq_of_increasing {α : Type} {f : Nat → α} {r : α → α → Prop} (hr : ∀ a, ¬ r a a)
    (hf : ∀ p q, p < q → q ≤ s.text.length → r (f p) (f q)) (hp : p ≤ s.text.length)
    (hq : q ≤ s.text.length) (h : f p = f q) : p = q := by
  rcases Nat.lt_trichotomy p q with hlt | heq | hlt
  · exact absurd (h ▸ hf p q hlt hq) (hr _)
  · exact heq
  · exact absurd (h ▸ hf q p hlt hp) (hr _)

/-! ## The text of a line -/

variable (s) in
/-- The line of a position, without the carriage returns at its end. -/
theorem lineText_locate (position : Nat) :
    s.lineText (s.locate position).1 =
      (lastLine (s.text.take position) ++ firstLine (s.text.drop position)).rdropWhile
        (· = '\r') := by
  rw [← splitLines_append, List.take_append_drop, locate_eq]
  rfl

variable (s) in
/-- **The line is what the table cuts out.** -/
theorem lineTextBy_locate (position : Nat) :
    s.lineTextBy (s.locate position).1 = s.lineText (s.locate position).1 := by
  obtain ⟨before, hbefore, hfree⟩ := exists_append_lastLine (s.text.take position)
  have hstart := s.lineStart_add position
  have hlength := congrArg List.length hbefore
  rw [List.length_append] at hlength
  have hpart : s.text.drop (s.lineStarts.getD ((s.text.take position).count '\n') 0) =
      lastLine (s.text.take position) ++ s.text.drop position := by
    have htext := List.take_append_drop position s.text
    rw [hbefore, List.append_assoc] at htext
    generalize s.lineStarts.getD _ 0 = start at hstart
    refine (congrArg (List.drop start) htext.symm).trans (List.drop_left' (by omega))
  rw [lineText_locate, lineTextBy, locate_eq, Nat.add_sub_cancel, hpart, firstLine_append hfree]

/-- **The carriage returns at the end of a line**: from the position on there is nothing else up to
a line feed or the end of the text. -/
def InReturns (s : Source) (position : Nat) : Prop :=
  ∃ run rest, s.text.drop position = run ++ rest ∧ run ≠ [] ∧ (∀ c ∈ run, c = '\r') ∧
    (rest = [] ∨ rest.head? = some '\n')

/-- **The character at a position stands in its line**, at its column. -/
theorem getElem?_lineText {c : Char} (hc : s.text[p]? = some c) (hfeed : c ≠ '\n')
    (hreturn : ¬ s.InReturns p) : (s.lineText (s.locate p).1)[(s.locate p).2 - 1]? = some c := by
  obtain ⟨hin, hget⟩ := List.getElem?_eq_some_iff.mp hc
  have hdrop : s.text.drop p = c :: s.text.drop (p + 1) := by
    rw [List.drop_eq_getElem_cons hin, hget]
  obtain ⟨rest, hrest, hend⟩ := exists_firstLine_append (s.text.drop p)
  have hline := List.rdropWhile_append_rtakeWhile (p := (· = '\r'))
    (l := lastLine (s.text.take p) ++ firstLine (s.text.drop p))
  rw [← lineText_locate] at hline
  have hcolumn : (s.locate p).2 - 1 = (lastLine (s.text.take p)).length := by
    rw [locate_eq, Nat.add_sub_cancel]
  rw [hcolumn]
  rcases Nat.lt_or_ge (lastLine (s.text.take p)).length (s.lineText (s.locate p).1).length with
    hlt | hle
  · rw [← List.getElem?_append_left hlt, hline, List.getElem?_append_right le_rfl, Nat.sub_self,
      hdrop, firstLine_cons hfeed]
    rfl
  · -- all that follows in the line has been dropped from it
    refine absurd ⟨_, rest, hrest, by rw [hdrop, firstLine_cons hfeed]; simp, fun x hx => ?_, hend⟩
      hreturn
    have hdropped : x ∈ (lastLine (s.text.take p) ++ firstLine (s.text.drop p)).rtakeWhile
        (· = '\r') := by
      rcases List.append_eq_append_iff.mp hline with ⟨a, -, ha⟩ | ⟨a, ha, hb⟩
      · rw [ha]
        exact List.mem_append_right a hx
      · obtain rfl : a = [] := List.eq_nil_of_length_eq_zero (by
          have := congrArg List.length ha
          rw [List.length_append] at this
          omega)
        rwa [hb] at hx
    exact of_decide_eq_true (List.mem_rtakeWhile_imp (p := (· = '\r')) hdropped)

/-- **Lines, columns and bytes are coordinates of the positions of a text.** The line of a position
is one more than the number of line feeds before it, the column one more than the distance from
where that line starts; a binary search in the table of where lines start gives the same, and the
line that is cut out there is the line that is shown. A later position is in a later line or in a
later column of the same line, and has more bytes before it, so that either tells positions apart.
The character at a position stands in its line at its column, unless it is a line feed or one of the
carriage returns that end a line. A position beyond the end is the end. -/
theorem coordinates (s : Source) :
    (∀ p, p ≤ s.text.length → s.locate p =
      ((s.text.take p).count '\n' + 1, (lastLine (s.text.take p)).length + 1) ∧
      s.locateBy p = s.locate p ∧ s.lineTextBy (s.locate p).1 = s.lineText (s.locate p).1 ∧
      s.byteOffset p = (Utf8.encode (s.text.take p)).length) ∧
    (∀ p q, p < q → q ≤ s.text.length →
      ((s.locate p).1 < (s.locate q).1 ∨
        (s.locate p).1 = (s.locate q).1 ∧ (s.locate p).2 < (s.locate q).2) ∧
      s.byteOffset p < s.byteOffset q) ∧
    (∀ p q, p ≤ s.text.length → q ≤ s.text.length →
      (s.locate p = s.locate q ∨ s.byteOffset p = s.byteOffset q) → p = q) ∧
    (∀ p c, s.text[p]? = some c → c ≠ '\n' → ¬ s.InReturns p →
      (s.lineText (s.locate p).1)[(s.locate p).2 - 1]? = some c) ∧
    ∀ p, s.text.length ≤ p → s.locate p = s.locate s.text.length ∧
      s.locateBy p = s.locateBy s.text.length ∧ s.byteOffset p = s.byteOffset s.text.length ∧
      s.place p = s.place s.text.length := by
  refine ⟨fun p _ => ⟨s.locate_eq p, s.locateBy_eq p, s.lineTextBy_locate p, s.byteOffset_eq p⟩,
    fun p q hlt hq => ⟨locate_lt hlt hq, byteOffset_lt hlt hq⟩, fun p q hp hq h => ?_,
    fun p c => getElem?_lineText, fun p hp => ?_⟩
  · rcases h with h | h
    · refine eq_of_increasing (s := s) (r := fun a b : Nat × Nat => a.1 < b.1 ∨
        a.1 = b.1 ∧ a.2 < b.2) (fun a => by omega) (fun p q => locate_lt) hp hq h
    · exact eq_of_increasing (fun a => Nat.lt_irrefl a) (fun p q => byteOffset_lt) hp hq h
  · have htake : s.text.take p = s.text.take s.text.length := by
      rw [List.take_of_length_le hp, List.take_length]
    have hlocate : s.locate p = s.locate s.text.length := by rw [locate_eq, locate_eq, htake]
    have hbytes : s.byteOffset p = s.byteOffset s.text.length := by
      rw [byteOffset_eq, byteOffset_eq, htake]
    exact ⟨hlocate, by rw [locateBy_eq, locateBy_eq, hlocate], hbytes, by
      rw [place, place, hlocate, hbytes]⟩

end Source

end Stencil
