import Stencil.Proofs.AlikeReading
import Stencil.Proofs.PatternGrammar
import Stencil.Proofs.TightTokens

/-!
# White space in expressions

White space may be put between any two tokens of an expression, and the same is read, but for the
point of a field and the mark of a path: behind the point, and on either side of the mark, no white
space is allowed.

* `Expr.Spaced`: a text with white space put at one place between its tokens.
* `Cursor.Between`: a position that is not inside a token.
* `Cursor.AtMark`: a position behind a point, or next to the mark of a path.
* `Cursor.put`: the text with white space put at a position.
* **`Expr.parse_put`**: what is read with white space put somewhere between the tokens.
-/

namespace Stencil

open Text Expr

/-! ## The same tokens -/

namespace Expr

/-- **A text with white space put at one place between its tokens**: not before the mark of a path,
and not behind a mark or a point. -/
inductive Spaced : List Char → List Char → Prop
  | same (cs) : Spaced cs cs
  | gap {b w cs} : IsGap (b :: w) → (first cs).isOp "::" = false → Spaced cs (b :: w ++ cs)
  | blank {b xs ys} : isBlank b = true → Spaced xs ys → Spaced (b :: xs) (b :: ys)
  | token {k run xs ys} : k.isSolid = true → scan (run ++ xs) = ⟨k, run, xs⟩ →
    scan (run ++ ys) = ⟨k, run, ys⟩ →
    ((⟨k, run, 0⟩ : Token).isMark = true → (scan ys).kind ≠ .blank) →
    Spaced xs ys → Spaced (run ++ xs) (run ++ ys)

/-- The same token, with texts behind it that have the same tokens. -/
structure Twin (s t : Scan) : Prop where
  kind : s.kind = t.kind
  text : s.text = t.text
  rest : s.kind.isSolid = true → Spaced s.rest t.rest
  mark : (⟨s.kind, s.text, 0⟩ : Token).isMark = true → (scan s.rest).kind ≠ .blank →
    (scan t.rest).kind ≠ .blank

variable {xs ys cs : List Char} {b : Char}

theorem Twin.refl (s : Scan) : Twin s s := ⟨rfl, rfl, fun _ => .same _, fun _ h => h⟩

theorem dropWhile_of_isSolid (h : (scan cs).kind.isSolid = true) : cs.dropWhile isBlank = cs := by
  obtain ⟨c, r, rfl, hc⟩ := head_scan h
  rw [List.dropWhile_cons_of_neg (by rw [hc]; decide)]

theorem Spaced.here (h : Spaced xs ys) (hs : (scan xs).kind.isSolid = true)
    (hb : (scan ys).kind ≠ .blank) : Twin (scan xs) (scan ys) := by
  cases h with
  | same => exact .refl _
  | gap hw => exact absurd (scan_of_blank (hw _ List.mem_cons_self)) hb
  | blank hw =>
    rw [scan_of_blank hw] at hs
    cases hs
  | token _ hx hy hm hrest =>
    rw [hx, hy]
    exact ⟨rfl, rfl, fun _ => hrest, fun h _ => hm h⟩

/-- **The next tokens are the same.** -/
theorem Spaced.next (h : Spaced xs ys) :
    Twin (scan (xs.dropWhile isBlank)) (scan (ys.dropWhile isBlank)) := by
  induction h with
  | same => exact .refl _
  | gap hw =>
    rw [List.dropWhile_append_of_pos hw]
    exact .refl _
  | blank hb _ ih => rwa [List.dropWhile_cons_of_pos hb, List.dropWhile_cons_of_pos hb]
  | token hk hx hy hm hrest =>
    rw [dropWhile_of_isSolid (by rwa [hx]), dropWhile_of_isSolid (by rwa [hy]), hx, hy]
    exact ⟨rfl, rfl, fun _ => hrest, fun h _ => hm h⟩

theorem Spaced.run {run xs ys : List Char} (hr : IsGap run) (h : Spaced xs ys) :
    Spaced (run ++ xs) (run ++ ys) := by
  induction run with
  | nil => exact h
  | cons b run ih =>
    exact .blank (hr b List.mem_cons_self) (ih fun d hd => hr d (List.mem_cons_of_mem _ hd))

/-- No mark of a path is moved away. -/
theorem Spaced.first_mark (h : Spaced xs ys) : (first ys).isOp "::" = (first xs).isOp "::" := by
  have hblank : ∀ {b cs}, isBlank b = true → (first (b :: cs)).isOp "::" = false := fun hb =>
    Token.isOp_eq_false (by
      show (scan _).kind ≠ _
      rw [scan_of_blank hb]
      decide)
  cases h with
  | same => rfl
  | gap hw hm => rw [hm, List.cons_append, hblank (hw _ List.mem_cons_self)]
  | blank hb => rw [hblank hb, hblank hb]
  | token _ hx hy => rw [first_of_scan hx, first_of_scan hy]

/-- **The names behind a mark are the same.** -/
theorem Twin.behind {s t : Scan} (h : Twin s t)
    (hm : (⟨s.kind, s.text, 0⟩ : Token).isMark = true) (hk : (scan s.rest).kind = .name) :
    Twin (scan s.rest) (scan t.rest) :=
  (h.rest (Token.isSolid_of_isMark hm)).here (by rw [hk]; rfl) (h.mark hm (by rw [hk]; decide))

/-- **The reader sees alike tokens** in a text with white space put between its tokens. -/
theorem follows_spaced : Cursor.Follows fun c d => Spaced c.rest d.rest where
  peek h := ⟨h.next.kind, h.next.text⟩
  after h hs := h.next.rest hs
  point h hp hk := by
    have htwin := h.next.behind (Bool.or_eq_true_iff.mpr (.inl hp)) hk
    exact ⟨⟨htwin.kind, htwin.text⟩, htwin.rest (Token.isSolid_of_kind hk rfl)⟩
  mark h := h.first_mark
  afterMark {c d} h hm hk := by
    have hop : (scan d.rest).kind = .op := by
      have hm' : d.token.1.isOp "::" = true := h.first_mark.trans hm
      rw [Token.isOp, Bool.and_eq_true, decide_eq_true_eq] at hm'
      exact hm'.1
    have hhere := h.here (Token.isSolid_of_isOp hm) (by rw [hop]; decide)
    have htwin := hhere.behind (Bool.or_eq_true_iff.mpr (.inr hm)) hk
    exact ⟨⟨htwin.kind, htwin.text⟩, htwin.rest (Token.isSolid_of_kind hk rfl)⟩

end Expr

/-! ## Putting white space -/

namespace Cursor

variable {c d : Cursor} {t last : Token} {w cs : List Char} {b : Char} {n : Nat}

/-- **A position that is not inside a token**; white space is no token here. -/
def Between (c : Cursor) (n : Nat) : Prop :=
  ∀ t ∈ c.tokens, t.kind ≠ .blank → n ≤ t.position ∨ t.position + t.text.length ≤ n

/-- **A position behind a point, or next to the mark of a path.** -/
def AtMark (c : Cursor) (n : Nat) : Prop := ∃ t ∈ c.tokens,
  t.isMark = true ∧ t.position + t.text.length = n ∨ t.isOp "::" = true ∧ t.position = n

/-- **The cursor in the text with white space put** at a position. -/
def put (c : Cursor) (w : List Char) (n : Nat) : Cursor :=
  ⟨c.position, c.rest.take (n - c.position) ++ (w ++ c.rest.drop (n - c.position))⟩

theorem put_here (h : c.position = n) : (c.put w n).rest = w ++ c.rest := by
  rw [put, h, Nat.sub_self, List.take_zero, List.drop_zero, List.nil_append]

theorem rest_eq (c : Cursor) : c.rest = c.token.1.text ++ c.token.2.rest := (scan_takes c.rest).1

theorem token_ne_nil (h : c.token.1.kind ≠ .eof) : c.token.1.text ≠ [] := text_scan_ne_nil h

/-- Behind the next token, white space is put behind what is left of the text. -/
theorem put_rest (h : c.token.2.position ≤ n) :
    (c.put w n).rest = c.token.1.text ++ (c.token.2.put w n).rest := by
  have hposition : c.token.2.position = c.position + c.token.1.text.length := rfl
  obtain ⟨m, hm⟩ : ∃ m, n - c.position = c.token.1.text.length + m := Nat.exists_eq_add_of_le
    (by omega)
  have hm' : n - c.token.2.position = m := by omega
  simp only [put, hm, hm']
  rw [c.rest_eq, List.take_length_add_append, List.drop_length_add_append, List.append_assoc]

theorem put_token_of (hk : (scan (c.put w n).rest).kind = c.token.1.kind)
    (ht : (scan (c.put w n).rest).text = c.token.1.text) (h : c.token.2.position ≤ n) :
    (c.put w n).token = (c.token.1, c.token.2.put w n) := by
  have hrest : (scan (c.put w n).rest).rest = (c.token.2.put w n).rest := by
    have hall := (scan_takes (c.put w n).rest).1
    rw [ht] at hall
    exact List.append_cancel_left (hall.symm.trans (put_rest h))
  rw [token, ht, hk, hrest]
  rfl

/-- **A token before the position is the same.** -/
theorem put_token (hw : IsGap (b :: w)) (hs : c.token.1.kind.isSolid = true)
    (h : c.token.2.position ≤ n) :
    (c.put (b :: w) n).token = (c.token.1, c.token.2.put (b :: w) n) := by
  have hposition : c.token.2.position = c.position + c.token.1.text.length := rfl
  have hcut := @scan_take c.rest (n - c.position)
    (by show c.token.1.text.length ≤ _; omega)
  have hsolid : (scan (c.rest.take (n - c.position))).kind.isSolid = true := by
    rw [hcut]
    exact hs
  have hscan := scan_gap hsolid (hw b List.mem_cons_self) (w ++ c.rest.drop (n - c.position))
  rw [hcut] at hscan
  exact put_token_of ((congrArg Scan.kind hscan).trans rfl) ((congrArg Scan.text hscan).trans rfl) h

/-- White space with something else behind it is one token. -/
theorem scan_run {run : List Char} (hr : IsGap run) (hne : run ≠ [])
    (hc : cs.takeWhile isBlank = []) : scan (run ++ cs) = ⟨.blank, run, cs⟩ := by
  have hdrop : cs.dropWhile isBlank = cs := by
    have hall := List.takeWhile_append_dropWhile (p := isBlank) (l := cs)
    rwa [hc] at hall
  obtain ⟨b, r, rfl⟩ := List.exists_cons_of_ne_nil hne
  have hblank : blank? (b :: r ++ cs) = some (b :: r, cs) := by
    rw [blank?, List.takeWhile_append_of_pos hr, List.dropWhile_append_of_pos hr, hc, hdrop,
      List.append_nil]
    rfl
  rw [List.cons_append, scan_cons, ← List.cons_append, scan?, hblank]
  rfl

/-- The text of white space, and what stands behind it. -/
theorem blank_token (hk : c.token.1.kind = .blank) : IsGap c.token.1.text ∧
    c.token.2.rest.takeWhile isBlank = [] := by
  have htext : c.token.1.text = c.rest.takeWhile isBlank := by
    have hall := c.rest_eq
    rw [token_of_blank hk] at hall
    have hall' := List.takeWhile_append_dropWhile (p := isBlank) (l := c.rest)
    exact List.append_cancel_right (hall.symm.trans hall'.symm)
  refine ⟨fun d hd => ?_, ?_⟩
  · rw [htext] at hd
    exact List.all_eq_true.mp List.all_takeWhile d hd
  · rw [token_of_blank hk]
    have hhead := List.head?_dropWhile_not isBlank c.rest
    show (c.rest.dropWhile isBlank).takeWhile isBlank = []
    cases hrest : c.rest.dropWhile isBlank with
    | nil => rfl
    | cons a r =>
      rw [hrest] at hhead
      exact List.takeWhile_cons_of_neg (by rw [show isBlank a = false from hhead]; decide)

/-- **White space further back leaves white space as it is**, if something else stands between. -/
theorem put_token_blank (hk : c.token.1.kind = .blank) (h : c.token.2.position < n)
    (hne : c.token.2.rest ≠ []) : (c.put w n).token = (c.token.1, c.token.2.put w n) := by
  obtain ⟨hgap, hbehind⟩ := blank_token hk
  obtain ⟨a, r, hr⟩ := List.exists_cons_of_ne_nil hne
  obtain ⟨m, hm⟩ : ∃ m, n - c.token.2.position = m + 1 :=
    Nat.exists_eq_succ_of_ne_zero (by omega)
  have hnext : (c.token.2.put w n).rest.takeWhile isBlank = [] := by
    rw [hr] at hbehind
    rw [put, hm, hr, List.take_succ_cons]
    cases ha : isBlank a with
    | true =>
      rw [List.takeWhile_cons_of_pos ha] at hbehind
      cases hbehind
    | false => exact List.takeWhile_cons_of_neg (by rw [ha]; decide)
  have hscan := scan_run hgap (token_ne_nil (by rw [hk]; decide)) hnext
  rw [← put_rest (Nat.le_of_lt h)] at hscan
  exact put_token_of (by rw [hscan, hk]) (by rw [hscan]) (Nat.le_of_lt h)

/-- Behind a cursor stand the tokens behind the next one. -/
theorem Between.token (h : c.Between n) (hk : c.token.1.kind ≠ .eof) : c.token.2.Between n := by
  rw [Between, tokens_eq, if_neg hk, List.forall_mem_cons] at h
  exact h.2

theorem position_le_of_mem_tokens (ht : t ∈ c.tokens) : c.position ≤ t.position := by
  induction c using token_induction with
  | eof c hk =>
    rw [tokens_eq, if_pos hk] at ht
    rw [List.mem_singleton.mp ht]
    exact Nat.le_refl _
  | token c hk ih =>
    rw [tokens_eq, if_neg hk] at ht
    rcases List.mem_cons.mp ht with rfl | ht
    · exact Nat.le_refl _
    · exact Nat.le_trans (reaches_token c).position_le (ih ht)

theorem first_mem_tokens (c : Cursor) : c.token.1 ∈ c.tokens := by
  rw [tokens_eq]
  split <;> exact List.mem_cons_self

theorem isSolid_of_known (hu : t.kind ≠ .unknown) (hb : t.kind ≠ .blank) (he : t.kind ≠ .eof) :
    t.kind.isSolid = true := by
  cases hk : t.kind <;> first | rfl | contradiction

theorem AtMark.token (h : c.token.2.AtMark n) (hk : c.token.1.kind ≠ .eof) : c.AtMark n := by
  obtain ⟨t, ht, h⟩ := h
  refine ⟨t, ?_, h⟩
  rw [tokens_eq, if_neg hk]
  exact List.mem_cons_of_mem _ ht

/-- White space put where nothing but white space stands before it. -/
theorem spaced_gap (hw : IsGap (b :: w)) (hr : IsGap (c.rest.take (n - c.position)))
    (hm : (first (c.rest.drop (n - c.position))).isOp "::" = false) :
    Spaced c.rest (c.put (b :: w) n).rest := by
  have h := Spaced.run hr (.gap hw hm)
  rwa [List.take_append_drop] at h

/-- White space put into white space. -/
theorem spaced_blank (hw : IsGap (b :: w)) (hk : c.token.1.kind = .blank) (hn : c.position ≤ n)
    (h : n < c.token.2.position) : Spaced c.rest (c.put (b :: w) n).rest := by
  have hposition : c.token.2.position = c.position + c.token.1.text.length := rfl
  have hgap := (blank_token hk).1
  have hrest := c.rest_eq
  refine spaced_gap hw ?_ ?_
  · rw [hrest, List.take_append_of_le_length (by omega)]
    exact fun d hd => hgap d (List.mem_of_mem_take hd)
  · rw [hrest, List.drop_append_of_le_length (by omega)]
    obtain ⟨d, r, hr⟩ := List.exists_cons_of_length_pos
      (l := c.token.1.text.drop (n - c.position)) (by rw [List.length_drop]; omega)
    have hd : isBlank d = true := hgap d (List.mem_of_mem_drop (hr ▸ List.mem_cons_self))
    rw [hr]
    refine Token.isOp_eq_false ?_
    show (scan _).kind ≠ _
    rw [List.cons_append, scan_of_blank hd]
    decide

/-- White space put before a token. -/
theorem spaced_here (hw : IsGap (b :: w)) (hm : ¬ c.AtMark n) (hn : c.position = n) :
    Spaced c.rest (c.put (b :: w) n).rest := by
  refine spaced_gap hw ?_ ?_ <;> rw [hn, Nat.sub_self]
  · exact isGap_nil
  · rw [List.drop_zero, ← Bool.not_eq_true]
    exact fun hfirst => hm ⟨c.token.1, c.first_mem_tokens, .inr ⟨hfirst, hn⟩⟩

/-- White space put behind a token, but not directly behind it, does not move the next token. -/
theorem scan_put_ne_blank (h : c.position < n) (hk : c.token.1.kind.isSolid = true) :
    (scan (c.put w n).rest).kind ≠ .blank := by
  have hsolid : (scan c.rest).kind.isSolid = true := hk
  obtain ⟨a, r, hr, ha⟩ := head_scan hsolid
  obtain ⟨m, hm⟩ : ∃ m, n - c.position = m + 1 := Nat.exists_eq_succ_of_ne_zero (by omega)
  have hput : (c.put w n).rest = a :: (r.take m ++ (w ++ r.drop m)) := by
    rw [put, hm, hr]
    rfl
  intro hblank
  rw [hput] at hblank
  rw [isBlank_of_scan hblank] at ha
  cases ha

/-- White space put behind a token or further back. -/
theorem spaced_behind (hw : IsGap (b :: w)) (hs : c.token.1.kind.isSolid = true)
    (ht : Tight c.token.1 c.token.2) (hm : ¬ c.AtMark n) (h : c.token.2.position ≤ n)
    (hrest : Spaced c.token.2.rest (c.token.2.put (b :: w) n).rest) :
    Spaced c.rest (c.put (b :: w) n).rest := by
  have hscan : scan (c.put (b :: w) n).rest =
      ⟨(c.put (b :: w) n).token.1.kind, (c.put (b :: w) n).token.1.text,
        (c.put (b :: w) n).token.2.rest⟩ := rfl
  rw [put_token hw hs h, put_rest h] at hscan
  rw [put_rest h, c.rest_eq]
  refine .token hs ?_ hscan (fun hmark => ?_) hrest
  · rw [← c.rest_eq]
    rfl
  · have hname := (tight_iff.mp ht).1.behind hmark
    have hne : c.token.2.position ≠ n := fun hn =>
      hm ⟨c.token.1, c.first_mem_tokens, .inl ⟨hmark, hn⟩⟩
    exact scan_put_ne_blank (by omega) (Token.isSolid_of_kind hname rfl)

/-- **White space put elsewhere leaves the tokens as they are.** -/
theorem spaced_put (hw : IsGap (b :: w)) (ht : Tight last c) (hb : c.Between n)
    (hm : ¬ c.AtMark n) (hn : c.position ≤ n) : Spaced c.rest (c.put (b :: w) n).rest := by
  induction c using token_induction generalizing last with
  | eof c hk =>
    have hrest : c.rest = [] := eq_nil_of_scan hk
    refine spaced_gap hw ?_ ?_ <;> rw [hrest]
    · rw [List.take_nil]
      exact isGap_nil
    · rw [List.drop_nil]
      rfl
  | token c hk ih =>
    obtain ⟨hfits, htight⟩ := tight_iff.mp ht
    have hstep := ih (htight hk) (hb.token hk) fun hm' => hm (hm'.token hk)
    by_cases hblank : c.token.1.kind = .blank
    · rcases Nat.lt_or_ge n c.token.2.position with hend | hend
      · exact spaced_blank hw hblank hn hend
      · rw [put_rest hend, c.rest_eq]
        exact .run (blank_token hblank).1 (hstep hend)
    · have hs := isSolid_of_known hfits.known hblank hk
      rcases hb _ c.first_mem_tokens hblank with hend | hend
      · exact spaced_here hw hm (Nat.le_antisymm hn hend)
      · exact spaced_behind hw hs (htight hk) hm hend (hstep hend)

theorem text_of_isMark (h : t.isMark = true) : t.text ≠ [] := by
  intro hnil
  rcases Bool.or_eq_true_iff.mp h with h | h <;>
  · rw [Token.isOp, hnil, Bool.and_eq_true, decide_eq_true_eq, decide_eq_true_eq] at h
    cases h.2

theorem AtMark.not_eof (h : c.AtMark n) : c.token.1.kind ≠ .eof := by
  obtain ⟨t, ht, h⟩ := h
  intro hk
  rw [tokens_eq, if_pos hk, List.mem_singleton] at ht
  have hsolid : t.kind.isSolid = true :=
    h.elim (fun h => Token.isSolid_of_isMark h.1) fun h => Token.isSolid_of_isOp h.1
  rw [ht, hk] at hsolid
  cases hsolid

/-- Next to a mark that stands no further back, the next token is a mark of a path. -/
theorem AtMark.first (h : c.AtMark n) (hn : n ≤ c.position) :
    c.position = n ∧ c.token.1.isOp "::" = true := by
  have heof := h.not_eof
  obtain ⟨t, ht, h⟩ := h
  have hle := position_le_of_mem_tokens ht
  rcases h with ⟨hmark, hend⟩ | ⟨hmark, Cursor.ofText_zero⟩
  · have := List.length_pos_iff.mpr (text_of_isMark hmark)
    omega
  · rw [tokens_eq, if_neg heof] at ht
    rcases List.mem_cons.mp ht with rfl | ht
    · exact ⟨by omega, hmark⟩
    · have hlt := List.length_pos_iff.mpr (token_ne_nil heof)
      have hposition : c.token.2.position = c.position + c.token.1.text.length := rfl
      have := position_le_of_mem_tokens ht
      omega

/-- Next to a mark further back. -/
theorem AtMark.behind (h : c.AtMark n) (hn : c.position < n) :
    c.token.1.isMark = true ∧ c.token.2.position = n ∨ c.token.2.AtMark n := by
  have heof := h.not_eof
  obtain ⟨t, ht, h⟩ := h
  rw [tokens_eq, if_neg heof] at ht
  rcases List.mem_cons.mp ht with rfl | ht
  · rcases h with h | ⟨-, Cursor.ofText_zero⟩
    · exact .inl h
    · exact absurd Cursor.ofText_zero (Nat.ne_of_lt hn)
  · exact .inr ⟨t, ht, h⟩

/-- White space put here, next to a mark. -/
theorem not_tight_here (hw : IsGap (b :: w)) (hm : last.isMark = true ∨ c.token.1.isOp "::" = true)
    (hn : c.position = n) : ¬ Tight last (c.put (b :: w) n) := fun ht => by
  have hrest := put_here (w := b :: w) hn
  have hblank : (c.put (b :: w) n).token.1.kind = .blank := by
    show (scan _).kind = _
    rw [hrest, List.cons_append, scan_of_blank (hw b List.mem_cons_self)]
  obtain ⟨hfits, htight⟩ := tight_iff.mp ht
  rcases hm with hm | hm
  · have hname := hfits.behind hm
    rw [hblank] at hname
    cases hname
  · have hnext := (tight_iff.mp (htight (by rw [hblank]; decide))).1
    have hbehind : (c.put (b :: w) n).token.2.rest = c.rest := by
      rw [token_of_blank hblank]
      show (c.put (b :: w) n).rest.dropWhile isBlank = _
      rw [hrest, List.dropWhile_append_of_pos hw, dropWhile_of_isSolid (Token.isSolid_of_isOp hm)]
    have hname := hnext.before (by
      show (first (c.put (b :: w) n).token.2.rest).isOp "::" = true
      rw [hbehind]
      exact hm)
    rw [hblank] at hname
    cases hname

/-- **White space put next to a mark separates tokens that have to stand together.** -/
theorem not_tight_put (hw : IsGap (b :: w)) (ht : Tight last c) (hb : c.Between n)
    (hm : last.isMark = true ∧ c.position = n ∨ c.AtMark n) (hn : c.position ≤ n) :
    ¬ Tight last (c.put (b :: w) n) := by
  induction c using token_induction generalizing last with
  | eof c hk =>
    rcases hm with ⟨hm, hn⟩ | hm
    · exact not_tight_here hw (.inl hm) hn
    · exact absurd hk hm.not_eof
  | token c hk ih =>
    obtain ⟨hfits, htight⟩ := tight_iff.mp ht
    rcases hm with ⟨hm, hn⟩ | hm
    · exact not_tight_here hw (.inl hm) hn
    rcases Nat.eq_or_lt_of_le hn with hn | hn
    · exact not_tight_here hw (.inr (hm.first (Nat.le_of_eq hn.symm)).2) hn
    have hbehind := hm.behind hn
    have hstep : c.token.2.position ≤ n →
        (c.put (b :: w) n).token = (c.token.1, c.token.2.put (b :: w) n) →
        ¬ Tight last (c.put (b :: w) n) := fun hend htoken ht' => by
      have htail := (tight_iff.mp ht').2
      rw [htoken] at htail
      exact ih (htight hk) (hb.token hk) hbehind hend (htail hk)
    by_cases hblank : c.token.1.kind = .blank
    · have hm' : c.token.2.AtMark n := hbehind.resolve_left fun h => by
        have hsolid := Token.isSolid_of_isMark h.1
        rw [hblank] at hsolid
        cases hsolid
      rcases Nat.lt_or_ge c.token.2.position n with hend | hend
      · refine hstep (Nat.le_of_lt hend) (put_token_blank hblank hend fun hnil => hm'.not_eof ?_)
        show (scan _).kind = _
        rw [hnil]
        rfl
      · have hname := (tight_iff.mp (htight hk)).1.before (hm'.first hend).2
        rw [hblank] at hname
        cases hname
    · have hs := isSolid_of_known hfits.known hblank hk
      rcases hb _ c.first_mem_tokens hblank with hend | hend
      · exact absurd hend (Nat.not_le_of_lt hn)
      · exact hstep hend (put_token hw hs hend)

end Cursor

/-! ## Reading -/

namespace Expr

variable {text w : List Char} {n : Nat} {e : Expr}

/-- What is read from a text with white space put between its tokens. -/
theorem parse_spaced {cs : List Char} (h : parse text = .ok e) (hs : Spaced text cs) :
    ∃ e', parse cs = .ok e' ∧ e'.unplaced = e.unplaced := by
  obtain ⟨c, hread, hend⟩ := readExpression_of_parse h
  rw [Cursor.ofText_zero] at hread
  -- as many steps as the new text is given
  have hsteps : ∀ cs : List Char, (⟨0, cs⟩ : Cursor).steps = 16 * (cs.length + 2) := fun _ => rfl
  rw [readExpression, ((Read.enough _ (16 * (text.length + cs.length + 2))).expression (by
    simp only [hsteps]; omega)).same] at hread
  have hspaced : Spaced (⟨0, text⟩ : Cursor).rest (⟨0, cs⟩ : Cursor).rest := hs
  obtain ⟨e', c', hread', hu, hc⟩ := (Read.follows follows_spaced _).expression hspaced hread
  rw [← ((Read.enough (⟨0, cs⟩ : Cursor).steps _).expression (by
    simp only [hsteps]; omega)).same] at hread'
  have hend' : c'.skipBlank.rest = [] := by
    refine eq_nil_of_scan ?_
    show (scan (c'.rest.dropWhile isBlank)).kind = _
    rw [← hc.next.kind]
    show (scan c.skipBlank.rest).kind = _
    rw [hend]
    rfl
  refine ⟨e', ?_, hu⟩
  rw [parse, Cursor.ofText_zero, readExpression, hread']
  simp only [Except.ok_bind, hend']
  rfl

/-- **White space between the tokens of an expression.** Put anywhere between the tokens of a text
that is read as an expression, it leaves what is read as it is, positions aside; but directly behind
a point or next to the mark of a path, nothing is read any more. -/
theorem parse_put (h : parse text = .ok e) (hn : (Cursor.ofText text 0).Between n) (hw : IsGap w)
    (hne : w ≠ []) :
    (¬ (Cursor.ofText text 0).AtMark n →
      ∃ e', parse (text.take n ++ (w ++ text.drop n)) = .ok e' ∧ e'.unplaced = e.unplaced) ∧
    ((Cursor.ofText text 0).AtMark n →
      ∃ f, parse (text.take n ++ (w ++ text.drop n)) = .error f) := by
  obtain ⟨b, w, rfl⟩ := List.exists_cons_of_ne_nil hne
  have hlast : (⟨.blank, [], 0⟩ : Token).isMark = false := rfl
  have htight := tight_of_parse h hlast
  rw [Cursor.ofText_zero] at hn htight ⊢
  refine ⟨fun hm => ?_, fun hm => ?_⟩
  · exact parse_spaced h (Cursor.spaced_put hw htight hn hm (Nat.zero_le _))
  cases hp : parse (text.take n ++ (b :: w ++ text.drop n)) with
  | error f => exact ⟨f, rfl⟩
  | ok e' =>
    have hput := tight_of_parse hp hlast
    rw [Cursor.ofText_zero] at hput
    exact absurd hput (Cursor.not_tight_put hw htight hn (.inr hm) (Nat.zero_le _))

/-- Before the point of a field white space is allowed. -/
theorem parse_put_point :
    (parse "user.name".toList = .ok (.field 0 (.name 0 "user") "name") ∧
      (Cursor.ofText "user.name".toList 0).Between 4 ∧ IsGap ['\n'] ∧ ['\n'] ≠ [] ∧
      ¬ (Cursor.ofText "user.name".toList 0).AtMark 4) ∧
    ∃ e', parse ("user.name".toList.take 4 ++ (['\n'] ++ "user.name".toList.drop 4)) = .ok e' ∧
      e'.unplaced = (Expr.field 0 (.name 0 "user") "name").unplaced := by
  have h : parse "user.name".toList = .ok (.field 0 (.name 0 "user") "name") := by rfl
  have hn : (Cursor.ofText "user.name".toList 0).Between 4 := by
    unfold Cursor.Between
    decide +kernel
  have hw : IsGap ['\n'] := fun c hc => by
    rw [List.mem_singleton.mp hc]
    decide
  have hm : ¬ (Cursor.ofText "user.name".toList 0).AtMark 4 := by
    unfold Cursor.AtMark
    decide +kernel
  exact ⟨⟨h, hn, hw, by decide, hm⟩, (parse_put h hn hw (by decide)).1 hm⟩

/-- **Behind the point of a field it is not**: the text with a space there is refused. -/
theorem not_parse_put_field :
    ∃ text n w e, parse text = .ok e ∧ (Cursor.ofText text 0).Between n ∧ IsGap w ∧
      ¬ ∃ e', parse (text.take n ++ (w ++ text.drop n)) = .ok e' ∧ e'.unplaced = e.unplaced := by
  refine ⟨"a.b".toList, 2, [' '], .field 0 (.name 0 "a") "b", by rfl, ?_, isGap_space, ?_⟩
  · unfold Cursor.Between
    decide +kernel
  · have hrefused : parse ("a.b".toList.take 2 ++ ([' '] ++ "a.b".toList.drop 2)) =
        .error (.at .expectedMember 2) := by rfl
    rintro ⟨e', he', -⟩
    rw [hrefused] at he'
    cases he'

end Expr

end Stencil
