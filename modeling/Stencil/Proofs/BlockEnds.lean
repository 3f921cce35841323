import Mathlib.Data.List.Induction
import Mathlib.Data.List.Infix
import Stencil.Proofs.ReadTemplate
import Stencil.Proofs.ReaderCalls

/-!
# Where blocks end

The text of a block may hold braces. The block ends at the first brace that closes more than the
text has opened; an escaped brace counts for nothing.

* `Piece`: a character of the text of a block, or an escape.
* `Piece.Excess`: more braces are closed than opened.
* **`Template.Read.body_pieces`**: reading a body comes to the point behind pieces without excess.
* **`Outline.block_ends`**: a block of a text ends where the first excess is, or nowhere.
-/

namespace Stencil

/-- **A piece of the text of a block**: a character other than `@`, or an escape. -/
inductive Piece where
  | plain (c : Char) (h : c ≠ '@')
  | escaped (c : Char) (h : c = '@' ∨ c = '\x7b' ∨ c = '\x7d')

namespace Piece

/-- What is written. -/
def source : Piece → List Char
  | plain c _ => [c]
  | escaped c _ => ['@', c]

/-- The character that is meant. -/
def content : Piece → Char
  | plain c _ | escaped c _ => c

/-- A brace that opens; escaped ones do not. -/
def opens : Piece → Bool
  | plain c _ => c == '\x7b'
  | escaped _ _ => false

/-- A brace that closes; escaped ones do not. -/
def closes : Piece → Bool
  | plain c _ => c == '\x7d'
  | escaped _ _ => false

/-- **More braces are closed than opened.** -/
def Excess (u : List Piece) : Prop := u.countP opens < u.countP closes

instance (u : List Piece) : Decidable (Excess u) := inferInstanceAs (Decidable (_ < _))

/-- Braces are never closed that are not open. -/
def Nests (u : List Piece) : Prop := ∀ w, w <+: u → ¬ Excess w

instance (u : List Piece) : Decidable (Nests u) :=
  decidable_of_iff (∀ w ∈ u.inits, ¬ Excess w) (by simp only [Nests, List.mem_inits])

/-- **The first excess** is at the piece after `u`. -/
def FirstExcess (u : List Piece) (x : Piece) : Prop := Nests u ∧ Excess (u ++ [x])

instance (u : List Piece) (x : Piece) : Decidable (FirstExcess u x) :=
  inferInstanceAs (Decidable (_ ∧ _))

variable {u w : List Piece} {x : Piece}

/-- Either there is no excess, or there is a first one. -/
theorem nests_or_firstExcess (u : List Piece) :
    Nests u ∨ ∃ v x w, u = v ++ x :: w ∧ FirstExcess v x := by
  induction u using List.reverseRecOn with
  | nil =>
    refine .inl fun w hw => ?_
    rw [List.prefix_nil.mp hw]
    decide
  | append_singleton u x ih =>
    rcases ih with h | ⟨v, y, w, rfl, hfirst⟩
    · by_cases hx : Excess (u ++ [x])
      · exact .inr ⟨u, x, [], rfl, h, hx⟩
      · refine .inl fun w hw => ?_
        rcases List.prefix_concat_iff.mp hw with rfl | hw
        · exact hx
        · exact h w hw
    · exact .inr ⟨v, y, w ++ [x], by simp, hfirst⟩

/-- The piece of the first excess is a closing brace, and the pieces before it are balanced. -/
theorem FirstExcess.balanced (h : FirstExcess u x) :
    x.source = ['\x7d'] ∧ u.countP opens = u.countP closes := by
  have hu := h.1 u List.prefix_rfl
  have hx := h.2
  simp only [Excess, List.countP_append, List.countP_singleton] at hu hx
  have hc : x.closes = true := by
    by_contra hc
    simp only [hc, if_false] at hx
    omega
  refine ⟨?_, by simp only [hc, if_true] at hx; omega⟩
  cases x with
  | plain c _ => exact congrArg ([·]) (beq_iff_eq.mp hc)
  | escaped c _ => cases hc

end Piece

namespace Template.Read

open Piece

/-! ## Pieces are read one by one -/

variable {s d b b' pos : Nat} {p : Pending} {cs : List Char}

/-- A character other than `@`, with the braces that are open after it. -/
theorem blockBody_char {c : Char} (hat : c ≠ '@') (hopen : c = '\x7b' → b' = b + 1)
    (hclose : c = '\x7d' → b = b' + 1) (hother : c ≠ '\x7b' → c ≠ '\x7d' → b' = b) :
    body (s + 1) true d b p ⟨pos, c :: cs⟩ =
      body (s + 1) true d b' (p.add pos [c]) ⟨pos + 1, cs⟩ := by
  have hrun : Cursor.plainRun true b (c :: cs) =
      (c :: (Cursor.plainRun true b' cs).1, (Cursor.plainRun true b' cs).2) := by
    rw [Cursor.plainRun.eq_def]
    by_cases ho : c = '\x7b'
    · simp [ho, hopen ho]
    · by_cases hc : c = '\x7d'
      · simp [hc, hclose hc]
      · simp [hat, ho, hc, hother ho hc]
  have hskip : (⟨pos, c :: cs⟩ : Cursor).skip ((Cursor.plainRun true b' cs).1.length + 1) =
      (⟨pos + 1, cs⟩ : Cursor).skip (Cursor.plainRun true b' cs).1.length := by
    simp [Cursor.skip, Nat.add_assoc, Nat.add_comm 1]
  rw [body, body]
  simp only [hrun, List.length_cons, hskip]
  rw [Pending.add_cons p pos c]

/-- **One piece**, with the braces that are open after it, unless the steps run out. -/
theorem body_piece (x : Piece) (cs : List Char)
    (h : b' + [x].countP closes = b + [x].countP opens) :
    body s true d b p ⟨pos, x.source ++ cs⟩ = .error .outOfSteps ∨
      ∃ s', body s true d b p ⟨pos, x.source ++ cs⟩ =
        body s' true d b' (p.add pos [x.content]) ⟨pos + x.source.length, cs⟩ := by
  cases s with
  | zero => exact .inl rfl
  | succ s =>
    rw [List.countP_singleton, List.countP_singleton] at h
    cases x with
    | plain c hat =>
      simp only [opens, closes, beq_iff_eq] at h
      refine .inr ⟨s + 1, blockBody_char hat ?_ ?_ ?_⟩
      · rintro rfl
        simpa using h
      · rintro rfl
        simpa using h.symm
      · intro ho hc
        simpa [ho, hc] using h
    | escaped c hc =>
      have hb : b' = b := h
      have hadd : (p.add pos []).add pos [c] = p.add pos [c] := by
        unfold Pending.add
        by_cases he : p.text.isEmpty = true
        · simp [he]
        · simp [he]
      refine .inr ⟨s, ?_⟩
      rw [body, hb]
      rcases hc with rfl | rfl | rfl <;> exact congrArg (body s true d b · _) hadd

/-- More text after a character, wherever it is said to start. -/
theorem add_add (p : Pending) (pos k : Nat) (c : Char) (t : List Char) :
    (p.add pos [c]).add k t = p.add pos (c :: t) := by
  unfold Pending.add
  by_cases h : p.text.isEmpty = true
  · simp [h]
  · simp [h]

theorem body_add_nil (inBlock : Bool) :
    body s inBlock d b (p.add pos []) ⟨pos, cs⟩ = body s inBlock d b p ⟨pos, cs⟩ := by
  have hadd (run : List Char) : (p.add pos []).add pos run = p.add pos run := by
    unfold Pending.add
    by_cases h : p.text.isEmpty = true
    · simp [h]
    · simp [h]
  cases s with
  | zero => rfl
  | succ s =>
    rw [body, body]
    simp only [hadd]

/-- **Reading comes to the point behind pieces**, whose text is pending then, unless the steps run
out; no brace is closed that is not open. -/
theorem body_pieces : ∀ {u : List Piece} {s b b' pos : Nat} {p : Pending},
    (∀ w, w <+: u → w.countP closes ≤ b + w.countP opens) →
    b' + u.countP closes = b + u.countP opens →
    body s true d b p ⟨pos, u.flatMap source ++ cs⟩ = .error .outOfSteps ∨
      ∃ s', body s true d b p ⟨pos, u.flatMap source ++ cs⟩ =
        body s' true d b' (p.add pos (u.map content)) ⟨pos + (u.flatMap source).length, cs⟩
  | [], s, b, b', pos, p, _, hb => by
    obtain rfl : b' = b := hb
    exact .inr ⟨s, (body_add_nil true).symm⟩
  | x :: u, s, b, b', pos, p, hnests, hb => by
    have hx := hnests [x] (List.prefix_append [x] u)
    obtain ⟨b₁, hb₁⟩ : ∃ b₁, b₁ + [x].countP closes = b + [x].countP opens :=
      ⟨_, Nat.sub_add_cancel hx⟩
    have hcons (w : List Piece) (f : Piece → Bool) :
        (x :: w).countP f = [x].countP f + w.countP f := by
      rw [← List.countP_append, List.singleton_append]
    have hrest : ∀ w, w <+: u → w.countP closes ≤ b₁ + w.countP opens := by
      intro w hw
      have := hnests (x :: w) (List.cons_prefix_cons.mpr ⟨rfl, hw⟩)
      have hcloses := hcons w closes
      have hopens := hcons w opens
      omega
    have hcloses := hcons u closes
    have hopens := hcons u opens
    rw [List.flatMap_cons, List.append_assoc]
    rcases body_piece x (u.flatMap source ++ cs) hb₁ with h | ⟨s₁, h⟩
    · exact .inl h
    · rw [h, List.map_cons, List.length_append, ← Nat.add_assoc,
        ← add_add p pos (pos + x.source.length) x.content (u.map content)]
      have hu : b' + u.countP closes = b₁ + u.countP opens := by omega
      exact body_pieces hrest hu

/-- A text as a body, which is empty if the text is. -/
def textBody (position : Nat) (cs : List Char) : Body :=
  if cs = [] then [] else [.text position (String.ofList cs)]

theorem nodes_add (pos k : Nat) (t : List Char) :
    ((⟨k, []⟩ : Pending).add pos t).nodes = textBody pos t := by
  cases t with
  | nil => rfl
  | cons c t => rfl

variable {u w : List Piece} {x : Piece} {c : Cursor} {v : List Char}

/-- A block is a body between braces. -/
theorem block_eq {cs : List Char} (hd : d < maxNesting) (hc : c.skipBlank = ⟨pos, '\x7b' :: cs⟩) :
    block (s + 1) d c = (do
      let (nodes, close) ← body s true (d + 1) 0 ⟨pos, []⟩ ⟨pos + 1, cs⟩
      if close.startsWith "\x7d" then return (nodes, close.skip 1)
      else .error (.at .unclosedBlock pos)) := by
  have hstart : (⟨pos, '\x7b' :: cs⟩ : Cursor).startsWith "\x7b" = true := rfl
  have henter : enter d pos = .ok (d + 1) := if_pos hd
  rw [block, hc]
  simp only [hstart, if_true, henter, Except.ok_bind]
  rfl

/-- **A block ends at the first excess**, unless the steps run out. -/
theorem block_of_firstExcess (hfirst : FirstExcess u x) (hd : d < maxNesting)
    (hc : c.skipBlank = ⟨pos, '\x7b' :: (u.flatMap source ++ (x.source ++ v))⟩) :
    block s d c = .error .outOfSteps ∨
      block s d c = .ok (textBody (pos + 1) (u.map content),
        ⟨pos + 1 + (u.flatMap source).length + 1, v⟩) := by
  obtain ⟨hx, hbalanced⟩ := hfirst.balanced
  cases s with
  | zero => exact .inl rfl
  | succ s =>
    have hnests : ∀ w, w <+: u → w.countP closes ≤ 0 + w.countP opens := fun w hw => by
      rw [Nat.zero_add]
      exact Nat.le_of_not_lt (hfirst.1 w hw)
    rw [block_eq hd hc]
    have hbody : body s true (d + 1) 0 ⟨pos, []⟩ ⟨pos + 1, u.flatMap source ++ (x.source ++ v)⟩ =
        .error .outOfSteps ∨ ∃ s', _ = body s' true (d + 1) 0 _ _ :=
      body_pieces hnests (by omega)
    rcases hbody with h | ⟨s', h⟩
    · rw [h]
      exact .inl rfl
    · rw [h, hx, List.singleton_append]
      cases s' with
      | zero => exact .inl rfl
      | succ s' =>
        rw [body_end (show Stops true ('\x7d' :: v) from ⟨v, rfl⟩), nodes_add]
        exact .inr rfl

/-- **A block without an excess is unclosed** at the end of the text, unless the steps run out. -/
theorem block_of_nests (hnests : Nests u) (hd : d < maxNesting)
    (hc : c.skipBlank = ⟨pos, '\x7b' :: u.flatMap source⟩) :
    block s d c = .error .outOfSteps ∨ block s d c = .error (.at .unclosedBlock pos) := by
  cases s with
  | zero => exact .inl rfl
  | succ s =>
    have hle := Nat.le_of_not_lt (hnests u List.prefix_rfl)
    have hnests : ∀ w, w <+: u → w.countP closes ≤ 0 + w.countP opens := fun w hw => by
      rw [Nat.zero_add]
      exact Nat.le_of_not_lt (hnests w hw)
    rw [block_eq hd hc, ← List.append_nil (u.flatMap source)]
    have hbody : body s true (d + 1) 0 ⟨pos, []⟩ ⟨pos + 1, u.flatMap source ++ []⟩ =
        .error .outOfSteps ∨
          ∃ s', _ = body s' true (d + 1) (u.countP opens - u.countP closes) _ _ :=
      body_pieces hnests (by omega)
    rcases hbody with h | ⟨s', h⟩
    · rw [h]
      exact .inl rfl
    · rw [h]
      cases s' with
      | zero => exact .inl rfl
      | succ s' =>
        rw [body]
        exact .inr rfl

/-- A block that is too deep is refused at its brace, unless the steps run out. -/
theorem block_of_tooDeep {cs : List Char} (hd : ¬ d < maxNesting)
    (hc : c.skipBlank = ⟨pos, '\x7b' :: cs⟩) :
    block s d c = .error .outOfSteps ∨
      block s d c = .error (.at (.blocksTooDeep maxNesting) pos) := by
  cases s with
  | zero => exact .inl rfl
  | succ s =>
    have hstart : (⟨pos, '\x7b' :: cs⟩ : Cursor).startsWith "\x7b" = true := rfl
    have henter : enter d pos = .error (.at (.blocksTooDeep maxNesting) pos) := if_neg hd
    rw [block, hc]
    simp only [hstart, if_true, henter]
    exact .inr rfl

end Template.Read

namespace Outline

open Template.Read Piece

/-- **Where a block of a text ends**, whose opening brace stands behind `before`: at the first brace
that closes more than the text of the block has opened, if there is one; its body is the text before
that brace. If there is none up to the end of the text, the text is refused at the opening brace, as
it is if the block is too deep. -/
theorem block_ends {text before v : List Char} {u : List Piece} {s d : Nat} {c : Cursor}
    (hleads : LeadsTo text s (.block d c)) (hc : c.skipBlank.position = before.length)
    (htext : text = before ++ '\x7b' :: (u.flatMap source ++ v)) :
    if d < maxNesting then
      (∀ u₁ x u₂, u = u₁ ++ x :: u₂ → FirstExcess u₁ x →
        block s d c = .ok (textBody (before.length + 1) (u₁.map content),
          ⟨before.length + 1 + (u₁.flatMap source).length + 1, u₂.flatMap source ++ v⟩)) ∧
        (Nests u → v = [] → parse text = .error (.at .unclosedBlock before.length))
    else parse text = .error (.at (.blocksTooDeep maxNesting) before.length) := by
  have hin := (in_of_leadsTo hleads).1.reaches c.reaches_skipBlank
  have hrest : c.skipBlank.rest = '\x7b' :: (u.flatMap source ++ v) := by
    rw [hin.rest, hc, htext, List.drop_left]
  have hcursor : c.skipBlank = ⟨before.length, '\x7b' :: (u.flatMap source ++ v)⟩ := by
    rw [← hc, ← hrest]
  have hsteps : block s d c ≠ .error .outOfSteps := not_outOfSteps_of_leadsTo hleads
  split
  · rename_i hd
    refine ⟨?_, ?_⟩
    · rintro u₁ x u₂ rfl hfirst
      refine (block_of_firstExcess hfirst hd ?_).resolve_left hsteps
      rw [hcursor]
      simp
    · rintro hnests rfl
      refine parse_error_of_leadsTo hleads ((block_of_nests hnests hd ?_).resolve_left hsteps)
      rw [hcursor, List.append_nil]
  · rename_i hd
    exact parse_error_of_leadsTo hleads ((block_of_tooDeep hd hcursor).resolve_left hsteps)

/-- Pieces of a block: braces that are balanced, an escaped one, and the brace that ends it. -/
def bracePieces : List Piece :=
  [.plain 'a' (by decide), .plain '\x7b' (by decide), .escaped '\x7d' (by decide),
    .plain '\x7d' (by decide), .plain 'b' (by decide)]

/-- A block as the argument of a call. -/
def braceText : List Char := "@()@:f(\x7ba\x7b@\x7d\x7db\x7d)c".toList

theorem leadsTo_braceText :
    LeadsTo braceText ((⟨3, braceText.drop 3⟩ : Cursor).steps - 5)
      (.block 0 ⟨7, braceText.drop 7⟩) := by
  refine ⟨[], ⟨0, braceText⟩, [], ⟨3, braceText.drop 3⟩, rfl, rfl, ?_⟩
  -- the body, its construct, the call, its arguments, the first of them
  refine .step (List.Mem.head _) ?_
  refine .step (List.Mem.head _) ?_
  refine .step (List.Mem.head _) ?_
  refine .step (List.Mem.head _) ?_
  refine .step (List.Mem.head _) ?_
  exact .refl _ _

theorem block_ends_braces :
    block ((⟨3, braceText.drop 3⟩ : Cursor).steps - 5) 0 ⟨7, braceText.drop 7⟩ =
      .ok ([.text 8 "a\x7b\x7d\x7db"], ⟨15, [')', 'c']⟩) := by
  have htext : braceText = braceText.take 7 ++ '\x7b' ::
      ((bracePieces ++ [Piece.plain '\x7d' (by decide)]).flatMap source ++ [')', 'c']) := rfl
  have h := block_ends leadsTo_braceText rfl htext
  rw [if_pos (by decide)] at h
  exact h.1 bracePieces (.plain '\x7d' (by decide)) [] rfl (by decide)

end Outline

end Stencil
