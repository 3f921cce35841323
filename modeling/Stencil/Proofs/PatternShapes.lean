import Stencil.Proofs.ExprLevels
import Stencil.Proofs.PatternRoundTrip

/-!
# What the reader of patterns returns

* `Pattern.Shaped.of_deeper`: what may stand below brackets may stand without them.
* `Pattern.Read.Sound`: all that the functions of the reader return has the shape of patterns.
* **`Pattern.shaped_of_read`**: a pattern that is read has the shape of a pattern.
-/

namespace Stencil.Pattern

open Text Expr Expr.Read

mutual

/-- **What may stand below brackets may stand without them.** -/
theorem Shaped.of_deeper : ∀ {p : Pattern} {d : Nat}, p.Shaped (d + 1) → p.Shaped d
  | wildcard _, _, _ => trivial
  | binding _ _, _, h => h
  | literal _ _, _, _ => trivial
  | value _ _, _, h => h
  | tuple _ _ _, _, h => ⟨Nat.lt_of_succ_lt h.1, shapedAll_of_deeper h.2.1, h.2.2⟩
  | variant _ _ _, _, h => ⟨h.1, Nat.lt_of_succ_lt h.2.1, shapedAll_of_deeper h.2.2⟩
  | struct _ _ _ _, _, h => ⟨h.1, Nat.lt_of_succ_lt h.2.1, shapedFields_of_deeper h.2.2⟩
  | or _ _, _, h => ⟨h.1, shapedAlternatives_of_deeper h.2⟩

theorem shapedAll_of_deeper : ∀ {ps : List Pattern} {d : Nat},
    ShapedAll (d + 1) ps → ShapedAll d ps
  | [], _, _ => trivial
  | _ :: _, _, h => ⟨h.1.of_deeper, shapedAll_of_deeper h.2⟩

theorem shapedFields_of_deeper : ∀ {fs : List (String × Pattern)} {d : Nat},
    ShapedFields (d + 1) fs → ShapedFields d fs
  | [], _, _ => trivial
  | (_, _) :: _, _, h => ⟨h.1, h.2.1.imp id Shaped.of_deeper, shapedFields_of_deeper h.2.2⟩

theorem shapedAlternatives_of_deeper : ∀ {ps : List Pattern} {d : Nat},
    ShapedAlternatives (d + 1) ps → ShapedAlternatives d ps
  | [], _, _ => trivial
  | p :: ps, d, h => by
    rw [ShapedAlternatives] at h ⊢
    refine ⟨?_, shapedAlternatives_of_deeper h.2⟩
    have hp := h.1
    split at hp
    · rename_i ho
      rw [if_pos ho]
      exact ⟨Nat.lt_of_succ_lt hp.1, hp.2.of_deeper⟩
    · rename_i ho
      rw [if_neg ho]
      exact hp.of_deeper

end

/-- The shape of an alternative. -/
def ShapedAlternative (d : Nat) (p : Pattern) : Prop :=
  if p.isOr then d < Expr.Read.maxDepth ∧ p.Shaped (d + 1) else p.Shaped d

theorem Shaped.alternative {d : Nat} {p : Pattern} (h : p.Shaped d) (ho : p.isOr = false) :
    ShapedAlternative d p := by
  rw [ShapedAlternative, ho]
  exact h

theorem ShapedAlternative.shaped {d : Nat} {p : Pattern} (h : ShapedAlternative d p) :
    p.Shaped d := by
  unfold ShapedAlternative at h
  split at h
  · exact h.2.of_deeper
  · exact h

/-- A pattern in parentheses is an alternative. -/
theorem Shaped.parenthesized {d : Nat} {p : Pattern} (hd : d < Expr.Read.maxDepth)
    (h : p.Shaped (d + 1)) : ShapedAlternative d p := by
  unfold ShapedAlternative
  split
  · exact ⟨hd, h⟩
  · exact h.of_deeper

namespace Read

/-- **What the functions of the reader return in a number of steps has the shape of patterns.** -/
structure Sound (s : Nat) : Prop where
  pattern : ∀ {d c p c'}, pattern s d c = .ok (p, c') → p.Shaped d
  alternatives : ∀ {d c ps c'}, alternatives s d c = .ok (ps, c') → ShapedAlternatives d ps
  single : ∀ {d c p c'}, single s d c = .ok (p, c') → ShapedAlternative d p
  listed : ∀ {d count rest trailing c l c'}, listed s d count rest trailing c = .ok (l, c') →
    (∀ k, rest = some k → k ≤ count) →
    ShapedAll d l.items ∧ ∀ k, l.rest = some k → k ≤ count + l.items.length
  listedEnd : ∀ {d count rest c l c'}, listedEnd s d count rest c = .ok (l, c') →
    (∀ k, rest = some k → k ≤ count) →
    ShapedAll d l.items ∧ ∀ k, l.rest = some k → k ≤ count + l.items.length
  fields : ∀ {d c fs o c'}, fields s d c = .ok (fs, o, c') → ShapedFields d fs

section Step

variable {s d count position : Nat} {rest : Option Nat} {trailing o : Bool} {c c' : Cursor}
variable {p : Pattern} {ps : List Pattern} {fs : List (String × Pattern)} {l : Listed}

theorem shaped_pattern (ih : Sound s) (h : pattern (s + 1) d c = .ok (p, c')) : p.Shaped d := by
  rw [pattern] at h
  obtain ⟨⟨q, c₁⟩, hfirst, h⟩ := Except.bind_ok.mp h
  obtain ⟨⟨more, c₂⟩, hmore, h⟩ := Except.bind_ok.mp h
  have hq := ih.single hfirst
  simp only at h
  split at h
  · cases h
    exact hq.shaped
  · rename_i hne
    cases h
    refine ⟨?_, hq, ih.alternatives hmore⟩
    cases more with
    | nil => exact absurd rfl hne
    | cons r rs => simp

theorem shaped_alternatives (ih : Sound s) (h : alternatives (s + 1) d c = .ok (ps, c')) :
    ShapedAlternatives d ps := by
  rw [alternatives] at h
  simp only at h
  split at h
  · obtain ⟨⟨q, c₁⟩, hq, h⟩ := Except.bind_ok.mp h
    obtain ⟨⟨more, c₂⟩, hmore, h⟩ := Except.bind_ok.mp h
    cases h
    exact ⟨ih.single hq, ih.alternatives hmore⟩
  · cases h
    trivial

theorem shaped_listed (ih : Sound s)
    (h : listed (s + 1) d count rest trailing c = .ok (l, c'))
    (hr : ∀ k, rest = some k → k ≤ count) :
    ShapedAll d l.items ∧ ∀ k, l.rest = some k → k ≤ count + l.items.length := by
  rw [listed] at h
  simp only at h
  split at h
  · cases h
    exact ⟨trivial, hr⟩
  · split at h
    · split at h
      · cases h
      · refine ih.listedEnd h fun k hk => ?_
        cases hk
        exact Nat.le_refl _
    · obtain ⟨⟨q, c₁⟩, hq, h⟩ := Except.bind_ok.mp h
      obtain ⟨⟨m, c₂⟩, hm, h⟩ := Except.bind_ok.mp h
      cases h
      obtain ⟨hs, hk⟩ := ih.listedEnd hm fun k hk => Nat.le_succ_of_le (hr k hk)
      refine ⟨⟨ih.pattern hq, hs⟩, fun k hk' => ?_⟩
      have := hk k hk'
      simp only [List.length_cons]
      omega

theorem shaped_listedEnd (ih : Sound s) (h : listedEnd (s + 1) d count rest c = .ok (l, c'))
    (hr : ∀ k, rest = some k → k ≤ count) :
    ShapedAll d l.items ∧ ∀ k, l.rest = some k → k ≤ count + l.items.length := by
  rw [listedEnd] at h
  simp only at h
  split at h
  · exact ih.listed h hr
  · split at h
    · cases h
      exact ⟨trivial, hr⟩
    · cases h

/-- What is in parentheses: a tuple, or one pattern. -/
theorem shaped_listed_pattern (hd : d < Expr.Read.maxDepth) (hs : ShapedAll (d + 1) l.items)
    (hr : ∀ k, l.rest = some k → k ≤ l.items.length) :
    ShapedAlternative d (l.pattern position) := by
  unfold Listed.pattern
  split
  · exact hs.1.parenthesized hd
  · exact Shaped.alternative ⟨hd, hs, hr⟩ rfl

theorem shaped_negative (h : negative position c = .ok (p, c')) : ShapedAlternative d p := by
  unfold negative at h
  simp only at h
  split at h
  · split at h
    · obtain ⟨v, -, h⟩ := Except.bind_ok.mp h
      cases h
      exact Shaped.alternative trivial rfl
    · cases h
  · cases h

theorem shaped_ofPath {parts : List String} (h : IsPath parts) :
    ShapedAlternative d (ofPath position parts) := by
  obtain ⟨n, ns, rfl, hne⟩ := h.head
  cases ns with
  | nil => exact Shaped.alternative ⟨h.names n List.mem_cons_self, hne⟩ rfl
  | cons m ns => exact Shaped.alternative ⟨h, by simp⟩ rfl

/-- A path is the name of a value, a variant or a structure. -/
theorem shaped_afterPath {parts : List String} (ih : Sound s) (hpath : IsPath parts)
    (h : afterPath s d position parts c = .ok (p, c')) : ShapedAlternative d p := by
  unfold afterPath at h
  split at h
  · obtain ⟨d', hd', h⟩ := Except.bind_ok.mp h
    obtain ⟨hlt, rfl⟩ := enter_inv hd'
    obtain ⟨⟨m, c₂⟩, hm, h⟩ := Except.bind_ok.mp h
    cases h
    exact Shaped.alternative ⟨hpath, hlt, (ih.listed hm fun k hk => by cases hk).1⟩ rfl
  · split at h
    · obtain ⟨d', hd', h⟩ := Except.bind_ok.mp h
      obtain ⟨hlt, rfl⟩ := enter_inv hd'
      obtain ⟨⟨fs, o, c₂⟩, hfs, h⟩ := Except.bind_ok.mp h
      cases h
      exact Shaped.alternative ⟨hpath, hlt, ih.fields hfs⟩ rfl
    · cases h
      exact shaped_ofPath hpath

theorem shaped_single (ih : Sound s) (h : single (s + 1) d c = .ok (p, c')) :
    ShapedAlternative d p := by
  rw [single] at h
  simp only at h
  split at h
  · cases h
    exact Shaped.alternative trivial rfl
  · rename_i hword
    split at h
    · exact shaped_negative h
    · split at h
      · obtain ⟨v, -, h⟩ := Except.bind_ok.mp h
        cases h
        exact Shaped.alternative trivial rfl
      · split at h
        · obtain ⟨d', hd', h⟩ := Except.bind_ok.mp h
          obtain ⟨hlt, rfl⟩ := enter_inv hd'
          obtain ⟨⟨m, c₁⟩, hm, h⟩ := Except.bind_ok.mp h
          cases h
          obtain ⟨hs, hr⟩ := ih.listed hm fun k hk => by cases hk
          exact shaped_listed_pattern hlt hs fun k hk => by simpa using hr k hk
        · split at h
          · rename_i hk
            obtain ⟨⟨parts, c₁⟩, hparts, h⟩ := Except.bind_ok.mp h
            obtain ⟨⟨ns, rfl⟩, hns⟩ := isName_of_path hparts
            have hne : (c.peek true).1.value ≠ "_" := by
              intro hv
              have htext : (c.peek true).1.text = ['_'] := by
                rw [← String.toList_ofList (l := (c.peek true).1.text)]
                exact String.toList_inj.mpr hv
              simp [hk, htext] at hword
            exact shaped_afterPath ih ⟨hns, _, ns, rfl, hne⟩ h
          · cases h

theorem shaped_fieldEnd {n : String} (ih : Sound s) (hn : IsName n)
    (hp : p.isBinding n = true ∨ p.Shaped d) (h : fieldEnd s d n p c = .ok (fs, o, c')) :
    ShapedFields d fs := by
  unfold fieldEnd at h
  split at h
  · obtain ⟨⟨more, o', c₁⟩, hmore, h⟩ := Except.bind_ok.mp h
    cases h
    exact ⟨hn, hp, ih.fields hmore⟩
  · split at h
    · cases h
      exact ⟨hn, hp, trivial⟩
    · cases h

theorem shaped_fields (ih : Sound s) (h : fields (s + 1) d c = .ok (fs, o, c')) :
    ShapedFields d fs := by
  rw [fields] at h
  simp only at h
  split at h
  · cases h
    trivial
  · split at h
    · split at h
      · cases h
        trivial
      · cases h
    · split at h
      · rename_i hk
        obtain ⟨n, hn, h⟩ := Except.bind_ok.mp h
        have hname := isName_of_peek hk hn
        split at h
        · obtain ⟨⟨q, c₁⟩, hq, h⟩ := Except.bind_ok.mp h
          exact shaped_fieldEnd ih hname (.inr (ih.pattern hq)) h
        · exact shaped_fieldEnd (p := .binding (c.peek true).1.position n) ih hname
            (.inl (beq_self_eq_true n)) h
      · cases h

end Step

/-- **What the reader returns has the shape of patterns**, in any number of steps. -/
theorem sound : ∀ s, Sound s
  | 0 => by constructor <;> intros <;> contradiction
  | s + 1 => by
    have ih := sound s
    exact ⟨shaped_pattern ih, shaped_alternatives ih, shaped_single ih, shaped_listed ih,
      shaped_listedEnd ih, shaped_fields ih⟩

end Read

/-- **A pattern that is read has the shape of a pattern.** -/
theorem shaped_of_read {c c' : Cursor} {p : Pattern} (h : Pattern.read c = .ok (p, c')) :
    p.Shaped 0 :=
  (Read.sound _).pattern h

end Stencil.Pattern
