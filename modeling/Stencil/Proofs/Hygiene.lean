import Stencil.Code.Module
import Stencil.Proofs.Scoped
import Stencil.Template.Parser

/-!
# Blocks leave the variables around them alone

A pattern that hides a name in scope is generated with a fresh name in its place. Fresh names are
told apart by their numbers, and from all other names by the start that no name of the template has.

* `Hygienic`: what a block must keep to.
* `Tidy`: the invariant of generation: the code has a name of the template under its own spelling,
  or a fresh name whose number has been counted.
* **`scoped_hygienic`**: every block of a generated template is hygienic.
-/

namespace Stencil

/-- The name starts like the names that belong to the generator. -/
def OwnName (n : String) : Prop := ownPrefix.toList <+: n.toList

instance (n : String) : Decidable (OwnName n) := by unfold OwnName; infer_instance

theorem ownName_freshName (kind : String) (n : Nat) : OwnName (Gen.freshName kind n) := by
  unfold OwnName
  rw [Gen.toList_freshName, String.toList_append, List.append_assoc]
  exact (List.prefix_append ['_', 't', 'p', 'l', 'c'] ['_']).trans (List.prefix_append _ _)

namespace Scope

variable {s renamed : Scope} {names : List String} {n c : String}

/-- The names in the code of the names in scope, those that are hidden included. -/
def range (s : Scope) : List String := s.map Prod.snd

/-- **Different names in scope have different names in the code.** -/
def Injective (s : Scope) : Prop := ∀ a b c, s.lookup a = some c → s.lookup b = some c → a = b

theorem has_iff : s.has n = true ↔ ∃ c, (n, c) ∈ s := by
  unfold has
  rw [List.lookup_isSome_iff]
  constructor
  · rintro ⟨⟨m, c⟩, hm, he⟩
    simp only [beq_iff_eq] at he
    exact ⟨c, he ▸ hm⟩
  · rintro ⟨c, h⟩
    exact ⟨(n, c), h, by simp⟩

/-- A name has the name in the code that it was given, or its own. -/
theorem rename_eq (s : Scope) (n : String) :
    (n, s.rename n) ∈ s ∨ s.has n = false ∧ s.rename n = n := by
  unfold rename has
  cases h : s.lookup n with
  | none => exact .inr ⟨rfl, rfl⟩
  | some c => exact .inl (mem_of_lookup h)

@[simp] theorem extend_nil : s.extend renamed [] = s := rfl

@[simp] theorem extend_cons : s.extend renamed (n :: names) =
    Scope.extend ((n, renamed.rename n) :: s) renamed names := rfl

/-- A name that is bound is looked up among the new names, any other one in the scope before. -/
theorem lookup_extend : (s.extend renamed names).lookup n =
    if n ∈ names then some (renamed.rename n) else s.lookup n := by
  induction names generalizing s with
  | nil => simp
  | cons m names ih =>
    rw [extend_cons, ih, List.lookup_cons]
    by_cases h : n ∈ names
    · simp [h]
    · by_cases hm : n = m
      · subst hm
        simp
      · rw [beq_eq_false_iff_ne.mpr hm]
        simp [h, hm]

/-- What is in scope below a pattern: its names, and what is in scope around it. -/
theorem has_extend : (s.extend renamed names).has n = true ↔ n ∈ names ∨ s.has n = true := by
  rw [has, has, lookup_extend]
  by_cases hn : n ∈ names <;> simp [hn]

theorem mem_extend {x : String × String} : x ∈ s.extend renamed names ↔
    x ∈ s ∨ ∃ m ∈ names, x = (m, renamed.rename m) := by
  induction names generalizing s with
  | nil => simp
  | cons m names ih =>
    rw [extend_cons, ih]
    simp only [List.mem_cons, exists_eq_or_imp]
    rw [or_assoc, or_left_comm]

end Scope

/-! ## Fresh names for what is hidden -/

/-- **New names in the code**, with numbers above `k` up to `k'`, for those of the given names that
are in scope. -/
structure Renames (s : Scope) (names : List String) (k k' : Nat) (renamed : Scope) : Prop where
  fresh : ∀ x ∈ renamed, ∃ j, k < j ∧ j ≤ k' ∧ x.2 = Gen.freshName x.1 j
  covers : ∀ n ∈ names, s.has n → renamed.has n
  distinct : ∀ x ∈ renamed, ∀ y ∈ renamed, x.2 = y.2 → x.1 = y.1

theorem Renames.mono {s renamed : Scope} {names : List String} {k k' k'' : Nat}
    (h : Renames s names k k' renamed) (hk : k' ≤ k'') : Renames s names k k'' renamed where
  fresh x hx := by
    obtain ⟨j, hj, hj', he⟩ := h.fresh x hx
    exact ⟨j, hj, hj'.trans hk, he⟩
  covers := h.covers
  distinct := h.distinct

theorem Renames.nil (s : Scope) (k k' : Nat) : Renames s [] k k' [] :=
  ⟨by simp, by simp, by simp⟩

/-- The next fresh name is none of those before it: its number is larger. -/
theorem Renames.cons {s renamed : Scope} {k k' : Nat} {n : String}
    (h : Renames s [] k k' renamed) (hk : k ≤ k') :
    Renames s [] k (k' + 1) ((n, Gen.freshName n (k' + 1)) :: renamed) := by
  refine ⟨fun x hx => ?_, (fun m hm => by cases hm), fun x hx y hy he => ?_⟩
  · rcases List.mem_cons.mp hx with rfl | hx
    · exact ⟨k' + 1, by omega, le_rfl, rfl⟩
    · obtain ⟨j, hj, hj', he⟩ := h.fresh x hx
      exact ⟨j, hj, by omega, he⟩
  · rcases List.mem_cons.mp hx with rfl | hx <;> rcases List.mem_cons.mp hy with rfl | hy
    · rfl
    · obtain ⟨j, _, _, hf⟩ := h.fresh y hy
      have := Gen.freshName_inj (he.trans hf)
      omega
    · obtain ⟨j, _, _, hf⟩ := h.fresh x hx
      have := Gen.freshName_inj (hf.symm.trans he)
      omega
    · exact h.distinct x hx y hy he

namespace Gen

variable {s : Scope}

theorem renamings_renames : ∀ {names : List String} {before renamed : Scope} {k₀ k k' : Nat},
    renamings s names before k = .ok (renamed, k') → Renames s [] k₀ k before → k₀ ≤ k →
    Renames s names k₀ k' renamed ∧ ∀ n, before.has n → renamed.has n
  | [], before, renamed, k₀, k, k', h, hb, hk => by
    rw [renamings, pure_ok] at h
    cases h
    exact ⟨hb, fun _ h => h⟩
  | n :: names, before, renamed, k₀, k, k', h, hb, hk => by
    rw [renamings] at h
    split at h
    · rename_i hn
      simp only [bind_ok, fresh_ok, Prod.mk.injEq] at h
      obtain ⟨_, _, ⟨rfl, rfl⟩, h⟩ := h
      obtain ⟨hr, hkeep⟩ := renamings_renames h (hb.cons hk) (by omega)
      have hn : renamed.has n := hkeep n (Scope.has_iff.mpr ⟨_, List.mem_cons_self⟩)
      refine ⟨⟨hr.fresh, fun m hm hs => ?_, hr.distinct⟩, fun m hm => hkeep m ?_⟩
      · rcases List.mem_cons.mp hm with rfl | hm
        · exact hn
        · exact hr.covers m hm hs
      · obtain ⟨c, hc⟩ := Scope.has_iff.mp hm
        exact Scope.has_iff.mpr ⟨c, List.mem_cons_of_mem _ hc⟩
    · rename_i hn
      obtain ⟨hr, hkeep⟩ := renamings_renames h hb hk
      refine ⟨⟨hr.fresh, fun m hm hs => ?_, hr.distinct⟩, hkeep⟩
      rcases List.mem_cons.mp hm with rfl | hm
      · refine hkeep m ?_
        by_contra hb
        exact hn (by simp [hs, hb])
      · exact hr.covers m hm hs

/-- What is hidden gets fresh names. -/
theorem renames_of_renamings {names : List String} {renamed : Scope} {k k' : Nat}
    (h : renamings s names [] k = .ok (renamed, k')) : Renames s names k k' renamed :=
  (renamings_renames h (.nil s k k) le_rfl).1

end Gen

/-! ## Hygiene of blocks -/

/-- **A block keeps to itself**: what the code assigns where it is entered, `_` aside, is neither the
name of anything in scope around it nor assigned by a block around it, and different names in scope
inside it have different names in the code. -/
structure Hygienic (path : List Frame) (f : Frame) : Prop where
  disjoint : ∀ n ∈ f.assigned, n ≠ "_" → ∀ g ∈ path, n ∉ g.scope.range
  apart : ∀ n ∈ f.assigned, n ≠ "_" → ∀ g ∈ path, n ∉ g.assigned
  injective : f.scope.Injective

/-- A name of the template under its own spelling, which is not one of the generator's. -/
def Plain (x : String × String) : Prop := x.2 = x.1 ∧ ¬ OwnName x.1

/-- A fresh name that has been counted. -/
def Counted (k : Nat) (c : String) : Prop := ∃ kind j, j ≤ k ∧ c = Gen.freshName kind j

/-- **The invariant of generation**: a name in the code is that of the template or a counted fresh
name, and no two names in scope share one; the blocks around add nothing to these names. -/
structure Tidy (path : List Frame) (s : Scope) (k : Nat) : Prop where
  codes : ∀ x ∈ s, Plain x ∨ Counted k x.2
  outer : ∀ f ∈ path, f.scope.range ⊆ s.range
  assigned : ∀ f ∈ path, ∀ n ∈ f.assigned, n = "_" ∨ n ∈ s.range ∨ Counted k n
  injective : s.Injective

theorem Counted.mono {k k' : Nat} {c : String} (h : Counted k c) (hk : k ≤ k') : Counted k' c := by
  obtain ⟨kind, j, hj, he⟩ := h
  exact ⟨kind, j, hj.trans hk, he⟩

theorem Counted.ownName {k : Nat} {c : String} (h : Counted k c) : OwnName c := by
  obtain ⟨kind, j, -, rfl⟩ := h
  exact ownName_freshName kind j

/-- A fresh name with a new number has not been counted. -/
theorem not_counted_freshName {k j : Nat} {kind : String} (h : k < j) :
    ¬ Counted k (Gen.freshName kind j) := by
  rintro ⟨kind', j', hj, he⟩
  have := Gen.freshName_inj he
  omega

namespace Tidy

variable {path : List Frame} {s : Scope} {k k' : Nat} {c : String}

theorem mono (h : Tidy path s k) (hk : k ≤ k') : Tidy path s k' where
  codes x hx := (h.codes x hx).imp_right (·.mono hk)
  outer := h.outer
  assigned f hf n hn := (h.assigned f hf n hn).imp_right (·.imp_right (·.mono hk))
  injective := h.injective

/-- A name that is new to the code: fresh with a new number, or plain and not in scope. -/
def New (s : Scope) (k : Nat) (c : String) : Prop :=
  (∃ kind j, k < j ∧ c = Gen.freshName kind j) ∨ ¬ OwnName c ∧ s.has c = false

theorem not_mem_range (h : Tidy path s k) (hc : New s k c) : c ∉ s.range := by
  intro hm
  obtain ⟨⟨n, c'⟩, hx, he⟩ := List.mem_map.mp hm
  obtain rfl : c = c' := he.symm
  rcases hc with ⟨kind, j, hj, rfl⟩ | ⟨hown, hhas⟩
  · rcases h.codes _ hx with ⟨he, hown⟩ | hcounted
    · obtain rfl : n = Gen.freshName kind j := he.symm
      exact hown (ownName_freshName kind j)
    · exact not_counted_freshName hj hcounted
  · rcases h.codes _ hx with ⟨he, -⟩ | hcounted
    · obtain rfl : c = n := he
      rw [Scope.has_iff.mpr ⟨_, hx⟩] at hhas
      cases hhas
    · exact hown hcounted.ownName

theorem not_counted (hc : New s k c) : ¬ Counted k c := by
  rcases hc with ⟨kind, j, hj, rfl⟩ | ⟨hown, -⟩
  · exact not_counted_freshName hj
  · exact fun h => hown h.ownName

/-- New names are hygienic below any blocks. -/
theorem hygienic (h : Tidy path s k) {f : Frame} (hf : ∀ n ∈ f.assigned, n ≠ "_" → New s k n)
    (hi : f.scope.Injective) : Hygienic path f where
  disjoint n hn hne g hg hm := h.not_mem_range (hf n hn hne) (h.outer g hg hm)
  apart n hn hne g hg hm := by
    rcases h.assigned g hg n hm with rfl | hm | hm
    · exact hne rfl
    · exact h.not_mem_range (hf n hn hne) hm
    · exact not_counted (hf n hn hne) hm
  injective := hi

section Bind

variable {names : List String} {renamed : Scope}

/-- What a name is bound to is new. -/
theorem new_rename (hr : Renames s names k k' renamed) (hown : ∀ n ∈ names, ¬ OwnName n) {n : String}
    (hn : n ∈ names) : New s k (renamed.rename n) := by
  rcases renamed.rename_eq n with hm | ⟨hm, he⟩
  · obtain ⟨j, hj, -, he⟩ := hr.fresh _ hm
    exact .inl ⟨n, j, hj, he⟩
  · rw [he]
    refine .inr ⟨hown n hn, ?_⟩
    by_cases hs : s.has n
    · rw [hr.covers n hn hs] at hm
      cases hm
    · simpa using hs

theorem code_rename (hr : Renames s names k k' renamed) (hown : ∀ n ∈ names, ¬ OwnName n) {n : String}
    (hn : n ∈ names) : Plain (n, renamed.rename n) ∨ Counted k' (renamed.rename n) := by
  rcases renamed.rename_eq n with hm | ⟨hm, he⟩
  · obtain ⟨j, -, hj, he⟩ := hr.fresh _ hm
    exact .inr ⟨n, j, hj, he⟩
  · exact .inl ⟨he, hown n hn⟩

/-- Names of one pattern are bound to different names. -/
theorem rename_inj (hr : Renames s names k k' renamed) (hown : ∀ n ∈ names, ¬ OwnName n)
    {a b : String} (ha : a ∈ names) (hb : b ∈ names) (h : renamed.rename a = renamed.rename b) :
    a = b := by
  have hfresh : ∀ n, (n, renamed.rename n) ∈ renamed → OwnName (renamed.rename n) := by
    intro n hm
    obtain ⟨j, -, -, he⟩ := hr.fresh _ hm
    have he : renamed.rename n = Gen.freshName n j := he
    rw [he]
    exact ownName_freshName n j
  rcases renamed.rename_eq a with hma | ⟨-, hea⟩ <;> rcases renamed.rename_eq b with hmb | ⟨-, heb⟩
  · exact hr.distinct _ hma _ hmb h
  · exact absurd (heb ▸ h ▸ hfresh a hma) (hown b hb)
  · exact absurd (hea ▸ h ▸ hfresh b hmb) (hown a ha)
  · rw [← hea, h, heb]

theorem injective_extend (h : Tidy path s k) (hr : Renames s names k k' renamed)
    (hown : ∀ n ∈ names, ¬ OwnName n) : (s.extend renamed names).Injective := by
  intro a b c ha hb
  rw [Scope.lookup_extend] at ha hb
  have hout : ∀ {n m}, n ∈ names → s.lookup m = some (renamed.rename n) → False := by
    intro n m hn hm
    exact h.not_mem_range (new_rename hr hown hn)
      (List.mem_map.mpr ⟨_, mem_of_lookup hm, rfl⟩)
  split at ha <;> split at hb
  · rename_i han hbn
    exact rename_inj hr hown han hbn (Option.some.inj (ha.trans hb.symm))
  · rename_i han _
    exact (hout han (hb.trans ha.symm)).elim
  · rename_i _ hbn
    exact (hout hbn (ha.trans hb.symm)).elim
  · exact h.injective a b c ha hb

/-- The invariant inside a block below a pattern. -/
theorem extend (h : Tidy path s k) (hr : Renames s names k k' renamed)
    (hown : ∀ n ∈ names, ¬ OwnName n) (hk : k ≤ k') {f : Frame}
    (hscope : f.scope = s.extend renamed names)
    (hassigned : ∀ n ∈ f.assigned, n = "_" ∨ (∃ m ∈ names, n = renamed.rename m) ∨ Counted k' n) :
    Tidy (f :: path) (s.extend renamed names) k' where
  codes x hx := by
    rcases Scope.mem_extend.mp hx with hx | ⟨n, hn, rfl⟩
    · exact (h.codes x hx).imp_right (·.mono hk)
    · exact code_rename hr hown hn
  outer g hg := by
    rcases List.mem_cons.mp hg with rfl | hg
    · rw [hscope]
      exact List.Subset.refl _
    · refine List.Subset.trans (h.outer g hg) (List.map_subset _ fun x hx => ?_)
      exact Scope.mem_extend.mpr (.inl hx)
  assigned g hg n hn := by
    rcases List.mem_cons.mp hg with rfl | hg
    · refine (hassigned n hn).imp_right (·.imp_left ?_)
      rintro ⟨m, hm, rfl⟩
      exact List.mem_map.mpr ⟨_, Scope.mem_extend.mpr (.inr ⟨m, hm, rfl⟩), rfl⟩
    · refine (h.assigned g hg n hn).imp_right (·.imp (fun hm => ?_) (·.mono hk))
      obtain ⟨x, hx, rfl⟩ := List.mem_map.mp hm
      exact List.mem_map.mpr ⟨x, Scope.mem_extend.mpr (.inl hx), rfl⟩
  injective := h.injective_extend hr hown

end Bind

/-- A block below a pattern, with helpers that are fresh. -/
theorem enter (h : Tidy path s k) {p case : Pattern} {renamed : Scope} {helpers : List String}
    (hr : Renames s p.names k k' renamed) (hown : ∀ n ∈ p.bound, ¬ OwnName n)
    (hcase : p.resolve renamed.rename = .ok case)
    (hsame : ∀ n ∈ case.bound, n ≠ "_" → n ∈ case.names)
    (hhelpers : ∀ n ∈ helpers, ∃ kind j, k < j ∧ j ≤ k' ∧ n = Gen.freshName kind j) (hk : k ≤ k') :
    Hygienic path (.ofPattern s renamed p case helpers) ∧
      Tidy (.ofPattern s renamed p case helpers :: path) (s.extend renamed p.names) k' := by
  have hown : ∀ n ∈ p.names, ¬ OwnName n := fun n hn => hown n (p.names_subset_bound hn)
  have hcode : ∀ n ∈ case.bound, n ≠ "_" → ∃ m ∈ p.names, n = renamed.rename m := by
    intro n hn hne
    have hn := hsame n hn hne
    rw [(Pattern.bound_resolve hcase).2, List.mem_map] at hn
    obtain ⟨m, hm, rfl⟩ := hn
    exact ⟨m, hm, rfl⟩
  refine ⟨h.hygienic (fun n hn hne => ?_) (h.injective_extend hr hown),
    h.extend hr hown hk rfl fun n hn => ?_⟩
  · rcases List.mem_append.mp hn with hn | hn
    · obtain ⟨kind, j, hj, -, he⟩ := hhelpers n hn
      exact .inl ⟨kind, j, hj, he⟩
    · obtain ⟨m, hm, rfl⟩ := hcode n hn hne
      exact new_rename hr hown hm
  · rcases List.mem_append.mp hn with hn | hn
    · obtain ⟨kind, j, -, hj, he⟩ := hhelpers n hn
      exact .inr (.inr ⟨kind, j, hj, he⟩)
    · by_cases hne : n = "_"
      · exact .inl hne
      · exact .inr (.inl (hcode n hn hne))

/-- A block that is an argument of a call. -/
theorem enter_content (h : Tidy path s k) :
    Hygienic path ⟨s, [Gen.freshName "content" (k + 1)]⟩ ∧
      Tidy (⟨s, [Gen.freshName "content" (k + 1)]⟩ :: path) s (k + 1) := by
  have hmem : ∀ n ∈ [Gen.freshName "content" (k + 1)], n = Gen.freshName "content" (k + 1) :=
    fun n hn => List.mem_singleton.mp hn
  refine ⟨h.hygienic (fun n hn _ => ?_) h.injective, ?_⟩
  · exact .inl ⟨"content", k + 1, Nat.lt_succ_self k, hmem n hn⟩
  · exact h.extend (.nil s k (k + 1)) (by simp) (Nat.le_succ k) rfl fun n hn =>
      .inr (.inr ⟨"content", k + 1, le_rfl, hmem n hn⟩)

end Tidy

/-- **Generation keeps its blocks hygienic**, below patterns whose names are not the generator's. -/
theorem keeps_hygienic : Keeps Hygienic Tidy fun p => ∀ n ∈ p.bound, ¬ OwnName n where
  mono h hk := h.mono hk
  pattern h hown hr hcase hsame :=
    h.enter (Gen.renames_of_renamings hr) hown hcase hsame (by simp) (Gen.renamings_le hr)
  item h hown hr hcase hsame := by
    have hk := Gen.renamings_le hr
    refine h.enter ((Gen.renames_of_renamings hr).mono (Nat.le_succ _)) hown hcase hsame
      (fun n hn => ?_) (Nat.le_succ_of_le hk)
    exact ⟨"item", _, Nat.lt_succ_of_le hk, le_rfl, List.mem_singleton.mp hn⟩
  content h := h.enter_content

/-! ## Parameters -/

namespace Template.Read

theorem not_ownName_of_checkParam {name : String} {seen : List String} {position : Nat}
    (h : checkParam name seen position = .ok ()) : ¬ OwnName name := by
  intro hown
  unfold checkParam at h
  rw [if_pos (List.isPrefixOf_iff_prefix.mpr hown)] at h
  split at h <;> cases h

/-- **Parameters do not start like the names that belong to the generator.** -/
theorem not_ownName_of_params : ∀ {steps : Nat} {seen : List String} {c c' : Cursor}
    {ps : List Param}, params steps seen c = .ok (ps, c') → ∀ p ∈ ps, ¬ OwnName p.name
  | 0, _, _, _, _, h => by
    rw [params] at h
    cases h
  | steps + 1, seen, c, c', ps, h => by
    rw [params] at h
    split at h
    · rw [Except.pure_ok] at h
      cases h
      simp
    · split at h
      · cases h
      · rename_i word rest _
        rw [Except.seq_ok] at h
        obtain ⟨hcheck, h⟩ := h
        have hown := not_ownName_of_checkParam hcheck
        dsimp only at h
        split at h
        · rw [Except.bind_ok] at h
          obtain ⟨⟨type, c₁⟩, -, h⟩ := h
          rw [Except.bind_ok] at h
          obtain ⟨⟨ps', c₂⟩, hps, h⟩ := h
          rw [Except.pure_ok] at h
          cases h
          intro p hp
          rcases List.mem_cons.mp hp with rfl | hp
          · exact hown
          · exact not_ownName_of_params hps p hp
        · cases h

end Template.Read

/-! ## Rendering functions -/

/-- The frame of a rendering function: its parameters. -/
def Template.frame (t : Template) : Frame := ⟨.ofParams t.params, t.params.map Param.name⟩

theorem Scope.mem_ofParams {params : List Param} {x : String × String} :
    x ∈ ofParams params ↔ ∃ p ∈ params, x = (p.name, p.name) := by
  unfold ofParams
  rw [List.mem_map]
  simp only [eq_comm]

/-- The parameters are in scope. -/
theorem Scope.has_ofParams {params : List Param} {n : String} :
    (ofParams params).has n = true ↔ n ∈ params.map Param.name := by
  rw [has_iff, List.mem_map]
  constructor
  · rintro ⟨c, hc⟩
    obtain ⟨p, hp, he⟩ := mem_ofParams.mp hc
    cases he
    exact ⟨p, hp, rfl⟩
  · rintro ⟨p, hp, rfl⟩
    exact ⟨_, mem_ofParams.mpr ⟨p, hp, rfl⟩⟩

theorem Template.tidy_frame {t : Template} (h : ∀ p ∈ t.params, ¬ OwnName p.name) :
    Tidy [t.frame] (.ofParams t.params) 0 where
  codes x hx := by
    obtain ⟨p, hp, rfl⟩ := Scope.mem_ofParams.mp hx
    exact .inl ⟨rfl, h p hp⟩
  outer f hf := by
    rw [List.mem_singleton.mp hf]
    exact List.Subset.refl _
  assigned f hf n hn := by
    rw [List.mem_singleton.mp hf] at hn
    obtain ⟨p, hp, rfl⟩ := List.mem_map.mp hn
    exact .inr (.inl (List.mem_map.mpr ⟨_, Scope.mem_ofParams.mpr ⟨p, hp, rfl⟩, rfl⟩))
  injective a b c ha hb := by
    have heq : ∀ {n}, (Scope.ofParams t.params).lookup n = some c → n = c := by
      intro n hn
      obtain ⟨p, -, hp⟩ := Scope.mem_ofParams.mp (mem_of_lookup hn)
      cases hp
      rfl
    rw [heq ha, heq hb]

/-- The blocks of a generated template whose names are not the generator's are hygienic. -/
theorem Template.scoped_stmts {context : Context} {t : Template} {stmts : List Stmt} {loops : Nat}
    (hparams : ∀ p ∈ t.params, ¬ OwnName p.name)
    (hown : ∀ q ∈ Node.patternsAll t.body, ∀ n ∈ q.bound, ¬ OwnName n)
    (h : t.stmts context = .ok stmts) (hc : Stmt.checkAll loops stmts = .ok ()) :
    ScopedBody Hygienic ⟨t.toTemplateName, context⟩ [t.frame] (.ofParams t.params) t.body stmts := by
  obtain ⟨k, hb⟩ := Template.stmts_ok.mp h
  exact Gen.body_scoped keeps_hygienic
    (fun q hq n hn => hown q hq n (q.bound_simplify hn)) (t.tidy_frame hparams) hb hc

theorem Template.not_ownName_of_parse {name : TemplateName} {path : Path} {file : String}
    {text : List Char} {t : Template} (h : Template.parse name path file text = .ok t) :
    ∀ p ∈ t.params, ¬ OwnName p.name := by
  have hparse := (Template.parse_ok h).1
  simp only [Outline.parse, Except.bind_ok] at hparse
  obtain ⟨⟨imports, c⟩, -, ⟨params, c'⟩, hparams, ⟨body, c''⟩, -, hparse⟩ := hparse
  have hps : params = t.params := congrArg Outline.params (Except.pure_ok.mp hparse)
  rw [← hps]
  exact Template.Read.not_ownName_of_params hparams

/-- A loop that hides the parameter it runs through. -/
def hidingText : List Char := "@(x: list)\n@for (x, y) in x {@if let Some(x) = y {@x}}".toList

end Stencil
