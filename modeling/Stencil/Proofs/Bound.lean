import Stencil.Code.Check
import Stencil.Proofs.SimplePatterns

/-!
# Names bound in any alternative of a pattern

The names of a pattern are those of its first alternatives; what the code of a pattern assigns are
the names in all of them.

* `Pattern.bound`: the names in all alternatives.
* `Pattern.bound_resolve`: renaming changes these names one by one.
* **`Pattern.captures_ok`**: an accepted pattern binds the same names in all alternatives,
  `_` aside.
-/

namespace Stencil.Pattern

mutual

/-- **The names that a pattern binds in any of its alternatives.** -/
def bound : Pattern → List String
  | wildcard _ | literal _ _ | value _ _ => []
  | binding _ n => [n]
  | tuple _ items _ => boundAll items
  | variant _ _ items => boundAll items
  | struct _ _ fields _ => boundFields fields
  | or _ alternatives => boundAll alternatives

/-- The names that patterns bind. -/
def boundAll : List Pattern → List String
  | [] => []
  | p :: ps => p.bound ++ boundAll ps

/-- The names that fields bind. -/
def boundFields : List (String × Pattern) → List String
  | [] => []
  | (_, p) :: fs => p.bound ++ boundFields fs

end

theorem mem_boundAll {n : String} {ps : List Pattern} :
    n ∈ boundAll ps ↔ ∃ p ∈ ps, n ∈ p.bound := by
  induction ps with
  | nil => simp [boundAll]
  | cons p ps ih => simp [boundAll, ih]

theorem bound_subset_boundAll {p : Pattern} {ps : List Pattern} (h : p ∈ ps) :
    p.bound ⊆ boundAll ps :=
  fun _ hn => mem_boundAll.mpr ⟨p, h, hn⟩

/-! ## Simplifying -/

mutual

/-- Simplifying a pattern binds no new name. -/
theorem bound_simplify : ∀ p : Pattern, p.simplify.bound ⊆ p.bound
  | wildcard _ | binding _ _ | literal _ _ | value _ _ => by
    rw [simplify] <;> simp
  | tuple _ items _ | variant _ _ items => by
    rw [simplify, bound, bound]
    exact bound_simplifyAll items
  | struct p path fields o => by
    rw [simplify, bound, bound]
    exact bound_simplifyFields fields
  | or p alternatives => by
    have h := bound_simplifyAll alternatives
    rw [simplify, bound.eq_def (or p alternatives)]
    cases hf : (simplifyAll alternatives).find? isCatchAll with
    | none => rwa [Option.getD_none, bound]
    | some q =>
      rw [Option.getD_some]
      exact List.Subset.trans (bound_subset_boundAll (List.mem_of_find?_eq_some hf)) h

theorem bound_simplifyAll : ∀ ps : List Pattern, boundAll (simplifyAll ps) ⊆ boundAll ps
  | [] => by rw [simplifyAll]; simp
  | p :: ps => by
    rw [simplifyAll, boundAll, boundAll]
    exact List.append_subset.mpr
      ⟨List.subset_append_of_subset_left _ (bound_simplify p),
        List.subset_append_of_subset_right _ (bound_simplifyAll ps)⟩

theorem bound_simplifyFields : ∀ fs : List (String × Pattern),
    boundFields (simplifyFields fs) ⊆ boundFields fs
  | [] => by rw [simplifyFields]; simp
  | (n, p) :: fs => by
    rw [simplifyFields, boundFields, boundFields]
    exact List.append_subset.mpr
      ⟨List.subset_append_of_subset_left _ (bound_simplify p),
        List.subset_append_of_subset_right _ (bound_simplifyFields fs)⟩

end

mutual

/-- The names of a pattern are bound in its first alternatives. -/
theorem names_subset_bound : ∀ p : Pattern, p.names ⊆ p.bound
  | wildcard _ | literal _ _ | value _ _ | binding _ _ => by
    rw [names, bound]
    exact List.Subset.refl _
  | tuple _ items _ | variant _ _ items => by
    rw [names, bound]
    exact namesAll_subset_boundAll items
  | struct _ _ fields _ => by
    rw [names, bound]
    exact namesFields_subset_boundFields fields
  | or _ [] => by
    rw [names]
    exact List.nil_subset _
  | or _ (p :: ps) => by
    rw [names, bound, boundAll]
    exact List.subset_append_of_subset_left _ (names_subset_bound p)

theorem namesAll_subset_boundAll : ∀ ps : List Pattern, namesAll ps ⊆ boundAll ps
  | [] => by rw [namesAll, boundAll]; exact List.Subset.refl _
  | p :: ps => by
    rw [namesAll, boundAll]
    exact List.append_subset.mpr
      ⟨List.subset_append_of_subset_left _ (names_subset_bound p),
        List.subset_append_of_subset_right _ (namesAll_subset_boundAll ps)⟩

theorem namesFields_subset_boundFields : ∀ fs : List (String × Pattern),
    namesFields fs ⊆ boundFields fs
  | [] => by rw [namesFields, boundFields]; exact List.Subset.refl _
  | (n, p) :: fs => by
    rw [namesFields, boundFields]
    exact List.append_subset.mpr
      ⟨List.subset_append_of_subset_left _ (names_subset_bound p),
        List.subset_append_of_subset_right _ (namesFields_subset_boundFields fs)⟩

end

/-! ## Renaming -/

section Resolve

variable {rename : String → String}

mutual

theorem bound_renamed : ∀ p : Pattern, (p.renamed rename).bound = p.bound.map rename ∧
    (p.renamed rename).names = p.names.map rename
  | wildcard _ | value _ _ | literal _ _ | binding _ _ => by
    simp [renamed, bound, names]
  | tuple _ items _ | variant _ _ items => by
    rw [renamed, bound, bound, names, names]
    exact bound_renamedAll items
  | struct _ _ fields _ => by
    rw [renamed, bound, bound, names, names]
    exact bound_renamedFields fields
  | or _ [] => by simp [renamed, renamedAll, bound, boundAll, names]
  | or _ (q :: qs) => by
    rw [renamed, renamedAll, bound, bound, boundAll, boundAll, names, names, List.map_append,
      (bound_renamed q).1, (bound_renamedAll qs).1]
    exact ⟨rfl, (bound_renamed q).2⟩

theorem bound_renamedAll : ∀ ps : List Pattern,
    boundAll (renamedAll rename ps) = (boundAll ps).map rename ∧
      namesAll (renamedAll rename ps) = (namesAll ps).map rename
  | [] => by simp [renamedAll, boundAll, namesAll]
  | p :: ps => by
    simp [renamedAll, boundAll, namesAll, bound_renamed p, bound_renamedAll ps]

theorem bound_renamedFields : ∀ fs : List (String × Pattern),
    boundFields (renamedFields rename fs) = (boundFields fs).map rename ∧
      namesFields (renamedFields rename fs) = (namesFields fs).map rename
  | [] => by simp [renamedFields, boundFields, namesFields]
  | (_, p) :: fs => by
    simp [renamedFields, boundFields, namesFields, bound_renamed p, bound_renamedFields fs]

end

/-- **Renaming changes the names of a pattern one by one**, in all alternatives. -/
theorem bound_resolve {p p' : Pattern} (h : p.resolve rename = .ok p') :
    p'.bound = p.bound.map rename ∧ p'.names = p.names.map rename := by
  rw [resolve_ok h]
  exact bound_renamed p

end Resolve

/-! ## The target of a plain loop -/

mutual

/-- The target of a plain loop has no alternatives. -/
theorem bound_of_isIrrefutable : ∀ {p : Pattern}, p.isIrrefutable → p.bound = p.names
  | wildcard _, _ | binding _ _, _ => by rw [bound, names]
  | tuple _ items none, h => by
    rw [isIrrefutable] at h
    rw [bound, names]
    exact boundAll_of_allIrrefutable h
  | tuple _ _ (some _), h | literal _ _, h | value _ _, h | variant _ _ _, h | struct _ _ _ _, h
  | or _ _, h => by
    simp [isIrrefutable] at h

theorem boundAll_of_allIrrefutable : ∀ {ps : List Pattern}, allIrrefutable ps →
    boundAll ps = namesAll ps
  | [], _ => by rw [boundAll, namesAll]
  | p :: ps, h => by
    rw [allIrrefutable, Bool.and_eq_true] at h
    rw [boundAll, namesAll, bound_of_isIrrefutable h.1, boundAll_of_allIrrefutable h.2]

end

section Renamed

variable {rename : String → String}

mutual

/-- Renaming keeps what can be the target of a plain loop. -/
theorem isIrrefutable_renamed : ∀ p : Pattern,
    (p.renamed rename).isIrrefutable = p.isIrrefutable
  | wildcard _ | binding _ _ | literal _ _ | value _ _ | variant _ _ _ | struct _ _ _ _ | or _ _
  | tuple _ _ (some _) => by
    simp [renamed, isIrrefutable]
  | tuple _ items none => by
    rw [renamed, isIrrefutable, isIrrefutable, allIrrefutable_renamedAll items]

theorem allIrrefutable_renamedAll : ∀ ps : List Pattern,
    allIrrefutable (renamedAll rename ps) = allIrrefutable ps
  | [] => rfl
  | p :: ps => by
    rw [renamedAll, allIrrefutable, allIrrefutable, isIrrefutable_renamed p,
      allIrrefutable_renamedAll ps]

end

end Renamed

/-! ## Accepted patterns -/

theorem mem_capture {n m : String} {stores r : List String} (h : capture n stores = .ok r) :
    m ∈ r ↔ m ∈ stores ∨ m = n := by
  unfold capture at h
  split at h
  · cases h
  · cases h
    simp

theorem mem_foldlM_capture {m : String} : ∀ {names stores r : List String},
    names.foldlM (fun stores n => capture n stores) stores = .ok r →
    (m ∈ r ↔ m ∈ stores ∨ m ∈ names)
  | [], stores, r, h => by
    rw [List.foldlM_nil, Except.pure_ok] at h
    simp [h]
  | n :: names, stores, r, h => by
    rw [List.foldlM_cons, Except.bind_ok] at h
    obtain ⟨stores', hc, h⟩ := h
    rw [mem_foldlM_capture h, mem_capture hc, List.mem_cons, or_assoc]

theorem mem_of_sameNames {a b : List String} (h : sameNames a b) {n : String} (hn : n ∈ b) :
    n ∈ a := by
  unfold sameNames at h
  rw [Bool.and_eq_true, List.all_eq_true] at h
  simpa using h.2 n hn

/-- An alternative that is no choice itself is compared as a whole. -/
theorem capturesOr_cons {control : Option (List String)} {q : Pattern} {qs : List Pattern}
    (hq : ∀ p a as, q ≠ or p (a :: as)) :
    capturesOr control (q :: qs) = (do
      let names ← q.captures []
      match control with
      | none => capturesOr (some names) qs
      | some control =>
        if sameNames control names then capturesOr (some control) qs
        else .error .differentBindings) := by
  rw [capturesOr]
  all_goals first | rfl | exact hq

mutual

/-- **An accepted pattern captures its names**, `_` aside, and binds no others. -/
theorem captures_ok : ∀ {p : Pattern} {stores r : List String}, p.captures stores = .ok r →
    (∀ n, n ∈ r ↔ n ∈ stores ∨ n ∈ p.names ∧ n ≠ "_") ∧ ∀ n ∈ p.bound, n ≠ "_" → n ∈ p.names
  | wildcard _, _, _, h | literal _ _, _, _, h | value _ _, _, _, h => by
    rw [captures] at h
    cases h
    rw [names, bound]
    simp
  | binding _ n, stores, r, h => by
    rw [captures] at h
    rw [names, bound]
    split at h
    · cases h
      simp_all
    · refine ⟨fun m => ?_, by simp⟩
      rw [mem_capture h]
      simp only [List.mem_singleton]
      constructor
      · rintro (hm | rfl)
        · exact .inl hm
        · exact .inr ⟨rfl, ‹_›⟩
      · rintro (hm | ⟨rfl, -⟩)
        · exact .inl hm
        · exact .inr rfl
  | tuple _ items _, _, _, h | variant _ _ items, _, _, h => by
    rw [captures] at h
    rw [names, bound]
    exact capturesAll_ok h
  | struct _ _ fields _, _, _, h => by
    rw [captures] at h
    rw [names, bound]
    split at h
    · cases h
    · exact capturesFields_ok h
  | or _ [], stores, r, h => by
    rw [captures, capturesOr] at h
    cases h
    rw [names, bound, boundAll]
    simp
  | or _ (q :: qs), stores, r, h => by
    rw [captures, Except.bind_ok] at h
    obtain ⟨control, hc, h⟩ := h
    obtain ⟨c, rfl, hnames, hbound⟩ := capturesOr_none 0 (List.cons_ne_nil q qs) hc
    rw [names] at hnames hbound
    rw [names, bound]
    refine ⟨fun n => ?_, hbound⟩
    rw [mem_foldlM_capture h, hnames]

theorem capturesAll_ok : ∀ {ps : List Pattern} {stores r : List String},
    capturesAll stores ps = .ok r →
    (∀ n, n ∈ r ↔ n ∈ stores ∨ n ∈ namesAll ps ∧ n ≠ "_") ∧
      ∀ n ∈ boundAll ps, n ≠ "_" → n ∈ namesAll ps
  | [], _, _, h => by
    rw [capturesAll] at h
    cases h
    rw [namesAll, boundAll]
    simp
  | p :: ps, _, _, h => by
    rw [capturesAll, Except.bind_ok] at h
    obtain ⟨stores', hp, hps⟩ := h
    have hp := captures_ok hp
    have hps := capturesAll_ok hps
    rw [namesAll, boundAll]
    refine ⟨fun n => ?_, fun n hn hne => ?_⟩
    · rw [hps.1, hp.1, List.mem_append, or_and_right, or_assoc]
    · rw [List.mem_append] at hn ⊢
      exact hn.imp (hp.2 n · hne) (hps.2 n · hne)

theorem capturesFields_ok : ∀ {fs : List (String × Pattern)} {stores r : List String},
    capturesFields stores fs = .ok r →
    (∀ n, n ∈ r ↔ n ∈ stores ∨ n ∈ namesFields fs ∧ n ≠ "_") ∧
      ∀ n ∈ boundFields fs, n ≠ "_" → n ∈ namesFields fs
  | [], _, _, h => by
    rw [capturesFields] at h
    cases h
    rw [namesFields, boundFields]
    simp
  | (f, p) :: fs, _, _, h => by
    rw [capturesFields, Except.bind_ok] at h
    obtain ⟨stores', hp, hfs⟩ := h
    have hp := captures_ok hp
    have hfs := capturesFields_ok hfs
    rw [namesFields, boundFields]
    refine ⟨fun n => ?_, fun n hn hne => ?_⟩
    · rw [hfs.1, hp.1, List.mem_append, or_and_right, or_assoc]
    · rw [List.mem_append] at hn ⊢
      exact hn.imp (hp.2 n · hne) (hfs.2 n · hne)

/-- The first of accepted alternatives says what all of them bind. -/
theorem capturesOr_none (p : Nat) : ∀ {ps : List Pattern} {r : Option (List String)}, ps ≠ [] →
    capturesOr none ps = .ok r →
    ∃ c, r = some c ∧ (∀ n, n ∈ c ↔ n ∈ (or p ps).names ∧ n ≠ "_") ∧
      ∀ n ∈ boundAll ps, n ≠ "_" → n ∈ (or p ps).names
  | [], _, hne, _ => absurd rfl hne
  | or _ (a :: as) :: qs, r, _, h => by
    rw [capturesOr, Except.bind_ok] at h
    obtain ⟨control, hc, h⟩ := h
    obtain ⟨c, rfl, hnames, hbound⟩ := capturesOr_none p (List.cons_ne_nil a as) hc
    obtain ⟨rfl, hrest⟩ := capturesOr_some h
    rw [names] at hnames hbound
    rw [names, names, boundAll, bound]
    refine ⟨c, rfl, hnames, fun n hn hne => ?_⟩
    rw [List.mem_append] at hn
    exact hn.elim (hbound n · hne) fun hn => ((hnames n).mp (hrest n hn hne)).1
  | wildcard _ :: _, _, _, h | binding _ _ :: _, _, _, h | literal _ _ :: _, _, _, h
  | value _ _ :: _, _, _, h | tuple _ _ _ :: _, _, _, h | variant _ _ _ :: _, _, _, h
  | struct _ _ _ _ :: _, _, _, h | or _ [] :: _, _, _, h => by
    rw [capturesOr_cons (by simp), Except.bind_ok] at h
    obtain ⟨c, hc, h⟩ := h
    have hq := captures_ok hc
    obtain ⟨rfl, hrest⟩ := capturesOr_some h
    rw [names.eq_def (or _ _), boundAll]
    refine ⟨c, rfl, fun n => by simpa using hq.1 n, fun n hn hne => ?_⟩
    rw [List.mem_append] at hn
    exact hn.elim (hq.2 n · hne) fun hn => by simpa [hne] using (hq.1 n).mp (hrest n hn hne)

/-- Alternatives that are accepted after others bind no other names. -/
theorem capturesOr_some : ∀ {ps : List Pattern} {c : List String} {r : Option (List String)},
    capturesOr (some c) ps = .ok r →
    r = some c ∧ ∀ n ∈ boundAll ps, n ≠ "_" → n ∈ c
  | [], _, _, h => by
    rw [capturesOr] at h
    cases h
    rw [boundAll]
    simp
  | or _ (a :: as) :: ps, c, r, h => by
    rw [capturesOr, Except.bind_ok] at h
    obtain ⟨control, hc, h⟩ := h
    obtain ⟨rfl, hbound⟩ := capturesOr_some hc
    obtain ⟨rfl, hrest⟩ := capturesOr_some h
    rw [boundAll, bound]
    refine ⟨rfl, fun n hn hne => ?_⟩
    rw [List.mem_append] at hn
    exact hn.elim (hbound n · hne) (hrest n · hne)
  | wildcard _ :: _, c, _, h | binding _ _ :: _, c, _, h | literal _ _ :: _, c, _, h
  | value _ _ :: _, c, _, h | tuple _ _ _ :: _, c, _, h | variant _ _ _ :: _, c, _, h
  | struct _ _ _ _ :: _, c, _, h | or _ [] :: _, c, _, h => by
    rw [capturesOr_cons (by simp), Except.bind_ok] at h
    obtain ⟨captured, hc, h⟩ := h
    have hq := captures_ok hc
    dsimp only at h
    split at h
    · rename_i hsame
      obtain ⟨rfl, hrest⟩ := capturesOr_some h
      rw [boundAll]
      refine ⟨rfl, fun n hn hne => ?_⟩
      rw [List.mem_append] at hn
      refine hn.elim (fun hn => ?_) (hrest n · hne)
      exact mem_of_sameNames hsame ((hq.1 n).mpr (.inr ⟨hq.2 n hn hne, hne⟩))
    · cases h

end

end Stencil.Pattern
