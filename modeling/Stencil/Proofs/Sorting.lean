import Mathlib.Data.List.Nodup
import Stencil.Order

/-!
# Sorted lists

* `mem_dedup`, `nodup_dedup`: the list without repetition.
* `SortsBy`: a relation by which lists can be sorted; `pairwise_sortBy`: a sorted list is in order.
* **`sortBy_eq_of_perm`**: the order in which elements came in does not matter where no two of them
  are equal for the order.
* `filter_sortBy`, `map_sortBy`, `forall₂_sortBy`: parts of sorted lists, their keys, and what is
  related to them.
* `stable_sortBy`: elements that are equal for the order keep their places.
* `pairwise_lt_sortBy`: elements of different keys are sorted strictly.
-/

namespace Stencil

variable {α : Type}

section Dedup

variable [BEq α] [LawfulBEq α]

theorem mem_dedup {a : α} {l : List α} : a ∈ dedup l ↔ a ∈ l := by
  induction l with
  | nil => rfl
  | cons b l ih =>
    rw [dedup, List.mem_cons, List.mem_cons, List.mem_filter, ih]
    by_cases h : a = b
    · simp [h]
    · simp [h, Ne.symm h]

theorem nodup_dedup (l : List α) : (dedup l).Nodup := by
  induction l with
  | nil => exact .nil
  | cons a l ih =>
    rw [dedup, List.nodup_cons]
    exact ⟨by simp, ih.filter _⟩

/-- Lists of the same elements have the same elements without repetition. -/
theorem perm_dedup {l l' : List α} (h : ∀ a, a ∈ l ↔ a ∈ l') : (dedup l).Perm (dedup l') :=
  (List.perm_ext_iff_of_nodup (nodup_dedup l) (nodup_dedup l')).mpr fun a => by
    rw [mem_dedup, mem_dedup, h]

end Dedup

/-- **A relation by which lists can be sorted.** -/
structure SortsBy (le : α → α → Bool) : Prop where
  total : ∀ a b, le a b = false → le b a = true
  trans : ∀ a b c, le a b = true → le b c = true → le a c = true

section Sorted

variable {le : α → α → Bool}

theorem pairwise_insertBy (hle : SortsBy le) {a : α} {l : List α}
    (h : l.Pairwise (le · · = true)) : (insertBy le a l).Pairwise (le · · = true) := by
  induction l with
  | nil => exact List.pairwise_singleton _ _
  | cons b l ih =>
    have hb := List.pairwise_cons.mp h
    unfold insertBy
    split
    · rename_i hab
      refine List.pairwise_cons.mpr ⟨fun c hc => ?_, h⟩
      rcases List.mem_cons.mp hc with rfl | hc
      · exact hab
      · exact hle.trans a b c hab (hb.1 c hc)
    · rename_i hab
      refine List.pairwise_cons.mpr ⟨fun c hc => ?_, ih hb.2⟩
      rcases List.mem_cons.mp ((perm_insertBy le a l).mem_iff.mp hc) with rfl | hc
      · exact hle.total _ _ (Bool.not_eq_true _ ▸ hab)
      · exact hb.1 c hc

/-- **The sorted list is in order.** -/
theorem pairwise_sortBy (hle : SortsBy le) (l : List α) :
    (sortBy le l).Pairwise (le · · = true) := by
  induction l with
  | nil => exact .nil
  | cons a l ih => exact pairwise_insertBy hle ih

/-- **Sorting forgets the order in which elements came in**, where no two different ones are equal
for the order. -/
theorem sortBy_eq_of_perm (hle : SortsBy le) {l l' : List α} (h : l.Perm l')
    (hanti : ∀ a ∈ l, ∀ b ∈ l, le a b = true → le b a = true → a = b) :
    sortBy le l = sortBy le l' := by
  refine List.Perm.eq_of_pairwise (fun a b ha hb => ?_) (pairwise_sortBy hle l)
    (pairwise_sortBy hle l') ((perm_sortBy le l).trans (h.trans (perm_sortBy le l').symm))
  exact hanti a ((mem_sortBy le).mp ha) b (h.mem_iff.mpr ((mem_sortBy le).mp hb))

/-- An element that is before all others stays in front. -/
theorem insertBy_of_forall {a : α} {l : List α} (h : ∀ b ∈ l, le a b = true) :
    insertBy le a l = a :: l := by
  cases l with
  | nil => rfl
  | cons b l => rw [insertBy, if_pos (h b List.mem_cons_self)]

theorem filter_insertBy (hle : SortsBy le) (p : α → Bool) {a : α} {l : List α}
    (h : l.Pairwise (le · · = true)) :
    (insertBy le a l).filter p = if p a then insertBy le a (l.filter p) else l.filter p := by
  induction l with
  | nil => exact List.filter_cons
  | cons b l ih =>
    obtain ⟨hb, hl⟩ := List.pairwise_cons.mp h
    rw [insertBy]
    split
    · rename_i hab
      rw [List.filter_cons]
      split
      · refine (insertBy_of_forall fun c hc => ?_).symm
        rcases List.mem_cons.mp (List.mem_of_mem_filter hc) with rfl | hc
        · exact hab
        · exact hle.trans a b c hab (hb c hc)
      · rfl
    · rename_i hab
      rw [List.filter_cons, List.filter_cons, ih hl]
      split <;> split
      · rw [insertBy, if_neg hab]
      all_goals rfl

theorem stable_insertBy {R : α → α → Prop} (hle : SortsBy le) {a : α} {l : List α}
    (ha : ∀ b ∈ l, R a b) (h : l.Pairwise fun b c => le b c = true ∧ (le c b = true → R b c)) :
    (insertBy le a l).Pairwise fun b c => le b c = true ∧ (le c b = true → R b c) := by
  induction l with
  | nil => exact List.pairwise_singleton _ _
  | cons b l ih =>
    obtain ⟨hb, hl⟩ := List.pairwise_cons.mp h
    rw [insertBy]
    split
    · rename_i hab
      refine List.pairwise_cons.mpr ⟨fun c hc => ⟨?_, fun _ => ha c hc⟩, h⟩
      rcases List.mem_cons.mp hc with rfl | hc
      · exact hab
      · exact hle.trans a b c hab (hb c hc).1
    · rename_i hab
      refine List.pairwise_cons.mpr ⟨fun c hc => ?_, ih (fun c hc => ha c (.tail b hc)) hl⟩
      rcases List.mem_cons.mp ((perm_insertBy le a l).mem_iff.mp hc) with rfl | hc
      · exact ⟨hle.total _ _ (Bool.not_eq_true _ ▸ hab), fun h => absurd h hab⟩
      · exact hb c hc

/-- **Elements that are equal for the order keep their places.** -/
theorem stable_sortBy {R : α → α → Prop} (hle : SortsBy le) {l : List α} (h : l.Pairwise R) :
    (sortBy le l).Pairwise fun a b => le a b = true ∧ (le b a = true → R a b) := by
  induction h with
  | nil => exact .nil
  | cons ha _ ih => exact stable_insertBy hle (fun b hb => ha b ((mem_sortBy le).mp hb)) ih

/-- **A part of a sorted list is sorted on its own.** -/
theorem filter_sortBy (hle : SortsBy le) (p : α → Bool) (l : List α) :
    (sortBy le l).filter p = sortBy le (l.filter p) := by
  induction l with
  | nil => rfl
  | cons a l ih =>
    rw [sortBy, filter_insertBy hle p (pairwise_sortBy hle l), ih, List.filter_cons]
    split <;> rfl

/-- Keys are sorted with the elements they belong to. -/
theorem map_sortBy {β : Type} (f : β → α) (l : List β) :
    (sortBy (fun a b => le (f a) (f b)) l).map f = sortBy le (l.map f) := by
  have hinsert (a : β) (l : List β) :
      (insertBy (fun a b => le (f a) (f b)) a l).map f = insertBy le (f a) (l.map f) := by
    induction l with
    | nil => rfl
    | cons b l ih =>
      rw [insertBy, List.map_cons, insertBy]
      split
      · rfl
      · rw [List.map_cons, ih]
  induction l with
  | nil => rfl
  | cons a l ih => rw [sortBy, hinsert, ih, List.map_cons, sortBy]

/-- **Lists that are related element by element are sorted alike**, if related elements are equal
for the order. -/
theorem forall₂_sortBy {β : Type} {R : α → β → Prop} {le' : β → β → Bool}
    (hle : ∀ {a b a' b'}, R a a' → R b b' → le a b = le' a' b') {l : List α} {l' : List β}
    (h : List.Forall₂ R l l') : List.Forall₂ R (sortBy le l) (sortBy le' l') := by
  have hinsert {a : α} {a' : β} (ha : R a a') {l : List α} {l' : List β}
      (h : List.Forall₂ R l l') : List.Forall₂ R (insertBy le a l) (insertBy le' a' l') := by
    induction h with
    | nil => exact .cons ha .nil
    | cons hb h ih =>
      rw [insertBy, insertBy, hle ha hb]
      split
      · exact .cons ha (.cons hb h)
      · exact .cons hb ih
  induction h with
  | nil => exact .nil
  | cons ha _ ih => exact hinsert ha ih

end Sorted

/-! ## Texts -/

theorem textLe_iff {a b : String} : textLe a b = true ↔ a ≤ b := by
  rw [textLe, Bool.not_eq_true', decide_eq_false_iff_not, String.not_lt]

/-- Elements are sorted by the text of a key. -/
theorem sortsBy_textLe (key : α → String) : SortsBy fun a b => textLe (key a) (key b) where
  total a b h := by
    rw [← Bool.not_eq_true, textLe_iff] at h
    exact textLe_iff.mpr ((String.le_total (key a) (key b)).resolve_left h)
  trans a b c hab hbc := textLe_iff.mpr (String.le_trans (textLe_iff.mp hab) (textLe_iff.mp hbc))

theorem textLe_antisymm {a b : String} (hab : textLe a b = true) (hba : textLe b a = true) :
    a = b := String.le_antisymm (textLe_iff.mp hab) (textLe_iff.mp hba)

theorem sortsBy_textsLe : SortsBy textsLe where
  total a b h := by
    simp only [textsLe, Bool.not_eq_eq_eq_not, Bool.not_false, Bool.not_true, decide_eq_true_eq,
      decide_eq_false_iff_not] at h ⊢
    exact List.lt_asymm h
  trans a b c hab hbc := by
    simp only [textsLe, Bool.not_eq_true', decide_eq_false_iff_not, List.not_lt] at hab hbc ⊢
    exact List.le_trans hab hbc

theorem textsLe_antisymm {a b : List String} (hab : textsLe a b = true)
    (hba : textsLe b a = true) : a = b := by
  simp only [textsLe, Bool.not_eq_true', decide_eq_false_iff_not, List.not_lt] at hab hba
  exact List.le_antisymm hab hba

/-- **Elements of different keys are sorted strictly.** -/
theorem pairwise_lt_sortBy {key : α → String} {l : List α} (h : (l.map key).Nodup) :
    (sortBy (fun a b => textLe (key a) (key b)) l).Pairwise fun a b => key a < key b := by
  have hsorted := pairwise_sortBy (sortsBy_textLe key) l
  have hnodup := (((perm_sortBy (fun a b => textLe (key a) (key b)) l).map key).nodup_iff).mpr h
  rw [List.Nodup, List.pairwise_map] at hnodup
  refine (hsorted.and hnodup).imp fun {a b} h => ?_
  refine String.not_le.mp fun hle => h.2 ?_
  exact String.le_antisymm (textLe_iff.mp h.1) hle

/-- Texts without repetition are sorted strictly. -/
theorem pairwise_sortTexts_dedup (l : List String) :
    (sortTexts (dedup l)).Pairwise (· < ·) := by
  have hnodup : ((dedup l).map id).Nodup := by
    rw [List.map_id]
    exact nodup_dedup l
  exact pairwise_lt_sortBy hnodup

end Stencil
