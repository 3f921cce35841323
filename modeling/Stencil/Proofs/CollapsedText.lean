import Mathlib.Data.List.Chain
import Stencil.Text.Blank

/-!
# Collapsed white space

To collapse the white space of a text is to cut it into words and to join them. The same text comes
from reading the characters from left to right, with one space in front of a character that white
space stands before.

* `squeeze`: the text that is read from left to right; **`collapse_eq`**: the two agree.
* `exists_squeeze_append`: parts of a text are read one after the other.
* **`collapse_blank_collapse`**: a collapsed text stays as it is.
* `SingleSpaced`: white space that is single spaces; **`squeeze_eq_iff`**: what squeezing leaves.
-/

namespace Stencil.Text

/-- The space that stands for a run of white space, if there was one. -/
def gapText (gap : Bool) : List Char := if gap then [' '] else []

/-- A text in which one space stands for white space before another character; `gap` says that some
stands before the text. -/
def squeeze : Bool → List Char → List Char
  | _, [] => []
  | gap, c :: cs => if isBlank c then squeeze true cs else gapText gap ++ c :: squeeze false cs

variable {gap : Bool} {c k : Char} {cs : List Char}

theorem squeeze_blank (hc : isBlank c = true) : squeeze gap (c :: cs) = squeeze true cs :=
  if_pos hc

theorem squeeze_cons (hc : isBlank c = false) :
    squeeze gap (c :: cs) = gapText gap ++ c :: squeeze false cs :=
  if_neg (Bool.eq_false_iff.mp hc)

/-- White space between two parts of a text is squeezed to at most one space. -/
theorem exists_squeeze_append (gap : Bool) (cs : List Char) :
    ∃ gap', ∀ ds, squeeze gap (cs ++ ds) = squeeze gap cs ++ squeeze gap' ds := by
  induction cs generalizing gap with
  | nil => exact ⟨gap, fun _ => rfl⟩
  | cons c cs ih =>
    cases hc : isBlank c with
    | true =>
      obtain ⟨gap', h⟩ := ih true
      exact ⟨gap', fun ds => by rw [List.cons_append, squeeze_blank hc, squeeze_blank hc, h]⟩
    | false =>
      obtain ⟨gap', h⟩ := ih false
      refine ⟨gap', fun ds => ?_⟩
      rw [List.cons_append, squeeze_cons hc, squeeze_cons hc, h, List.append_assoc,
        List.cons_append]

theorem trimStart_blank (hc : isBlank c = true) : trimStart (c :: cs) = trimStart cs :=
  List.dropWhile_cons_of_pos hc

theorem trimStart_cons (hc : isBlank c = false) : trimStart (c :: cs) = c :: cs :=
  List.dropWhile_cons_of_neg (Bool.eq_false_iff.mp hc)

/-- White space before a text is its gap. -/
theorem squeeze_true (cs : List Char) :
    squeeze true cs = if trimStart cs = [] then [] else ' ' :: squeeze false (trimStart cs) := by
  induction cs with
  | nil => rfl
  | cons c cs ih =>
    cases hc : isBlank c with
    | true => rw [squeeze_blank hc, ih, trimStart_blank hc]
    | false =>
      rw [trimStart_cons hc, if_neg (List.cons_ne_nil _ _), squeeze_cons hc, squeeze_cons hc]
      rfl

theorem wordsFrom_eq_nil {word : List Char} :
    wordsFrom word cs = [] ↔ word = [] ∧ trimStart cs = [] := by
  induction cs generalizing word with
  | nil => cases word <;> simp [wordsFrom, trimStart]
  | cons c cs ih =>
    cases hc : isBlank c with
    | true =>
      rw [wordsFrom, if_pos hc, trimStart_blank hc]
      cases word <;> simp [ih]
    | false =>
      rw [wordsFrom, if_neg (Bool.eq_false_iff.mp hc), trimStart_cons hc, ih]
      simp

/-- The text of words of which the first is being read. -/
theorem intercalate_wordsFrom (word cs : List Char) : [' '].intercalate (wordsFrom word cs) =
    if word = [] then squeeze false (trimStart cs) else word.reverse ++ squeeze false cs := by
  induction cs generalizing word with
  | nil => cases word <;> simp [wordsFrom, trimStart, squeeze]
  | cons c cs ih =>
    cases hc : isBlank c with
    | true =>
      rw [wordsFrom, if_pos hc, trimStart_blank hc, squeeze_blank hc, squeeze_true]
      have hwords := ih []
      rw [if_pos rfl] at hwords
      cases word with
      | nil => exact hwords
      | cons d word =>
        rw [List.isEmpty_cons, if_neg Bool.false_ne_true, if_neg (List.cons_ne_nil _ _)]
        split
        next hnil =>
          rw [wordsFrom_eq_nil.mpr ⟨rfl, hnil⟩, List.intercalate_singleton, List.append_nil]
        next hcons =>
          obtain ⟨w, ws, hw⟩ := List.exists_cons_of_ne_nil fun h => hcons (wordsFrom_eq_nil.mp h).2
          rw [hw] at hwords ⊢
          rw [List.intercalate_cons_cons, hwords, List.append_assoc]
          rfl
    | false =>
      rw [wordsFrom, if_neg (Bool.eq_false_iff.mp hc), ih, if_neg (List.cons_ne_nil _ _),
        trimStart_cons hc, squeeze_cons hc]
      cases word <;> simp [gapText]

/-- **White space is collapsed from left to right.** -/
theorem collapse_eq (cs : List Char) : collapse cs = squeeze false (trimStart cs) :=
  (intercalate_wordsFrom [] cs).trans (if_pos rfl)

theorem length_squeeze_le (gap : Bool) (cs : List Char) :
    (squeeze gap cs).length ≤ (gapText gap).length + cs.length := by
  induction cs generalizing gap with
  | nil => exact Nat.zero_le _
  | cons c cs ih =>
    cases hc : isBlank c with
    | true =>
      have h := ih true
      rw [squeeze_blank hc, List.length_cons]
      simp only [gapText, if_true, List.length_singleton] at h
      omega
    | false =>
      have h := ih false
      rw [squeeze_cons hc, List.length_append, List.length_cons, List.length_cons]
      simp only [gapText, Bool.false_eq_true, if_false, List.length_nil] at h
      omega

theorem length_squeeze_false_le (cs : List Char) : (squeeze false cs).length ≤ cs.length :=
  (length_squeeze_le false cs).trans_eq (Nat.zero_add _)

/-! ### Idempotence -/

theorem squeeze_squeeze {gap'} (h : gap' = true → gap = true) :
    squeeze gap' (squeeze gap cs) = squeeze gap cs := by
  induction cs generalizing gap gap' with
  | nil => rfl
  | cons c cs ih =>
    cases hc : isBlank c with
    | true =>
      rw [squeeze_blank hc]
      exact ih fun _ => rfl
    | false =>
      have hrest : squeeze false (squeeze false cs) = squeeze false cs := ih id
      rw [squeeze_cons hc]
      cases gap with
      | true =>
        show squeeze true (c :: squeeze false cs) = _
        rw [squeeze_cons hc, hrest]
      | false =>
        obtain rfl : gap' = false :=
          Bool.eq_false_iff.mpr fun he => absurd (h he) Bool.false_ne_true
        exact (squeeze_cons hc).trans (by rw [hrest])

/-- Nothing blank stands at the start of a collapsed text. -/
theorem trimStart_collapse (cs : List Char) : trimStart (collapse cs) = collapse cs := by
  rw [collapse_eq]
  induction cs with
  | nil => rfl
  | cons c cs ih =>
    cases hc : isBlank c with
    | true => rw [trimStart_blank hc, ih]
    | false =>
      rw [trimStart_cons hc, squeeze_cons hc]
      exact trimStart_cons hc

/-- **A collapsed text stays as it is**, white space before it apart. -/
theorem collapse_blank_collapse (hc : isBlank c = true) (cs : List Char) :
    collapse (c :: collapse cs) = collapse cs := by
  rw [collapse_eq (c :: _), trimStart_blank hc, trimStart_collapse, collapse_eq,
    squeeze_squeeze id]

/-! ### Single spaces -/

/-- **A text whose white space is single spaces.** -/
structure SingleSpaced (cs : List Char) : Prop where
  apart : cs.IsChain fun a b => isBlank a = true → isBlank b = false
  spaces : ∀ c ∈ cs, isBlank c = true → c = ' '

theorem singleSpaced_cons (hc : isBlank c = false) :
    SingleSpaced (c :: cs) ↔ SingleSpaced cs := by
  constructor
  · rintro ⟨hapart, hspaces⟩
    exact ⟨(List.isChain_cons.mp hapart).2, (List.forall_mem_cons.mp hspaces).2⟩
  · rintro ⟨hapart, hspaces⟩
    exact ⟨List.isChain_cons.mpr ⟨fun d _ h => absurd (hc.symm.trans h) Bool.false_ne_true, hapart⟩,
      List.forall_mem_cons.mpr ⟨fun h => absurd (hc.symm.trans h) Bool.false_ne_true, hspaces⟩⟩

theorem singleSpaced_gapText_append (hc : isBlank c = false) :
    SingleSpaced (gapText gap ++ c :: cs) ↔ SingleSpaced cs := by
  cases gap with
  | false => exact singleSpaced_cons hc
  | true =>
    constructor
    · rintro ⟨hapart, hspaces⟩
      exact (singleSpaced_cons hc).mp
        ⟨(List.isChain_cons_cons.mp hapart).2, (List.forall_mem_cons.mp hspaces).2⟩
    · intro h
      obtain ⟨hapart, hspaces⟩ := (singleSpaced_cons hc).mpr h
      exact ⟨List.isChain_cons_cons.mpr ⟨fun _ => hc, hapart⟩,
        List.forall_mem_cons.mpr ⟨fun _ => rfl, hspaces⟩⟩

/-- **The texts that squeezing leaves**, if they end in something else than white space. -/
theorem squeeze_eq_iff (hk : isBlank k = false) :
    squeeze gap (cs ++ [k]) = gapText gap ++ (cs ++ [k]) ↔
      SingleSpaced (gapText gap ++ (cs ++ [k])) := by
  induction cs generalizing gap with
  | nil =>
    refine iff_of_true (squeeze_cons hk) ((singleSpaced_gapText_append hk).mpr ?_)
    exact ⟨.nil, by simp⟩
  | cons c cs ih =>
    cases hc : isBlank c with
    | false =>
      have hrest : squeeze false (cs ++ [k]) = cs ++ [k] ↔ SingleSpaced (cs ++ [k]) := ih
      rw [List.cons_append, squeeze_cons hc, singleSpaced_gapText_append hc, ← hrest]
      simp
    | true =>
      rw [List.cons_append, squeeze_blank hc]
      cases gap with
      | true =>
        refine iff_of_false (fun h => ?_) fun h => ?_
        · have hlength := length_squeeze_le true (cs ++ [k])
          rw [h, List.length_append, List.length_cons] at hlength
          omega
        · have := (List.isChain_cons_cons.mp h.apart).1 rfl
          rw [hc] at this
          cases this
      | false =>
        have hspaced : squeeze true (cs ++ [k]) = ' ' :: (cs ++ [k]) ↔
            SingleSpaced (' ' :: (cs ++ [k])) := ih
        constructor
        · intro h
          obtain rfl : ' ' = c := by
            have hstart := h
            rw [squeeze_true] at hstart
            split at hstart
            · cases hstart
            · exact (List.cons.inj hstart).1
          exact hspaced.mp h
        · intro h
          obtain rfl := h.spaces c List.mem_cons_self hc
          exact hspaced.mpr h

end Stencil.Text
