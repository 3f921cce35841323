import Mathlib.Data.List.Forall2
import Stencil.Proofs.PatternGrammar

/-!
# Lists in the grammar of patterns

Printed lists of items, fields and alternatives are texts of the grammar if their parts are,
whatever white space the printer puts around commas; so the text that is printed for a pattern
writes it.

* `Pattern.enclosed`: texts with commas between them up to a closing mark.
* `Pattern.barred`: texts with bars between them.
* `Pattern.writesItems_marked`, `Pattern.writesFields_enclosed`, `Pattern.writes_barred`: lists.
* **`Pattern.writes_print`**: the printed text of a pattern writes it.
-/

namespace Stencil.Pattern

open Text Expr Expr.Read Read

/-! ## Lists with commas -/

/-- **Texts up to a closing mark**: white space and a comma after each but the last, white space
behind the comma. -/
def enclosed (w w' : List Char) (closing : Char) : List (List Char) → List Char
  | [] => [closing]
  | [t] => t ++ (w ++ [closing])
  | t :: ts => t ++ (w ++ ',' :: (w' ++ enclosed w w' closing ts))

section Lists

variable {d : Nat} {p : Pattern} {is : List Pattern} {fs : List (String × Pattern)}
variable {t w w' w₀ : List Char} {ts : List (List Char)}

theorem enclosed_cons (w w' : List Char) (closing : Char) (t : List Char) (hne : ts ≠ []) :
    enclosed w w' closing (t :: ts) = t ++ (w ++ ',' :: (w' ++ enclosed w w' closing ts)) := by
  cases ts with
  | nil => exact absurd rfl hne
  | cons u ts => rfl

/-- **Items with commas between them.** -/
theorem writesItems_enclosed (hw₀ : IsGap w₀) (hw : IsGap w) (hw' : IsGap w')
    (h : List.Forall₂ (Writes d) is ts) (b : Bool) :
    WritesItems d b ⟨is, none, is.isEmpty && b⟩ (w₀ ++ enclosed w w' ')' ts) := by
  induction h generalizing w₀ b with
  | nil => exact .close hw₀
  | @cons p t is ts hp his ih =>
    cases his with
    | nil => exact .item hw₀ hp (.close hw)
    | cons hq hqs => exact .item hw₀ hp (.comma hw (ih hw' true))

/-- A single item with a comma behind it. -/
theorem writesItems_single (hw₀ : IsGap w₀) (hw : IsGap w) (hw' : IsGap w') (h : Writes d p t)
    (b : Bool) : WritesItems d b ⟨[p], none, true⟩ (w₀ ++ (t ++ (w ++ ',' :: (w' ++ [')'])))) :=
  .item hw₀ h (.comma hw (.close hw'))

/-- **Items with the mark of the rest among them.** -/
theorem writesItems_marked (hw₀ : IsGap w₀) (hw : IsGap w) (hw' : IsGap w')
    (h : List.Forall₂ (Writes d) is ts) {k : Nat} (hk : k ≤ is.length) (b : Bool) :
    WritesItems d b ⟨is, some k, false⟩ (w₀ ++ enclosed w w' ')' (insertRest (some k) ts)) := by
  induction k generalizing is ts w₀ b with
  | zero =>
    cases h with
    | nil => exact .rest hw₀ rfl (.close hw)
    | cons hp his =>
      exact .rest hw₀ rfl (.comma hw (writesItems_enclosed hw' hw hw' (.cons hp his) true))
  | succ k ih =>
    cases h with
    | nil => cases hk
    | @cons p t is ts hp his =>
      have hne : insertRest (some k) ts ≠ [] := by simp [insertRest]
      have hcons : insertRest (some (k + 1)) (t :: ts) = t :: insertRest (some k) ts := by
        simp [insertRest]
      rw [hcons, enclosed_cons w w' ')' t hne]
      exact .item hw₀ hp (.comma hw (ih hw' his (Nat.le_of_succ_le_succ hk) true))

/-- A text is a field, alone or with others behind it. -/
def IsField (d : Nat) (f : String × Pattern) (t : List Char) : Prop :=
  ∀ {w fs o ts}, IsGap w → WritesFieldsEnd d fs o ts → WritesFields d (f :: fs) o (w ++ (t ++ ts))

/-- **Fields with commas between them**, and the mark of an open structure. -/
theorem writesFields_enclosed (hw₀ : IsGap w₀) (hw : IsGap w) (hw' : IsGap w')
    (h : List.Forall₂ (IsField d) fs ts) (o : Bool) : WritesFields d fs o
      (w₀ ++ enclosed w w' '\x7d' (ts ++ if o then [['.', '.']] else [])) := by
  induction h generalizing w₀ with
  | nil =>
    cases o with
    | false => exact .close hw₀
    | true => exact .rest hw₀ hw
  | @cons f t fs ts hf hfs ih =>
    by_cases hne : ts ++ (if o then [['.', '.']] else []) = []
    · obtain ⟨rfl, ho⟩ := List.append_eq_nil_iff.mp hne
      obtain rfl : o = false := by
        cases o with
        | false => rfl
        | true => cases ho
      cases hfs
      exact hf hw₀ (.close hw)
    · rw [List.cons_append, enclosed_cons w w' '\x7d' t hne]
      exact hf hw₀ (.comma hw (ih hw'))

end Lists

/-! ## Alternatives -/

/-- Texts with bars between them. -/
def barred : List (List Char) → List Char
  | [] => []
  | [t] => t
  | t :: ts => t ++ ' ' :: '|' :: ' ' :: barred ts

section Alternatives

variable {d : Nat} {p : Pattern} {ps : List Pattern} {t : List Char} {ts : List (List Char)}

theorem writesMore_barred (hne : ps ≠ []) (h : List.Forall₂ (WritesSingle d) ps ts) :
    WritesMore d ps (' ' :: '|' :: ' ' :: barred ts) := by
  induction h with
  | nil => exact absurd rfl hne
  | @cons p t ps ts hp hps ih =>
    cases hps with
    | nil =>
      have hone := WritesMore.cons isGap_space isGap_space hp .nil
      rwa [List.append_nil] at hone
    | cons hq hqs => exact .cons isGap_space isGap_space hp (ih (List.cons_ne_nil _ _))

/-- **Alternatives with bars between them.** -/
theorem writes_barred {position : Nat} (hl : 2 ≤ ps.length)
    (h : List.Forall₂ (WritesSingle d) ps ts) : Writes d (.or position ps) (barred ts) := by
  cases h with
  | nil => cases hl
  | @cons p t ps ts hp hps =>
    cases hps with
    | nil =>
      rw [List.length_singleton] at hl
      omega
    | cons hq hqs =>
      exact .or hp (List.cons_ne_nil _ _) (writesMore_barred (List.cons_ne_nil _ _) (.cons hq hqs))

end Alternatives

/-! ## The printed text -/

namespace Read

theorem joined_singleton (t rest : List Char) : joined [t] ++ rest = t ++ ' ' :: rest := by
  simp [joined]

theorem length_joined_singleton (t : List Char) : (joined [t]).length = t.length + 1 := by
  simp [joined]

/-- A comma stands after each text but the last. -/
theorem joined_cons (t : List Char) {ts : List (List Char)} (h : ts ≠ []) (rest : List Char) :
    joined (t :: ts) ++ rest = t ++ ' ' :: ',' :: ' ' :: (joined ts ++ rest) := by
  cases ts with
  | nil => exact absurd rfl h
  | cons u ts => simp [joined]

theorem length_joined_cons (t : List Char) {ts : List (List Char)} (h : ts ≠ []) :
    (joined (t :: ts)).length = t.length + 3 + (joined ts).length := by
  have := congrArg List.length (joined_cons t h [])
  simp only [List.append_nil, List.length_append, List.length_cons] at this
  omega

end Read

theorem joined_append (ts : List (List Char)) (closing : Char) :
    joined ts ++ [closing] = enclosed [' '] [' '] closing ts := by
  induction ts with
  | nil => rfl
  | cons t ts ih =>
    cases ts with
    | nil => simp [joined, enclosed]
    | cons u ts => rw [joined_cons _ (List.cons_ne_nil _ _), ih]; rfl

theorem printAlternatives_eq (ps : List Pattern) :
    printAlternatives ps = barred (ps.map printAlternative) := by
  induction ps with
  | nil => rfl
  | cons p ps ih =>
    rw [printAlternatives_cons, ih]
    cases ps with
    | nil => exact List.append_nil _
    | cons q qs => rfl

/-- The text of a tuple. -/
theorem writes_tuple {d position : Nat} {is : List Pattern} {ts : List (List Char)}
    {rest : Option Nat} (hd : d < maxDepth) (h : List.Forall₂ (Writes (d + 1)) is ts)
    (hrest : ∀ k, rest = some k → k ≤ is.length) : WritesSingle d (.tuple position is rest)
      ('(' :: ' ' :: (joined (insertRest rest ts) ++ tupleEnd rest is)) := by
  cases rest with
  | some k =>
    rw [show tupleEnd (some k) is = [')'] from rfl, joined_append]
    have hitems := writesItems_marked isGap_space isGap_space isGap_space h (hrest k rfl) false
    exact .tuple hd hitems fun _ h => by cases h
  | none =>
    by_cases hone : is.length = 1
    · obtain ⟨p, rfl⟩ := List.length_eq_one_iff.mp hone
      cases h with
      | @cons _ t _ _ hp hnil =>
        cases hnil
        have htext : joined (insertRest none [t]) ++ tupleEnd none [p] =
            t ++ ' ' :: ',' :: ' ' :: [')'] := joined_singleton t _
        rw [htext]
        have hitems := writesItems_single isGap_space isGap_space isGap_space hp false
        exact .tuple hd hitems fun _ _ => rfl
    · have hend : tupleEnd none is = [')'] := by simp [tupleEnd, hone]
      rw [hend, insertRest, joined_append]
      have hitems := writesItems_enclosed isGap_space isGap_space isGap_space h false
      exact .tuple hd hitems fun h => absurd h hone

/-- The text of a literal. -/
theorem writes_literal {d position : Nat} {v : Literal} (h : v.Plain) :
    WritesSingle d (.literal position v) v.print := by
  by_cases hu : v.Unsigned
  · exact .literal h hu
  · cases v with
    | int n =>
      have hneg : n < 0 := Int.not_le.mp hu
      have hnat : (-(n.natAbs : Int)) = n := by omega
      have hprint : (Literal.int n).print = '-' :: ([] ++ Nat.toDigits 10 n.natAbs) := by
        rw [Literal.print, if_pos hneg, List.nil_append]
      have hwrites : WritesSingle d (.literal position (.int (-(n.natAbs : Int))))
          ('-' :: ([] ++ Nat.toDigits 10 n.natAbs)) :=
        .negative isGap_nil (by simpa only [Literal.Plain, Int.natAbs_natCast] using h)
      rwa [hnat, ← hprint] at hwrites
    | _ => exact absurd trivial hu

mutual

/-- **The printed text of a pattern writes it.** -/
theorem writes_print : ∀ {p : Pattern} {d : Nat}, p.Shaped d → (∀ v ∈ p.literals, v.Plain) →
    Writes d p p.print
  | wildcard _, _, _, _ => .single .wildcard
  | binding _ _, _, h, _ => .single (.binding h.1 h.2)
  | literal _ v, _, _, hp => .single (writes_literal (hp v (List.mem_singleton_self v)))
  | value _ _, _, h, _ => .single (.value h.1 h.2)
  | tuple _ is rest, _, h, hp => .single (writes_tuple h.1 (writes_texts h.2.1 hp) h.2.2)
  | variant _ ps is, _, h, hp => by
    have hitems := writesItems_enclosed isGap_space isGap_space isGap_space
      (writes_texts h.2.2 hp) false
    rw [print, joined_append]
    exact .single (.variant h.1 h.2.1 isGap_space hitems)
  | struct _ ps fs o, _, h, hp => by
    have hfields := writesFields_enclosed isGap_space isGap_space isGap_space
      (writes_fieldTexts h.2.2 hp) o
    rw [print, joined_append]
    exact .single (.struct h.1 h.2.1 isGap_space hfields)
  | or _ as, _, h, hp => by
    rw [print, printAlternatives_eq]
    exact writes_barred h.1 (writes_alternatives h.2 hp)

theorem writes_texts : ∀ {ps : List Pattern} {d : Nat}, ShapedAll d ps →
    (∀ v ∈ literalsAll ps, v.Plain) → List.Forall₂ (Writes d) ps (texts ps)
  | [], _, _, _ => .nil
  | p :: ps, _, h, hp => by
    rw [literalsAll] at hp
    exact .cons (writes_print h.1 fun v hv => hp v (List.mem_append_left _ hv))
      (writes_texts h.2 fun v hv => hp v (List.mem_append_right _ hv))

theorem writes_fieldTexts : ∀ {fs : List (String × Pattern)} {d : Nat}, ShapedFields d fs →
    (∀ v ∈ literalsFields fs, v.Plain) → List.Forall₂ (IsField d) fs (fieldTexts fs)
  | [], _, _, _ => .nil
  | (n, p) :: fs, d, h, hp => by
    rw [literalsFields] at hp
    refine .cons ?_ (writes_fieldTexts h.2.2 fun v hv => hp v (List.mem_append_right _ hv))
    intro w fs' o ts hw hend
    cases hb : p.isBinding n with
    | true =>
      obtain ⟨position, rfl⟩ : ∃ q, p = .binding q n := by
        cases p with
        | binding q m => exact ⟨q, by rw [(beq_iff_eq.mp hb : m = n)]⟩
        | _ => cases hb
      rw [if_pos rfl, List.append_nil]
      exact .bound hw h.1 hend
    | false =>
      have hs := h.2.1.resolve_left (by rw [hb]; decide)
      rw [if_neg (by decide), List.append_assoc]
      exact .field hw h.1 isGap_space isGap_space
        (writes_print hs fun v hv => hp v (List.mem_append_left _ hv)) hend

theorem writes_alternatives : ∀ {ps : List Pattern} {d : Nat}, ShapedAlternatives d ps →
    (∀ v ∈ literalsAll ps, v.Plain) →
    List.Forall₂ (WritesSingle d) ps (ps.map printAlternative)
  | [], _, _, _ => .nil
  | p :: ps, d, h, hp => by
    rw [literalsAll] at hp
    refine .cons ?_ (writes_alternatives h.2 fun v hv => hp v (List.mem_append_right _ hv))
    have hs := h.1
    have hplain := fun v hv => hp v (List.mem_append_left _ hv)
    rw [printAlternative]
    cases ho : p.isOr with
    | true =>
      rw [ho, if_pos rfl] at hs
      exact .group hs.1 isGap_space isGap_space (writes_print hs.2 hplain)
    | false =>
      rw [ho, if_neg (by decide)] at hs
      exact (writes_print hs hplain).single_of_isOr ho

end

/-- **A printed pattern starts with a token that can start one.** -/
theorem first_print {p : Pattern} {d : Nat} (h : p.Shaped d) (hp : ∀ v ∈ p.literals, v.Plain)
    {rest : List Char} (hr : Apart rest) : (first (p.print ++ rest)).opens = true :=
  (writes_print h hp).opens hr.parted

end Stencil.Pattern
