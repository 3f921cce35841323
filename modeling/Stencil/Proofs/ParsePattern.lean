import Stencil.Proofs.Advance
import Stencil.Proofs.ExprRoundTrip

/-!
# Reading inverts writing

A pattern of any form is read from its text as that pattern, up to the end of the text. Choices that
are parts of other patterns stand in parentheses here, so that nothing has to be known about what
they are parts of; the grammar also allows them without, and any white space.

* `Pattern.Formed`: the trees that patterns can have.
* `Pattern.text`: the text of a pattern; `Pattern.brackets`: how deep brackets are nested in it.
* `Pattern.writes_text`: the text writes the pattern.
* **`Pattern.readsAs_text`**: it is read as the pattern, alone, in parentheses, and as the only item
  of a tuple.
-/

namespace Stencil.Pattern

open Text Expr Expr.Read Read

/-- **The trees that patterns can have**, however deep they are nested. -/
inductive Formed : Pattern → Prop
  | wildcard {position} : Formed (.wildcard position)
  | binding {position n} : IsName n → n ≠ "_" → Formed (.binding position n)
  | literal {position v} : v.Plain → Formed (.literal position v)
  | value {position ps} : IsPath ps → 2 ≤ ps.length → Formed (.value position ps)
  | tuple {position is rest} : (∀ p ∈ is, Formed p) → (∀ k, rest = some k → k ≤ is.length) →
    Formed (.tuple position is rest)
  | variant {position ps is} : IsPath ps → (∀ p ∈ is, Formed p) →
    Formed (.variant position ps is)
  | struct {position ps fs o} : IsPath ps → (∀ f ∈ fs, IsName f.1) → (∀ f ∈ fs, Formed f.2) →
    Formed (.struct position ps fs o)
  | or {position as} : 2 ≤ as.length → (∀ p ∈ as, Formed p) → Formed (.or position as)

/-! ## The text of a pattern -/

/-- The items of a tuple up to its parenthesis: a comma makes a tuple of a single item. -/
def tupleText (rest : Option Nat) (ts : List (List Char)) : List Char :=
  match rest, ts with
  | none, [t] => t ++ [',', ')']
  | rest, ts => enclosed [] [' '] ')' (insertRest rest ts)

mutual

/-- **The text of a pattern**, with parentheses around choices that are parts of other patterns. -/
def text : Pattern → List Char
  | wildcard _ => ['_']
  | binding _ n => n.toList
  | literal _ v => v.print
  | value _ ps => printPath ps
  | tuple _ is rest => '(' :: tupleText rest (partTexts is)
  | variant _ ps is => printPath ps ++ '(' :: enclosed [] [' '] ')' (partTexts is)
  | struct _ ps fs o =>
    printPath ps ++ ' ' :: '\x7b' ::
      enclosed [] [' '] '\x7d' (fieldPartTexts fs ++ if o then [['.', '.']] else [])
  | or _ as => barred (partTexts as)

/-- The texts of the parts of a pattern. -/
def partTexts : List Pattern → List (List Char)
  | [] => []
  | p :: ps => (if p.isOr then '(' :: (p.text ++ [')']) else p.text) :: partTexts ps

/-- The texts of the fields of a structure. -/
def fieldPartTexts : List (String × Pattern) → List (List Char)
  | [] => []
  | (n, p) :: fs =>
    (n.toList ++ ':' :: ' ' :: if p.isOr then '(' :: (p.text ++ [')']) else p.text) ::
      fieldPartTexts fs

end

/-- The text of a part of a pattern. -/
def partText (p : Pattern) : List Char := if p.isOr then '(' :: (p.text ++ [')']) else p.text

mutual

/-- **How deep brackets are nested** in the text of a pattern. -/
def brackets : Pattern → Nat
  | wildcard _ | binding _ _ | literal _ _ | value _ _ => 0
  | tuple _ is _ => partBrackets is + 1
  | variant _ _ is => partBrackets is + 1
  | struct _ _ fs _ => fieldBrackets fs + 1
  | or _ as => partBrackets as

/-- How deep brackets are nested in the parts of a pattern. -/
def partBrackets : List Pattern → Nat
  | [] => 0
  | p :: ps => max (p.brackets + if p.isOr then 1 else 0) (partBrackets ps)

/-- How deep brackets are nested in the fields of a structure. -/
def fieldBrackets : List (String × Pattern) → Nat
  | [] => 0
  | (_, p) :: fs => max (p.brackets + if p.isOr then 1 else 0) (fieldBrackets fs)

end

/-! ## The text writes the pattern -/

section Writes

variable {d : Nat} {p : Pattern} {is : List Pattern} {fs : List (String × Pattern)}

/-- A pattern with room for its brackets is written by its text. -/
def WritesText (p : Pattern) : Prop := ∀ d, d + p.brackets ≤ maxDepth → Writes d p p.text

theorem WritesText.part (h : p.WritesText)
    (hd : d + (p.brackets + if p.isOr then 1 else 0) ≤ maxDepth) :
    WritesSingle d p p.partText := by
  unfold partText
  cases ho : p.isOr with
  | true =>
    rw [ho, if_pos rfl] at hd
    exact .group (by omega) isGap_nil isGap_nil (h (d + 1) (by omega))
  | false =>
    rw [ho, if_neg (by decide)] at hd
    exact (h d (by omega)).single_of_isOr ho

theorem writes_partTexts (h : ∀ p ∈ is, p.WritesText) (hd : d + partBrackets is ≤ maxDepth) :
    List.Forall₂ (WritesSingle d) is (partTexts is) := by
  induction is with
  | nil => exact .nil
  | cons p is ih =>
    rw [partBrackets] at hd
    exact .cons ((h p List.mem_cons_self).part (by omega))
      (ih (fun q hq => h q (List.mem_cons_of_mem _ hq)) (by omega))

theorem writes_itemTexts (h : ∀ p ∈ is, p.WritesText) (hd : d + partBrackets is ≤ maxDepth) :
    List.Forall₂ (Writes d) is (partTexts is) :=
  (writes_partTexts h hd).imp fun _ _ => .single

theorem writes_fieldPartTexts (hn : ∀ f ∈ fs, IsName f.1) (h : ∀ f ∈ fs, f.2.WritesText)
    (hd : d + fieldBrackets fs ≤ maxDepth) : List.Forall₂ (IsField d) fs (fieldPartTexts fs) := by
  induction fs with
  | nil => exact .nil
  | cons f fs ih =>
    obtain ⟨n, p⟩ := f
    rw [fieldBrackets] at hd
    refine .cons (fun {w fs' o ts} hw hend => ?_) (ih (fun g hg => hn g (List.mem_cons_of_mem _ hg))
      (fun g hg => h g (List.mem_cons_of_mem _ hg)) (by omega))
    have hpart := (h (n, p) List.mem_cons_self).part (d := d) (by simp only; omega)
    rw [List.append_assoc]
    exact .field hw (hn (n, p) List.mem_cons_self) isGap_nil isGap_space (.single hpart) hend

theorem writes_tupleText {position : Nat} {rest : Option Nat} {ts : List (List Char)}
    (hd : d < maxDepth) (h : List.Forall₂ (Writes (d + 1)) is ts)
    (hrest : ∀ k, rest = some k → k ≤ is.length) :
    WritesSingle d (.tuple position is rest) ('(' :: tupleText rest ts) := by
  unfold tupleText
  split
  · cases h with
    | cons hp hnil =>
      cases hnil
      exact .tuple hd (writesItems_single isGap_nil isGap_nil isGap_nil hp false) fun _ _ => rfl
  · rename_i hone
    cases rest with
    | some k =>
      have hitems := writesItems_marked isGap_nil isGap_nil isGap_space h (hrest k rfl) false
      exact .tuple hd hitems fun _ h => by cases h
    | none =>
      have hitems := writesItems_enclosed isGap_nil isGap_nil isGap_space h false
      refine .tuple hd hitems fun hl => ?_
      obtain ⟨t, rfl⟩ := List.length_eq_one_iff.mp (h.length_eq ▸ hl)
      exact absurd rfl (hone t rfl)

/-- **The text of a pattern writes it.** -/
theorem writes_text (h : Formed p) : p.WritesText := by
  induction h with
  | wildcard => exact fun d _ => .single .wildcard
  | binding hn hne => exact fun d _ => .single (.binding hn hne)
  | literal hv => exact fun d _ => .single (writes_literal hv)
  | value hp hl => exact fun d _ => .single (.value hp hl)
  | tuple _ hrest ih =>
    intro d hd
    rw [brackets] at hd
    exact .single (writes_tupleText (by omega) (writes_itemTexts ih (by omega)) hrest)
  | variant hp _ ih =>
    intro d hd
    rw [brackets] at hd
    have hitems := writesItems_enclosed isGap_nil isGap_nil isGap_space
      (writes_itemTexts (d := d + 1) ih (by omega)) false
    exact .single (.variant hp (by omega) isGap_nil hitems)
  | @struct _ ps fs o hp hn _ ih =>
    intro d hd
    rw [brackets] at hd
    have hfields := writesFields_enclosed isGap_nil isGap_nil isGap_space
      (writes_fieldPartTexts (d := d + 1) hn ih (by omega)) o
    exact .single (.struct hp (by omega) isGap_space hfields)
  | or hl _ ih =>
    intro d hd
    exact writes_barred hl (writes_partTexts ih hd)

end Writes

/-! ## Reading -/

/-- **A text is read as a pattern**, positions aside, up to its end. -/
def ReadsAs (t : List Char) (p : Pattern) : Prop :=
  ∃ p', Pattern.read (.ofText t 0) = .ok (p', ⟨t.length, []⟩) ∧ p'.unplaced = p.unplaced

theorem readsAs_of_writes {p : Pattern} {t : List Char} (h : Writes 0 p t) : ReadsAs t p := by
  obtain ⟨p', pos, hread, hu⟩ := read_writes h closed_nil 0
  rw [List.append_nil] at hread
  have hstart : Cursor.ofText t 0 = ⟨0, t⟩ := by simp [Cursor.ofText]
  obtain ⟨part, hpart⟩ := (reads_of_read hread).reaches
  have hend : pos = t.length := by
    have hlen := hpart.length_eq
    have hposition := hpart.2
    simp only [List.length_nil] at hlen hposition
    omega
  exact ⟨p', by rw [hstart, hread, hend], hu⟩

/-- **Reading a pattern inverts writing it**: the text of a pattern is read as that pattern and to
its end, the text in parentheses as the pattern itself, and with a comma in the parentheses as the
tuple of it alone. The same holds of every other text of the grammar, with white space, parentheses
and commas wherever they may stand. -/
theorem readsAs_text :
    (∀ p, Formed p → p.brackets ≤ maxDepth → ReadsAs p.text p) ∧
    (∀ p, Formed p → p.brackets < maxDepth → ReadsAs ('(' :: (p.text ++ [')'])) p ∧
      ReadsAs ('(' :: (p.text ++ [',', ')'])) (.tuple 0 [p] none)) ∧
    ∀ p t, Writes 0 p t → ReadsAs t p := by
  refine ⟨fun p h hd => ?_, fun p h hd => ⟨?_, ?_⟩, fun p t h => readsAs_of_writes h⟩
  · exact readsAs_of_writes (writes_text h 0 (by omega))
  · have hp := writes_text h 1 (by omega)
    exact readsAs_of_writes (.single (.group (by decide) isGap_nil isGap_nil hp))
  · have hp := writes_text h 1 (by omega)
    have hitems := writesItems_single isGap_nil isGap_nil isGap_nil hp false
    exact readsAs_of_writes (.single (.tuple (by decide) hitems fun _ _ => rfl))

/-- A pattern with a node of every kind. -/
def everyForm : Pattern :=
  .or 0 [
    .tuple 0 [.wildcard 0, .binding 0 "x", .tuple 0 [.literal 0 (.int (-1))] none] (some 1),
    .struct 0 ["S"] [("a", .or 0 [.literal 0 .null, .literal 0 (.text [.ofChar 'q'])]),
      ("b", .binding 0 "b")] true,
    .or 0 [.value 0 ["m", "N"], .variant 0 ["V"] [.tuple 0 [] none, .literal 0 (.bool true)]]]

theorem readsAs_text_everyForm :
    everyForm.text = ("(_, .., x, (-1,)) | S \x7ba: (None | \"q\"), b: b, ..\x7d | ".toList ++
      "(m::N | V((), true))".toList) ∧ Formed everyForm ∧ everyForm.brackets < maxDepth ∧
      ReadsAs ('(' :: (everyForm.text ++ [',', ')'])) (.tuple 0 [everyForm] none) := by
  have hname : ∀ n ∈ ["x", "S", "a", "b", "m", "N", "V"], IsName n ∧ n ≠ "_" := by decide +kernel
  have hpath (n : String) (ns : List String)
      (h : ∀ m ∈ n :: ns, m ∈ ["x", "S", "a", "b", "m", "N", "V"]) : IsPath (n :: ns) :=
    ⟨fun m hm => (hname m (h m hm)).1, n, ns, rfl, (hname n (h n List.mem_cons_self)).2⟩
  have hbinding (n : String) (h : n ∈ ["x", "S", "a", "b", "m", "N", "V"]) :
      Formed (.binding 0 n) := .binding (hname n h).1 (hname n h).2
  have hnumber : Formed (.literal 0 (.int (-1))) :=
    .literal (show (Nat.toDigits 10 1).length ≤ maxDecimalDigits by decide)
  have htuple : Formed (.tuple 0
      [.wildcard 0, .binding 0 "x", .tuple 0 [.literal 0 (.int (-1))] none] (some 1)) := by
    refine .tuple ?_ (by simp)
    simp only [List.forall_mem_cons]
    exact ⟨.wildcard, hbinding "x" (by simp),
      .tuple (List.forall_mem_singleton.mpr hnumber) (by simp), by simp⟩
  have hstruct : Formed (.struct 0 ["S"] [("a", .or 0 [.literal 0 .null,
      .literal 0 (.text [.ofChar 'q'])]), ("b", .binding 0 "b")] true) := by
    refine .struct (hpath "S" [] (by simp)) ?_ ?_ <;> simp only [List.forall_mem_cons]
    · exact ⟨(hname "a" (by simp)).1, (hname "b" (by simp)).1, by simp⟩
    · refine ⟨.or (by simp) ?_, hbinding "b" (by simp), by simp⟩
      simp only [List.forall_mem_cons]
      exact ⟨.literal trivial, .literal trivial, by simp⟩
  have hchoice : Formed (.or 0
      [.value 0 ["m", "N"], .variant 0 ["V"] [.tuple 0 [] none, .literal 0 (.bool true)]]) := by
    refine .or (by simp) ?_
    simp only [List.forall_mem_cons]
    refine ⟨.value (hpath "m" ["N"] (by simp)) (by simp),
      .variant (hpath "V" [] (by simp)) ?_, by simp⟩
    simp only [List.forall_mem_cons]
    exact ⟨.tuple (by simp) (by simp), .literal trivial, by simp⟩
  have hformed : Formed everyForm := by
    refine .or (by simp) ?_
    simp only [List.forall_mem_cons]
    exact ⟨htuple, hstruct, hchoice, by simp⟩
  have hdepth : everyForm.brackets < maxDepth := by decide
  exact ⟨by decide, hformed, hdepth, (readsAs_text.2.1 everyForm hformed hdepth).2⟩

end Stencil.Pattern
