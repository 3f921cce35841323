import Stencil.Proofs.CodeLiterals
import Stencil.Proofs.ReadCode

/-!
# Emitted code

Code that is emitted for an expression is split into tokens that are a primary, so that it can stand
in any place of a larger expression.

* `CodeExpr.Emits`: a text has given tokens, and they are a primary with a given tree.
* `CodeExpr.EmitsFull.paren`, `CodeExpr.Emits.call`, ...: larger texts.
* **`CodeExpr.Emits.read`**: the tree of a whole text.
-/

namespace Stencil.CodeExpr

open Text CodeToken

variable {point : Bool} {c d n o w : String} {ts us rest : List Char} {a b : List CodeToken}
variable {e f : CodeExpr} {cs : List String} {tss : List (List CodeToken)} {es : List CodeExpr}

/-- Marks that no other operator starts with. -/
def marks : List String := ["(", ")", "[", "]", ","]

/-- A text whose first character makes no sign before it a longer operator. -/
def Starts (code : String) : Prop := ∃ x cs, code.toList = x :: cs ∧ x ≠ '=' ∧ x ≠ '>'

/-- **A text that is emitted for a tree**: where no word and no quote follows, it has the given
tokens, and these are a primary with that tree. A point may follow only if `point`. -/
structure Emits (point : Bool) (code : String) (ts : List CodeToken) (e : CodeExpr) : Prop where
  lexes : ∀ rest, Detached rest → (point = true ∨ rest.head? ≠ some '.') →
    Lexes code.toList ts rest
  start : Starts code
  primary : IsPrimary ts e

/-- A text that is emitted for a tree between marks: its tokens need not be a primary. -/
structure EmitsFull (code : String) (ts : List CodeToken) (e : CodeExpr) : Prop where
  lexes : ∀ o ∈ marks, ∀ rest, Lexes code.toList ts (o.toList ++ rest)
  full : IsFull ts e

/-- Texts that are emitted for trees between marks. -/
inductive EmitsAll : List String → List (List CodeToken) → List CodeExpr → Prop where
  | nil : EmitsAll [] [] []
  | cons {c : String} {a : List CodeToken} {e : CodeExpr} {cs : List String}
      {tss : List (List CodeToken)} {es : List CodeExpr} (h : EmitsFull c a e)
      (hs : EmitsAll cs tss es) : EmitsAll (c :: cs) (a :: tss) (e :: es)

/-! ## Marks -/

theorem mem_operators_of_mem_marks : ∀ o ∈ marks, o ∈ operators := by
  decide +kernel

theorem lexes_mark (ho : o ∈ marks) : Lexes o.toList [.op o] rest := by
  have hmarks : ∀ o ∈ marks, continuations o = [] := by decide +kernel
  refine lexes_op (mem_operators_of_mem_marks o ho) fun c _ hc => ?_
  rw [hmarks o ho] at hc
  cases hc

/-- An operator with a space after it. -/
theorem lexes_spaced (ho : o ∈ operators) : Lexes (o ++ " ").toList [.op o] rest := by
  have hspace : ∀ o ∈ operators, ' ' ∉ continuations o := by decide +kernel
  have hop : Lexes o.toList [.op o] (" ".toList ++ rest) :=
    lexes_op ho fun c hc => by cases hc; exact hspace o ho
  have hblank : Lexes " ".toList [] rest := .space
  rw [String.toList_append]
  exact hop.append hblank

/-- Parts in a row. -/
theorem lexes_append (h : Lexes c.toList a (d.toList ++ rest)) (h' : Lexes d.toList b rest) :
    Lexes (c ++ d).toList (a ++ b) rest := by
  rw [String.toList_append]
  exact h.append h'

theorem detached_op (ho : o ∈ operators) : Detached (o.toList ++ rest) := by
  obtain ⟨c, cs, hcs, -, hquote, hword, -⟩ := operator_start o ho
  rw [hcs]
  exact detached_cons hword hquote

/-- **A primary may stand between marks.** -/
theorem Emits.full (h : Emits point c a e) : EmitsFull c a e where
  lexes o ho rest := by
    have hmarks : ∀ o ∈ marks, ∃ x cs, o.toList = x :: cs ∧ x ≠ '.' := by
      intro o ho
      obtain rfl | rfl | rfl | rfl | rfl : o = "(" ∨ o = ")" ∨ o = "[" ∨ o = "]" ∨ o = "," := by
        simpa [marks] using ho
      all_goals exact ⟨_, [], rfl, by decide⟩
    obtain ⟨x, cs, hcs, hx⟩ := hmarks o ho
    refine h.lexes _ (detached_op (mem_operators_of_mem_marks o ho)) (.inr ?_)
    rw [hcs]
    simpa using hx
  full := h.primary.isFull

theorem Emits.before_mark (h : Emits point c a e) (ho : o ∈ marks) :
    Lexes c.toList a (o.toList ++ rest) := h.full.lexes o ho rest

theorem lexes_space : Lexes " ".toList [] rest := .space

/-- A space may follow. -/
theorem Emits.before_space (h : Emits point c a e) : Lexes c.toList a (" ".toList ++ rest) :=
  h.lexes _ (detached_cons (by decide) (by decide)) (.inr (by simp))

/-- What stands between two marks. -/
theorem lexes_between (ho : o ∈ marks) (hw : w ∈ marks)
    (h : Lexes c.toList a (w.toList ++ rest)) :
    Lexes (o ++ c ++ w).toList (.op o :: (a ++ [.op w])) rest := by
  have hlex := lexes_append (lexes_append (lexes_mark ho) h) (lexes_mark hw)
  rwa [List.append_assoc, List.singleton_append] at hlex

/-- What stands in brackets after something else. -/
theorem lexes_brackets (ho : o ∈ marks) (hw : w ∈ marks)
    (h : ∀ rest, Lexes c.toList a (o.toList ++ rest))
    (h' : ∀ rest, Lexes d.toList b (w.toList ++ rest)) :
    Lexes (c ++ o ++ d ++ w).toList (a ++ .op o :: (b ++ [.op w])) rest := by
  have hlex := lexes_append (lexes_append (lexes_append (h (d.toList ++ (w.toList ++ rest)))
    (lexes_mark ho)) (h' rest)) (lexes_mark hw)
  rwa [List.append_assoc, List.append_assoc, List.singleton_append] at hlex

/-! ## Items -/

theorem EmitsAll.isItems (h : EmitsAll cs tss es) : IsItems ([.op ","].intercalate tss) es := by
  induction h with
  | nil => exact isItems_nil
  | cons h hs ih =>
    cases hs with
    | nil =>
      rw [List.intercalate_singleton]
      exact isItems_single h.full
    | cons h' hs =>
      rw [List.intercalate_cons_cons, List.append_assoc]
      exact isItems_cons h.full ih

theorem lexes_comma : Lexes ", ".toList [.op ","] rest := @lexes_spaced "," rest (by decide +kernel)

/-- **Items with commas between them**, before a mark. -/
theorem EmitsAll.lexes (h : EmitsAll cs tss es) (hw : w ∈ marks) :
    Lexes (", ".intercalate cs).toList ([.op ","].intercalate tss) (w.toList ++ rest) := by
  induction h with
  | nil => exact fun _ _ hout => hout
  | cons h hs ih =>
    cases hs with
    | nil =>
      rw [String.intercalate_singleton, List.intercalate_singleton]
      exact h.lexes _ hw _
    | cons h' hs =>
      rw [String.intercalate_cons_cons, List.intercalate_cons_cons]
      exact lexes_append (lexes_append (h.lexes "," (by decide) _) lexes_comma) ih

/-! ## Primaries -/

theorem Starts.append (h : Starts c) : Starts (c ++ d) := by
  obtain ⟨x, cs, hx, hne⟩ := h
  exact ⟨x, cs ++ d.toList, by rw [String.toList_append, hx, List.cons_append], hne⟩

theorem starts_open : Starts ("(" ++ c) := Starts.append ⟨'(', [], rfl, by decide⟩

/-- **What is emitted between parentheses** is a primary, whatever operation it is. -/
theorem EmitsFull.paren (h : EmitsFull c a e) :
    Emits point ("(" ++ c ++ ")") (.op "(" :: (a ++ [.op ")"])) e where
  lexes _ _ _ := lexes_between (by decide) (by decide) (h.lexes _ (by decide) _)
  start := starts_open.append
  primary := h.full.paren

theorem isDigit_of_isDigit {x : Char} (h : x.isDigit = true) : Text.isDigit x = true := by
  have hz : zeros = 0x30 :: zeros.tail := rfl
  have hx : 48 ≤ x.toNat ∧ x.toNat ≤ 57 := Char.isDigit_iff_toNat.mp h
  rw [Text.isDigit, digitValue?, hz, List.find?_cons_of_pos (by simp; omega)]
  rfl

/-- **A name is one word**, if no word and no quote follows. -/
theorem lexes_name (hn : Expr.IsName n) (hrest : Detached rest) :
    Lexes n.toList [.word n] rest := by
  obtain ⟨x, cs, hcs, hx, hw⟩ := hn.exists_cons
  obtain ⟨hx, hd⟩ := Expr.isNameStart_iff.mp hx
  refine lexes_word (fun y hy => ?_) ⟨x, cs, hcs, ?_⟩ hrest
  · rw [hcs] at hy
    rcases List.mem_cons.mp hy with rfl | hy
    · exact hx
    · exact hw y hy
  · cases hdx : x.isDigit with
    | false => rfl
    | true => rw [isDigit_of_isDigit hdx] at hd; cases hd

theorem starts_name (hn : Expr.IsName n) : Starts n := by
  obtain ⟨x, cs, hcs, hx, -⟩ := hn.exists_cons
  obtain ⟨hx, -⟩ := Expr.isNameStart_iff.mp hx
  refine ⟨x, cs, hcs, ?_, ?_⟩ <;> rintro rfl <;> exact absurd hx (by decide)

theorem emits_name (hn : Expr.IsName n) : Emits point n [.word n] (name n) where
  lexes _ hrest _ := lexes_name hn hrest
  start := starts_name hn
  primary := isPrimary_name hn.not_reserved

/-- A point is a token of its own, if no other point follows. -/
theorem lexes_point (hrest : rest.head? ≠ some '.') : Lexes ".".toList [.op "."] rest := by
  have hcont : continuations "." = ['.'] := by decide +kernel
  refine lexes_op (by decide +kernel) fun x hx hmem => hrest ?_
  rw [hcont] at hmem
  rw [hx, List.mem_singleton.mp hmem]

/-- A name does not start with a point. -/
theorem head?_name (hn : Expr.IsName n) : (n.toList ++ rest).head? ≠ some '.' := by
  obtain ⟨x, cs, hcs, hx, -⟩ := hn.exists_cons
  rw [hcs]
  rintro ⟨⟩
  exact absurd hx (by decide)

theorem Emits.member (h : Emits true c a e) (hn : Expr.IsName n) :
    Emits point (c ++ "." ++ n) (a ++ [.op ".", .word n]) (member e n) where
  lexes rest hrest _ := by
    have hlex := lexes_append (lexes_append (h.lexes _ (detached_op (by decide +kernel)) (.inl rfl))
      (lexes_point (head?_name hn))) (lexes_name hn hrest)
    rwa [List.append_assoc] at hlex
  start := h.start.append.append
  primary := h.primary.member hn.not_reserved

theorem Emits.call (h : Emits true c a e) (hs : EmitsAll cs tss es) :
    Emits point (c ++ "(" ++ ", ".intercalate cs ++ ")")
      (a ++ .op "(" :: ([.op ","].intercalate tss ++ [.op ")"])) (call e es) where
  lexes _ _ _ := lexes_brackets (by decide) (by decide) (fun _ => h.before_mark (by decide))
    fun _ => hs.lexes (by decide)
  start := h.start.append.append.append
  primary := h.primary.call hs.isItems

theorem Emits.subscript (h : Emits true c a e) (h' : EmitsFull d b f) :
    Emits point (c ++ "[" ++ d ++ "]") (a ++ .op "[" :: (b ++ [.op "]"])) (subscript e f) where
  lexes _ _ _ := lexes_brackets (by decide) (by decide) (fun _ => h.before_mark (by decide))
    fun _ => h'.lexes _ (by decide) _
  start := h.start.append.append.append
  primary := h.primary.subscript h'.full

theorem EmitsAll.list (hs : EmitsAll cs tss es) :
    Emits point ("[" ++ ", ".intercalate cs ++ "]")
      (.op "[" :: ([.op ","].intercalate tss ++ [.op "]"])) (list es) where
  lexes _ _ _ := lexes_between (by decide) (by decide) (hs.lexes (by decide))
  start := Starts.append (Starts.append ⟨'[', [], rfl, by decide⟩)
  primary := hs.isItems.list

/-- A tuple of one item has a comma. -/
theorem EmitsFull.tuple (h : EmitsFull c a e) :
    Emits point ("(" ++ c ++ ",)") (.op "(" :: (a ++ .op "," :: ([] ++ [.op ")"])))
      (tuple [e]) where
  lexes rest _ _ := by
    have hend : ",)" = "," ++ ")" := rfl
    have hcomma : Lexes ("(" ++ c ++ ",").toList (.op "(" :: (a ++ [.op ","]))
        (")".toList ++ rest) := lexes_between (by decide) (by decide) (h.lexes _ (by decide) _)
    have hlex := lexes_append hcomma (lexes_mark (by decide))
    rw [hend, ← String.append_assoc]
    simpa using hlex
  start := starts_open.append
  primary := h.full.tuple isItems_nil

/-- A tuple of no items, or of at least two. -/
theorem EmitsAll.tuple (hs : EmitsAll cs tss es) (hlen : cs.length ≠ 1) :
    Emits point ("(" ++ ", ".intercalate cs ++ ")")
      (.op "(" :: ([.op ","].intercalate tss ++ [.op ")"])) (tuple es) where
  lexes _ _ _ := lexes_between (by decide) (by decide) (hs.lexes (by decide))
  start := starts_open.append
  primary := by
    cases hs with
    | nil => exact isPrimary_unit
    | cons h hs =>
      cases hs with
      | nil => exact absurd rfl hlen
      | cons h' hs =>
        have hitems := (EmitsAll.cons h' hs).isItems
        rw [List.intercalate_cons_cons, List.append_assoc, List.append_assoc]
        exact h.full.tuple hitems

/-! ## Literals -/

/-- A word that is a literal. -/
theorem emits_word (hw : w.toList.all isWord = true)
    (hstart : ∃ x cs, w.toList = x :: cs ∧ x.isDigit = false ∧ x ≠ '=' ∧ x ≠ '>')
    (hnot : w ≠ "not") (h : ofWord? w = some e) : Emits point w [.word w] e where
  lexes _ hrest _ := by
    obtain ⟨x, cs, hcs, hx, -⟩ := hstart
    exact lexes_word (List.all_eq_true.mp hw) ⟨x, cs, hcs, hx⟩ hrest
  start := by
    obtain ⟨x, cs, hcs, -, hx⟩ := hstart
    exact ⟨x, cs, hcs, hx⟩
  primary := isPrimary_word hnot h

theorem starts_of_isDigit {x : Char} {cs : List Char} (h : c.toList = x :: cs)
    (hx : x.isDigit = true) : Starts c := by
  refine ⟨x, cs, h, ?_, ?_⟩ <;> rintro rfl <;> cases hx

theorem emits_int {m : Nat} (hm : m < 10 ^ maxDecimalDigits)
    (hc : c.toList = Nat.toDigits 10 m) : Emits false c [.int m] (int m) where
  lexes _ hrest hpoint := by
    rw [hc]
    exact lexes_int hm hrest (hpoint.resolve_left (by decide))
  start := by
    obtain ⟨x, cs, hcs⟩ := List.exists_cons_of_ne_nil (Nat.toDigits_ne_nil (n := m) (b := 10))
    exact starts_of_isDigit (hc.trans hcs)
      ((isDigits_toDigits m).isDigit x (hcs ▸ List.mem_cons_self))
  primary := isPrimary_int m

theorem emits_text (ps : List CodePoint) : Emits point (quotePoints ps) [.text ps] (text ps) where
  lexes _ hrest _ := lexes_text ps hrest
  start := by
    unfold quotePoints
    dsimp only
    rw [Starts, String.toList_ofList]
    exact ⟨(markFor ps).char, _, rfl, by cases markFor ps <;> decide⟩
  primary := isPrimary_text ps

/-- A finite number without a sign. -/
theorem emits_float {x : Binary64} (hsign : x.bits.toNat ≤ Binary64.infiniteBits)
    (hfinite : x.isFinite = true) : Emits false (x.text .literal) [.float x] (float x) where
  lexes _ hrest hpoint := lexes_float hsign hfinite hrest (hpoint.resolve_left (by decide))
  start := by
    obtain ⟨whole, frac, exp, htext, hw, -⟩ := isFloat_text hsign hfinite
    obtain ⟨y, ys, hys⟩ := List.exists_cons_of_ne_nil hw.ne_nil
    rw [hys] at htext
    exact starts_of_isDigit htext (hw.isDigit y (hys ▸ List.mem_cons_self))
  primary := isPrimary_float x

/-- **An infinite number is emitted as a call.** -/
theorem emits_infinite : Emits point ("float(" ++ quote "inf" ++ ")")
    [.word "float", .op "(", .text (CodePoint.ofString "inf"), .op ")"]
    (call (name "float") [text (CodePoint.ofString "inf")]) := by
  have hname : Expr.IsName "float" := ⟨by decide +kernel, by decide +kernel, by decide +kernel⟩
  have htext : Emits false (quote "inf") [.text (CodePoint.ofString "inf")]
      (text (CodePoint.ofString "inf")) := emits_text _
  exact (emits_name hname).call (.cons htext.full .nil)

/-! ## Operations -/

/-- **An operator between two primaries.** -/
theorem emits_operation {p q : Bool} {t : CodeToken} {g : CodeExpr} (h : Emits p c a e)
    (h' : Emits q d b f) (ho : ∀ rest, Lexes (o ++ " ").toList [t] rest)
    (hfull : IsFull (a ++ t :: b) g) : EmitsFull (c ++ " " ++ (o ++ " ") ++ d) (a ++ t :: b) g where
  lexes w hw rest := by
    have hleft : Lexes (c ++ " ").toList (a ++ [])
        ((o ++ " ").toList ++ (d.toList ++ (w.toList ++ rest))) :=
      lexes_append h.before_space lexes_space
    have hlex := lexes_append (lexes_append hleft (ho _)) (h'.before_mark hw)
    rwa [List.append_nil, List.append_assoc, List.singleton_append] at hlex
  full := hfull

/-- A word that is an operator, with a space after it. -/
theorem lexes_operator_word (hw : w ∈ ["or", "and", "not"]) :
    Lexes (w ++ " ").toList [.word w] rest := by
  have hwords : ∀ w ∈ ["or", "and", "not"], w.toList.all isWord ∧
      w.toList.head?.any (!·.isDigit) := by decide +kernel
  obtain ⟨hword, hstart⟩ := hwords w hw
  have hspace : Detached (' ' :: rest) := detached_cons (by decide) (by decide)
  refine lexes_append (lexes_word (List.all_eq_true.mp hword) ?_ hspace) lexes_space
  cases hcs : w.toList with
  | nil => rw [hcs] at hstart; cases hstart
  | cons x xs =>
    rw [hcs] at hstart
    exact ⟨x, xs, rfl, by simpa using hstart⟩

theorem emitsFull_not (h : Emits point c a e) :
    EmitsFull ("not " ++ c) (.word "not" :: a) (unary "not" e) where
  lexes w hw rest := by
    exact lexes_append (c := "not" ++ " ") (lexes_operator_word (by simp)) (h.before_mark hw)
  full := isFull_not h.primary

/-- A sign is no part of a longer operator, as no operand starts like one. -/
theorem lexes_sign (h : Starts c) : Lexes "-".toList [.op "-"] (c.toList ++ rest) := by
  have hcont : continuations "-" = ['=', '>'] := by decide +kernel
  obtain ⟨x, xs, hxs, hne, hne'⟩ := h
  refine lexes_op (by decide +kernel) fun y hy hmem => ?_
  rw [hxs] at hy
  cases hy
  have hor : x = '=' ∨ x = '>' := by simpa [hcont] using hmem
  exact hor.elim hne hne'

theorem emitsFull_neg (h : Emits point c a e) :
    EmitsFull ("-" ++ c) (.op "-" :: a) (unary "-" e) where
  lexes w hw rest := lexes_append (lexes_sign h.start) (h.before_mark hw)
  full := isFull_sign (by decide) h.primary

/-! ## Whole texts -/

/-- **A text that is emitted for a tree is read as that tree.** -/
theorem Emits.read (h : Emits point c a e) : read c.toList = some e := by
  have hlex := (h.lexes [] detached_nil (.inr (by simp))).lex (Nat.le_refl _)
  have hread := h.primary.isFull.reads (16 * (a.length + 1)) [] (by omega) (fun t ht => by cases ht)
  rw [List.append_nil] at hread
  rw [CodeExpr.read, hlex, Option.bind_some, ofTokens, hread]

end Stencil.CodeExpr
