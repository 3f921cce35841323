import Stencil.Proofs.ChainReading
import Stencil.Proofs.Declarations

/-!
# Using the parameters of a declaration

A parameter has a name that is no reserved word of the generated code. In a body and in an expression
the same word is read by other rules: four words of the template language are no names there, and a
word that starts with `else` and a digit is taken for the `else` of a branch. All other names are
read as the parameter.

* `templateWords`, `IsElseNumber`: the words that are read as something else.
* `Expr.readChain_name`, `Template.Read.construct_word`: how the readers take a word.
* **`Outline.usable_iff`**: the parameters that can be used, in a body and in an expression.
-/

namespace Stencil

open Text Expr

/-- The words of the template language that are not reserved in the generated code. -/
def templateWords : List String := ["let", "match", "true", "false"]

/-- **A word that starts with `else` and a digit.** -/
def IsElseNumber (n : String) : Prop :=
  ∃ c cs, n.toList = 'e' :: 'l' :: 's' :: 'e' :: c :: cs ∧ isDigit c = true

/-! ## Words in expressions -/

namespace Expr

variable {n : String} {e : Expr} {pos : Nat} {c : Cursor}

/-- The other words are names. -/
theorem isName_of_not_templateWord (hw : name? n.toList = some (n.toList, []))
    (hreserved : isReserved n = false) (h : n ∉ templateWords) : IsName n := by
  have hall : ∀ w ∈ keywords, isReserved w = false → w ∈ templateWords := by decide
  refine ⟨hw, Bool.eq_false_iff.mpr fun hkeyword => h ?_, hreserved⟩
  exact hall n (List.contains_iff_mem.mp hkeyword) hreserved

/-- **A name at the end of a text is read as a chain.** -/
theorem readChain_name (h : IsName n) (pos : Nat) :
    ∃ pos', readChain ⟨pos, n.toList⟩ = .ok (.name pos n, ⟨pos', []⟩) := by
  have hscan : scan n.toList = ⟨.name, n.toList, []⟩ := by
    have hend : Wordless [] := fun c hc => by cases hc
    simpa using scan_name h hend
  obtain ⟨s, hsteps⟩ : ∃ s, (⟨pos, n.toList⟩ : Cursor).steps = s + 3 :=
    ⟨_, (Nat.sub_add_cancel (by simp only [Cursor.steps]; omega)).symm⟩
  have hpeek : (⟨pos, n.toList⟩ : Cursor).peek true = (⟨pos, n.toList⟩ : Cursor).peek false :=
    (Cursor.peek_of_scan hscan (by decide) true).trans
      (Cursor.peek_of_scan hscan (by decide) false).symm
  have hapart : Apart [] := .inl rfl
  obtain ⟨pos', hprimary⟩ := Read.primary_path (d := 0) (s + 1) pos n [] (by simpa using h)
    (Nat.succ_pos s) hapart
  rw [show printPath [n] ++ [] = n.toList by simp [printPath], Read.primary_spaced hpeek]
    at hprimary
  refine ⟨pos', ?_⟩
  have hop : (⟨.name, n.toList, pos⟩ : Token).isOp "(" = false := rfl
  rw [readChain, Cursor.token_of_scan hscan, hop, if_neg Bool.false_ne_true, hsteps,
    Read.postfixed, hprimary]
  rfl

/-- **A name is read as an expression.** -/
theorem parse_name (h : IsName n) : parse n.toList = .ok (.name 0 n) := by
  obtain ⟨pos', hchain⟩ := readChain_name h 0
  rw [parse, Cursor.ofText_zero, readExpression_of_readChain hchain]
  rfl

/-- A word of the template language is no name. -/
theorem readChain_templateWord (h : n ∈ templateWords) (pos pos' : Nat) :
    readChain ⟨pos, n.toList⟩ ≠ .ok (.name pos' n, c) := by
  simp only [templateWords, List.mem_cons, List.not_mem_nil, or_false] at h
  rcases h with rfl | rfl | rfl | rfl <;> exact fun h => by cases h

theorem parse_templateWord (h : n ∈ templateWords) (pos : Nat) :
    parse n.toList ≠ .ok (.name pos n) := by
  simp only [templateWords, List.mem_cons, List.not_mem_nil, or_false] at h
  rcases h with rfl | rfl | rfl | rfl <;> exact fun h => by cases h

end Expr

/-! ## Words in bodies -/

namespace Template.Read

open Cursor

variable {n : String} {w : List Char} {pos s d : Nat}

theorem isWord_of_mem (hw : name? w = some (w, [])) : ∀ c ∈ w, isWord c = true := by
  obtain ⟨x, xs, rfl, hstart, hxs⟩ := exists_cons_of_name? hw
  exact List.forall_mem_cons.mpr ⟨(isNameStart_iff.mp hstart).1, hxs⟩

/-- No white space stands in a word. -/
theorem atWordBlank_word (hw : name? w = some (w, [])) (pos : Nat) (word : String) :
    (⟨pos, w⟩ : Cursor).atWordBlank word = false := by
  rw [atWordBlank, Bool.and_eq_false_iff]
  refine .inr ?_
  cases hhead : ((⟨pos, w⟩ : Cursor).skip word.length).rest.head? with
  | none => rfl
  | some c =>
    exact isBlank_of_isWord
      (isWord_of_mem hw c (List.mem_of_mem_drop (List.mem_of_mem_head? hhead)))

/-- **A word behind an `@` at the end of a text** is read as a chain, unless it is taken for an
`else`. -/
theorem construct_word (hw : name? w = some (w, [])) :
    construct (s + 1) d ⟨pos, '@' :: w⟩ =
      if (⟨pos + 1, w⟩ : Cursor).startsWith "else" && !((⟨pos + 1, w⟩ : Cursor).skip 4).atName then
        .error (.at .elseWithoutIf pos)
      else readChain ⟨pos + 1, w⟩ >>= fun x => pure (.value pos x.1 false, x.2) := by
  have hkeyword : (⟨pos + 1, w⟩ : Cursor).keyword? = none := by
    simp only [keyword?, atWordBlank_word hw, Bool.false_eq_true, if_false]
  obtain ⟨x, xs, rfl, hstart, -⟩ := exists_cons_of_name? hw
  have hne {y : Char} (hy : isNameStart y = false) : y ≠ x := by
    rintro rfl
    exact Bool.false_ne_true (hy.symm.trans hstart)
  have hcomment : (⟨pos, '@' :: x :: xs⟩ : Cursor).comment? = none := by
    have hblock : (⟨pos, '@' :: x :: xs⟩ : Cursor).startsWith "@*" = false := by
      show ['@', '*'].isPrefixOf ('@' :: x :: xs) = false
      simp [List.isPrefixOf, hne (y := '*') (by decide)]
    have hline : (⟨pos, '@' :: x :: xs⟩ : Cursor).startsWith "@//" = false := by
      show ['@', '/', '/'].isPrefixOf ('@' :: x :: xs) = false
      simp [List.isPrefixOf, hne (y := '/') (by decide)]
    rw [comment?, hblock, hline]
    rfl
  have hcolon : (⟨pos + 1, x :: xs⟩ : Cursor).startsWith ":" = false := by
    show [':'].isPrefixOf (x :: xs) = false
    simp [List.isPrefixOf, hne (y := ':') (by decide)]
  have hraw : (⟨pos + 1, x :: xs⟩ : Cursor).startsWith "!" = false := by
    show ['!'].isPrefixOf (x :: xs) = false
    simp [List.isPrefixOf, hne (y := '!') (by decide)]
  have hname : (⟨pos + 1, x :: xs⟩ : Cursor).atName = true := hstart
  have hafter : (⟨pos, '@' :: x :: xs⟩ : Cursor).skip 1 = ⟨pos + 1, x :: xs⟩ := rfl
  rw [construct, hcomment]
  simp only [hafter, hcolon, hraw, hkeyword, hname, Bool.or_true, Bool.false_eq_true, if_false,
    if_true]

/-- A body that is an `@` and a word. -/
theorem body_word (hw : name? w = some (w, [])) :
    body (s + 2) false 0 0 ⟨pos, []⟩ ⟨pos, '@' :: w⟩ =
      (construct (s + 1) 0 ⟨pos, '@' :: w⟩ >>= fun (node, c) =>
        body (s + 1) false 0 0 ⟨c.position, []⟩ c >>= fun (nodes, c) => .ok (node :: nodes, c)) := by
  obtain ⟨x, xs, rfl, hstart, -⟩ := exists_cons_of_name? hw
  have hne {y : Char} (hy : isNameStart y = false) : x ≠ y := by
    rintro rfl
    exact Bool.false_ne_true (hy.symm.trans hstart)
  exact body_construct (hne (by decide)) (hne (by decide)) (hne (by decide))

/-- The words that are taken for an `else`. -/
theorem isElseNumber_iff (hw : name? n.toList = some (n.toList, [])) (hn : n ≠ "else") (pos : Nat) :
    ((⟨pos, n.toList⟩ : Cursor).startsWith "else" &&
      !((⟨pos, n.toList⟩ : Cursor).skip 4).atName) = true ↔ IsElseNumber n := by
  rw [Bool.and_eq_true, Bool.not_eq_true']
  constructor
  · rintro ⟨helse, hname⟩
    have hrest : n.toList = ['e', 'l', 's', 'e'] ++ ((⟨pos, n.toList⟩ : Cursor).skip 4).rest :=
      (past_of_startsWith helse).1
    rw [atName] at hname
    cases hleft : ((⟨pos, n.toList⟩ : Cursor).skip 4).rest with
    | nil =>
      rw [hleft] at hrest
      exact absurd (String.toList_inj.mp hrest) hn
    | cons c cs =>
      rw [hleft] at hrest hname
      have hword : isWord c = true := isWord_of_mem hw c (by simp [hrest])
      refine ⟨c, cs, hrest, ?_⟩
      cases hdigit : isDigit c with
      | true => rfl
      | false => exact absurd (isNameStart_iff.mpr ⟨hword, hdigit⟩) (Bool.eq_false_iff.mp hname)
  · rintro ⟨c, cs, hc, hdigit⟩
    rw [hc]
    refine ⟨rfl, ?_⟩
    show isNameStart c = false
    rw [Bool.eq_false_iff]
    exact fun h => Bool.false_ne_true ((isNameStart_iff.mp h).2.symm.trans hdigit)

/-- **A word that is free in the generated code is the value of that name** behind an `@`, or it is a
word of the template language or taken for an `else`. -/
theorem exists_body_word_iff (hw : name? n.toList = some (n.toList, []))
    (hreserved : isReserved n = false) (s pos : Nat) :
    (∃ c, body (s + 2) false 0 0 ⟨pos, []⟩ ⟨pos, '@' :: n.toList⟩ =
      .ok ([.value pos (.name (pos + 1) n) false], c)) ↔
    n ∉ templateWords ∧ ¬ IsElseNumber n := by
  have hne : n ≠ "else" := by
    rintro rfl
    exact absurd hreserved (by decide)
  have helse := isElseNumber_iff hw hne (pos + 1)
  rw [body_word hw, construct_word hw]
  constructor
  · rintro ⟨c, h⟩
    obtain ⟨⟨node, c₁⟩, hnode, h⟩ := Except.bind_ok.mp h
    obtain ⟨⟨nodes, c₂⟩, -, h⟩ := Except.bind_ok.mp h
    cases h
    split at hnode
    next => cases hnode
    next hnot =>
      obtain ⟨⟨e, c₃⟩, hchain, hnode⟩ := Except.bind_ok.mp hnode
      cases hnode
      exact ⟨fun hmem => readChain_templateWord hmem _ _ hchain, fun h => hnot (helse.mpr h)⟩
  · rintro ⟨hmem, hnot⟩
    obtain ⟨pos', hchain⟩ := readChain_name (isName_of_not_templateWord hw hreserved hmem) (pos + 1)
    rw [if_neg fun h => hnot (helse.mp h), hchain]
    exact ⟨⟨pos', []⟩, rfl⟩

/-! ## Behind a declaration -/

/-- The end of a declaration is skipped in front of an `@`. -/
theorem skipDeclarationEnd_append {gap : List Char} (hgap : IsDeclarationEnd gap) (pos : Nat)
    (w : List Char) : (⟨pos, gap ++ '@' :: w⟩ : Cursor).skipDeclarationEnd =
      ⟨pos + gap.length, '@' :: w⟩ := by
  obtain rfl | ⟨blanks, lineBreak, rfl, hblanks, hbreak⟩ := hgap
  · rfl
  · have hhead : ∀ c, (lineBreak ++ '@' :: w).head? = some c → isSpaceOrTab c = false := by
      rcases hbreak with rfl | rfl <;> exact fun c hc => by cases hc; rfl
    obtain ⟨htake, hdrop⟩ := takeWhile_run hblanks hhead
    have hnext : (⟨pos, blanks ++ lineBreak ++ '@' :: w⟩ : Cursor).skipWhile isSpaceOrTab =
        ⟨pos + blanks.length, lineBreak ++ '@' :: w⟩ := by
      rw [skipWhile, List.append_assoc, htake, hdrop]
    rw [skipDeclarationEnd, hnext, List.length_append, ← Nat.add_assoc]
    rcases hbreak with rfl | rfl <;> rfl

/-- **A declaration that a text ends with** is read the same if an `@` follows it. -/
theorem declaration_append {cs w : List Char} {imports : List String} {ps : List Param} {c : Cursor}
    (h : declaration ('@' :: '(' :: cs) = .ok (imports, ps, c)) (hend : c.rest = []) :
    imports = [] ∧
    (∀ p ∈ ps, name? p.name.toList = some (p.name.toList, []) ∧ isReserved p.name = false) ∧
    declaration ('@' :: '(' :: (cs ++ '@' :: w)) = .ok ([], ps, ⟨cs.length + 2, '@' :: w⟩) := by
  obtain ⟨c₀, a, written, inside, hpreamble, hpast, rfl, hdeclares, rfl, hall⟩ := exists_declares h
  rw [ofText_zero] at hpreamble
  cases preamble_print.symm.trans hpreamble
  obtain ⟨gap, hgap, hisEnd⟩ := a.past_skipDeclarationEnd
  have hrest : a.rest = gap := by rw [hgap.1, hend, List.append_nil]
  obtain rfl : cs = inside ++ gap := by simpa [hrest] using hpast.1
  refine ⟨rfl, fun p hp => ?_, ?_⟩
  · obtain ⟨q, hq, rfl⟩ := List.mem_map.mp hp
    exact ⟨(hdeclares.forall_mem q hq).1, (hall.allowed _ hp).not_reserved⟩
  · rw [List.append_assoc, declaration_of_declares hdeclares hall,
      skipDeclarationEnd_append hisEnd, List.length_append, Nat.add_comm 2, Nat.add_right_comm]

end Template.Read

/-! ## Templates -/

/-- **The parameters that can be used.** If the text of a declaration is accepted as a template, then
the name of each of its parameters, behind an `@` after it, is the escaped value of that name, unless
the name is a word of the template language or starts with `else` and a digit; and it is that name
as an expression, unless it is a word of the template language. -/
theorem Outline.usable_iff {cs : List Char} {o : Outline} {n : String}
    (h : Outline.parse ('@' :: '(' :: cs) = .ok o) (hbody : o.body = [])
    (hn : n ∈ o.params.map Param.name) :
    (Outline.parse ('@' :: '(' :: (cs ++ '@' :: n.toList)) =
        .ok ⟨[], o.params, [.value (cs.length + 2) (.name (cs.length + 3) n) false]⟩ ↔
      n ∉ templateWords ∧ ¬ IsElseNumber n) ∧
    (Expr.parse n.toList = .ok (.name 0 n) ↔ n ∉ templateWords) := by
  obtain ⟨c, e, hdeclaration, hread⟩ := Outline.parse_ok.mp h
  rw [hbody] at hread
  obtain ⟨hspans, hend⟩ := Template.Read.spans_of_body hread
  cases hspans
  obtain ⟨-, hnames, hdeclaration⟩ :=
    Template.Read.declaration_append (w := n.toList) hdeclaration hend
  obtain ⟨p, hp, rfl⟩ := List.mem_map.mp hn
  obtain ⟨hword, hreserved⟩ := hnames p hp
  refine ⟨?_, fun h hmem => Expr.parse_templateWord hmem 0 h, fun h =>
    Expr.parse_name (Expr.isName_of_not_templateWord hword hreserved h)⟩
  obtain ⟨s, hs⟩ : ∃ s, (⟨cs.length + 2, '@' :: p.name.toList⟩ : Cursor).steps = s + 2 :=
    ⟨_, (Nat.sub_add_cancel (by simp only [Cursor.steps]; omega)).symm⟩
  rw [← Template.Read.exists_body_word_iff hword hreserved s (cs.length + 2), ← hs,
    Outline.parse_ok, hdeclaration]
  constructor
  · rintro ⟨c, e, hsame, hread⟩
    cases hsame
    exact ⟨e, hread⟩
  · rintro ⟨e, hread⟩
    exact ⟨_, e, rfl, hread⟩

/-- Names that look like marks of the template language. -/
theorem Outline.usable_iff_underscored : ∃ o,
    Outline.parse ('@' :: '(' :: "else_1: int, let: str)\n".toList) = .ok o ∧ o.body = [] ∧
    "else_1" ∈ o.params.map Param.name ∧
    (Outline.parse ('@' :: '(' :: ("else_1: int, let: str)\n".toList ++ '@' :: "else_1".toList)) =
        .ok ⟨[], o.params, [.value 25 (.name 26 "else_1") false]⟩ ↔
      "else_1" ∉ templateWords ∧ ¬ IsElseNumber "else_1") ∧
    (Expr.parse "else_1".toList = .ok (.name 0 "else_1") ↔ "else_1" ∉ templateWords) := by
  have hread : (match Outline.parse ('@' :: '(' :: "else_1: int, let: str)\n".toList) with
    | .ok o => o.body.isEmpty && (o.params.map Param.name).contains "else_1"
    | _ => false) = true := by decide +kernel
  split at hread
  next o h =>
    rw [Bool.and_eq_true, List.isEmpty_iff, List.contains_iff_mem] at hread
    exact ⟨o, h, hread.1, hread.2, usable_iff h hread.1 hread.2⟩
  next => cases hread

/-- **Two parameters that cannot be used**: one is taken for an `else`, the other is a literal. -/
theorem Outline.declared_unusable :
    (Outline.parse "@(else1: int)".toList).toBool = true ∧
    (Outline.parse "@(else1: int)@else1".toList).toBool = false ∧
    (Outline.parse "@(true: bool)".toList).toBool = true ∧
    Expr.parse "true".toList ≠ .ok (.name 0 "true") :=
  ⟨by decide +kernel, by decide +kernel, by decide +kernel, Expr.parse_templateWord (by decide) 0⟩

end Stencil
