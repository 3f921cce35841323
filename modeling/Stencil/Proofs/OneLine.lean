import Stencil.Proofs.CodeLiterals
import Stencil.Proofs.Hygiene
import Stencil.Proofs.ImportLines
import Stencil.Proofs.LiteralText
import Stencil.Proofs.PrintedPattern
import Stencil.Proofs.References
import Stencil.Proofs.SimplePatterns

/-!
# Code on one line

Whatever stands in a template, no part of the code that is made of it breaks a line: names hold word
characters only, numbers are made of digits and a few marks, and texts are quoted.

* `Text.OneLine`: a text holds no character that may break a line.
* `Expr.oneLine_code`: the code of an expression that is read, with its names resolved.
* `Pattern.Inline`: the names of a pattern are on one line; `Pattern.oneLine_code`,
  `Pattern.oneLine_target`: so is its code.
-/

namespace Stencil

open Text

namespace Text

/-- **A text on one line.** -/
def OneLine (s : String) : Prop := ∀ c ∈ s.toList, c ∉ lineBreaks

instance (s : String) : Decidable (OneLine s) :=
  decidable_of_iff (s.toList.all fun c => !lineBreaks.contains c) (by simp [OneLine])

variable {s s' : String}

theorem oneLine_append (h : OneLine s) (h' : OneLine s') : OneLine (s ++ s') := by
  intro c hc
  rw [String.toList_append, List.mem_append] at hc
  exact hc.elim (h c) (h' c)

theorem oneLine_ofList {cs : List Char} (h : ∀ c ∈ cs, c ∉ lineBreaks) :
    OneLine (String.ofList cs) := by
  intro c hc
  rw [String.toList_ofList] at hc
  exact h c hc

/-- Texts on one line, put in a row with a separator. -/
theorem oneLine_intercalate {ss : List String} (hs : OneLine s) (h : ∀ w ∈ ss, OneLine w) :
    OneLine (s.intercalate ss) := by
  intro c hc
  rw [String.toList_intercalate] at hc
  rcases mem_intercalate hc with hc | ⟨w, hw, hc⟩
  · exact hs c hc
  · obtain ⟨w, hmem, rfl⟩ := List.mem_map.mp hw
    exact h w hmem c hc

/-! ## Characters -/

theorem not_mem_lineBreaks_of_not_blank {c : Char} (h : isBlank c = false) : c ∉ lineBreaks := by
  have hall : lineBreaks.all isBlank = true := by decide +kernel
  intro hc
  rw [List.all_eq_true.mp hall c hc] at h
  cases h

theorem not_mem_lineBreaks_of_isWord {c : Char} (h : isWord c = true) : c ∉ lineBreaks := by
  refine not_mem_lineBreaks_of_not_blank ?_
  cases hb : isBlank c with
  | false => rfl
  | true =>
    rw [isWord_of_isBlank hb] at h
    cases h

theorem not_mem_lineBreaks_of_isDigit {c : Char} (h : c.isDigit = true) : c ∉ lineBreaks :=
  not_mem_lineBreaks_of_isWord (CodeToken.isWord_of_isDigit h)

/-! ## Words and quoted texts -/

theorem oneLine_isName {n : String} (h : Expr.IsName n) : OneLine n := by
  obtain ⟨c, cs, hn, hc, hcs⟩ := h.exists_cons
  intro d hd
  rw [hn, List.mem_cons] at hd
  rcases hd with rfl | hd
  · exact not_mem_lineBreaks_of_isWord (Expr.isNameStart_iff.mp hc).1
  · exact not_mem_lineBreaks_of_isWord (hcs d hd)

theorem oneLine_isIdentifier {n : String} (h : isIdentifier n) : OneLine n := by
  have hall : lineBreaks.all (fun c => !isIdentifierPart c) = true := by decide +kernel
  intro c hc hbreak
  have hnot := List.all_eq_true.mp hall c hbreak
  rw [isIdentifierPart_of_mem h hc] at hnot
  cases hnot

theorem oneLine_quotePoints (ps : List CodePoint) : OneLine (quotePoints ps) := by
  have hmark (mark : QuoteMark) : mark.char ∉ lineBreaks := by cases mark <;> decide
  unfold quotePoints
  refine oneLine_ofList fun c hc => ?_
  rw [List.cons_append, List.mem_cons, List.mem_append, List.mem_singleton] at hc
  rcases hc with rfl | hc | rfl
  · exact hmark _
  · obtain ⟨p, -, hc⟩ := List.mem_flatMap.mp hc
    exact not_mem_lineBreaks (isPrintable_of_mem_quotePoint hc)
  · exact hmark _

theorem oneLine_quote (s : String) : OneLine (quote s) := oneLine_quotePoints _

theorem oneLine_toDigits (n : Nat) : ∀ c ∈ Nat.toDigits 10 n, c ∉ lineBreaks := fun _ hc =>
  not_mem_lineBreaks_of_isDigit (Nat.isDigit_of_mem_toDigits (by decide) (by decide) hc)

theorem oneLine_nat (n : Nat) : OneLine (toString n) := by
  intro c hc
  exact oneLine_toDigits n c (by simpa using hc)

theorem oneLine_int (n : Int) : OneLine (toString n) := by
  cases n with
  | ofNat n => exact oneLine_nat n
  | negSucc n => exact oneLine_append (by decide) (oneLine_nat _)

theorem oneLine_freshName {kind : String} (h : OneLine kind) (k : Nat) :
    OneLine (Gen.freshName kind k) :=
  oneLine_append (oneLine_append (oneLine_append (by decide) h) (by decide)) (oneLine_nat k)

/-! ## Numbers -/

/-- A number with a fraction or an exponent. -/
theorem oneLine_isFloat {cs : List Char} (h : CodeToken.IsFloat cs) : ∀ c ∈ cs, c ∉ lineBreaks := by
  obtain ⟨whole, frac, exp, rfl, hw, hf, he, -⟩ := h
  have hdigits {ds : List Char} (hd : CodeToken.IsDigits ds) : ∀ c ∈ ds, c ∉ lineBreaks :=
    fun c hc => not_mem_lineBreaks_of_isDigit (hd.isDigit c hc)
  intro c hc
  rw [List.mem_append, List.mem_append] at hc
  rcases hc with hc | hc | hc
  · exact hdigits hw c hc
  · rcases hf with rfl | ⟨ds, hd, rfl⟩
    · cases hc
    · rcases List.mem_cons.mp hc with rfl | hc
      · decide
      · exact hdigits hd c hc
  · rcases he with rfl | ⟨sign, ds, hsign, hd, rfl⟩
    · cases hc
    · simp only [List.mem_cons] at hc
      rcases hc with rfl | rfl | hc
      · decide
      · rcases hsign with rfl | rfl <;> decide
      · exact hdigits hd c hc

theorem isDigits_shortest (mantissa scale : Nat) (atEdge : Bool) :
    CodeToken.IsDigits (Binary64.shortest mantissa scale atEdge).1 := by
  unfold Binary64.shortest
  exact CodeToken.isDigits_toDigits _

theorem oneLine_binary64 (x : Binary64) : OneLine (x.text .literal) := by
  have hsign (negative : Bool) : OneLine (if negative then "-" else "") := by
    cases negative <;> decide
  unfold Binary64.text
  dsimp only
  split
  · decide
  · exact oneLine_append (hsign _) (by decide)
  · split
    · exact oneLine_append (hsign _) (by decide)
    · rename_i negative mantissa scale atEdge _ _
      have hfloat := CodeToken.isFloat_layout (isDigits_shortest mantissa scale atEdge) .literal
      exact oneLine_append (hsign _) (oneLine_ofList (oneLine_isFloat (hfloat _)))

end Text

theorem Literal.oneLine_code (v : Literal) : OneLine v.code := by
  unfold code
  split
  · decide
  · decide
  · decide
  · exact oneLine_int _
  · split
    · exact oneLine_binary64 _
    · exact oneLine_append (oneLine_append (by decide) (oneLine_quote _)) (by decide)
  · exact oneLine_quotePoints _

/-! ## Expressions -/

/-- **What names and paths become is on one line**, if they are. -/
structure Resolution.Inline (r : Resolution) : Prop where
  rename : ∀ n, OneLine n → OneLine (r.rename n)
  ofPath : ∀ parts p code, (∀ n ∈ parts, OneLine n) → r.ofPath parts p = .ok (some code) →
    OneLine code

namespace Expr

theorem oneLine_asBase {e : Expr} {c : String} (h : OneLine c) : OneLine (asBase e c) := by
  unfold asBase
  split
  · exact oneLine_append (oneLine_append (by decide) h) (by decide)
  · exact h

/-- Arguments with commas between them, in brackets. -/
theorem oneLine_items {before after : String} {cs : List String} (hb : OneLine before)
    (ha : OneLine after) (h : ∀ c ∈ cs, OneLine c) :
    OneLine (before ++ ", ".intercalate cs ++ after) :=
  oneLine_append (oneLine_append hb (oneLine_intercalate (by decide) h)) ha

theorem oneLine_symbol (o : BinaryOp) : OneLine o.symbol := by cases o <;> decide

variable {r : Resolution}

mutual

/-- **The code of an expression that is read is on one line**, once its names are resolved. -/
theorem oneLine_code (hr : r.Inline) : ∀ {e e' : Expr}, e.Levelled → e.resolve r = .ok e' →
    OneLine e'.code
  | literal _ v, _, _, h => by
    rw [resolve] at h
    split at h
    · cases h
      exact v.oneLine_code
    · cases h
  | name _ n, _, hl, h => by
    rw [resolve] at h
    cases h
    exact hr.rename n (oneLine_isName hl)
  | path p parts, _, hl, h => by
    simp only [resolve, Except.bind_ok] at h
    obtain ⟨o, ho, h⟩ := h
    rw [Levelled] at hl
    have hparts : ∀ n ∈ parts, OneLine n := fun n hn => oneLine_isName (hl.2 n hn)
    cases o with
    | some code =>
      cases h
      exact hr.ofPath parts p code hparts ho
    | none =>
      cases h
      refine oneLine_intercalate (by decide) fun w hw => ?_
      cases parts with
      | nil => cases hw
      | cons n ns =>
        rcases List.mem_cons.mp hw with rfl | hw
        · exact hr.rename n (hparts n List.mem_cons_self)
        · exact hparts w (List.mem_cons_of_mem _ hw)
  | field _ v n, _, hl, h => by
    simp only [resolve, Except.bind_ok] at h
    obtain ⟨v', hv, h⟩ := h
    cases h
    rw [Levelled] at hl
    exact oneLine_append (oneLine_append (oneLine_asBase (oneLine_code hr hl.1 hv)) (by decide))
      (oneLine_isName hl.2.2)
  | method _ v n as, _, hl, h => by
    simp only [resolve, Except.bind_ok] at h
    obtain ⟨v', hv, as', has, h⟩ := h
    cases h
    rw [Levelled] at hl
    have hbase := oneLine_asBase (e := v') (oneLine_code hr hl.1 hv)
    have hname := oneLine_append (oneLine_append hbase (by decide : OneLine "."))
      (oneLine_isName hl.2.2.1)
    exact oneLine_items (oneLine_append hname (by decide)) (by decide)
      (oneLine_codeAll hr hl.2.2.2 has)
  | call _ f as, _, hl, h => by
    simp only [resolve, Except.bind_ok] at h
    obtain ⟨f', hf, as', has, h⟩ := h
    cases h
    rw [Levelled] at hl
    exact oneLine_items (oneLine_append (oneLine_asBase (oneLine_code hr hl.1 hf)) (by decide))
      (by decide) (oneLine_codeAll hr hl.2.2.2 has)
  | index _ v i, _, hl, h => by
    simp only [resolve, Except.bind_ok] at h
    obtain ⟨v', hv, i', hi, h⟩ := h
    cases h
    rw [Levelled] at hl
    have hbase := oneLine_asBase (e := v') (oneLine_code hr hl.1 hv)
    exact oneLine_append (oneLine_append (oneLine_append hbase (by decide))
      (oneLine_code hr hl.2.2 hi)) (by decide)
  | tuple _ is, _, hl, h => by
    simp only [resolve, Except.bind_ok] at h
    obtain ⟨is', his, h⟩ := h
    cases h
    rw [Levelled] at hl
    have hall := oneLine_codeAll hr hl his
    cases is' with
    | nil => exact oneLine_items (by decide) (by decide) hall
    | cons i rest =>
      cases rest with
      | nil =>
        have hone : OneLine i.code := hall _ (by simp [codeAll])
        exact oneLine_append (oneLine_append (by decide) hone) (by decide)
      | cons j rest => exact oneLine_items (by decide) (by decide) hall
  | list _ is, _, hl, h => by
    simp only [resolve, Except.bind_ok] at h
    obtain ⟨is', his, h⟩ := h
    cases h
    rw [Levelled] at hl
    exact oneLine_items (by decide) (by decide) (oneLine_codeAll hr hl his)
  | range _ s e inclusive, _, hl, h => by
    simp only [resolve, Except.bind_ok] at h
    obtain ⟨e', he, s', hs, h⟩ := h
    cases h
    rw [Levelled] at hl
    have hstart := oneLine_append (by decide : OneLine "range(") (oneLine_code hr hl.1 hs)
    have hstop := oneLine_append (oneLine_append hstart (by decide : OneLine ", "))
      (oneLine_code hr hl.2.2.1 he)
    exact oneLine_append (oneLine_append hstop (by cases inclusive <;> decide)) (by decide)
  | unary _ o e, _, hl, h => by
    simp only [resolve, Except.bind_ok] at h
    obtain ⟨e', he, h⟩ := h
    cases h
    rw [Levelled] at hl
    have hoperand := oneLine_code hr hl.1 he
    cases o with
    | not | neg => exact oneLine_append (oneLine_append (by decide) hoperand) (by decide)
  | binary _ o a b, _, hl, h => by
    simp only [resolve, Except.bind_ok] at h
    obtain ⟨a', ha, b', hb, h⟩ := h
    cases h
    rw [Levelled] at hl
    have hleft := oneLine_append (by decide : OneLine "(") (oneLine_code hr hl.1 ha)
    have hspace : OneLine " " := by decide
    have hoperator := oneLine_append (oneLine_append (oneLine_append hleft hspace)
      (oneLine_symbol o)) hspace
    exact oneLine_append (oneLine_append hoperator (oneLine_code hr hl.2.2.1 hb)) (by decide)
  | group _ e, _, hl, h => by
    simp only [resolve, Except.bind_ok] at h
    obtain ⟨e', he, h⟩ := h
    cases h
    rw [Levelled] at hl
    exact oneLine_append (oneLine_append (by decide) (oneLine_code hr hl he)) (by decide)

theorem oneLine_codeAll (hr : r.Inline) : ∀ {es es' : List Expr}, LevelledAll es →
    resolveAll r es = .ok es' → ∀ c ∈ codeAll es', OneLine c
  | [], _, _, h => by
    rw [resolveAll] at h
    cases h
    simp [codeAll]
  | e :: es, _, hl, h => by
    simp only [resolveAll, Except.bind_ok] at h
    obtain ⟨e', he, es', hes, h⟩ := h
    cases h
    rw [LevelledAll] at hl
    rw [codeAll]
    exact List.forall_mem_cons.mpr ⟨oneLine_code hr hl.1 he, oneLine_codeAll hr hl.2 hes⟩

end

end Expr

/-! ## Patterns -/

namespace Pattern

mutual

/-- **The names of a pattern are on one line**: those that it binds, and those in its paths and
fields. -/
def Inline : Pattern → Prop
  | wildcard _ | literal _ _ => True
  | binding _ n => OneLine n
  | value _ path => ∀ w ∈ path, OneLine w
  | tuple _ items _ => InlineAll items
  | variant _ path items => (∀ w ∈ path, OneLine w) ∧ InlineAll items
  | struct _ path fields _ => (∀ w ∈ path, OneLine w) ∧ InlineFields fields
  | or _ alternatives => InlineAll alternatives

/-- The names of all patterns of a list are on one line. -/
def InlineAll : List Pattern → Prop
  | [] => True
  | p :: ps => p.Inline ∧ InlineAll ps

/-- The names of fields and of their patterns are on one line. -/
def InlineFields : List (String × Pattern) → Prop
  | [] => True
  | (n, p) :: fs => OneLine n ∧ p.Inline ∧ InlineFields fs

end

theorem inlineAll_iff {ps : List Pattern} : InlineAll ps ↔ ∀ p ∈ ps, p.Inline := by
  induction ps with
  | nil => simp [InlineAll]
  | cons p ps ih => rw [InlineAll, ih, List.forall_mem_cons]

theorem IsPath.oneLine {path : List String} (h : IsPath path) : ∀ w ∈ path, OneLine w :=
  fun w hw => oneLine_isName (h.names w hw)

mutual

/-- The names of a pattern that is read are on one line. -/
theorem inline_of_shaped : ∀ {p : Pattern} {d : Nat}, p.Shaped d → p.Inline
  | wildcard _, _, _ | literal _ _, _, _ => by
    rw [Inline]
    trivial
  | binding _ _, _, h => by
    rw [Shaped] at h
    rw [Inline]
    exact oneLine_isName h.1
  | value _ _, _, h => by
    rw [Shaped] at h
    rw [Inline]
    exact h.1.oneLine
  | tuple _ _ _, _, h => by
    rw [Shaped] at h
    rw [Inline]
    exact inline_of_shapedAll h.2.1
  | variant _ _ _, _, h => by
    rw [Shaped] at h
    rw [Inline]
    exact ⟨h.1.oneLine, inline_of_shapedAll h.2.2⟩
  | struct _ _ _ _, _, h => by
    rw [Shaped] at h
    rw [Inline]
    exact ⟨h.1.oneLine, inline_of_shapedFields h.2.2⟩
  | or _ _, _, h => by
    rw [Shaped] at h
    rw [Inline]
    exact inline_of_shapedAlternatives h.2

theorem inline_of_shapedAll : ∀ {ps : List Pattern} {d : Nat}, ShapedAll d ps → InlineAll ps
  | [], _, _ => by
    rw [InlineAll]
    trivial
  | _ :: _, _, h => by
    rw [ShapedAll] at h
    rw [InlineAll]
    exact ⟨inline_of_shaped h.1, inline_of_shapedAll h.2⟩

theorem inline_of_shapedFields : ∀ {fs : List (String × Pattern)} {d : Nat}, ShapedFields d fs →
    InlineFields fs
  | [], _, _ => by
    rw [InlineFields]
    trivial
  | (n, p) :: fs, _, h => by
    rw [ShapedFields] at h
    rw [InlineFields]
    refine ⟨oneLine_isName h.1, ?_, inline_of_shapedFields h.2.2⟩
    rcases h.2.1 with hbinding | hp
    · cases p with
      | binding q k =>
        obtain rfl : k = n := by simpa [isBinding] using hbinding
        rw [Inline]
        exact oneLine_isName h.1
      | _ => cases hbinding
    · exact inline_of_shaped hp

theorem inline_of_shapedAlternatives : ∀ {ps : List Pattern} {d : Nat}, ShapedAlternatives d ps →
    InlineAll ps
  | [], _, _ => by
    rw [InlineAll]
    trivial
  | p :: ps, d, h => by
    rw [ShapedAlternatives] at h
    rw [InlineAll]
    refine ⟨?_, inline_of_shapedAlternatives h.2⟩
    have hp := h.1
    split at hp
    · exact inline_of_shaped hp.2
    · exact inline_of_shaped hp

end

mutual

/-- Simplifying a pattern brings in no names. -/
theorem inline_simplify : ∀ {p : Pattern}, p.Inline → p.simplify.Inline
  | wildcard _, h | binding _ _, h | literal _ _, h | value _ _, h => h
  | tuple _ _ _, h => by
    rw [Inline] at h
    rw [simplify, Inline]
    exact inline_simplifyAll h
  | variant _ _ _, h => by
    rw [Inline] at h
    rw [simplify, Inline]
    exact ⟨h.1, inline_simplifyAll h.2⟩
  | struct _ _ _ _, h => by
    rw [Inline] at h
    rw [simplify, Inline]
    exact ⟨h.1, inline_simplifyFields h.2⟩
  | or _ alternatives, h => by
    rw [Inline] at h
    have hall := inline_simplifyAll h
    rw [simplify]
    cases hf : (simplifyAll alternatives).find? isCatchAll with
    | none =>
      rw [Option.getD_none, Inline]
      exact hall
    | some q => exact inlineAll_iff.mp hall q (List.mem_of_find?_eq_some hf)

theorem inline_simplifyAll : ∀ {ps : List Pattern}, InlineAll ps → InlineAll (simplifyAll ps)
  | [], h => h
  | _ :: _, h => by
    rw [InlineAll] at h
    rw [simplifyAll, InlineAll]
    exact ⟨inline_simplify h.1, inline_simplifyAll h.2⟩

theorem inline_simplifyFields : ∀ {fs : List (String × Pattern)}, InlineFields fs →
    InlineFields (simplifyFields fs)
  | [], h => h
  | (_, _) :: _, h => by
    rw [InlineFields] at h
    rw [simplifyFields, InlineFields]
    exact ⟨h.1, inline_simplify h.2.1, inline_simplifyFields h.2.2⟩

end

section Renamed

variable {rename : String → String}

mutual

/-- Renaming keeps names on one line, if the new names are. -/
theorem inline_renamed (hrename : ∀ n, OneLine n → OneLine (rename n)) :
    ∀ {p : Pattern}, p.Inline → (p.renamed rename).Inline
  | wildcard _, h | literal _ _, h | value _ _, h => h
  | binding _ n, h => by
    rw [Inline] at h
    rw [renamed, Inline]
    exact hrename n h
  | tuple _ _ _, h | or _ _, h => by
    rw [Inline] at h
    rw [renamed, Inline]
    exact inline_renamedAll hrename h
  | variant _ _ _, h => by
    rw [Inline] at h
    rw [renamed, Inline]
    exact ⟨h.1, inline_renamedAll hrename h.2⟩
  | struct _ _ _ _, h => by
    rw [Inline] at h
    rw [renamed, Inline]
    exact ⟨h.1, inline_renamedFields hrename h.2⟩

theorem inline_renamedAll (hrename : ∀ n, OneLine n → OneLine (rename n)) :
    ∀ {ps : List Pattern}, InlineAll ps → InlineAll (renamedAll rename ps)
  | [], h => h
  | _ :: _, h => by
    rw [InlineAll] at h
    rw [renamedAll, InlineAll]
    exact ⟨inline_renamed hrename h.1, inline_renamedAll hrename h.2⟩

theorem inline_renamedFields (hrename : ∀ n, OneLine n → OneLine (rename n)) :
    ∀ {fs : List (String × Pattern)}, InlineFields fs → InlineFields (renamedFields rename fs)
  | [], h => h
  | (_, _) :: _, h => by
    rw [InlineFields] at h
    rw [renamedFields, InlineFields]
    exact ⟨h.1, inline_renamed hrename h.2.1, inline_renamedFields hrename h.2.2⟩

end

end Renamed

theorem oneLine_parenthesize {cs : List String} (h : ∀ c ∈ cs, OneLine c) :
    OneLine (parenthesize cs) := by
  unfold parenthesize
  split
  · exact oneLine_append (oneLine_append (by decide) (h _ (List.mem_singleton_self _))) (by decide)
  · exact Expr.oneLine_items (by decide) (by decide) h

theorem oneLine_withRest {cs : List String} (h : ∀ c ∈ cs, OneLine c) (rest : Option Nat) :
    ∀ c ∈ withRest cs rest, OneLine c := by
  cases rest with
  | none => exact h
  | some k =>
    intro c hc
    rw [withRest, List.mem_append, List.mem_cons] at hc
    rcases hc with hc | rfl | hc
    · exact h c (List.mem_of_mem_take hc)
    · decide
    · exact h c (List.mem_of_mem_drop hc)

mutual

/-- **The code of a pattern is on one line**, if its names are. -/
theorem oneLine_code : ∀ {p : Pattern}, p.Inline → OneLine p.code
  | wildcard _, _ => by
    rw [code]
    decide
  | binding _ _, h => by
    rw [Inline] at h
    rwa [code]
  | literal _ v, _ => by
    rw [code]
    exact v.oneLine_code
  | value _ _, h => by
    rw [Inline] at h
    rw [code]
    exact oneLine_intercalate (by decide) h
  | tuple _ _ rest, h => by
    rw [Inline] at h
    rw [code]
    exact oneLine_parenthesize (oneLine_withRest (oneLine_codeAll h) rest)
  | variant _ _ _, h => by
    rw [Inline] at h
    rw [code]
    exact Expr.oneLine_items (oneLine_append (oneLine_intercalate (by decide) h.1) (by decide))
      (by decide) (oneLine_codeAll h.2)
  | struct _ _ _ _, h => by
    rw [Inline] at h
    rw [code]
    exact Expr.oneLine_items (oneLine_append (oneLine_intercalate (by decide) h.1) (by decide))
      (by decide) (oneLine_codeFields h.2)
  | or _ _, h => by
    rw [Inline] at h
    rw [code]
    exact oneLine_intercalate (by decide) (oneLine_codeAll h)

theorem oneLine_codeAll : ∀ {ps : List Pattern}, InlineAll ps → ∀ c ∈ codeAll ps, OneLine c
  | [], _ => by simp [codeAll]
  | _ :: _, h => by
    rw [InlineAll] at h
    rw [codeAll]
    exact List.forall_mem_cons.mpr ⟨oneLine_code h.1, oneLine_codeAll h.2⟩

theorem oneLine_codeFields : ∀ {fs : List (String × Pattern)}, InlineFields fs →
    ∀ c ∈ codeFields fs, OneLine c
  | [], _ => by simp [codeFields]
  | (_, _) :: _, h => by
    rw [InlineFields] at h
    rw [codeFields]
    exact List.forall_mem_cons.mpr
      ⟨oneLine_append (oneLine_append h.1 (by decide)) (oneLine_code h.2.1),
        oneLine_codeFields h.2.2⟩

end

mutual

/-- **The target of a plain loop is on one line**, if the names of its pattern are. -/
theorem oneLine_target : ∀ {p : Pattern}, p.Inline → OneLine p.target
  | binding _ _, h => by
    rw [Inline] at h
    rwa [target]
  | tuple _ _ _, h => by
    rw [Inline] at h
    rw [target]
    exact oneLine_parenthesize (oneLine_targetAll h)
  | wildcard _, _ | literal _ _, _ | value _ _, _ | variant _ _ _, _ | struct _ _ _ _, _
  | or _ _, _ => by
    rw [target] <;> first | decide | simp

theorem oneLine_targetAll : ∀ {ps : List Pattern}, InlineAll ps → ∀ c ∈ targetAll ps, OneLine c
  | [], _ => by simp [targetAll]
  | _ :: _, h => by
    rw [InlineAll] at h
    rw [targetAll]
    exact List.forall_mem_cons.mpr ⟨oneLine_target h.1, oneLine_targetAll h.2⟩

end

end Pattern

end Stencil
