import Stencil.Code.Module
import Stencil.Proofs.EmittedCode
import Stencil.Proofs.Generation
import Stencil.Proofs.ReadTemplate

/-!
# Literal text in the generated code

A template may hold any text once each `@` in it is doubled. The text passes two encodings on its way
to the output, the escapes of the template and the literal of the generated code, and both are undone
in turn: the body is that text, and the only line of the rendering function writes a literal that is
read as that text.

* `Template.literalText`: a template without parameters that holds a given text.
* `Text.lineBreaks`: the characters at which a text is split into lines.
* **`Template.render_literalText`**: what the template is read as and what it generates.
-/

namespace Stencil

open Text Expr

/-! ## Literals on one line -/

namespace Text

/-- **The characters that may break a line.** -/
def lineBreaks : List Char :=
  ['\n', '\r', '\x0b', '\x0c', '\x1c', '\x1d', '\x1e', '\u0085', '\u2028', '\u2029']

theorem not_mem_lineBreaks {c : Char} (h : isPrintable (.ofChar c) = true) : c ∉ lineBreaks := by
  have hall : lineBreaks.all (fun c => !isPrintable (.ofChar c)) = true := by decide +kernel
  intro hc
  have hnot := List.all_eq_true.mp hall c hc
  rw [h] at hnot
  cases hnot

theorem isPrintable_of_isHexDigit {c : Char} (h : isHexDigit c = true) :
    isPrintable (.ofChar c) = true := by
  have hbounds {a b : Char} (h : (decide (a ≤ c) && decide (c ≤ b)) = true) (ha : 0x20 ≤ a.toNat)
      (hb : b.toNat < 0x7f) : isPrintable (.ofChar c) = true := by
    rw [Bool.and_eq_true, decide_eq_true_eq, decide_eq_true_eq] at h
    have hl : a.toNat ≤ c.toNat := h.1
    have hu : c.toNat ≤ b.toNat := h.2
    have hlt : (CodePoint.ofChar c).value < 0x7f := by
      show c.toNat < 0x7f
      omega
    rw [isPrintable, if_pos hlt, decide_eq_true_eq]
    show 0x20 ≤ c.toNat
    omega
  unfold isHexDigit hexValue? at h
  split at h
  · exact hbounds ‹_› (by decide) (by decide)
  · split at h
    · exact hbounds ‹_› (by decide) (by decide)
    · split at h
      · exact hbounds ‹_› (by decide) (by decide)
      · cases h

/-- Escapes by number are printable. -/
theorem isPrintable_of_mem_escapeNumber {n : Nat} {c : Char} (h : c ∈ escapeNumber n) :
    isPrintable (.ofChar c) = true := by
  have hform {x : Char} {width : Nat} (hx : isPrintable (.ofChar x) = true)
      (h : c ∈ '\\' :: x :: hexDigits width n) : isPrintable (.ofChar c) = true := by
    rcases List.mem_cons.mp h with rfl | h
    · decide
    · rcases List.mem_cons.mp h with rfl | h
      · exact hx
      · exact isPrintable_of_isHexDigit (CodeToken.isHexDigit_hexDigits _ _ c h)
  unfold escapeNumber at h
  split at h
  · exact hform (by decide) h
  · split at h
    · exact hform (by decide) h
    · exact hform (by decide) h

/-- **What stands for a code point is printable.** -/
theorem isPrintable_of_mem_quotePoint {mark : QuoteMark} {p : CodePoint} {c : Char}
    (h : c ∈ quotePoint mark p) : isPrintable (.ofChar c) = true := by
  have hpair {x : Char} (hx : isPrintable (.ofChar x) = true) (h : c ∈ ['\\', x]) :
      isPrintable (.ofChar c) = true := by
    rcases List.mem_pair.mp h with rfl | rfl
    · decide
    · exact hx
  unfold quotePoint at h
  split at h
  · exact hpair (by cases mark <;> decide) h
  · split at h
    · exact hpair (by decide) h
    · split at h
      · exact hpair (by decide) h
      · split at h
        · exact hpair (by decide) h
        · split at h
          · exact hpair (by decide) h
          · split at h
            · rename_i hprintable
              rwa [CodePoint.ofChar_of_toChar? (Option.mem_toList.mp h)]
            · exact isPrintable_of_mem_escapeNumber h

/-- **A literal stands on one line.** -/
theorem isPrintable_of_mem_quote {s : String} {c : Char} (h : c ∈ (quote s).toList) :
    isPrintable (.ofChar c) = true := by
  have hmark (mark : QuoteMark) : isPrintable (.ofChar mark.char) = true := by
    cases mark <;> decide
  unfold quote quotePoints at h
  rw [String.toList_ofList, List.cons_append, List.mem_cons, List.mem_append,
    List.mem_singleton] at h
  rcases h with rfl | h | rfl
  · exact hmark _
  · obtain ⟨p, -, hc⟩ := List.mem_flatMap.mp h
    exact isPrintable_of_mem_quotePoint hc
  · exact hmark _

end Text

/-! ## Templates of literal text -/

namespace Template

/-- Text with each `@` doubled. -/
def doubled (s : List Char) : List Char := s.flatMap fun c => if c = '@' then ['@', '@'] else [c]

/-- **A template without parameters that holds a text.** -/
def literalText (s : List Char) : List Char := "@()\n".toList ++ doubled s

namespace Read

variable {s d pos : Nat} {p : Pending} {cs : List Char}

theorem Pending.add_add_nil (p : Pending) (pos pos' : Nat) (t : List Char) :
    (p.add pos []).add pos' t = p.add pos' t := by
  unfold Pending.add
  by_cases h : p.text.isEmpty = true
  · simp [h]
  · simp [h]

/-- More text behind text that is not empty. -/
theorem Pending.add_append (p : Pending) (pos pos' : Nat) {t : List Char} (ht : t ≠ [])
    (t' : List Char) : (p.add pos t).add pos' t' = p.add pos (t ++ t') := by
  unfold Pending.add
  by_cases h : p.text = []
  · simp [h, ht]
  · simp [h]

/-- Outside of blocks only `@` is a mark. -/
theorem body_char {c : Char} (h : c ≠ '@') :
    body (s + 1) false d 0 p ⟨pos, c :: cs⟩ =
      body (s + 1) false d 0 (p.add pos [c]) ⟨pos + 1, cs⟩ := by
  have hrun : Cursor.plainRun false 0 (c :: cs) =
      (c :: (Cursor.plainRun false 0 cs).1, (Cursor.plainRun false 0 cs).2) := by
    rw [Cursor.plainRun, if_neg h]
    rfl
  have hskip : (⟨pos, c :: cs⟩ : Cursor).skip ((Cursor.plainRun false 0 cs).1.length + 1) =
      (⟨pos + 1, cs⟩ : Cursor).skip (Cursor.plainRun false 0 cs).1.length := by
    simp [Cursor.skip, Nat.add_assoc, Nat.add_comm 1]
  rw [body, body]
  simp only [hrun, List.length_cons, hskip]
  rw [Pending.add_cons p pos c]

/-- **A body of doubled text is that text**, which starts where the body does. -/
theorem body_doubled (t : List Char) (hs : t.length < s) :
    ∃ c, body s false d 0 p ⟨pos, doubled t⟩ = .ok ((p.add pos t).nodes, c) := by
  induction t generalizing s pos p with
  | nil =>
    obtain ⟨s, rfl⟩ : ∃ k, s = k + 1 := Nat.exists_eq_succ_of_ne_zero (by omega)
    rw [Pending.nodes_add_nil]
    exact ⟨_, body_end (b := false) rfl⟩
  | cons c t ih =>
    rw [List.length_cons] at hs
    obtain ⟨s, rfl⟩ : ∃ k, s = k + 1 := Nat.exists_eq_succ_of_ne_zero (by omega)
    by_cases hc : c = '@'
    · subst hc
      have hdouble : doubled ('@' :: t) = '@' :: '@' :: doubled t := rfl
      rw [hdouble, body_escape (.inl rfl), Pending.add_add_nil]
      obtain ⟨c', h⟩ := @ih s (pos + 2) (p.add pos ['@']) (by omega)
      exact ⟨c', by rw [h, Pending.add_append p pos _ (List.cons_ne_nil _ _)]; rfl⟩
    · have hdouble : doubled (c :: t) = c :: doubled t := by
        rw [doubled, List.flatMap_cons, if_neg hc]
        rfl
      rw [hdouble, body_char hc]
      obtain ⟨c', h⟩ := @ih (s + 1) (pos + 1) (p.add pos [c]) (by omega)
      exact ⟨c', by rw [h, Pending.add_append p pos _ (List.cons_ne_nil _ _)]; rfl⟩

end Read

/-- The body of a template that holds a text. -/
def literalBody (s : List Char) : Body := if s = [] then [] else [.text 4 (String.ofList s)]

theorem length_le_doubled (s : List Char) : s.length ≤ (doubled s).length := by
  unfold doubled
  induction s with
  | nil => exact Nat.le_refl _
  | cons c s ih =>
    rw [List.flatMap_cons, List.length_append, List.length_cons]
    split <;> simp only [List.length_cons, List.length_nil] <;> omega

theorem parse_literalText (s : List Char) :
    Outline.parse (literalText s) = .ok ⟨[], [], literalBody s⟩ := by
  have hlength : s.length < (⟨4, doubled s⟩ : Cursor).steps := by
    have hle := length_le_doubled s
    simp only [Cursor.steps]
    omega
  obtain ⟨c, hbody⟩ := @Read.body_doubled _ 0 4 ⟨4, []⟩ s hlength
  have hnodes : ((⟨4, []⟩ : Read.Pending).add 4 s).nodes = literalBody s := by
    unfold literalBody
    by_cases hs : s = []
    · simp [Read.Pending.add, Read.Pending.nodes, hs]
    · simp [Read.Pending.add, Read.Pending.nodes, hs]
  rw [Outline.parse, Cursor.ofText_zero]
  show (Read.body (⟨4, doubled s⟩ : Cursor).steps false 0 0 ⟨4, []⟩ ⟨4, doubled s⟩ >>= _) = _
  rw [hbody, hnodes]
  rfl

/-! ## What they generate -/

/-- The statements of a template that holds a text. -/
def literalStmts (s : List Char) : List Stmt := Gen.flush 0 (String.ofList s)

theorem stmts_literal {t : Template} {s : List Char} (h : t.body = literalBody s)
    (context : Context) : t.stmts context = .ok (literalStmts s) := by
  refine Template.stmts_ok.mpr ⟨0, ?_⟩
  rw [h, literalBody]
  split
  · rename_i hs
    rw [hs]
    exact Gen.body_nil_ok.mpr ⟨rfl, rfl⟩
  · rw [Gen.body_cons_plain rfl]
    refine Gen.body_nil_ok.mpr ⟨?_, rfl⟩
    rw [String.empty_append]
    rfl

/-- The only line below the head of the function. -/
def literalLine (s : List Char) : Line :=
  ⟨1, if s = [] then .pass else .write (String.ofList s), 0⟩

theorem functionLines_literal (t : Template) (s : List Char) :
    t.functionLines (literalStmts s) = [⟨0, .define t.function t.params, 0⟩, literalLine s] := by
  rw [functionLines, literalLine, literalStmts, Gen.flush]
  by_cases hs : s = []
  · rw [if_pos (by rw [hs]), if_pos hs]
    rfl
  · rw [if_neg fun h => hs (by simpa using congrArg String.toList h), if_neg hs]
    rfl

/-- The head of a rendering function without parameters. -/
theorem text_define (f : String) :
    (⟨0, .define f [], 0⟩ : Line).text = "def " ++ f ++ "(_tplc_out_: Writer) -> None:" := by
  have hrest : "(" ++ (Names.out ++ (": Writer" ++ ") -> None:")) =
      "(_tplc_out_: Writer) -> None:" := by decide +kernel
  show "" ++ ("def " ++ f ++ "(" ++ Names.out ++ ": Writer" ++ "" ++ ") -> None:") = _
  simp only [String.empty_append, String.append_empty, String.append_assoc, hrest]

/-- **The line has no line break in it**, whatever it writes. -/
theorem not_mem_literalLine {s : List Char} {c : Char} (h : c ∈ (literalLine s).text.toList) :
    c ∉ lineBreaks := by
  refine not_mem_lineBreaks ?_
  unfold literalLine Line.text at h
  rw [String.toList_append, List.mem_append] at h
  rcases h with h | h
  · rw [String.toList_ofList, List.mem_replicate] at h
    rw [h.2]
    decide
  · dsimp only at h
    split at h
    · have hall : "pass".toList.all (isPrintable <| .ofChar ·) = true := by decide +kernel
      exact List.all_eq_true.mp hall c h
    · have hbefore : (Names.out ++ ".write(").toList.all (isPrintable <| .ofChar ·) = true := by
        decide +kernel
      rw [Head.code, String.toList_append, String.toList_append, List.mem_append,
        List.mem_append] at h
      rcases h with (h | h) | h
      · exact List.all_eq_true.mp hbefore c h
      · exact isPrintable_of_mem_quote h
      · rw [List.mem_singleton.mp h]
        decide

/-- The call that writes a text is read as one in the generated language. -/
theorem read_write (s : String) : CodeExpr.read (Head.write s).code.toList =
    some (.call (.member (.name Names.out) "write") [.text (CodePoint.ofString s)]) := by
  have hout : IsName Names.out := ⟨by decide +kernel, by decide +kernel, by decide +kernel⟩
  have hwrite : IsName "write" := ⟨by decide +kernel, by decide +kernel, by decide +kernel⟩
  have hmember : CodeExpr.Emits true _ _ _ := (CodeExpr.emits_name hout).member hwrite
  have htext : CodeExpr.Emits false _ _ _ := CodeExpr.emits_text (CodePoint.ofString s)
  have hcall : CodeExpr.Emits false _ _ _ := hmember.call (.cons htext.full .nil)
  exact hcall.read

/-- **Literal text reaches the output unchanged.** Whatever the text, the template that holds it with
each `@` doubled is read as a single node of that text, or as no node if it is empty. Its rendering
function has one line, without a line break in it: a call that writes a literal, which is read as
that text in the generated language, or a line that does nothing if the text is empty. -/
theorem render_literalText (s : List Char) (name : TemplateName) (path : Path) (file : String)
    (context : Context) : ∃ t stmts line,
    Template.parse name path file (literalText s) = .ok t ∧
    t.body = (if s = [] then [] else [.text 4 (String.ofList s)]) ∧
    t.stmts context = .ok stmts ∧ t.render context = .ok (t.moduleText stmts) ∧
    (t.functionLines stmts).map Line.text =
      ["def " ++ name.function ++ "(_tplc_out_: Writer) -> None:", line] ∧
    (∀ c ∈ line.toList, c ∉ lineBreaks) ∧
    if s = [] then line = "    pass"
    else ∃ literal, line = "    _tplc_out_.write(" ++ literal ++ ")" ∧
      CodeExpr.read literal.toList = some (.text (s.map .ofChar)) ∧
      CodeExpr.read ("_tplc_out_.write(" ++ literal ++ ")").toList =
        some (.call (.member (.name "_tplc_out_") "write") [.text (s.map .ofChar)]) := by
  have hparse : Template.parse name path file (literalText s) =
      .ok ⟨name, ⟨[], [], literalBody s⟩, path, literalText s⟩ := by
    rw [Template.parse, parse_literalText]
    rfl
  have hstmts := stmts_literal (t := ⟨name, ⟨[], [], literalBody s⟩, path, literalText s⟩) rfl context
  have hcheck : Stmt.checkAll 0 (literalStmts s) = .ok () := by
    unfold literalStmts Gen.flush
    split <;> rfl
  refine ⟨_, literalStmts s, (literalLine s).text, hparse, rfl, hstmts,
    Template.render_ok.mpr (Template.module_ok.mpr ⟨_, hstmts, hcheck, rfl⟩), ?_,
    fun c hc => not_mem_literalLine hc, ?_⟩
  · rw [functionLines_literal, List.map_cons, List.map_singleton]
    exact congrArg (· :: [(literalLine s).text]) (text_define name.function)
  · have hpoints : CodePoint.ofString (String.ofList s) = s.map .ofChar := by
      rw [CodePoint.ofString, String.toList_ofList]
    split
    · rename_i hs
      rw [literalLine, if_pos hs]
      rfl
    · rename_i hs
      rw [literalLine, if_neg hs]
      refine ⟨quote (String.ofList s), rfl, ?_, ?_⟩
      · rw [← hpoints]
        have htext : CodeExpr.Emits false _ _ _ :=
          CodeExpr.emits_text (CodePoint.ofString (String.ofList s))
        exact htext.read
      · rw [← hpoints]
        exact read_write (String.ofList s)

end Template

end Stencil
