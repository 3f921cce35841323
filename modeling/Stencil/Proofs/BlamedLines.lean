import Mathlib.Algebra.BigOperators.Group.List.Basic
import Stencil.Proofs.CommittedLines
import Stencil.Proofs.Emission
import Stencil.Proofs.ImportOrder

/-!
# Lines that errors are blamed on

An error in generated code is found at a line of the module. The number of that line leads back to
the line of the rendering function, and the position recorded for it to the construct of the
template that it comes from. Lines before the function are counted by their line feeds; the generated
language ends a line at a carriage return too, which an import statement may hold.

* `sourceLines`: the lines of a text, as the generated language counts them.
* `Template.returns`: the carriage returns in the import statements of a template.
* `Head.Refused`: what is refused in the head of a line.
* **`Stmt.refused_of_checkAll`**: refused code is refused at one of its lines.
* `Template.Located`: what is known of the lines that are recorded.
* **`Template.exists_located`**: it holds of all templates that generate.
* **`Template.blamed_elsewhere`**: a carriage return in an import moves the blame to another line.
-/

namespace Stencil

open Text

/-! ## Lines of a text -/

/-- **The lines of a text**, as the generated language counts them: a line ends with a line feed,
with a carriage return, or with both. -/
def sourceLines : List Char → List (List Char)
  | [] => [[]]
  | '\r' :: '\n' :: cs => [] :: sourceLines cs
  | c :: cs =>
    if c = '\n' ∨ c = '\r' then [] :: sourceLines cs else (sourceLines cs).modifyHead (c :: ·)

section Lines

variable {c : Char} {cs ds : List Char}

/-- A line end is a single character, unless a line feed stands behind a carriage return. -/
theorem sourceLines_cons (h : c = '\r' → cs.head? ≠ some '\n') : sourceLines (c :: cs) =
    if c = '\n' ∨ c = '\r' then [] :: sourceLines cs else (sourceLines cs).modifyHead (c :: ·) := by
  rw [sourceLines]
  rintro ds rfl rfl
  exact h rfl rfl

theorem lineEnds_cons (h : c = '\r' → cs.head? ≠ some '\n') :
    lineEnds (c :: cs) = if c = '\n' ∨ c = '\r' then lineEnds cs + 1 else lineEnds cs := by
  rw [lineEnds]
  rintro ds rfl rfl
  exact h rfl rfl

theorem head?_ne_of_not_crlf (h : ∀ ds, c = '\r' → cs = '\n' :: ds → False) (hc : c = '\r') :
    cs.head? ≠ some '\n' := by
  intro hhead
  obtain ⟨ds, hds⟩ := List.head?_eq_some_iff.mp hhead
  exact h ds hc hds

/-- **The number of lines** is one more than that of line ends. -/
theorem length_sourceLines (cs : List Char) : (sourceLines cs).length = lineEnds cs + 1 := by
  fun_induction sourceLines cs with
  | case1 => rfl
  | case2 cs ih => rw [List.length_cons, ih, lineEnds]
  | case3 c cs hcs h ih =>
    rw [List.length_cons, ih, lineEnds_cons (head?_ne_of_not_crlf hcs), if_pos h]
  | case4 c cs hcs h ih =>
    rw [List.length_modifyHead, ih, lineEnds_cons (head?_ne_of_not_crlf hcs), if_neg h]

theorem sourceLines_ne_nil (cs : List Char) : sourceLines cs ≠ [] := by
  intro h
  have hlength := length_sourceLines cs
  rw [h, List.length_nil] at hlength
  omega

/-- **A line feed ends a line**: the lines before it and behind it are separate. -/
theorem sourceLines_append (h : cs.getLast? ≠ some '\r') :
    sourceLines (cs ++ '\n' :: ds) = sourceLines cs ++ sourceLines ds := by
  have htail {c : Char} {cs : List Char} (h : (c :: cs).getLast? ≠ some '\r') :
      cs.getLast? ≠ some '\r' := by
    cases cs with
    | nil => simp
    | cons a cs => rwa [List.getLast?_cons_cons] at h
  -- a carriage return is not the last character, so that the line feed does not belong to it
  have hfirst {c : Char} {cs : List Char} (hc : (c :: cs).getLast? ≠ some '\r')
      (hcs : ∀ ds, c = '\r' → cs = '\n' :: ds → False) (hr : c = '\r') :
      (cs ++ '\n' :: ds).head? ≠ some '\n' := by
    cases cs with
    | nil => exact absurd (congrArg some hr) hc
    | cons a cs =>
      show (a :: cs).head? ≠ some '\n'
      exact head?_ne_of_not_crlf hcs hr
  fun_induction sourceLines cs with
  | case1 =>
    rw [List.nil_append, sourceLines_cons (fun hr => by cases hr), if_pos (.inl rfl)]
    rfl
  | case2 cs ih =>
    rw [List.cons_append, List.cons_append, sourceLines, ih (htail (htail h)), List.cons_append]
  | case3 c cs hcs hc ih =>
    rw [List.cons_append, sourceLines_cons (hfirst h hcs), if_pos hc, ih (htail h),
      List.cons_append]
  | case4 c cs hcs hc ih =>
    rw [List.cons_append, sourceLines_cons (hfirst h hcs), if_neg hc, ih (htail h)]
    obtain ⟨l, ls, hls⟩ := List.exists_cons_of_ne_nil (sourceLines_ne_nil cs)
    rw [hls]
    rfl

theorem Text.OneLine.ne_lineEnd {s : String} (h : OneLine s) :
    ∀ c ∈ s.toList, c ≠ '\r' ∧ c ≠ '\n' := by
  intro c hc
  constructor <;> rintro rfl
  · exact h _ hc (by decide)
  · exact h _ hc (by decide)

/-- A text on one line is one line. -/
theorem sourceLines_of_oneLine {s : String} (h : OneLine s) :
    sourceLines s.toList = [s.toList] := by
  have hends := h.ne_lineEnd
  generalize s.toList = cs at hends
  induction cs with
  | nil => rfl
  | cons c cs ih =>
    obtain ⟨⟨hr, hn⟩, hcs⟩ := List.forall_mem_cons.mp hends
    rw [sourceLines_cons fun h => absurd h hr, if_neg (by simp [hn, hr]), ih hcs]
    rfl

/-- **Lines that are ended by line feeds** and none of which ends with a carriage return. -/
theorem sourceLines_flatMap {ls : List String} (h : ∀ l ∈ ls, l.toList.getLast? ≠ some '\r') :
    sourceLines (ls.flatMap (fun l => l.toList ++ ['\n']) ++ ds) =
      ls.flatMap (fun l => sourceLines l.toList) ++ sourceLines ds := by
  induction ls with
  | nil => rfl
  | cons l ls ih =>
    obtain ⟨hl, hls⟩ := List.forall_mem_cons.mp h
    rw [List.flatMap_cons, List.append_assoc, List.append_assoc, List.singleton_append,
      sourceLines_append hl, ih hls, List.flatMap_cons, List.append_assoc]

end Lines

/-- Lines with line feeds between them and one behind the last. -/
theorem toList_intercalate_newline {ls : List String} (h : ls ≠ []) :
    ("\n".intercalate ls).toList ++ ['\n'] = ls.flatMap fun l => l.toList ++ ['\n'] := by
  rw [String.toList_intercalate]
  induction ls with
  | nil => exact absurd rfl h
  | cons l ls ih =>
    cases ls with
    | nil => simp
    | cons m ls =>
      rw [List.map_cons, List.map_cons, List.intercalate_cons_cons, List.append_assoc,
        ← List.map_cons, ih (List.cons_ne_nil _ _), List.flatMap_cons]
      rfl

/-- **Of at most one line end, no more than one line end is made.** -/
theorem lineEnds_eq_count {cs : List Char} (h : cs.count '\n' + cs.count '\r' ≤ 1) :
    lineEnds cs = cs.count '\n' + cs.count '\r' := by
  fun_induction lineEnds cs with
  | case1 => rfl
  | case2 cs ih =>
    rw [List.count_cons, List.count_cons, List.count_cons, List.count_cons] at h
    simp at h
    omega
  | case3 c cs hcs hc ih =>
    rw [List.count_cons, List.count_cons] at h ⊢
    rcases hc with rfl | rfl
    · simp at h ⊢
      omega
    · simp at h ⊢
      omega
  | case4 c cs hcs hc ih =>
    obtain ⟨hn, hr⟩ := not_or.mp hc
    rw [List.count_cons_of_ne hn, List.count_cons_of_ne hr] at h ⊢
    exact ih h

/-! ## Import statements -/

/-- **A line before the rendering function**: at most one line end stands in it, and no carriage
return at its end. -/
structure IsHeadLine (cs : List Char) : Prop where
  count : cs.count '\n' + cs.count '\r' ≤ 1
  last : cs.getLast? ≠ some '\r'

theorem count_of_oneLine {s : String} (h : OneLine s) :
    s.toList.count '\n' = 0 ∧ s.toList.count '\r' = 0 :=
  ⟨List.count_eq_zero.mpr fun hc => h _ hc (by decide),
    List.count_eq_zero.mpr fun hc => h _ hc (by decide)⟩

theorem isHeadLine_of_oneLine {s : String} (h : OneLine s) : IsHeadLine s.toList where
  count := by
    obtain ⟨hn, hr⟩ := count_of_oneLine h
    rw [hn, hr]
    decide
  last hlast := h _ (List.mem_of_getLast? hlast) (by decide)

namespace Template.Read

theorem trimEnd_sublist (cs : List Char) : (trimEnd cs).Sublist cs := by
  rw [trimEnd, ← List.reverse_sublist, List.reverse_reverse]
  exact List.dropWhile_sublist _

/-- What white space is cut off from does not end with it. -/
theorem getLast?_trimEnd {cs : List Char} {c : Char} (h : (trimEnd cs).getLast? = some c) :
    isBlank c = false := by
  rw [trimEnd, List.getLast?_reverse] at h
  have hhead := List.head?_dropWhile_not isBlank cs.reverse
  rw [h] at hhead
  simpa using hhead

theorem statement_sublist (cs : List Char) : (statement cs).Sublist cs := by
  have htrim : (trim cs).Sublist cs :=
    (trimEnd_sublist _).trans (List.dropWhile_sublist _)
  unfold statement
  dsimp only
  split
  · exact (trimEnd_sublist _).trans ((List.dropLast_sublist _).trans htrim)
  · exact htrim

theorem getLast?_statement {cs : List Char} {c : Char} (h : (statement cs).getLast? = some c) :
    isBlank c = false := by
  unfold statement at h
  dsimp only at h
  split at h
  · exact getLast?_trimEnd h
  · exact getLast?_trimEnd h

/-- The text of an import statement, up to the end of its line, of which only the white space behind
the first word may be a line end. -/
theorem isHeadLine_statement {w run : List Char} {b : Char}
    (hw : ∀ c ∈ w, c ≠ '\r' ∧ c ≠ '\n') (hrun : ∀ c ∈ run, c ≠ '\r' ∧ c ≠ '\n') :
    IsHeadLine (statement (w ++ b :: run)) where
  count := by
    have hcount {cs : List Char} (hcs : ∀ c ∈ cs, c ≠ '\r' ∧ c ≠ '\n') :
        cs.count '\n' = 0 ∧ cs.count '\r' = 0 :=
      ⟨List.count_eq_zero.mpr fun hc => (hcs _ hc).2 rfl,
        List.count_eq_zero.mpr fun hc => (hcs _ hc).1 rfl⟩
    have hn := (statement_sublist (w ++ b :: run)).count_le '\n'
    have hr := (statement_sublist (w ++ b :: run)).count_le '\r'
    rw [List.count_append, List.count_cons, (hcount hw).1, (hcount hrun).1] at hn
    rw [List.count_append, List.count_cons, (hcount hw).2, (hcount hrun).2] at hr
    have hb : ¬ (b = '\n' ∧ b = '\r') := by
      rintro ⟨rfl, h⟩
      cases h
    grind
  last h := by
    have hblank := getLast?_statement h
    rw [show isBlank '\r' = true by decide] at hblank
    cases hblank

theorem take_of_past {c d : Cursor} {part : List Char} (h : c.Past part d) :
    c.rest.take (d.position - c.position) = part := by
  rw [h.1, h.2, Nat.add_sub_cancel_left, List.take_left]

theorem isHeadLine_of_import? {c d : Cursor} {s : String} (h : import? c = some (s, d)) :
    IsHeadLine s.toList := by
  have hline (w : String) (n : Nat) (hn : n = w.length + 1)
      (hw : OneLine w) (a : Cursor) (ha : a.atWordBlank w = true) :
      IsHeadLine (statement (a.rest.take (((a.skip n).skipWhile fun c =>
        c != '\r' && c != '\n').position - a.position))) := by
    subst hn
    obtain ⟨b, -, hpast⟩ := Cursor.past_of_atWordBlank ha
    have hrun := (a.skip (w.length + 1)).past_skipWhile fun c => c != '\r' && c != '\n'
    rw [take_of_past (hpast.append hrun), List.append_assoc, List.singleton_append]
    refine isHeadLine_statement hw.ne_lineEnd fun c hc => ?_
    simpa using List.all_eq_true.mp List.all_takeWhile c hc
  unfold import? at h
  simp only at h
  split at h
  · split at h
    · cases h
      rw [String.toList_ofList]
      exact hline "import" 7 rfl (by decide) _ ‹_›
    · split at h
      · cases h
        rw [String.toList_ofList]
        exact hline "from" 5 rfl (by decide) _ ‹_›
      · cases h
  · cases h

/-- **The import statements of a template.** -/
theorem isHeadLine_of_preamble {steps : Nat} {c d : Cursor} {imports : List String}
    (h : preamble steps c = .ok (imports, d)) : ∀ s ∈ imports, IsHeadLine s.toList := by
  induction steps generalizing c imports with
  | zero => cases h
  | succ steps ih =>
    rw [preamble] at h
    simp only at h
    split at h
    · obtain ⟨⟨text, a⟩, -, h⟩ := Except.bind_ok.mp h
      exact ih h
    · split at h
      · rename_i himport
        obtain ⟨⟨more, b⟩, hmore, h⟩ := Except.bind_ok.mp h
        cases h
        exact List.forall_mem_cons.mpr ⟨isHeadLine_of_import? himport, ih hmore⟩
      · split at h
        · cases h
          simp
        · cases h

end Template.Read

/-- Lines that are ended by line feeds: their carriage returns end lines too. -/
theorem length_sourceLines_flatMap {ls : List String} (h : ∀ l ∈ ls, IsHeadLine l.toList) :
    (ls.flatMap fun l => sourceLines l.toList).length =
      (ls.flatMap fun l => l.toList ++ ['\n']).count '\n' +
        (ls.map fun l => l.toList.count '\r').sum := by
  induction ls with
  | nil => rfl
  | cons l ls ih =>
    obtain ⟨hl, hls⟩ := List.forall_mem_cons.mp h
    rw [List.flatMap_cons, List.flatMap_cons, List.length_append, ih hls, length_sourceLines,
      lineEnds_eq_count hl.count, List.count_append, List.count_append, List.map_cons,
      List.sum_cons, List.count_singleton_self]
    omega

theorem TemplateName.Inline.logical {n : TemplateName} (h : n.Inline) : OneLine n.logical := by
  refine oneLine_intercalate (by decide) fun w hw => ?_
  rcases List.mem_append.mp hw with hw | hw
  · exact h w (List.mem_append_left _ hw)
  · rw [List.mem_singleton.mp hw]
    exact oneLine_append (oneLine_append (h _ (by simp)) (by decide)) (h _ (by simp))

theorem oneLine_upward (namespaces : List String) : OneLine (upward namespaces) := by
  refine oneLine_ofList fun c hc => ?_
  rw [List.eq_of_mem_replicate hc]
  decide

/-- The lines that a module imports for itself are lines. -/
theorem oneLine_moduleImports {stmts : List Stmt} (hrefs : ∀ r ∈ Stmt.refsAll stmts, r.Inline)
    (namespaces : List String) :
    ∀ m ∈ moduleImports stmts, OneLine (m.line (upward namespaces)) := by
  have hup := oneLine_upward namespaces
  have hfrom := oneLine_append (by decide : OneLine "from ") hup
  intro m hm
  cases m with
  | helpers =>
    refine oneLine_append (oneLine_append (oneLine_append (oneLine_append (oneLine_append hfrom
      ?_) ?_) ?_) ?_) ?_ <;> decide
  | template r =>
    have hr : r.Inline := by
      refine hrefs r (Package.mem_importedRefs.mp ?_)
      unfold moduleImports at hm
      split at hm <;> simpa using hm
    have hfunction := hr _ (List.mem_append_right _ (List.mem_singleton_self _))
    have hmodule : OneLine (".".intercalate (r.namespaces ++ [r.module])) := by
      refine oneLine_intercalate (by decide) fun w hw => ?_
      rcases List.mem_append.mp hw with hw | hw
      · exact hr w (List.mem_append_left _ hw)
      · rw [List.mem_singleton.mp hw]
        exact oneLine_append (by decide) hfunction
    have hsource := oneLine_append (oneLine_append hfrom hmodule) (by decide : OneLine " import ")
    exact oneLine_append (oneLine_append (oneLine_append hsource hfunction)
      (by decide : OneLine " as ")) hr.localName
  | statics =>
    refine oneLine_append (oneLine_append (oneLine_append (oneLine_append hfrom ?_) ?_) ?_) ?_ <;>
      decide

namespace Template

/-- **The carriage returns in the import statements of a template.** -/
def returns (t : Template) : Nat := (t.imports.map fun s => s.toList.count '\r').sum

variable {name : TemplateName} {path : Path} {file : String} {text : List Char} {t : Template}
variable {context : Context} {stmts : List Stmt}

theorem isHeadLine_imports (h : Template.parse name path file text = .ok t) :
    ∀ s ∈ t.imports, IsHeadLine s.toList := by
  have hread := (Template.parse_ok h).1
  simp only [Outline.parse, Except.bind_ok] at hread
  obtain ⟨⟨imports, c⟩, hpreamble, ⟨params, c'⟩, -, ⟨body, c''⟩, -, hread⟩ := hread
  have hi : imports = t.imports := congrArg Outline.imports (Except.pure_ok.mp hread)
  rw [← hi]
  exact Read.isHeadLine_of_preamble hpreamble

/-- **The lines before the rendering function**: carriage returns stand in import statements
only. -/
theorem isHeadLine_headLines (hparse : Template.parse name path file text = .ok t)
    (hname : name.Inline) (hcontext : context.Inline) (h : t.stmts context = .ok stmts) :
    (∀ l ∈ t.headLines stmts, IsHeadLine l.toList) ∧
      ((t.headLines stmts).map fun l => l.toList.count '\r').sum = t.returns := by
  have hlogical : OneLine (moduleHeader t.logical) := by
    rw [(Template.parse_ok hparse).2]
    exact oneLine_append (oneLine_append (by decide) hname.logical) (by decide)
  have hfixed : ∀ l ∈ [moduleHeader t.logical, "from __future__ import annotations", ""],
      OneLine l := by
    refine List.forall_mem_cons.mpr ⟨hlogical, ?_⟩
    decide
  have hstmts := inline_stmts hparse hcontext h
  have hmodule : ∀ l ∈ (Stencil.moduleImports stmts).map (ModuleImport.line (upward t.namespaces)),
      OneLine l :=
    List.forall_mem_map.mpr
      (oneLine_moduleImports (fun r hr => Stmt.inline_of_refsAll hstmts hr) t.namespaces)
  have hnone {ls : List String} (hls : ∀ l ∈ ls, OneLine l) :
      (ls.map fun l => l.toList.count '\r').sum = 0 := by
    refine List.sum_eq_zero ?_
    exact List.forall_mem_map.mpr fun l hl => (count_of_oneLine (hls l hl)).2
  unfold headLines
  constructor
  · refine List.forall_mem_append.mpr ⟨List.forall_mem_append.mpr ⟨fun l hl => ?_, ?_⟩,
      fun l hl => ?_⟩
    · exact isHeadLine_of_oneLine (hfixed l hl)
    · exact isHeadLine_imports hparse
    · exact isHeadLine_of_oneLine (hmodule l hl)
  · rw [List.map_append, List.map_append, List.sum_append, List.sum_append, hnone hfixed,
      hnone hmodule, Nat.zero_add, Nat.add_zero, returns]

theorem toList_headText (t : Template) (stmts : List Stmt) : (t.headText stmts).toList =
    ((t.headLines stmts).flatMap fun l => l.toList ++ ['\n']) ++ ['\n', '\n'] := by
  have hne : t.headLines stmts ≠ [] := by simp [headLines]
  rw [← toList_intercalate_newline hne, headText, String.toList_append, List.append_assoc]
  rfl

/-- **The lines of a text behind that before the rendering function.** -/
theorem sourceLines_headText (h : ∀ l ∈ t.headLines stmts, IsHeadLine l.toList) (ds : List Char) :
    ∃ ls, sourceLines ((t.headText stmts).toList ++ ds) = ls ++ sourceLines ds ∧
      ls.length = lineEnds (t.headText stmts).toList ∧
      ls.length = t.prefixLines stmts +
        ((t.headLines stmts).map fun l => l.toList.count '\r').sum := by
  have hlines (ds : List Char) : sourceLines ((t.headText stmts).toList ++ ds) =
      (((t.headLines stmts).flatMap fun l => sourceLines l.toList) ++ [[], []]) ++
        sourceLines ds := by
    have hblank : sourceLines ('\n' :: '\n' :: ds) = [[], []] ++ sourceLines ds := by
      rw [sourceLines_cons (fun h => by cases h), if_pos (.inl rfl),
        sourceLines_cons (fun h => by cases h), if_pos (.inl rfl)]
      rfl
    rw [toList_headText, List.append_assoc, sourceLines_flatMap fun l hl => (h l hl).last,
      List.append_assoc, ← hblank]
    rfl
  refine ⟨_, hlines ds, ?_, ?_⟩
  · have hlength := congrArg List.length (hlines [])
    rw [List.append_nil, length_sourceLines, @List.length_append _ _ (sourceLines [])] at hlength
    exact (Nat.succ.inj hlength).symm
  · rw [List.length_append, length_sourceLines_flatMap h, prefixLines, toList_headText,
      List.count_append]
    simp only [List.length_cons, List.length_nil, List.count_cons_self, List.count_nil]
    omega

/-! ## Lines of the rendering function -/

/-- **A line of the rendering function is a line of the module**, behind those before the
function. -/
theorem sourceLines_moduleText (h : ∀ l ∈ t.headLines stmts, IsHeadLine l.toList)
    (hlines : ∀ l ∈ t.functionLines stmts, OneLine l.text) {i : Nat} {l : Line}
    (hl : (t.functionLines stmts)[i]? = some l) :
    (sourceLines (t.moduleText stmts).toList)[t.lineNumber stmts i - 1]? = some l.text.toList := by
  have htexts : ∀ s ∈ (t.functionLines stmts).map Line.text, OneLine s :=
    List.forall_mem_map.mpr hlines
  have hfunction (ds : List Char) : sourceLines ((Line.join (t.functionLines stmts)).toList ++ ds) =
      ((t.functionLines stmts).map fun l => l.text.toList) ++ sourceLines ds := by
    have hjoin : (Line.join (t.functionLines stmts)).toList =
        ((t.functionLines stmts).map Line.text).flatMap fun s => s.toList ++ ['\n'] := by
      rw [← toList_intercalate_newline (by simp [functionLines]), Line.join, String.toList_append]
      rfl
    rw [hjoin, sourceLines_flatMap fun s hs => (isHeadLine_of_oneLine (htexts s hs)).last]
    refine congrArg (· ++ sourceLines ds) ?_
    rw [List.flatMap_congr fun s hs => sourceLines_of_oneLine (htexts s hs), ← List.map_eq_flatMap,
      List.map_map]
    rfl
  obtain ⟨ls, hsource, hlength, -⟩ := sourceLines_headText h
    ((Line.join (t.functionLines stmts)).toList ++ t.secondName.toList)
  rw [moduleText, String.toList_append, String.toList_append, List.append_assoc, hsource, hfunction,
    lineNumber, ← hlength, Nat.add_sub_cancel, List.getElem?_append_right (Nat.le_add_right _ _),
    Nat.add_sub_cancel_left]
  obtain ⟨hi, hget⟩ := List.getElem?_eq_some_iff.mp hl
  rw [List.getElem?_append_left (by rwa [List.length_map]), List.getElem?_map, hl]
  rfl

/-- **A line is blamed on what stands a few lines below it**: so many as carriage returns stand in
the import statements. -/
theorem blamed_lineNumber (hreturns : lineEnds (t.headText stmts).toList =
      t.prefixLines stmts + t.returns) (i : Nat) :
    t.blamed stmts (t.lineNumber stmts i) =
      (((t.functionLines stmts).map Line.position)[i + t.returns]?).getD 0 := by
  have hnumber : t.lineNumber stmts i - t.prefixLines stmts - 1 = i + t.returns := by
    rw [lineNumber, hreturns]
    omega
  have hle : ¬ t.lineNumber stmts i ≤ t.prefixLines stmts := by
    rw [lineNumber, hreturns]
    omega
  rw [blamed, if_neg hle, hnumber, List.getElem?_map]
  cases (t.functionLines stmts)[i + t.returns]? with
  | none => rfl
  | some l => rfl

end Template

/-! ## Refused code -/

/-- **What is refused in the head of a line**: a pattern, or one more loop. -/
def Head.Refused : Head → CodeProblem → Prop
  | .case pattern _, problem => pattern.captures [] = .error problem
  | .loop _ _, problem => problem = .tooManyLoops
  | _, _ => False

namespace Stmt

/-- **A refusal at one of the lines**, where it has its reason. -/
def RefusedAt (ls : List Line) (r : Refusal) : Prop :=
  ∃ l, ls[r.line]? = some l ∧ l.head.Refused r.problem

section RefusedAt

variable {ls ls' : List Line} {l : Line} {x : Except Refusal Unit} {r : Refusal} {n : Nat}

theorem after_error (h : after n x = .error r) :
    ∃ r', x = .error r' ∧ r.problem = r'.problem ∧ r.line = n + r'.line := by
  cases x with
  | ok u => cases h
  | error r' =>
    cases h
    exact ⟨r', rfl, rfl, rfl⟩

theorem RefusedAt.append_left (h : RefusedAt ls r) (ls' : List Line) : RefusedAt (ls ++ ls') r := by
  obtain ⟨l, hl, hr⟩ := h
  obtain ⟨hlt, -⟩ := List.getElem?_eq_some_iff.mp hl
  exact ⟨l, by rwa [List.getElem?_append_left hlt], hr⟩

/-- A refusal behind some lines. -/
theorem RefusedAt.of_after (h : after ls.length x = .error r)
    (hx : ∀ r', x = .error r' → RefusedAt ls' r') : RefusedAt (ls ++ ls') r := by
  obtain ⟨r', hx', hproblem, hline⟩ := after_error h
  obtain ⟨l, hl, hr⟩ := hx r' hx'
  refine ⟨l, ?_, hproblem ▸ hr⟩
  rw [hline, List.getElem?_append_right (Nat.le_add_right _ _), Nat.add_sub_cancel_left, hl]

theorem RefusedAt.of_after_one (h : after 1 x = .error r)
    (hx : ∀ r', x = .error r' → RefusedAt ls r') : RefusedAt (l :: ls) r :=
  have hone : after [l].length x = .error r := h
  RefusedAt.of_after hone hx

theorem RefusedAt.orPass (h : RefusedAt ls r) (i p : Nat) : RefusedAt (orPass i p ls) r := by
  unfold Stmt.orPass
  split
  · rename_i hempty
    rw [List.isEmpty_iff] at hempty
    obtain ⟨l, hl, -⟩ := h
    rw [hempty] at hl
    cases hl
  · exact h

end RefusedAt

/-! ### The number of lines

It does not depend on the level of indentation. -/

theorem length_orPass {ls ls' : List Line} (h : ls.length = ls'.length) (i j p q : Nat) :
    (orPass i p ls).length = (orPass j q ls').length := by
  have hempty : ls.isEmpty = ls'.isEmpty := by
    rw [Bool.eq_iff_iff, List.isEmpty_iff_length_eq_zero, List.isEmpty_iff_length_eq_zero, h]
  unfold orPass
  rw [hempty]
  split
  · rfl
  · exact h

mutual

theorem length_lines (i j : Nat) : ∀ st : Stmt, (st.lines i).length = (st.lines j).length
  | write _ _ | interpolate _ _ _ | evaluate _ _ | call _ _ _ => by
    rw [lines, lines]
    rfl
  | define p _ body | loop p _ _ body => by
    rw [lines, lines, List.length_cons, List.length_cons,
      length_orPass (length_linesAll (i + 1) (j + 1) body)]
  | branch p arms otherwise => by
    rw [lines, lines, List.length_append, List.length_append,
      length_armLines i j p p true true arms, length_otherwiseLines i j p otherwise]
  | select p _ cases => by
    rw [lines, lines, List.length_cons, List.length_cons,
      length_caseLines (i + 1) (j + 1) p p cases]

theorem length_linesAll (i j : Nat) : ∀ ss : List Stmt,
    (linesAll i ss).length = (linesAll j ss).length
  | [] => by rw [linesAll, linesAll]
  | s :: ss => by
    rw [linesAll, linesAll, List.length_append, List.length_append, length_lines i j s,
      length_linesAll i j ss]

theorem length_armLines (i j p q : Nat) (first first' : Bool) : ∀ arms : List (Expr × List Stmt),
    (armLines i p first arms).length = (armLines j q first' arms).length
  | [] => by rw [armLines, armLines]
  | (_, body) :: arms => by
    rw [armLines, armLines, List.length_append, List.length_append, List.length_cons,
      List.length_cons, length_orPass (length_linesAll (i + 1) (j + 1) body) _ _ _ q,
      length_armLines i j p q false false arms]

theorem length_otherwiseLines (i j p : Nat) : ∀ o : Option (List Stmt),
    (otherwiseLines i p o).length = (otherwiseLines j p o).length
  | none => by rw [otherwiseLines, otherwiseLines]
  | some body => by
    rw [otherwiseLines, otherwiseLines, List.length_cons, List.length_cons,
      length_orPass (length_linesAll (i + 1) (j + 1) body)]

theorem length_caseLines (i j p q : Nat) : ∀ cases : List (Pattern × Option Expr × List Stmt),
    (caseLines i p cases).length = (caseLines j q cases).length
  | [] => by rw [caseLines, caseLines]
  | (_, _, body) :: cases => by
    rw [caseLines, caseLines, List.length_append, List.length_append, List.length_cons,
      List.length_cons, length_orPass (length_linesAll (i + 1) (j + 1) body) _ _ _ q,
      length_caseLines i j p q cases]

end

theorem length_body (i p : Nat) (body : List Stmt) :
    (orPass i p (linesAll i body)).length = bodyLength body :=
  length_orPass (length_linesAll i 0 body) i 0 p 0

/-! ### The refused line -/

mutual

/-- **A statement is refused at one of its lines.** -/
theorem refused_of_check (i : Nat) : ∀ {st : Stmt} {loops : Nat} {r : Refusal},
    st.check loops = .error r → RefusedAt (st.lines i) r
  | write _ _, _, _, h | interpolate _ _ _, _, _, h | evaluate _ _, _, _, h
  | call _ _ _, _, _, h => by
    rw [check] at h
    · cases h
    all_goals simp
  | define p _ _, _, _, h => by
    rw [check] at h
    rw [lines]
    exact .of_after_one h fun r' h' => (refused_of_checkAll (i + 1) h').orPass _ p
  | branch p arms none, _, _, h => by
    rw [check] at h
    rw [lines, otherwiseLines, List.append_nil]
    obtain h | ⟨-, -, h⟩ := Except.bind_error.mp h
    · exact refused_of_checkArms i p true h
    · obtain ⟨r', h', -⟩ := after_error h
      rw [checkOtherwise] at h'
      cases h'
  | branch p arms (some body), _, _, h => by
    rw [check] at h
    rw [lines]
    obtain h | ⟨-, -, h⟩ := Except.bind_error.mp h
    · exact (refused_of_checkArms i p true h).append_left _
    · have hlength : (armLines 0 p true arms).length + 1 =
          (armLines i p true arms ++ [(⟨i, .otherwise, p⟩ : Line)]).length := by
        rw [List.length_append, length_armLines 0 i p p true true arms, List.length_singleton]
      rw [hlength] at h
      rw [otherwiseLines, ← List.singleton_append, ← List.append_assoc]
      refine .of_after h fun r' h' => ?_
      rw [checkOtherwise] at h'
      exact (refused_of_checkAll (i + 1) h').orPass _ p
  | loop p _ _ _, _, _, h => by
    rw [check] at h
    rw [lines]
    split at h
    · exact .of_after_one h fun r' h' => (refused_of_checkAll (i + 1) h').orPass _ p
    · cases h
      exact ⟨_, rfl, rfl⟩
  | select p _ _, _, _, h => by
    rw [check] at h
    rw [lines]
    exact .of_after_one h fun r' h' => refused_of_checkCases (i + 1) p h'

theorem refused_of_checkAll (i : Nat) : ∀ {ss : List Stmt} {loops : Nat} {r : Refusal},
    checkAll loops ss = .error r → RefusedAt (linesAll i ss) r
  | [], _, _, h => by
    rw [checkAll] at h
    cases h
  | s :: ss, _, _, h => by
    rw [checkAll] at h
    rw [linesAll]
    obtain h | ⟨-, -, h⟩ := Except.bind_error.mp h
    · exact (refused_of_check i h).append_left _
    · rw [length_lines 0 i s] at h
      exact .of_after h fun r' h' => refused_of_checkAll i h'

theorem refused_of_checkArms (i p : Nat) (first : Bool) : ∀ {arms : List (Expr × List Stmt)}
    {loops : Nat} {r : Refusal}, checkArms loops arms = .error r →
    RefusedAt (armLines i p first arms) r
  | [], _, _, h => by
    rw [checkArms] at h
    cases h
  | (e, body) :: arms, _, _, h => by
    rw [checkArms] at h
    rw [armLines]
    obtain h | ⟨-, -, h⟩ := Except.bind_error.mp h
    · refine RefusedAt.append_left ?_ _
      exact .of_after_one h fun r' h' => (refused_of_checkAll (i + 1) h').orPass _ p
    · rw [← length_body (i + 1) p body, ← List.length_cons] at h
      exact .of_after h fun r' h' => refused_of_checkArms i p false h'

theorem refused_of_checkCases (i p : Nat) :
    ∀ {cases : List (Pattern × Option Expr × List Stmt)} {loops : Nat} {r : Refusal},
    checkCases loops cases = .error r → RefusedAt (caseLines i p cases) r
  | [], _, _, h => by
    rw [checkCases] at h
    cases h
  | (pattern, guard, body) :: cases, _, _, h => by
    rw [checkCases] at h
    rw [caseLines]
    obtain h | ⟨-, -, h⟩ := Except.bind_error.mp h
    · refine RefusedAt.append_left ?_ _
      unfold checkPattern at h
      split at h
      · cases h
      · rename_i problem hcaptures
        cases h
        exact ⟨_, rfl, hcaptures⟩
    · obtain h | ⟨-, -, h⟩ := Except.bind_error.mp h
      · refine RefusedAt.append_left ?_ _
        exact .of_after_one h fun r' h' => (refused_of_checkAll (i + 1) h').orPass _ p
      · rw [← length_body (i + 1) p body, ← List.length_cons] at h
        exact .of_after h fun r' h' => refused_of_checkCases i p h'

end

end Stmt

/-! ## Templates -/

namespace Template

/-- **The recorded lines of a rendering function**, with their positions, and what errors at them
are blamed on. -/
structure Located (context : Context) (t : Template) (stmts : List Stmt) (b : Builder) : Prop where
  /-- No line is broken. -/
  oneLine : ∀ l ∈ b.lines, OneLine l
  length : b.positions.length = b.lines.length
  /-- Each position is that of the innermost construct that was being emitted, or the start of the
  template if there was none. -/
  positions : b.positions = b.origins.map Builder.placeOf
  origins : ∀ n, some n ∈ b.origins → n ∈ Node.nodesAll t.body ∧ n.plain? = none
  /-- The lines are lines of the module. -/
  lines : ∀ (i : Nat) (l : String), b.lines[i]? = some l →
    (sourceLines (t.moduleText stmts).toList)[t.lineNumber stmts i - 1]? = some l.toList
  number : ∀ i, t.lineNumber stmts i = t.prefixLines stmts + t.returns + i + 1
  /-- An error is blamed on a line too far below, by the carriage returns in import statements. -/
  blamed : ∀ i, t.blamed stmts (t.lineNumber stmts i) = (b.positions[i + t.returns]?).getD 0
  /-- Refused code is refused at a recorded line, and the error is placed as such lines are. -/
  refused : ∀ r, Stmt.checkAll 0 stmts = .error r →
    (∃ l, (t.functionLines stmts)[r.line + 1]? = some l ∧ b.lines[r.line + 1]? = some l.text ∧
      l.head.Refused r.problem) ∧
    t.module? context =
      .error (.at (.invalidCode r.problem) (t.blamed stmts (t.lineNumber stmts (r.line + 1))))

variable {name : TemplateName} {path : Path} {file : String} {text : List Char} {t : Template}
variable {context : Context} {stmts : List Stmt}

/-- Refused code makes no module. -/
theorem module_of_refused (h : t.stmts context = .ok stmts) {r : Refusal}
    (hr : Stmt.checkAll 0 stmts = .error r) : t.module? context =
      .error (.at (.invalidCode r.problem) (t.blamed stmts (t.lineNumber stmts (r.line + 1)))) := by
  rw [module?, h]
  show (t.compile stmts >>= fun _ => pure (t.moduleText stmts)) = _
  rw [compile, hr]
  rfl

/-- **Errors in generated code lead back to the template**: the lines of the rendering function are
unbroken and stand in the module in their order, each with the position of the construct that it was
committed for, and an error at one of them is blamed on that position if no import statement holds a
carriage return; each one that does moves the blame by one line. -/
theorem exists_located (hparse : Template.parse name path file text = .ok t) (hname : name.Inline)
    (hcontext : context.Inline) (h : t.stmts context = .ok stmts) :
    ∃ b, t.emit context = .ok b ∧ Located context t stmts b := by
  obtain ⟨b, hemit, hlines, hpositions, hplaces, horigins⟩ := exists_emit h
  have honeLine := oneLine_functionLines hparse hname hcontext h
  obtain ⟨hhead, hreturns⟩ := isHeadLine_headLines hparse hname hcontext h
  obtain ⟨ls, -, hends, hprefix⟩ := sourceLines_headText hhead []
  rw [hends, hreturns] at hprefix
  refine ⟨b, hemit, ?_, ?_, hplaces, horigins, fun i l hl => ?_, fun i => ?_, fun i => ?_,
    fun r hr => ?_⟩
  · rw [hlines]
    exact List.forall_mem_map.mpr honeLine
  · rw [hlines, hpositions, List.length_map, List.length_map]
  · rw [hlines, List.getElem?_map] at hl
    obtain ⟨line, hline, rfl⟩ := Option.map_eq_some_iff.mp hl
    exact sourceLines_moduleText hhead honeLine hline
  · rw [lineNumber, hprefix]
  · rw [blamed_lineNumber hprefix, hpositions]
  · obtain ⟨l, hl, hrefused⟩ := (Stmt.refused_of_checkAll 1 hr).orPass 1 0
    have hline : (t.functionLines stmts)[r.line + 1]? = some l := hl
    refine ⟨⟨l, hline, ?_, hrefused⟩, module_of_refused h hr⟩
    rw [hlines, List.getElem?_map, hline]
    rfl

/-- A case that binds one name twice. -/
def repeatedText : List Char := "@(v: object)\n@match v \x7b(a, a) => \x7b@v\x7d,\x7d".toList

theorem exists_located_repeated : ∃ t stmts b,
    Template.parse ⟨[], "page", "html"⟩ .here "" repeatedText = .ok t ∧
      (⟨[], "page", "html"⟩ : TemplateName).Inline ∧ Context.empty.Inline ∧
      t.stmts .empty = .ok stmts ∧ t.emit .empty = .ok b ∧ Located .empty t stmts b := by
  obtain ⟨t, hparse, h⟩ := Except.exists_of_any
    (by decide +kernel : ((Template.parse ⟨[], "page", "html"⟩ .here "" repeatedText).toOption.any
      fun t => (t.stmts .empty).toOption.any fun _ => true) = true)
  obtain ⟨stmts, hstmts, -⟩ := Except.exists_of_any h
  have hname : (⟨[], "page", "html"⟩ : TemplateName).Inline := by decide +kernel
  have hcontext : Context.empty.Inline := by simp [Context.Inline, Context.empty]
  obtain ⟨b, hemit, hlocated⟩ := exists_located hparse hname hcontext hstmts
  exact ⟨t, stmts, b, hparse, hname, hcontext, hstmts, hemit, hlocated⟩

/-- Import statements with a text between them that goes over several lines, one of which ends with
a carriage return, and a case that binds one name twice. -/
def returnText : List Char :=
  ("@import x; \"\"\"\n@from\r\"\"\"\n" ++
    "@(v: object)\n@match v \x7b(a, a) => \x7b@v\x7d,\x7d").toList

/-- What is refused stands at a line that was committed for the construct at `p`, but is blamed on
`q`. -/
def isBlamedElsewhere (p q : Nat) (t : Template) (stmts : List Stmt) (b : Builder) : Bool :=
  match Stmt.checkAll 0 stmts with
  | .ok _ => false
  | .error r =>
    b.positions[r.line + 1]? == some p && t.blamed stmts (t.lineNumber stmts (r.line + 1)) == q &&
      t.lineNumber stmts (r.line + 1) != t.prefixLines stmts + (r.line + 1) + 1

/-- **A carriage return in an import statement moves the blame**: the case is refused at the line of
the match, but the value inside the case is blamed. -/
theorem blamed_elsewhere : ∃ t stmts b r,
    Template.parse ⟨[], "page", "html"⟩ .here "" returnText = .ok t ∧
      t.stmts .empty = .ok stmts ∧ t.emit .empty = .ok b ∧
      Stmt.checkAll 0 stmts = .error r ∧ b.positions[r.line + 1]? = some 38 ∧
      t.lineNumber stmts (r.line + 1) ≠ t.prefixLines stmts + (r.line + 1) + 1 ∧
      t.module? .empty = .error (.at (.invalidCode r.problem) 59) := by
  obtain ⟨t, hparse, h⟩ := Except.exists_of_any
    (by decide +kernel : ((Template.parse ⟨[], "page", "html"⟩ .here "" returnText).toOption.any
      fun t => (t.stmts .empty).toOption.any fun stmts => (t.emit .empty).toOption.any
        (isBlamedElsewhere 38 59 t stmts)) = true)
  obtain ⟨stmts, hstmts, h⟩ := Except.exists_of_any h
  obtain ⟨b, hemit, h⟩ := Except.exists_of_any h
  unfold isBlamedElsewhere at h
  split at h
  · cases h
  · rename_i r hr
    simp only [Bool.and_eq_true, beq_iff_eq, bne_iff_ne] at h
    obtain ⟨⟨hposition, hblamed⟩, hnumber⟩ := h
    have hmodule := module_of_refused hstmts hr
    rw [hblamed] at hmodule
    exact ⟨t, stmts, b, r, hparse, hstmts, hemit, hr, hposition, hnumber, hmodule⟩

end Template

end Stencil
