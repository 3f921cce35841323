import Mathlib.Data.List.TakeWhile
import Stencil.Proofs.ClosedPackage
import Stencil.Proofs.FreeNames
import Stencil.Proofs.Layout

/-!
# Imports of authors

The import statements of a template stand above all that its module imports and defines for itself,
so that a name which they bind may be bound once more further down.

* `lineNames`: the names that a line binds at the level of a module.
* `Template.laterLines`: the lines at that level below the import statements.
* `Template.taken`: the helpers, the templates and static files that are in use, and what the module
  defines.
* **`kept_imports`**: what an author imports is bound again exactly if its name is taken, and
  reaches a use of the name if nothing in a function around binds the name either.
-/

namespace Stencil

open Text

/-! ## Names that lines bind -/

/-- The names that modules are imported under: the one that is given, or the first part of the name
of the module. -/
def moduleNames (cs : List Char) : List String :=
  (cs.splitOn ',').filterMap fun cs => (ImportLine.readName? cs).map fun n =>
    if n.1 = n.2 then String.ofList (n.1.toList.takeWhile (· ≠ '.')) else n.2

/-- **The names that a line binds** at the level of a module, if it is an import, the head of a
function or an assignment. -/
def lineNames (line : String) : List String :=
  let word := line.toList.takeWhile (· ≠ ' ')
  let rest := line.toList.dropWhile (· ≠ ' ')
  if word = "from".toList then (ImportLine.read? line).elim [] fun i => i.names.map Prod.snd
  else if word = "import".toList then moduleNames (rest.drop 1)
  else if word = "def".toList then [String.ofList ((rest.drop 1).takeWhile (· ≠ '('))]
  else if " = ".toList.isPrefixOf rest then [String.ofList word]
  else []

/-- **A module is bound to its name**, or to the name that it is given. -/
theorem lineNames_module {m n : String} (hm : isIdentifier m) (hn : isIdentifier n) :
    lineNames ("import " ++ ImportLine.nameText (m, n)) = [n] := by
  have hcs : ("import " ++ ImportLine.nameText (m, n)).toList =
      'i' :: 'm' :: 'p' :: 'o' :: 'r' :: 't' :: ' ' :: (ImportLine.nameText (m, n)).toList := by
    simp
  have hsplit : (ImportLine.nameText (m, n)).toList.splitOn ',' =
      [(ImportLine.nameText (m, n)).toList] :=
    ImportLine.splitOn_of_eq (by simp)
      (by simpa using ImportLine.comma_not_mem_nameText ⟨hm, hn⟩) (by simp)
  have hpart : n.toList.takeWhile (· ≠ '.') = n.toList :=
    List.takeWhile_eq_self_iff.mpr fun c hc => decide_eq_true fun he =>
      ImportLine.not_mem_of_isIdentifier hn (by decide) (he ▸ hc)
  have hnames : moduleNames (ImportLine.nameText (m, n)).toList = [n] := by
    rw [moduleNames, hsplit, List.filterMap_cons, (ImportLine.readName?_nameText ⟨hm, hn⟩).1]
    by_cases he : m = n
    · subst he
      simpa using congrArg String.ofList hpart
    · simp [he]
  simpa [lineNames, hcs] using hnames

theorem lineNames_import {i : ImportLine} (h : i.IsPlain) :
    lineNames i.text = i.names.map Prod.snd := by
  obtain ⟨cs, hcs⟩ : ∃ cs, i.text.toList = 'f' :: 'r' :: 'o' :: 'm' :: ' ' :: cs :=
    ⟨_, by simp [ImportLine.text]; rfl⟩
  simp [lineNames, hcs, ImportLine.read?_text h]

theorem lineNames_define {f : String} (h : isIdentifier f) (params : List Param) (p : Nat) :
    lineNames (Line.text ⟨0, .define f params, p⟩) = [f] := by
  obtain ⟨cs, hcs⟩ : ∃ cs, (Line.text ⟨0, .define f params, p⟩).toList =
      'd' :: 'e' :: 'f' :: ' ' :: (f.toList ++ '(' :: cs) :=
    ⟨_, by simp [Line.text, Head.code]; rfl⟩
  have hname : (f.toList ++ '(' :: cs).takeWhile (· ≠ '(') = f.toList :=
    (ImportLine.takeWhile_identifier h (by decide) cs).1
  simpa [lineNames, hcs] using congrArg String.ofList hname

theorem lineNames_assign {n : String} (h : isIdentifier n) (hr : isReserved n = false)
    (value : String) : lineNames (n ++ " = " ++ value) = [n] := by
  have hcs : (n ++ " = " ++ value).toList = n.toList ++ ' ' :: '=' :: ' ' :: value.toList := by
    simp
  obtain ⟨hword, hrest⟩ :=
    ImportLine.takeWhile_identifier h (by decide : isIdentifierPart ' ' = false)
      ('=' :: ' ' :: value.toList)
  have hne : ∀ w ∈ reservedWords, n.toList ≠ w.toList := by
    intro w hw he
    rw [String.toList_inj.mp he, isReserved, List.contains_iff_mem.mpr hw] at hr
    cases hr
  rw [lineNames, hcs, hword, hrest, if_neg (hne _ (by decide)), if_neg (hne _ (by decide)),
    if_neg (hne _ (by decide)), if_pos (by simp), String.ofList_toList]

/-! ## Lines of a module -/

namespace Template

variable {t : Template} {stmts : List Stmt} {n : String}

/-- **The lines at the level of the module that follow the imports of the author**: its own imports,
what stands at the margin of the rendering function, and the second name of a page. -/
def laterLines (t : Template) (stmts : List Stmt) : List String :=
  (Stencil.moduleImports stmts).map (ModuleImport.line (upward t.namespaces)) ++
    ((t.functionLines stmts).filter (·.indent = 0)).map Line.text ++
    if t.isPage then [t.stem ++ " = " ++ t.function] else []

/-- The author imports something under the name. -/
def IsImported (t : Template) (n : String) : Prop := ∃ line ∈ t.imports, n ∈ lineNames line

/-- **The module binds the name once more**, below what the author imports. -/
def Rebinds (t : Template) (stmts : List Stmt) (n : String) : Prop :=
  ∃ line ∈ t.laterLines stmts, n ∈ lineNames line

/-- **A name refers to what the author imports**, at a place. -/
@[mk_iff]
structure RefersToImport (t : Template) (stmts : List Stmt) (site : Site) (n : String) : Prop where
  imported : t.IsImported n
  kept : ¬ t.Rebinds stmts n
  visible : ¬ site.IsLocal n

/-- The helpers that are imported as what they are called. -/
def plainHelpers : List String := ["Content", "Html", "ToHtml", "Writer"]

/-- **The names that a module binds for itself.** -/
def taken (t : Template) (stmts : List Stmt) : List String :=
  plainHelpers ++ [Names.writeEscaped, Names.writeRaw] ++
    (Stmt.refsAll stmts).map TemplateRef.localName ++
    (if Expr.anyUsesStatics (Stmt.exprsAll stmts) then [Names.staticsAlias] else []) ++
    Package.exports t.toTemplateName

/-- Only the head of the rendering function stands at its margin. -/
theorem filter_functionLines : (t.functionLines stmts).filter (·.indent = 0) =
    [⟨0, .define t.function t.params, 0⟩] := by
  rw [functionLines, List.filter_cons_of_pos (by simp), List.filter_eq_nil_iff.mpr]
  intro l hl
  have hle : 1 ≤ l.indent := by
    rcases Stmt.mem_orPass hl with hl | hl
    · exact Stmt.le_indent_all 1 stmts l hl
    · exact hl.ge
  simpa using Nat.ne_of_gt hle

/-- **A name that the generator does not keep for itself is taken** by a helper or by what the
module defines. -/
theorem mem_taken_iff (hn : ¬ OwnName n) :
    n ∈ t.taken stmts ↔ n ∈ plainHelpers ∨ n ∈ Package.exports t.toTemplateName := by
  have hown : ∀ m, OwnName m → n ≠ m := fun m hm he => hn (he ▸ hm)
  have hrefs : n ∉ (Stmt.refsAll stmts).map TemplateRef.localName := by
    intro hmem
    obtain ⟨r, -, he⟩ := List.mem_map.mp hmem
    exact hown _ r.ownName_localName he.symm
  have hstatics : n ∉ if Expr.anyUsesStatics (Stmt.exprsAll stmts) then [Names.staticsAlias]
      else [] := by
    split
    · exact fun hmem => hown _ (by decide) (List.mem_singleton.mp hmem)
    · exact List.not_mem_nil
  have hwriters : n ∉ [Names.writeEscaped, Names.writeRaw] := by
    simp only [List.mem_cons, List.not_mem_nil, or_false, not_or]
    exact ⟨hown _ (by decide), hown _ (by decide)⟩
  rw [taken, List.mem_append, List.mem_append, List.mem_append, List.mem_append,
    or_iff_left hstatics, or_iff_left hrefs, or_iff_left hwriters]

section Admitted

variable {names : List TemplateName} {statics : Option (List String)}
variable (hadmitted : ∀ n ∈ t.toTemplateName :: names, n.Admitted)
variable (hs : t.stmts (.ofNames names statics) = .ok stmts)
variable (hc : Stmt.checkAll 0 stmts = .ok ())

include hadmitted hs hc

/-- What the module imports for itself binds the names of helpers, those of called templates, and
that of static files. -/
theorem mem_names_moduleImports :
    (∃ line ∈ (Stencil.moduleImports stmts).map (ModuleImport.line (upward t.namespaces)),
      n ∈ lineNames line) ↔
      n ∈ plainHelpers ++ [Names.writeEscaped, Names.writeRaw] ++
        (Stmt.refsAll stmts).map TemplateRef.localName ++
        if Expr.anyUsesStatics (Stmt.exprsAll stmts) then [Names.staticsAlias] else [] := by
  have hline : ∀ m ∈ Stencil.moduleImports stmts,
      lineNames (m.line (upward t.namespaces)) = (m.toLine 0).names.map Prod.snd := by
    intro m hm
    rw [m.line_upward, lineNames_import (Package.isPlain_moduleImport
      (fun n hn => hadmitted n (List.mem_cons_of_mem _ hn)) hs hc hm _)]
    cases m <;> rfl
  simp only [List.mem_map, exists_exists_and_eq_and]
  rw [exists_congr fun m => and_congr_right fun hm => by rw [hline m hm]]
  simp only [Package.mem_moduleImports, or_and_right, exists_or, exists_eq_left]
  rw [List.mem_append, List.mem_append, or_assoc]
  refine or_congr .rfl (or_congr ?_ ?_)
  · simp [ModuleImport.toLine, eq_comm]
  · split <;> simp [ModuleImport.toLine, *]

omit hs hc in
/-- The rendering function and the second name of a page are what a module exports. -/
theorem mem_names_defined : (∃ line ∈ [Line.text ⟨0, .define t.function t.params, 0⟩] ++
    (if t.isPage then [t.stem ++ " = " ++ t.function] else []), n ∈ lineNames line) ↔
      n ∈ Package.exports t.toTemplateName := by
  have hself := hadmitted _ List.mem_cons_self
  have hstem : t.stem ∈ t.namespaces ++ [t.stem] :=
    List.mem_append_right _ (List.mem_singleton_self _)
  have hreserved : isReserved t.stem = false := by
    have hword := hself.word t.stem hstem
    simp only [isTemplateWord, Bool.and_eq_true, Bool.not_eq_true'] at hword
    exact hword.1.2
  rw [Package.exports]
  split <;> simp [lineNames_define hself.isIdentifier_function,
    lineNames_assign (hself.isIdentifier _ hstem) hreserved, or_comm]

/-- **A module binds again the names that are taken.** -/
theorem rebinds_iff : t.Rebinds stmts n ↔ n ∈ t.taken stmts := by
  have happend : ∀ l l' : List String, (∃ line ∈ l ++ l', n ∈ lineNames line) ↔
      (∃ line ∈ l, n ∈ lineNames line) ∨ ∃ line ∈ l', n ∈ lineNames line := by
    simp [or_and_right, exists_or]
  rw [Rebinds, laterLines, filter_functionLines, List.append_assoc, List.map_singleton, happend,
    mem_names_moduleImports hadmitted hs hc, mem_names_defined hadmitted, taken]
  exact List.mem_append.symm

end Admitted

end Template

/-- **What authors import is kept unless its name is taken**, for every template that generates. A
line below binds the name again if it is one of the names that the module imports or defines for
itself; of those that the generator does not keep for itself these are the names of four helpers and
what the module exports. Where nothing around a use of the name binds it, the use refers to what the
author imports if the name is not taken and nothing else in a function around binds it either. -/
theorem kept_imports {t : Template} {names : List TemplateName} {statics : Option (List String)}
    {code : String} (hadmitted : ∀ n ∈ t.toTemplateName :: names, n.Admitted)
    (h : t.module? (.ofNames names statics) = .ok code) :
    ∃ stmts, t.stmts (.ofNames names statics) = .ok stmts ∧ code = t.moduleText stmts ∧
      (∀ n, t.Rebinds stmts n ↔ n ∈ t.taken stmts) ∧
      (∀ n, ¬ OwnName n → (n ∈ t.taken stmts ↔
        n ∈ Template.plainHelpers ∨ n ∈ Package.exports t.toTemplateName)) ∧
      SitedBody (.free fun site n => ¬ IsMade n → (t.RefersToImport stmts site n ↔
        t.IsImported n ∧ n ∉ t.taken stmts ∧ ¬ site.Binds n)) (t.site stmts) t.body stmts := by
  obtain ⟨stmts, hs, hc, hcode⟩ := Template.module_ok.mp h
  have hrebinds := fun n => Template.rebinds_iff (n := n) hadmitted hs hc
  refine ⟨stmts, hs, hcode, hrebinds, fun n => Template.mem_taken_iff,
    Template.sited (Asked.free_met fun hfits n hn => ?_) hs hc⟩
  rw [Template.refersToImport_iff, hrebinds, hfits.locals n hn]

/-- Imports that are kept and that are not, in a function and in the block of a call. -/
def importingText : List Char :=
  ("@import math, os.path as path\n@from markupsafe import Html, escape as e\n@(x: list)\n" ++
    "@e(1) @Html(2) @for math in x {@math} @math.pi @:item() {@path.sep} @statics::logo").toList

/-- A page and a template that it calls. -/
def importingNames : List TemplateName := [⟨[], "page", "html"⟩, ⟨["a"], "item", "html"⟩]

theorem kept_imports_page : ∃ t code,
    Template.parse ⟨[], "page", "html"⟩ .here "" importingText = .ok t ∧
      (∀ n ∈ t.toTemplateName :: importingNames, n.Admitted) ∧
      t.module? (.ofNames importingNames (some ["logo"])) = .ok code ∧
      ∃ stmts, t.stmts (.ofNames importingNames (some ["logo"])) = .ok stmts ∧
        code = t.moduleText stmts ∧ (∀ n, t.Rebinds stmts n ↔ n ∈ t.taken stmts) ∧
        (∀ n, ¬ OwnName n → (n ∈ t.taken stmts ↔
          n ∈ Template.plainHelpers ∨ n ∈ Package.exports t.toTemplateName)) ∧
        SitedBody (.free fun site n => ¬ IsMade n → (t.RefersToImport stmts site n ↔
          t.IsImported n ∧ n ∉ t.taken stmts ∧ ¬ site.Binds n)) (t.site stmts) t.body stmts := by
  obtain ⟨t, stmts, hparse, -, hm, hcheck⟩ := Template.exists_of_generates
    ⟨[], "page", "html"⟩ importingText (.ofNames importingNames (some ["logo"]))
    (fun t _ => decide (∀ n ∈ t.toTemplateName :: importingNames, n.Admitted)) (by decide +kernel)
  have hadmitted := of_decide_eq_true hcheck
  exact ⟨t, _, hparse, hadmitted, hm, kept_imports hadmitted hm⟩

/-- An import that has the name of the page. -/
def shadowedText : List Char := "@import math\n@(x: float)\n@math.floor(x)".toList

/-- The page `math` binds the name of the imported module again, which the body uses. -/
theorem import_rebound_by_page : ∃ t stmts,
    Template.parse ⟨[], "math", "html"⟩ .here "" shadowedText = .ok t ∧
      t.stmts .empty = .ok stmts ∧ t.module? .empty = .ok (t.moduleText stmts) ∧
      t.IsImported "math" ∧ t.Rebinds stmts "math" ∧ ¬ (t.site stmts).IsLocal "math" ∧
      ∃ e ∈ Stmt.exprsAll stmts, ["math"] ∈ e.references := by
  obtain ⟨t, stmts, hparse, hs, hm, hcheck⟩ := Template.exists_of_generates
    ⟨[], "math", "html"⟩ shadowedText .empty (fun t stmts => decide
      ((∃ line ∈ t.imports, "math" ∈ lineNames line) ∧
        (∃ line ∈ t.laterLines stmts, "math" ∈ lineNames line) ∧
        (¬ ∃ f ∈ (t.site stmts).functions, "math" ∈ f.locals) ∧
        ∃ e ∈ Stmt.exprsAll stmts, ["math"] ∈ e.references)) (by decide +kernel)
  have hrebound := of_decide_eq_true hcheck
  exact ⟨t, stmts, hparse, hs, hm, hrebound⟩

end Stencil
