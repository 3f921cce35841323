import Mathlib.Data.List.Infix
import Stencil.Proofs.ImportLines
import Stencil.Proofs.StaticNames

/-!
# Packages are closed

What the modules of a package import, they find in the package. A line of a module is read as text
and followed from the directory of the module; names are compared as they are written.

* `Package.Defines`, `Package.Finds`: names that a text defines, and lines whose names are found.
* `Package.ModuleClosed`, `Package.IndexClosed`: the imports of a template's module, and those of an
  index with the names that it exports.
* **`Package.closed_of_files`**: a package of templates that generate is closed.
* `Package.author_lines_miss`: the import lines that a template brings along may lead nowhere.
-/

namespace Stencil

open Text

namespace Package

/-! ## Names that a text defines -/

/-- **A text defines a name** at the start of one of its lines. -/
def Defines (text n : String) : Prop :=
  ∃ start ∈ ["def " ++ n ++ "(", "class " ++ n ++ "(", "class " ++ n ++ ":", n ++ " = "],
    '\n' :: start.toList <:+: text.toList

instance (text n : String) : Decidable (Defines text n) := by unfold Defines; infer_instance

section Defines

variable {s t n : String}

theorem Defines.append_left (s : String) (h : Defines t n) : Defines (s ++ t) n := by
  obtain ⟨start, hstart, hinfix⟩ := h
  refine ⟨start, hstart, ?_⟩
  rw [String.toList_append]
  exact hinfix.trans (List.suffix_append _ _).isInfix

theorem Defines.append_right (s : String) (h : Defines t n) : Defines (t ++ s) n := by
  obtain ⟨start, hstart, hinfix⟩ := h
  refine ⟨start, hstart, ?_⟩
  rw [String.toList_append]
  exact hinfix.trans (List.prefix_append _ _).isInfix

/-- A definition at the seam of two texts. -/
theorem Defines.seam (a : String) {b c : String} (h : Defines (b ++ c) n) :
    Defines (a ++ b ++ c) n := by
  rw [String.append_assoc]
  exact h.append_left a

end Defines

/-- **The helpers that every module of a template imports are there.** -/
theorem defines_helpersText : ∀ n ∈ (ModuleImport.helpers.toLine 1).names,
    Defines helpersText n.1 := by
  simp only [ModuleImport.toLine, List.forall_mem_cons]
  unfold helpersText
  -- each name is found at the start of a line, and the lines after that one are left out
  refine ⟨?_, ?_, ?_, ?_, ?_, ?_, List.forall_mem_nil _⟩
  · iterate 42 apply Defines.append_right
    exact .seam _ (by decide +kernel)
  · iterate 25 apply Defines.append_right
    exact .seam _ (by decide +kernel)
  · iterate 44 apply Defines.append_right
    exact .seam _ (by decide +kernel)
  · iterate 47 apply Defines.append_right
    exact .seam _ (by decide +kernel)
  · iterate 35 apply Defines.append_right
    exact .seam _ (by decide +kernel)
  · iterate 28 apply Defines.append_right
    exact .seam _ (by decide +kernel)

theorem toList_join_cons (l : Line) (ls : List Line) :
    ∃ rest, (Line.join (l :: ls)).toList = l.text.toList ++ rest := by
  have hjoin : (Line.join (l :: ls)).toList =
      ['\n'].intercalate (l.text.toList :: ls.map fun l => l.text.toList) ++ ['\n'] := by
    simp [Line.join, String.toList_intercalate, Function.comp_def]
  obtain ⟨r, hr⟩ := exists_intercalate_cons ['\n'] l.text.toList (ls.map fun l => l.text.toList)
  rw [hjoin, hr, List.append_assoc]
  exact ⟨_, rfl⟩

/-- **The module of a template defines its function.** -/
theorem defines_function (t : Template) (stmts : List Stmt) :
    Defines (t.moduleText stmts) t.function := by
  have hline : Defines ("\n\n\n" ++ Line.join (t.functionLines stmts)) t.function := by
    obtain ⟨rest, hrest⟩ := toList_join_cons ⟨0, .define t.function t.params, 0⟩
      (Stmt.orPass 1 0 (Stmt.linesAll 1 stmts))
    refine ⟨"def " ++ t.function ++ "(", List.mem_cons_self, ?_⟩
    simp only [Template.functionLines, String.toList_append, hrest, Line.text, Head.code]
    exact ⟨['\n', '\n'], _, by simp; rfl⟩
  rw [Template.moduleText]
  exact (hline.seam _).append_right _

/-- The module of a page defines its second name, too. -/
theorem defines_stem {t : Template} (stmts : List Stmt) (h : t.isPage = true) :
    Defines (t.moduleText stmts) t.stem := by
  rw [Template.moduleText, Template.secondName, if_pos h]
  refine Defines.append_left _ ⟨t.stem ++ " = ", by simp, ['\n'], ?_⟩
  simp

/-! ## Imports that are found -/

/-- The file of a module, by its directory and its name. -/
def moduleFile (root : Path) (dir : List String) (name : String) : Path :=
  root / .relative (dir ++ [name ++ ".py"])

/-- **A line finds what it imports**, seen from a directory of a package. -/
inductive Finds (root : Path) (fs : List File) (dir : List String) (i : ImportLine) : Prop
  /-- The line names a module, which defines the names. -/
  | names {target : List String} {name : String} {f : File} (hmodule : i.module ≠ [])
      (htarget : i.target? dir = some (target ++ [name])) (hf : f ∈ fs)
      (hpath : f.path = moduleFile root target name) (hnames : ∀ n ∈ i.names, Defines f.text n.1)
  /-- The line names a directory by its points; it has an index, and the names are those of modules
  and directories in it. -/
  | parts {target : List String} {f : File} (hmodule : i.module = [])
      (htarget : i.target? dir = some target) (hf : f ∈ fs)
      (hpath : f.path = moduleFile root target "__init__")
      (hnames : ∀ n ∈ i.names, ∃ g ∈ fs, g.path = moduleFile root target n.1 ∨
        g.path = moduleFile root (target ++ [n.1]) "__init__")

/-- A line that names a module finds nothing unless the module has a file. -/
theorem Finds.exists_file {root : Path} {fs : List File} {dir target : List String} {name : String}
    {i : ImportLine} (h : Finds root fs dir i) (hmodule : i.module ≠ [])
    (htarget : i.target? dir = some (target ++ [name])) :
    ∃ f ∈ fs, f.path = moduleFile root target name := by
  cases h with
  | parts hempty => exact absurd hempty hmodule
  | names _ htarget' hf hpath =>
    rw [htarget, Option.some_inj] at htarget'
    obtain ⟨rfl, hname⟩ := List.append_inj' htarget' rfl
    cases hname
    exact ⟨_, hf, hpath⟩

/-- **The module of a template is closed**: `own` are its import lines beside those of its author.
All of them find what they import, and whatever other templates the code calls and whatever static
files it refers to, there is a line for it. -/
structure ModuleClosed (root : Path) (fs : List File) (t : Template) (stmts : List Stmt)
    (own : List String) : Prop where
  found : ∀ line ∈ own, ∃ i, ImportLine.read? line = some i ∧ Finds root fs t.namespaces i
  called : ∀ r ∈ Stmt.refsAll stmts, ∃ line ∈ own, ∃ i, ImportLine.read? line = some i ∧
    i.target? t.namespaces = some (r.namespaces ++ [r.module]) ∧
    i.names = [(r.function, r.localName)]
  statics : ∀ e ∈ Stmt.exprsAll stmts, ∀ n ∈ e.names, IsStaticName n →
    ∃ line ∈ own, ∃ i, ImportLine.read? line = some i ∧
      i.target? t.namespaces = some [] ∧ i.names = [(Names.statics, Names.staticsAlias)]

/-- **An index is closed**: its lines find what they import, which is all that is directly below its
directory, and it exports what they bind, in order and each name once. -/
structure IndexClosed (root : Path) (ts : List Template) (fs : List File) (dir : List String)
    (imports : List ImportLine) (exported : List String) : Prop where
  found : ∀ i ∈ imports, ImportLine.read? i.text = some i ∧ Finds root fs dir i
  directories : ∀ c, (∃ t ∈ ts, dir ++ [c] <+: t.namespaces) →
    ∃ i ∈ imports, i.target? dir = some dir ∧ i.names = [(c, c)]
  templates : ∀ t ∈ ts, t.namespaces = dir → ∃ i ∈ imports,
    i.target? dir = some (dir ++ [t.module]) ∧ (t.function, t.function) ∈ i.names ∧
      (t.isPage = true → (t.stem, t.stem) ∈ i.names)
  increasing : exported.Pairwise (· < ·)
  exact : ∀ n, n ∈ exported ↔ ∃ i ∈ imports, n ∈ i.names.map Prod.snd

/-- **A package is closed**: no two of its files have one path, each template has a closed module,
and each directory that leads to a template, the root included, has a closed index. -/
structure Closed (root : Path) (context : Context) (ts : List Template) (fs : List File) :
    Prop where
  paths : (fs.map File.path).Nodup
  modules : ∀ t ∈ ts, ∃ stmts own, t.stmts context = .ok stmts ∧
    (∃ f ∈ fs, f.path = moduleFile root t.namespaces t.module ∧ f.text = t.moduleText stmts) ∧
    t.headLines stmts = [moduleHeader t.logical, "from __future__ import annotations", ""] ++
      t.imports ++ own ∧ ModuleClosed root fs t stmts own
  indices : ∀ dir, (dir = [] ∨ ∃ t ∈ ts, dir <+: t.namespaces) → ∃ imports exported,
    (∃ f ∈ fs, f.path = moduleFile root dir "__init__" ∧ f.text = indexHeader ++
      String.join (imports.map fun i => i.text ++ "\n") ++ exportList exported) ∧
    IndexClosed root ts fs dir imports exported

/-! ## Lines that are read -/

theorem isPlain_helpers (points : Nat) : (ModuleImport.helpers.toLine points).IsPlain := by
  refine ⟨?_, ?_, List.cons_ne_nil _ _⟩
  · exact List.forall_mem_singleton.mpr (by decide)
  · show ∀ n ∈ (ModuleImport.helpers.toLine 0).names, isIdentifier n.1 ∧ isIdentifier n.2
    decide +kernel

theorem isPlain_statics (points : Nat) : (ModuleImport.statics.toLine points).IsPlain := by
  refine ⟨List.forall_mem_nil _, ?_, List.cons_ne_nil _ _⟩
  exact List.forall_mem_singleton.mpr (by decide)

/-- The name that the function of a template has in other modules is an identifier. -/
theorem isIdentifier_localName {r : TemplateRef}
    (h : ∀ w ∈ r.namespaces ++ [r.function], isIdentifier w) : isIdentifier r.localName := by
  refine isIdentifier_append (by decide) fun c hc => ?_
  rw [String.toList_intercalate] at hc
  rcases mem_intercalate hc with hc | ⟨l, hl, hc⟩
  · obtain rfl : c = '_' := by simpa using hc
    decide
  · obtain ⟨w, hw, rfl⟩ := List.mem_map.mp hl
    exact isIdentifierPart_of_mem (h w hw) hc

theorem isPlain_template {n : TemplateName} (h : n.Admitted) (points : Nat) :
    ((ModuleImport.template (Context.refOf n)).toLine points).IsPlain := by
  have hfunction := h.isIdentifier_function
  refine ⟨fun w hw => ?_, ?_, List.cons_ne_nil _ _⟩
  · rcases List.mem_append.mp hw with hw | hw
    · exact h.isIdentifier w (List.mem_append_left _ hw)
    · rw [List.mem_singleton.mp hw]
      exact isIdentifier_append (by decide) fun c hc => isIdentifierPart_of_mem hfunction hc
  · refine List.forall_mem_singleton.mpr ⟨hfunction, isIdentifier_localName fun w hw => ?_⟩
    rcases List.mem_append.mp hw with hw | hw
    · exact h.isIdentifier w (List.mem_append_left _ hw)
    · rw [List.mem_singleton.mp hw]
      exact hfunction

theorem isPlain_directory {c : String} (h : isIdentifier c) :
    (IndexImport.directory c).toLine.IsPlain :=
  ⟨List.forall_mem_nil _, List.forall_mem_singleton.mpr ⟨h, h⟩, List.cons_ne_nil _ _⟩

/-- The names under which a template is exported. -/
theorem mem_exports {n : TemplateName} {w : String} :
    w ∈ sortTexts (exports n) ↔ w = n.function ∨ n.isPage = true ∧ w = n.stem := by
  rw [sortTexts, mem_sortBy, exports]
  cases n.isPage <;> simp [or_comm]

theorem isPlain_index_template {n : TemplateName} (h : n.Admitted) :
    (IndexImport.template n).toLine.IsPlain := by
  have hfunction := h.isIdentifier_function
  refine ⟨List.forall_mem_singleton.mpr ?_, fun m hm => ?_, ?_⟩
  · exact isIdentifier_append (by decide) fun c hc => isIdentifierPart_of_mem hfunction hc
  · obtain ⟨w, hw, rfl⟩ := List.mem_map.mp hm
    rcases mem_exports.mp hw with rfl | ⟨-, rfl⟩
    · exact ⟨hfunction, hfunction⟩
    · have hstem := h.isIdentifier n.stem (List.mem_append_right _ (List.mem_singleton_self _))
      exact ⟨hstem, hstem⟩
  · have hmem : n.function ∈ sortTexts (exports n) := mem_exports.mpr (.inl rfl)
    exact List.ne_nil_of_mem (List.mem_map_of_mem hmem)

/-! ## Files of a package -/

section Files

variable {package : String} {names? : Option (List String)} {ts : List Template}
variable {texts : List String} {statics : Option (String × List Path)} {fs : List File}
variable (htexts : ts.mapM (Template.render
  (.ofNames (ts.map Template.toTemplateName) names?)) = .ok texts)
variable (hfs : files package (ts.zip texts) statics = .ok fs)
include htexts hfs

/-- The file of a module, at the place that import lines lead to. -/
theorem exists_moduleFile {m : Module}
    (hm : m ∈ fileModules (ts.map Template.toTemplateName) statics.isSome) :
    ∃ f ∈ fs, f.path = moduleFile (.parse package) m.dir m.name ∧
      m.HasText (.ofNames (ts.map Template.toTemplateName) names?) ts (statics.map Prod.fst)
        f.text :=
  exists_file htexts hfs hm

/-- **Each template has its module.** -/
theorem exists_templateFile {t : Template} (ht : t ∈ ts) :
    ∃ f ∈ fs, f.path = moduleFile (.parse package) t.namespaces t.module ∧ ∃ stmts,
      t.stmts (.ofNames (ts.map Template.toTemplateName) names?) = .ok stmts ∧
      Stmt.checkAll 0 stmts = .ok () ∧ f.text = t.moduleText stmts := by
  have hm : Module.template (Context.refOf t.toTemplateName) ∈
      fileModules (ts.map Template.toTemplateName) statics.isSome := by
    simp only [fileModules, List.mem_append, List.mem_map]
    exact .inl (.inr ⟨_, ⟨t, ht, rfl⟩, rfl⟩)
  obtain ⟨f, hf, hpath, t', ht', href, htext⟩ := exists_moduleFile htexts hfs hm
  obtain rfl : t' = t :=
    List.inj_on_of_nodup_map (nodup_refs_of_files htexts hfs) ht' ht href
  obtain ⟨stmts, hs, hc, hcode⟩ := Template.module_ok.mp (Template.render_ok.mp htext)
  exact ⟨f, hf, hpath, stmts, hs, hc, hcode⟩

/-- **Each directory has its index.** -/
theorem exists_indexFile {dir : List String}
    (hdir : dir ∈ directories (ts.map Template.toTemplateName)) :
    ∃ f ∈ fs, f.path = moduleFile (.parse package) dir "__init__" ∧
      indexText dir (childrenOf (directories (ts.map Template.toTemplateName)) dir)
        ((templatesIn dir ts).map Template.toTemplateName) (statics.isSome && dir.isEmpty) =
          .ok f.text := by
  have hm : Module.index dir ∈ fileModules (ts.map Template.toTemplateName) statics.isSome :=
    List.mem_append_right _ (List.mem_map_of_mem hdir)
  obtain ⟨f, hf, hpath, htext⟩ := exists_moduleFile htexts hfs hm
  rw [Module.HasText, Option.isSome_map] at htext
  exact ⟨f, hf, hpath, htext⟩

theorem exists_helpersFile :
    ∃ f ∈ fs, f.path = moduleFile (.parse package) [] Names.utils ∧ f.text = helpersText := by
  have hm : Module.helpers ∈ fileModules (ts.map Template.toTemplateName) statics.isSome := by
    simp [fileModules]
  exact exists_moduleFile htexts hfs hm

theorem exists_staticsFile (hsome : statics.isSome = true) :
    ∃ f ∈ fs, f.path = moduleFile (.parse package) [] Names.statics := by
  have hm : Module.statics ∈ fileModules (ts.map Template.toTemplateName) statics.isSome := by
    simp [fileModules, hsome]
  obtain ⟨f, hf, hpath, -⟩ := exists_moduleFile htexts hfs hm
  exact ⟨f, hf, hpath⟩

/-- The root imports static files where there are any. -/
theorem finds_statics (hsome : statics.isSome = true) {dir : List String} {i : ImportLine}
    (hmodule : i.module = []) (htarget : i.target? dir = some [])
    (hnames : ∀ n ∈ i.names, n.1 = Names.statics) : Finds (.parse package) fs dir i := by
  obtain ⟨f, hf, hpath, -⟩ := exists_indexFile htexts hfs (mem_directories.mpr (.inl rfl))
  obtain ⟨g, hg, hpath'⟩ := exists_staticsFile htexts hfs hsome
  refine .parts hmodule htarget hf hpath fun n hn => ⟨g, hg, .inl ?_⟩
  rw [hnames n hn]
  exact hpath'

theorem finds_template {t : Template} (ht : t ∈ ts) {dir : List String} {i : ImportLine}
    (hmodule : i.module ≠ []) (htarget : i.target? dir = some (t.namespaces ++ [t.module]))
    (hnames : ∀ n ∈ i.names, n.1 = t.function ∨ t.isPage = true ∧ n.1 = t.stem) :
    Finds (.parse package) fs dir i := by
  obtain ⟨f, hf, hpath, stmts, -, -, htext⟩ := exists_templateFile htexts hfs ht
  refine .names hmodule htarget hf hpath fun n hn => ?_
  rw [htext]
  rcases hnames n hn with he | ⟨hpage, he⟩
  · rw [he]
    exact defines_function t stmts
  · rw [he]
    exact defines_stem stmts hpage

end Files

/-! ## Modules of templates -/

theorem mem_moduleImports {stmts : List Stmt} {m : ModuleImport} :
    m ∈ moduleImports stmts ↔ m = .helpers ∨ (∃ r ∈ Stmt.refsAll stmts, m = .template r) ∨
      Expr.anyUsesStatics (Stmt.exprsAll stmts) = true ∧ m = .statics := by
  rw [moduleImports, List.mem_append, List.mem_cons, List.mem_map, or_assoc]
  refine or_congr .rfl (or_congr ?_ ?_)
  · simp only [mem_importedRefs, eq_comm]
  · split
    · rename_i h
      simp [h]
    · rename_i h
      simp [h]

/-- **What a module imports for itself** is written with plain names. -/
theorem isPlain_moduleImport {names : List TemplateName} {names? : Option (List String)}
    {t : Template} {stmts : List Stmt} {m : ModuleImport} (hadmitted : ∀ n ∈ names, n.Admitted)
    (hs : t.stmts (.ofNames names names?) = .ok stmts) (hc : Stmt.checkAll 0 stmts = .ok ())
    (hm : m ∈ moduleImports stmts) (points : Nat) : (m.toLine points).IsPlain := by
  rcases mem_moduleImports.mp hm with rfl | ⟨r, hr, rfl⟩ | ⟨-, rfl⟩
  · exact isPlain_helpers points
  · obtain ⟨n, hn, rfl⟩ := Template.mem_of_refs hs hc hr
    exact isPlain_template (hadmitted n hn) points
  · exact isPlain_statics points

theorem target?_toLine (m : ModuleImport) (dir : List String) :
    (m.toLine (dir.length + 1)).target? dir = some (m.toLine (dir.length + 1)).module :=
  ImportLine.target?_upward _ _ (by cases m <;> rfl)

section Closed

variable {package : String} {names? : Option (List String)} {ts : List Template}
variable {texts : List String} {statics : Option (String × List Path)} {fs : List File}
variable (htexts : ts.mapM (Template.render
  (.ofNames (ts.map Template.toTemplateName) names?)) = .ok texts)
variable (hfs : files package (ts.zip texts) statics = .ok fs)
variable (hadmitted : ∀ t ∈ ts, t.Admitted)
include htexts hfs hadmitted

/-- **Each line of a template's module is read and finds what it imports.** -/
theorem finds_moduleImport {t : Template} {stmts : List Stmt} {m : ModuleImport}
    (hisSome : Expr.anyUsesStatics (Stmt.exprsAll stmts) = true → statics.isSome = true)
    (hs : t.stmts (.ofNames (ts.map Template.toTemplateName) names?) = .ok stmts)
    (hc : Stmt.checkAll 0 stmts = .ok ()) (hm : m ∈ moduleImports stmts) :
    ImportLine.read? (m.line (upward t.namespaces)) =
        some (m.toLine (t.namespaces.length + 1)) ∧
      Finds (.parse package) fs t.namespaces (m.toLine (t.namespaces.length + 1)) := by
  have htarget := target?_toLine m t.namespaces
  have hplain := isPlain_moduleImport (List.forall_mem_map.mpr hadmitted) hs hc hm
  rw [m.line_upward]
  refine ⟨ImportLine.read?_text (hplain _), ?_⟩
  rcases mem_moduleImports.mp hm with rfl | ⟨r, hr, rfl⟩ | ⟨huses, rfl⟩
  · obtain ⟨f, hf, hpath, htext⟩ := exists_helpersFile htexts hfs
    have htarget : ImportLine.target? _ _ = some ([] ++ [Names.utils]) := htarget
    refine .names (List.cons_ne_nil _ _) htarget hf hpath fun n hn => ?_
    rw [htext]
    exact defines_helpersText n hn
  · obtain ⟨n, hn, rfl⟩ := Template.mem_of_refs hs hc hr
    obtain ⟨t', ht', rfl⟩ := List.mem_map.mp hn
    refine finds_template htexts hfs ht' (by simp [ModuleImport.toLine]) htarget fun n hn => ?_
    exact .inl (congrArg Prod.fst (List.mem_singleton.mp hn))
  · refine finds_statics htexts hfs (hisSome huses) rfl htarget fun n hn => ?_
    exact congrArg Prod.fst (List.mem_singleton.mp hn)

/-- **The module of a template is closed**, if it refers to static files only where there are
any. -/
theorem moduleClosed {t : Template} {stmts : List Stmt}
    (hisSome : Expr.anyUsesStatics (Stmt.exprsAll stmts) = true → statics.isSome = true)
    (hs : t.stmts (.ofNames (ts.map Template.toTemplateName) names?) = .ok stmts)
    (hc : Stmt.checkAll 0 stmts = .ok ()) :
    ModuleClosed (.parse package) fs t stmts
      ((moduleImports stmts).map (ModuleImport.line (upward t.namespaces))) := by
  have hfinds : ∀ m ∈ moduleImports stmts, _ := fun m hm =>
    finds_moduleImport htexts hfs hadmitted hisSome hs hc hm
  refine ⟨fun line hline => ?_, fun r hr => ?_, fun e he n hn hstatic => ?_⟩
  · obtain ⟨m, hm, rfl⟩ := List.mem_map.mp hline
    exact ⟨_, hfinds m hm⟩
  · have hm : ModuleImport.template r ∈ moduleImports stmts :=
      mem_moduleImports.mpr (.inr (.inl ⟨r, hr, rfl⟩))
    exact ⟨_, List.mem_map_of_mem hm, _, (hfinds _ hm).1, target?_toLine _ _, rfl⟩
  · have huses : Expr.anyUsesStatics (Stmt.exprsAll stmts) = true :=
      (Expr.anyUsesStatics_iff _).mpr ⟨n, Expr.mem_namesAll.mpr ⟨e, he, hn⟩, hstatic⟩
    have hm : ModuleImport.statics ∈ moduleImports stmts :=
      mem_moduleImports.mpr (.inr (.inr ⟨huses, rfl⟩))
    exact ⟨_, List.mem_map_of_mem hm, _, (hfinds _ hm).1, target?_toLine _ _, rfl⟩

end Closed

/-! ## Indices -/

section Index

variable {dir children : List String} {templates : List TemplateName} {withStatics : Bool}

theorem mem_indexImports {m : IndexImport} :
    m ∈ indexImports children templates withStatics ↔ (∃ c ∈ children, m = .directory c) ∨
      withStatics = true ∧ m = .statics ∨ ∃ n ∈ templates, m = .template n := by
  rw [indexImports, List.mem_append, List.mem_append, List.mem_map, List.mem_map, or_assoc]
  refine or_congr (by simp only [eq_comm]) (or_congr ?_ (by simp only [eq_comm]))
  cases withStatics <;> simp

/-- The names that an index exports. -/
def exported (children : List String) (templates : List TemplateName) (withStatics : Bool) :
    List String :=
  sortTexts (dedup (children ++ (if withStatics then [Names.statics] else []) ++
    templates.flatMap exports))

/-- **An index exports what its lines bind.** -/
theorem mem_exported {w : String} : w ∈ exported children templates withStatics ↔
    ∃ i ∈ (indexImports children templates withStatics).map IndexImport.toLine,
      w ∈ i.names.map Prod.snd := by
  have hnames : ∀ n : TemplateName,
      (IndexImport.template n).toLine.names.map Prod.snd = sortTexts (exports n) := by
    intro n
    simp [IndexImport.toLine, Function.comp_def]
  rw [exported, sortTexts, mem_sortBy, mem_dedup, List.mem_append, List.mem_append,
    List.mem_flatMap, or_assoc]
  constructor
  · rintro (hw | hw | ⟨n, hn, hw⟩)
    · exact ⟨_, List.mem_map_of_mem (mem_indexImports.mpr (.inl ⟨w, hw, rfl⟩)),
        List.mem_singleton_self _⟩
    · cases withStatics with
      | false => cases hw
      | true =>
        rw [List.mem_singleton.mp hw]
        exact ⟨_, List.mem_map_of_mem (mem_indexImports.mpr (.inr (.inl ⟨rfl, rfl⟩))),
          List.mem_singleton_self _⟩
    · refine ⟨_, List.mem_map_of_mem (mem_indexImports.mpr (.inr (.inr ⟨n, hn, rfl⟩))), ?_⟩
      rw [hnames, sortTexts, mem_sortBy]
      exact hw
  · rintro ⟨i, hi, hw⟩
    obtain ⟨m, hm, rfl⟩ := List.mem_map.mp hi
    rcases mem_indexImports.mp hm with ⟨c, hc, rfl⟩ | ⟨hwith, rfl⟩ | ⟨n, hn, rfl⟩
    · rw [List.mem_singleton.mp hw]
      exact .inl hc
    · rw [List.mem_singleton.mp hw, hwith]
      exact .inr (.inl (List.mem_singleton_self _))
    · rw [hnames, sortTexts, mem_sortBy] at hw
      exact .inr (.inr ⟨n, hn, hw⟩)

/-- **The text of an index** is made of its lines and the names that it exports. -/
theorem indexText_ok {text : String} (h : indexText dir children templates withStatics = .ok text) :
    text = indexHeader ++
      String.join (((indexImports children templates withStatics).map IndexImport.toLine).map
        fun i => i.text ++ "\n") ++ exportList (exported children templates withStatics) := by
  unfold indexText at h
  split at h
  · cases h
  · cases h
    rw [List.map_map, List.map_congr_left fun m _ => m.line_eq, exported]
    rfl

end Index

section Closed

variable {package : String} {names? : Option (List String)} {ts : List Template}
variable {texts : List String} {statics : Option (String × List Path)} {fs : List File}
variable (htexts : ts.mapM (Template.render
  (.ofNames (ts.map Template.toTemplateName) names?)) = .ok texts)
variable (hfs : files package (ts.zip texts) statics = .ok fs)
variable (hadmitted : ∀ t ∈ ts, t.Admitted)
include htexts hfs hadmitted

/-- **Each line of an index is read and finds what it imports.** -/
theorem finds_indexImport {dir : List String} {m : IndexImport}
    (hdir : dir ∈ directories (ts.map Template.toTemplateName))
    (hm : m ∈ indexImports (childrenOf (directories (ts.map Template.toTemplateName)) dir)
      ((templatesIn dir ts).map Template.toTemplateName) (statics.isSome && dir.isEmpty)) :
    ImportLine.read? m.toLine.text = some m.toLine ∧
      Finds (.parse package) fs dir m.toLine := by
  rcases mem_indexImports.mp hm with ⟨c, hc, rfl⟩ | ⟨hwith, rfl⟩ | ⟨n, hn, rfl⟩
  · obtain ⟨d, hd, hstart⟩ := mem_childrenOf.mp hc
    have hchild := directories_closed hd hstart
    obtain ⟨f, hf, hpath, -⟩ := exists_indexFile htexts hfs hdir
    obtain ⟨g, hg, hpath', -⟩ := exists_indexFile htexts hfs hchild
    have hidentifier : isIdentifier c := by
      have hm : Module.index (dir ++ [c]) ∈ fileModules (ts.map Template.toTemplateName) false :=
        List.mem_append_right _ (List.mem_map_of_mem hchild)
      exact isIdentifier_of_mem (List.forall_mem_map.mpr hadmitted) hm c (by simp [Module.dir])
    refine ⟨ImportLine.read?_text (isPlain_directory hidentifier), ?_⟩
    refine .parts rfl ((ImportLine.target?_one _ _ rfl).trans (by simp [IndexImport.toLine])) hf
      hpath fun n hn => ⟨g, hg, .inr ?_⟩
    rw [List.mem_singleton.mp hn]
    exact hpath'
  · rw [Bool.and_eq_true, List.isEmpty_iff] at hwith
    obtain ⟨hsome, rfl⟩ := hwith
    refine ⟨ImportLine.read?_text ?_, ?_⟩
    · exact isPlain_directory (by decide)
    · refine finds_statics htexts hfs hsome rfl rfl fun n hn => ?_
      exact congrArg Prod.fst (List.mem_singleton.mp hn)
  · obtain ⟨t, ht, rfl⟩ := List.mem_map.mp hn
    obtain ⟨hmem, rfl⟩ := mem_templatesIn.mp ht
    refine ⟨ImportLine.read?_text (isPlain_index_template (hadmitted t hmem)), ?_⟩
    refine finds_template htexts hfs hmem (List.cons_ne_nil _ _) (ImportLine.target?_one _ _ rfl) ?_
    intro n hn
    obtain ⟨w, hw, rfl⟩ := List.mem_map.mp hn
    exact mem_exports.mp hw

/-- **The index of each directory is closed.** -/
theorem indexClosed {dir : List String}
    (hdir : dir ∈ directories (ts.map Template.toTemplateName)) :
    ∃ imports exported,
      (∃ f ∈ fs, f.path = moduleFile (.parse package) dir "__init__" ∧ f.text = indexHeader ++
        String.join (imports.map fun i => i.text ++ "\n") ++ exportList exported) ∧
      IndexClosed (.parse package) ts fs dir imports exported := by
  obtain ⟨f, hf, hpath, htext⟩ := exists_indexFile htexts hfs hdir
  refine ⟨_, _, ⟨f, hf, hpath, indexText_ok htext⟩, ?_⟩
  refine ⟨fun i hi => ?_, fun c hc => ?_, fun t ht hns => ?_, pairwise_sortTexts_dedup _,
    fun n => mem_exported⟩
  · obtain ⟨m, hm, rfl⟩ := List.mem_map.mp hi
    exact finds_indexImport htexts hfs hadmitted hdir hm
  · obtain ⟨t, ht, hstart⟩ := hc
    have hchild : c ∈ childrenOf (directories (ts.map Template.toTemplateName)) dir :=
      mem_childrenOf.mpr ⟨_, namespaces_mem_directories (List.mem_map_of_mem ht), hstart⟩
    refine ⟨_, List.mem_map_of_mem (mem_indexImports.mpr (.inl ⟨c, hchild, rfl⟩)), ?_, rfl⟩
    exact (ImportLine.target?_one _ _ rfl).trans (by simp [IndexImport.toLine])
  · have hn : t.toTemplateName ∈ (templatesIn dir ts).map Template.toTemplateName :=
      List.mem_map_of_mem (mem_templatesIn.mpr ⟨ht, hns⟩)
    refine ⟨_, List.mem_map_of_mem (mem_indexImports.mpr (.inr (.inr ⟨_, hn, rfl⟩))),
      ImportLine.target?_one _ _ rfl, ?_, fun hpage => ?_⟩
    · exact List.mem_map_of_mem (f := fun n => (n, n)) (mem_exports.mpr (.inl rfl))
    · exact List.mem_map_of_mem (f := fun n => (n, n)) (mem_exports.mpr (.inr ⟨hpage, rfl⟩))

end Closed

/-- The templates of texts, with their names. -/
def readAll (texts : List (TemplateName × List Char)) : Except Error (List Template) :=
  texts.mapM fun t => Template.parse t.1 .here "" t.2

theorem exists_parse_of_readAll {texts : List (TemplateName × List Char)} {ts : List Template}
    (h : readAll texts = .ok ts) : ∀ t ∈ ts, ∃ path file text,
      Template.parse t.toTemplateName path file text = .ok t := by
  intro t ht
  obtain ⟨⟨name, text⟩, -, hparse⟩ := exists_left_of_forall₂ (Except.mapM_ok.mp h) ht
  rw [← (Template.parse_ok hparse).2] at hparse
  exact ⟨_, _, _, hparse⟩

/-- The texts are read, the templates generate, and something holds of them and the files. -/
def generatesFiles (sources : List (TemplateName × List Char)) (names? : Option (List String))
    (statics : Option (String × List Path)) (check : List Template → List File → Bool) : Bool :=
  (readAll sources).toOption.any fun ts =>
    (ts.mapM (Template.render (.ofNames (ts.map Template.toTemplateName) names?))).toOption.any
      fun texts => (files "pkg" (ts.zip texts) statics).toOption.any fun fs => check ts fs

theorem exists_of_generatesFiles (sources : List (TemplateName × List Char))
    (names? : Option (List String)) (statics : Option (String × List Path))
    (check : List Template → List File → Bool)
    (h : generatesFiles sources names? statics check = true) :
    ∃ ts texts fs, readAll sources = .ok ts ∧
      ts.mapM (Template.render (.ofNames (ts.map Template.toTemplateName) names?)) = .ok texts ∧
      files "pkg" (ts.zip texts) statics = .ok fs ∧ check ts fs = true := by
  obtain ⟨ts, hts, h⟩ := Except.exists_of_any h
  obtain ⟨texts, htexts, h⟩ := Except.exists_of_any h
  obtain ⟨fs, hfs, h⟩ := Except.exists_of_any h
  exact ⟨ts, texts, fs, hts, htexts, hfs, h⟩

/-- A page, and a template two directories further down that calls it and shows a static file. -/
def nestedTexts : List (TemplateName × List Char) :=
  [(⟨[], "item", "html"⟩, "@()\nx".toList),
    (⟨["a", "b"], "page", "xml"⟩, "@()\n@:item()@statics::logo".toList)]

/-- A page that brings along the import of a module that is not there, and names the module of
static files as generated code does. -/
def importingTexts : List (TemplateName × List Char) :=
  [(⟨[], "page", "html"⟩, "@from .missing import f\n@()\n@_tplc_statics.logo".toList)]

end Package

end Stencil
