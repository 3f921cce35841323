import Stencil.Proofs.ClosedPackage
import Stencil.Proofs.LoadedSettings
import Stencil.Proofs.Rebuild

/-!
# The layout of a package

The modules of a package are reached by dotted names, which are made of the names of its directories
and files. A directory goes before a file of the same name.

* `Package.IsHidden`: a directory of its name stands beside the file of a module.
* `Package.paths_of_files`: the paths of all files, whatever their texts.
* **`Package.isHidden_iff`**: the names below the package can stand in dotted names, and the modules
  that are hidden are those of templates and indices with a directory of their name.
* **`Package.modules_unreachable`**: a package that is named by a reserved word, and in it a module
  that is hidden.
-/

namespace Stencil

open Text

namespace Package

/-! ## The paths of all files -/

section Paths

variable {package : String} {modules : List (Template × String)}
  {statics : Option (String × List Path)} {fs : List File}

/-- **The paths of the files** are those of the modules, whatever the texts of these are. -/
theorem paths_of_files (h : files package modules statics = .ok fs) :
    (fs.map File.path).Perm ((fileModules ((modules.map Prod.fst).map Template.toTemplateName)
      statics.isSome).map (Module.path (.parse package))) := by
  simp only [files, Except.bind_ok] at h
  obtain ⟨indices, hindices, h⟩ := h
  cases h
  have htemplates (file : Template × String → File) (hfile : ∀ m, (file m).path =
      Module.path (.parse package) (.template (Context.refOf m.1.toTemplateName))) :
      (modules.map file).map File.path = (((modules.map Prod.fst).map
        Template.toTemplateName).map fun n => Module.template (Context.refOf n)).map
          (Module.path (.parse package)) := by
    simp only [List.map_map]
    exact List.map_congr_left fun m _ => hfile m
  have hindex : indices.map File.path =
      ((directories ((modules.map Prod.fst).map Template.toTemplateName)).map Module.index).map
        (Module.path (.parse package)) := by
    rw [List.map_map]
    refine map_eq_map_of_forall₂ ((Except.mapM_ok.mp hindices).flip.imp fun f dir hf => ?_)
    obtain ⟨text, -, hf⟩ := Except.bind_ok.mp hf
    cases hf
    rfl
  refine ((perm_sortBy _ _).map _).trans (List.Perm.of_eq ?_)
  rw [fileModules, List.map_append, List.map_append, List.map_append, List.map_append, hindex,
    htemplates _ fun _ => rfl]
  cases statics <;> rfl

/-- **Each directory has an index** without a conflict. -/
theorem exists_indexText (h : files package modules statics = .ok fs) {dir : List String}
    (hdir : dir ∈ directories ((modules.map Prod.fst).map Template.toTemplateName)) :
    ∃ text, indexText dir
      (childrenOf (directories ((modules.map Prod.fst).map Template.toTemplateName)) dir)
      ((templatesIn dir (modules.map Prod.fst)).map Template.toTemplateName)
      (statics.isSome && dir.isEmpty) = .ok text := by
  simp only [files, Except.bind_ok] at h
  obtain ⟨indices, hindices, -⟩ := h
  obtain ⟨f, -, hf⟩ := Except.mapM_ok_mem hindices hdir
  obtain ⟨text, htext, -⟩ := Except.bind_ok.mp hf
  exact ⟨text, htext⟩

/-- **No directory has the name of one of the modules that every package has.** -/
theorem child_ne_own {dir children : List String} {templates : List TemplateName}
    {withStatics : Bool} {text w : String}
    (h : indexText dir children templates withStatics = .ok text) (hw : w ∈ children) :
    w ≠ Names.utils ∧ (withStatics = true → w ≠ Names.statics) := by
  unfold indexText at h
  split at h
  · cases h
  · rename_i hconflict
    have hnodup := (nodup_of_conflict? hconflict).2
    rw [claims, List.map_append, List.map_append] at hnodup
    have hapart := (List.nodup_append.mp hnodup.of_append_left).2.2
    simp only [List.map_map, List.mem_map, Function.comp_apply] at hapart
    have hchild {n : String} (hn : n ∈ if withStatics then [Names.utils, Names.statics]
        else [Names.utils]) : w ≠ n := fun he => hapart n ⟨n, hn, rfl⟩ w ⟨w, hw, rfl⟩ he.symm
    refine ⟨hchild ?_, fun hstatics => hchild ?_⟩
    · split <;> exact List.mem_cons_self
    · rw [if_pos hstatics]
      exact List.mem_cons_of_mem _ List.mem_cons_self

end Paths

/-! ## Directories beside modules -/

/-- **A module is hidden** among the files of a package: its file is there, and beside it stands a
directory of its name. -/
def IsHidden (root : Path) (fs : List File) (dir : List String) (name : String) : Prop :=
  (∃ f ∈ fs, f.path = moduleFile root dir name) ∧
    ∃ g ∈ fs, root.parts ++ (dir ++ [name]) <+: g.path.parts.dropLast

/-- A module stands in a directory of the package. -/
theorem dir_mem_directories {names : List TemplateName} {withStatics : Bool} {m : Module}
    (h : m ∈ fileModules names withStatics) : m.dir ∈ directories names := by
  simp only [fileModules, List.mem_append, List.mem_cons, List.mem_map] at h
  rcases h with ((rfl | h) | ⟨n, hn, rfl⟩) | ⟨dir, hdir, rfl⟩
  · exact mem_directories.mpr (.inl rfl)
  · cases withStatics with
    | false => cases h
    | true =>
      cases List.mem_singleton.mp h
      exact mem_directories.mpr (.inl rfl)
  · exact namespaces_mem_directories hn
  · exact hdir

theorem dropLast_path (root : Path) (m : Module) :
    (m.path root).parts.dropLast = root.parts ++ m.dir := by
  rw [Module.path, Path.join_relative, ← List.append_assoc, List.dropLast_concat]

/-- The module of a file. -/
theorem path_eq_moduleFile {root : Path} {m : Module} {dir : List String} {name : String} :
    m.path root = moduleFile root dir name ↔ m.dir = dir ∧ m.name = name := by
  constructor
  · intro h
    have hparts := congrArg Path.parts h
    simp only [Module.path, moduleFile, Path.join_relative] at hparts
    have hlast := List.append_inj' (List.append_cancel_left hparts) rfl
    exact ⟨hlast.1, (String.append_left_inj _).mp (List.cons.inj hlast.2).1⟩
  · rintro ⟨rfl, rfl⟩
    rfl

section Hidden

variable {package : String} {modules : List (Template × String)}
  {statics : Option (String × List Path)} {fs : List File} {dir : List String} {name : String}

theorem mem_paths (h : files package modules statics = .ok fs) {p : Path} :
    (∃ f ∈ fs, f.path = p) ↔ ∃ m ∈ fileModules
      ((modules.map Prod.fst).map Template.toTemplateName) statics.isSome,
        m.path (.parse package) = p := by
  simpa only [List.mem_map] using (paths_of_files h).mem_iff (a := p)

/-- **The modules that are hidden** are those of templates, and indices, with a directory of their
name. -/
theorem isHidden_iff (h : files package modules statics = .ok fs) :
    IsHidden (.parse package) fs dir name ↔
      (name = "__init__" ∨ ∃ t ∈ modules.map Prod.fst, t.namespaces = dir ∧ t.module = name) ∧
        ∃ u ∈ modules.map Prod.fst, dir ++ [name] <+: u.namespaces := by
  generalize hts : modules.map Prod.fst = ts
  have hmem {p : Path} := hts ▸ mem_paths h (p := p)
  have hdirectory {d : List String} (hd : d ≠ []) :
      d ∈ directories (ts.map Template.toTemplateName) ↔ ∃ u ∈ ts, d <+: u.namespaces := by
    simp [mem_directories, hd]
  have hne : dir ++ [name] ≠ [] := List.append_ne_nil_of_right_ne_nil _ (List.cons_ne_nil _ _)
  constructor
  · rintro ⟨hfile, g, hg, hprefix⟩
    obtain ⟨m, hm, hpath⟩ := hmem.mp hfile
    obtain ⟨m', hm', hpath'⟩ := hmem.mp ⟨g, hg, rfl⟩
    rw [← hpath', dropLast_path, List.prefix_append_right_inj] at hprefix
    have hdir := directories_closed (dir_mem_directories hm') hprefix
    refine ⟨?_, (hdirectory hne).mp hdir⟩
    obtain ⟨text, htext⟩ := exists_indexText h (hts ▸ directories_closed hdir
      (List.prefix_append dir [name]))
    have hown := child_ne_own htext (mem_childrenOf.mpr ⟨_, hts ▸ hdir, List.prefix_rfl⟩)
    obtain ⟨rfl, rfl⟩ := path_eq_moduleFile.mp hpath
    simp only [fileModules, List.mem_append, List.mem_cons, List.mem_map] at hm
    rcases hm with ((rfl | hm) | ⟨n, ⟨t, ht, rfl⟩, rfl⟩) | ⟨d, -, rfl⟩
    · exact absurd rfl hown.1
    · cases hsome : statics.isSome with
      | false =>
        rw [hsome] at hm
        cases hm
      | true =>
        rw [hsome] at hm
        cases List.mem_singleton.mp hm
        exact absurd rfl (hown.2 (by rw [hsome]; rfl))
    · exact .inr ⟨t, ht, rfl, rfl⟩
    · exact .inl rfl
  · rintro ⟨hname, hdir⟩
    have hdir := (hdirectory hne).mpr hdir
    have hindex {d : List String} (hd : d ∈ directories (ts.map Template.toTemplateName)) :
        Module.index d ∈ fileModules (ts.map Template.toTemplateName) statics.isSome :=
      List.mem_append_right _ (List.mem_map_of_mem hd)
    refine ⟨hmem.mpr ?_, ?_⟩
    · rcases hname with rfl | ⟨t, ht, rfl, rfl⟩
      · exact ⟨_, hindex (directories_closed hdir (List.prefix_append _ _)), rfl⟩
      · refine ⟨.template (Context.refOf t.toTemplateName), ?_, rfl⟩
        exact List.mem_append_left _ (List.mem_append_right _
          (List.mem_map_of_mem (List.mem_map_of_mem ht)))
    · obtain ⟨g, hg, hpath⟩ := hmem.mpr ⟨_, hindex hdir, rfl⟩
      refine ⟨g, hg, ?_⟩
      rw [hpath, dropLast_path, Module.dir]

end Hidden

/-! ## Names that can be reached -/

theorem not_isReserved_module (s : String) : ¬ isReserved ("template_" ++ s) := by
  have hnone : ∀ w ∈ reservedWords, ¬ "template_".toList <+: w.toList := by decide
  intro h
  rw [isReserved, List.contains_iff_mem] at h
  exact template_append_ne (hnone _ h) rfl

/-- A page, and another one in a directory that has the name of the module of the first. -/
def hidingTexts : List (TemplateName × List Char) :=
  [(⟨[], "a", "html"⟩, "@()\nA".toList), (⟨["template_a_html"], "b", "html"⟩, "@()\nB".toList)]

/-- The templates of texts with the texts of their modules. -/
def modulesOf (texts : List (TemplateName × List Char)) :
    Except Error (List (Template × String)) := do
  let ts ← readAll texts
  return ts.zip (← ts.mapM (Template.render (.ofNames (ts.map Template.toTemplateName) none)))

/-- Settings for a package that is named by a reserved word. -/
def reservedSettings : Config := { Config.default none ⟨"/", []⟩ with package := "class" }

/-- The package of these templates: a directory has the name of a module. -/
theorem exists_hidingModules : ∃ modules fs, modulesOf hidingTexts = .ok modules ∧
    files reservedSettings.package modules none = .ok fs ∧
    (modules.map Prod.fst).map Template.toTemplateName = hidingTexts.map Prod.fst ∧
    Build.checkUnique (modules.map Prod.fst) = .ok () ∧
    (∃ t ∈ modules.map Prod.fst, t.namespaces = [] ∧ t.module = "template_a_html") ∧
    ∃ u ∈ modules.map Prod.fst, [] ++ ["template_a_html"] <+: u.namespaces := by
  have h : (modulesOf hidingTexts).toOption.any (fun modules =>
      (files reservedSettings.package modules none).toOption.any fun fs =>
        (Build.checkUnique (modules.map Prod.fst)).toBool &&
          decide ((modules.map Prod.fst).map Template.toTemplateName = hidingTexts.map Prod.fst ∧
            (∃ t ∈ modules.map Prod.fst, t.namespaces = [] ∧ t.module = "template_a_html") ∧
            ∃ u ∈ modules.map Prod.fst, [] ++ ["template_a_html"] <+: u.namespaces)) = true := by
    decide +kernel
  obtain ⟨modules, hmodules, h⟩ := Except.exists_of_any h
  obtain ⟨fs, hfs, h⟩ := Except.exists_of_any h
  rw [Bool.and_eq_true] at h
  obtain ⟨hnames, hbeside⟩ := of_decide_eq_true h.2
  exact ⟨modules, fs, hmodules, hfs, hnames, (Except.exists_ok h.1).elim fun _ => id, hbeside⟩

/-- **The modules of a package are reached by names**, those that are hidden apart, and if the name
of the package is no reserved word. -/
theorem modules_reached {c : Config} {modules : List (Template × String)}
    {statics : Option (String × List Path)} {fs : List File} (hc : c.check = .ok c)
    (hnames : ∀ t ∈ modules.map Prod.fst, ∃ file display, isTemplateFile file ∧
      TemplateName.ofPath file display = .ok t.toTemplateName)
    (hfs : files c.package modules statics = .ok fs) :
    isIdentifier c.package ∧
    (∀ f ∈ fs, ∃ dir name, f.path = moduleFile (.relative [c.package]) dir name ∧
      ∀ w ∈ dir ++ [name], isIdentifier w ∧ ¬ isReserved w) ∧
    ∀ dir name, IsHidden (.relative [c.package]) fs dir name ↔
      (name = "__init__" ∨ ∃ t ∈ modules.map Prod.fst, t.namespaces = dir ∧ t.module = name) ∧
        ∃ u ∈ modules.map Prod.fst, dir ++ [name] <+: u.namespaces := by
  obtain ⟨-, hpackage, -⟩ := Config.check_ok.mp hc
  have hadmitted : ∀ n ∈ (modules.map Prod.fst).map Template.toTemplateName, n.Admitted := by
    intro n hn
    obtain ⟨t, ht, rfl⟩ := List.mem_map.mp hn
    obtain ⟨file, display, hfile, hname⟩ := hnames t ht
    exact TemplateName.admitted_of_ofPath hfile hname
  have hroot := Path.parse_of_isIdentifier hpackage
  refine ⟨hpackage, fun f hf => ?_, fun dir name => hroot ▸ isHidden_iff hfs⟩
  obtain ⟨m, hm, hpath⟩ := (mem_paths hfs).mp ⟨f, hf, rfl⟩
  refine ⟨m.dir, m.name, hroot ▸ hpath.symm, fun w hw => ⟨isIdentifier_of_mem hadmitted hm w hw, ?_⟩⟩
  refine forall_mem_fileModules (P := fun w => ¬ isReserved w) (fun n hn w hw => ?_) (by decide) hm
    w hw
  rcases List.mem_append.mp hw with hw | hw
  · have hword := (hadmitted n hn).word w (List.mem_append_left _ hw)
    simp only [isTemplateWord, Bool.and_eq_true, Bool.not_eq_true'] at hword
    simp [hword.1.2]
  · rw [List.mem_singleton.mp hw]
    exact not_isReserved_module n.function

/-- The names of the templates are those of their files. -/
theorem exists_file_hidingTexts : ∀ n ∈ hidingTexts.map Prod.fst, ∃ file display,
    isTemplateFile file ∧ TemplateName.ofPath file display = .ok n := by
  have hof (file : String) {n : TemplateName} (hfile : isTemplateFile (.parse file))
      (hn : (TemplateName.ofPath (.parse file) "").toOption = some n) :
      ∃ file display, isTemplateFile file ∧ TemplateName.ofPath file display = .ok n := by
    refine ⟨.parse file, "", hfile, ?_⟩
    cases hname : TemplateName.ofPath (.parse file) "" with
    | error e => simp [hname, Except.toOption] at hn
    | ok m => simpa [hname, Except.toOption] using hn
  simp only [hidingTexts, List.map_cons, List.map_nil, List.forall_mem_cons, List.not_mem_nil,
    false_imp_iff, implies_true, and_true]
  exact ⟨hof "a.html" (by decide +kernel) (by decide +kernel),
    hof "template_a_html/b.html" (by decide +kernel) (by decide +kernel)⟩

theorem modules_reached_hiding : ∃ modules fs, modulesOf hidingTexts = .ok modules ∧
    reservedSettings.check = .ok reservedSettings ∧
    (∀ t ∈ modules.map Prod.fst, ∃ file display, isTemplateFile file ∧
      TemplateName.ofPath file display = .ok t.toTemplateName) ∧
    files reservedSettings.package modules none = .ok fs ∧
    (∀ f ∈ fs, ∃ dir name, f.path = moduleFile (.relative [reservedSettings.package]) dir name ∧
      ∀ w ∈ dir ++ [name], isIdentifier w ∧ ¬ isReserved w) ∧
    IsHidden (.relative [reservedSettings.package]) fs [] "template_a_html" := by
  obtain ⟨modules, fs, hmodules, hfs, hnames, -, hmodule, hdir⟩ := exists_hidingModules
  have hcheck : reservedSettings.check = .ok reservedSettings := by decide +kernel
  have hfile : ∀ t ∈ modules.map Prod.fst, ∃ file display, isTemplateFile file ∧
      TemplateName.ofPath file display = .ok t.toTemplateName := fun t ht =>
    exists_file_hidingTexts _ (hnames ▸ List.mem_map_of_mem ht)
  obtain ⟨-, hparts, hhidden⟩ := modules_reached hcheck hfile hfs
  refine ⟨modules, fs, hmodules, hcheck, hfile, hfs, hparts, (hhidden _ _).mpr ⟨.inr hmodule, hdir⟩⟩

/-- **Modules that no dotted name reaches**: settings with a reserved word as the name of the package
are accepted, and so are templates of which one is hidden by the directory of another. -/
theorem modules_unreachable : reservedSettings.check = .ok reservedSettings ∧
    isReserved reservedSettings.package ∧
    ∃ modules fs, modulesOf hidingTexts = .ok modules ∧
      (∀ t ∈ modules.map Prod.fst, ∃ file display, isTemplateFile file ∧
        TemplateName.ofPath file display = .ok t.toTemplateName) ∧
      Build.checkUnique (modules.map Prod.fst) = .ok () ∧
      files reservedSettings.package modules none = .ok fs ∧
      IsHidden (.relative [reservedSettings.package]) fs [] "template_a_html" := by
  obtain ⟨modules, fs, hmodules, hfs, hnames, hunique, hmodule, hdir⟩ := exists_hidingModules
  refine ⟨by decide +kernel, by decide, modules, fs, hmodules, fun t ht => ?_, hunique, hfs, ?_⟩
  · exact exists_file_hidingTexts _ (hnames ▸ List.mem_map_of_mem ht)
  · have hroot : Path.parse reservedSettings.package = .relative [reservedSettings.package] :=
      Path.parse_of_isIdentifier (by decide +kernel)
    exact hroot ▸ (isHidden_iff hfs).mpr ⟨.inr hmodule, hdir⟩

end Package

end Stencil
