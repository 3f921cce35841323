import Stencil.Proofs.CallNames
import Stencil.Proofs.ImportOrder

/-!
# The files of a package are its modules

* `Package.Module.path`: the file of a module; `Package.fileModules`: the modules that have one.
* `Package.files_modules`: each file of a package is that of a module and holds its text.
* **`Package.nodup_paths`**: no two files of a package have one path.
* `Package.isIdentifier_of_mem`: directories and modules of a package have names that are
  identifiers.
-/

namespace Stencil

section Related

variable {α β : Type} {P : α → β → Prop} {l : List α} {r : List β}

/-- Elements that are related, as pairs. -/
theorem forall₂_zip (h : List.Forall₂ P l r) :
    List.Forall₂ (fun a p => p.1 = a ∧ a ∈ l ∧ P a p.2) l (l.zip r) := by
  induction h with
  | nil => exact .nil
  | cons hab _ ih =>
    refine .cons ⟨rfl, List.mem_cons_self, hab⟩ (ih.imp fun a p hp => ?_)
    exact ⟨hp.1, List.mem_cons_of_mem _ hp.2.1, hp.2.2⟩

theorem map_eq_map_of_forall₂ {γ : Type} {f : α → γ} {g : β → γ}
    (h : List.Forall₂ (fun a b => f a = g b) l r) : l.map f = r.map g := by
  refine List.forall₂_eq_eq_eq ▸ ?_
  rw [List.forall₂_map_left_iff, List.forall₂_map_right_iff]
  exact h

end Related

theorem Path.join_relative (p : Path) (l : List String) :
    (p / .relative l : Path) = ⟨p.root, p.parts ++ l⟩ := rfl

namespace Package

/-! ## Modules and their files -/

/-- The directory of a module. -/
def Module.dir : Module → List String
  | index dir => dir
  | helpers | statics => []
  | template r => r.namespaces

/-- The name of a module, which is that of its file without the suffix. -/
def Module.name : Module → String
  | index _ => "__init__"
  | helpers => Names.utils
  | statics => Names.statics
  | template r => r.module

/-- **The file of a module**, in a package below a path. -/
def Module.path (root : Path) (m : Module) : Path := root / .relative (m.dir ++ [m.name ++ ".py"])

/-- **The modules that have a file**, of a package with or without static files. -/
def fileModules (names : List TemplateName) (withStatics : Bool) : List Module :=
  .helpers :: (if withStatics then [.statics] else []) ++
    names.map (fun n => .template (Context.refOf n)) ++ (directories names).map .index

/-- **What stands in the file of a module**, in a package with the given text for static files. -/
def Module.HasText (context : Context) (ts : List Template) (statics? : Option String) :
    Module → String → Prop
  | helpers, text => text = helpersText
  | statics, text => statics? = some text
  | template r, text =>
    ∃ t ∈ ts, Context.refOf t.toTemplateName = r ∧ t.render context = .ok text
  | index dir, text =>
    indexText dir (childrenOf (directories (ts.map Template.toTemplateName)) dir)
      ((templatesIn dir ts).map Template.toTemplateName) (statics?.isSome && dir.isEmpty) = .ok text

/-- A package is generated from the texts of its modules. -/
theorem files_of_generate {package : String} {ts : List Template} {index? : Option Index}
    {fs : List File} (h : generate package ts index? = .ok fs) :
    ∃ texts statics, ts.mapM (Template.render (contextOf ts index?)) = .ok texts ∧
      files package (ts.zip texts) statics = .ok fs := by
  simp only [generate, Except.bind_ok] at h
  obtain ⟨statics, -, texts, htexts, h⟩ := h
  exact ⟨texts, statics, htexts, h⟩

section Files

variable {package : String} {context : Context} {ts : List Template} {texts : List String}
variable {statics : Option (String × List Path)} {fs : List File}

/-- **The files of a package are those of its modules.** -/
theorem files_modules (htexts : ts.mapM (Template.render context) = .ok texts)
    (h : files package (ts.zip texts) statics = .ok fs) :
    ∃ fs', fs.Perm fs' ∧
      List.Forall₂ (fun m f => f.path = m.path (.parse package) ∧
          m.HasText context ts (statics.map Prod.fst) f.text)
        (fileModules (ts.map Template.toTemplateName) statics.isSome) fs' := by
  have hlength := (Except.mapM_ok.mp htexts).length_eq
  have hts : (ts.zip texts).map Prod.fst = ts := List.map_fst_zip hlength.le
  simp only [files, hts, Except.bind_ok] at h
  obtain ⟨indices, hindices, h⟩ := h
  cases h
  refine ⟨_, perm_sortBy _ _, ?_⟩
  rw [fileModules]
  refine List.rel_append (List.rel_append (.cons ⟨rfl, rfl⟩ ?_) ?_) ?_
  · cases statics with
    | none => exact .nil
    | some s => exact .cons ⟨rfl, rfl⟩ .nil
  · rw [List.map_map, List.forall₂_map_left_iff, List.forall₂_map_right_iff]
    refine (forall₂_zip (Except.mapM_ok.mp htexts)).imp ?_
    rintro _ ⟨t, text⟩ ⟨rfl, ht, htext⟩
    exact ⟨rfl, t, ht, rfl, htext⟩
  · rw [List.forall₂_map_left_iff]
    refine (Except.mapM_ok.mp hindices).imp fun dir f hf => ?_
    obtain ⟨text, htext, hf⟩ := Except.bind_ok.mp hf
    cases hf
    refine ⟨rfl, ?_⟩
    rw [Module.HasText, Option.isSome_map]
    exact htext

/-- **Each module of a package has its file.** -/
theorem exists_file (htexts : ts.mapM (Template.render context) = .ok texts)
    (h : files package (ts.zip texts) statics = .ok fs) {m : Module}
    (hm : m ∈ fileModules (ts.map Template.toTemplateName) statics.isSome) :
    ∃ f ∈ fs, f.path = m.path (.parse package) ∧
      m.HasText context ts (statics.map Prod.fst) f.text := by
  obtain ⟨fs', hperm, hfs'⟩ := files_modules htexts h
  obtain ⟨f, hf, hfile⟩ := exists_left_of_forall₂ hfs'.flip hm
  exact ⟨f, hperm.mem_iff.mpr hf, hfile⟩

theorem nodup_refs_of_files (htexts : ts.mapM (Template.render context) = .ok texts)
    (h : files package (ts.zip texts) statics = .ok fs) :
    (ts.map fun t => Context.refOf t.toTemplateName).Nodup := by
  refine nodup_refs_of_indexText (fun dir => statics.isSome && dir.isEmpty) fun dir hdir => ?_
  have hm : Module.index dir ∈ fileModules (ts.map Template.toTemplateName) statics.isSome :=
    List.mem_append_right _ (List.mem_map_of_mem hdir)
  obtain ⟨f, -, -, htext⟩ := exists_file htexts h hm
  rw [Module.HasText, Option.isSome_map] at htext
  exact ⟨f.text, htext⟩

end Files

/-! ## Different modules have different files -/

theorem template_append_ne {f s : String} (h : ¬ "template_".toList <+: s.toList) :
    "template_" ++ f ≠ s := by
  rintro rfl
  exact h ⟨f.toList, (String.toList_append).symm⟩

/-- A module is known by its directory and its name. -/
theorem Module.eq_of_dir_of_name {m m' : Module} (hdir : m.dir = m'.dir)
    (hname : m.name = m'.name) : m = m' := by
  have hinit {f : String} : "template_" ++ f ≠ "__init__" := template_append_ne (by decide)
  have hutils {f : String} : "template_" ++ f ≠ Names.utils := template_append_ne (by decide)
  have hstatics {f : String} : "template_" ++ f ≠ Names.statics := template_append_ne (by decide)
  cases m <;> cases m' <;> simp only [Module.dir, Module.name, TemplateRef.module] at hdir hname
  case index.index => rw [hdir]
  case template.template r r' =>
    obtain ⟨ns, f⟩ := r
    obtain ⟨ns', f'⟩ := r'
    obtain rfl : ns = ns' := hdir
    obtain rfl : f = f' := (String.append_right_inj _).mp hname
    rfl
  case helpers.helpers | statics.statics => rfl
  -- modules of different kinds have different names
  all_goals
    first
      | exact absurd hname (by decide)
      | exact absurd hname hinit
      | exact absurd hname hutils
      | exact absurd hname hstatics
      | exact absurd hname.symm hinit
      | exact absurd hname.symm hutils
      | exact absurd hname.symm hstatics

theorem Module.path_injective (root : Path) : Function.Injective (Module.path root) := by
  intro m m' h
  have hparts := congrArg Path.parts h
  simp only [Module.path, Path.join_relative] at hparts
  have hlast := List.append_inj' (List.append_cancel_left hparts) rfl
  exact Module.eq_of_dir_of_name hlast.1 ((String.append_left_inj _).mp (List.cons.inj hlast.2).1)

theorem nodup_directories (names : List TemplateName) : (directories names).Nodup :=
  (perm_sortBy _ _).nodup_iff.mpr (nodup_dedup _)

theorem nodup_fileModules {names : List TemplateName} {withStatics : Bool}
    (h : (names.map Context.refOf).Nodup) : (fileModules names withStatics).Nodup := by
  have htemplates : (names.map fun n => Module.template (Context.refOf n)).Nodup := by
    have := h.map (f := Module.template) fun _ _ he => Module.template.inj he
    rwa [List.map_map] at this
  have hindices : ((directories names).map Module.index).Nodup :=
    (nodup_directories names).map fun _ _ he => Module.index.inj he
  cases withStatics <;> simp [fileModules, List.nodup_append, htemplates, hindices]

/-- **No two files of a package have one path.** -/
theorem nodup_paths {package : String} {context : Context} {ts : List Template}
    {texts : List String} {statics : Option (String × List Path)} {fs : List File}
    (htexts : ts.mapM (Template.render context) = .ok texts)
    (h : files package (ts.zip texts) statics = .ok fs) : (fs.map File.path).Nodup := by
  obtain ⟨fs', hperm, hfs'⟩ := files_modules htexts h
  have hpaths := map_eq_map_of_forall₂ (hfs'.flip.imp fun f m hf => hf.1)
  rw [(hperm.map _).nodup_iff, hpaths]
  refine (nodup_fileModules ?_).map (Module.path_injective _)
  rw [List.map_map]
  exact nodup_refs_of_files htexts h

end Package

/-! ## Names are identifiers -/

namespace Text

theorem isIdentifierPart_of_mem {s : String} (h : isIdentifier s) {c : Char} (hc : c ∈ s.toList) :
    isIdentifierPart c := by
  unfold isIdentifier at h
  split at h
  · cases h
  · rename_i a cs he
    rw [Bool.and_eq_true] at h
    rw [he, List.mem_cons] at hc
    rcases hc with rfl | hc
    · exact isIdentifierPart_of_start h.1
    · exact List.all_eq_true.mp h.2 c hc

/-- An identifier may be made longer. -/
theorem isIdentifier_append {s s' : String} (h : isIdentifier s)
    (h' : ∀ c ∈ s'.toList, isIdentifierPart c) : isIdentifier (s ++ s') := by
  unfold isIdentifier at h ⊢
  rw [String.toList_append]
  split at h
  · cases h
  · rename_i a cs he
    rw [Bool.and_eq_true] at h
    rw [he, List.cons_append]
    simp only [List.all_append, Bool.and_eq_true, List.all_eq_true]
    exact ⟨h.1, List.all_eq_true.mp h.2, h'⟩

end Text

open Text

theorem TemplateName.Admitted.isIdentifier {n : TemplateName} (h : n.Admitted) :
    ∀ w ∈ n.namespaces ++ [n.stem], Text.isIdentifier w := by
  intro w hw
  have hword := h.word w hw
  simp only [isTemplateWord, Bool.and_eq_true] at hword
  exact hword.1.1

theorem isIdentifierPart_format : ∀ f ∈ formats, ('_' :: f.toList).all isIdentifierPart := by
  decide

theorem TemplateName.Admitted.isIdentifier_function {n : TemplateName} (h : n.Admitted) :
    Text.isIdentifier n.function := by
  have hstem := h.isIdentifier n.stem (List.mem_append_right _ (List.mem_singleton_self _))
  rw [TemplateName.function, String.append_assoc]
  refine isIdentifier_append hstem fun c hc => ?_
  rw [String.toList_append] at hc
  exact List.all_eq_true.mp (isIdentifierPart_format n.format h.format) c hc

namespace Package

/-- **What holds of the names of directories and modules of templates** holds of all directories and
modules of their package, if it holds of the names that every package has. -/
theorem forall_mem_fileModules {P : String → Prop} {names : List TemplateName} {withStatics : Bool}
    {m : Module} (hnames : ∀ n ∈ names, ∀ w ∈ n.namespaces ++ [n.module], P w)
    (hown : ∀ w ∈ [Names.utils, Names.statics, "__init__"], P w)
    (hm : m ∈ fileModules names withStatics) : ∀ w ∈ m.dir ++ [m.name], P w := by
  intro w hw
  simp only [fileModules, List.mem_append, List.mem_cons, List.mem_map] at hm
  rcases hm with ((rfl | hm) | ⟨n, hn, rfl⟩) | ⟨dir, hm, rfl⟩
  · rw [List.mem_singleton.mp hw]
    exact hown _ (by decide)
  · cases withStatics with
    | false => cases hm
    | true =>
      cases List.mem_singleton.mp hm
      rw [List.mem_singleton.mp hw]
      exact hown _ (by decide)
  · exact hnames n hn w hw
  · rw [List.mem_append, List.mem_singleton] at hw
    rcases hw with hw | rfl
    · rcases mem_directories.mp hm with rfl | ⟨n, hn, hstart⟩
      · cases hw
      · exact hnames n hn w (List.mem_append_left _ (hstart.subset hw))
    · exact hown "__init__" (by decide)

/-- **Directories and modules of a package have names that are identifiers.** -/
theorem isIdentifier_of_mem {names : List TemplateName} {withStatics : Bool} {m : Module}
    (hadmitted : ∀ n ∈ names, n.Admitted) (hm : m ∈ fileModules names withStatics) :
    ∀ w ∈ m.dir ++ [m.name], isIdentifier w := by
  refine forall_mem_fileModules (P := fun w => isIdentifier w) (fun n hn w hw => ?_) (by decide) hm
  rcases List.mem_append.mp hw with hw | hw
  · exact (hadmitted n hn).isIdentifier w (List.mem_append_left _ hw)
  · rw [List.mem_singleton.mp hw]
    exact isIdentifier_append (by decide) fun c hc =>
      isIdentifierPart_of_mem (hadmitted n hn).isIdentifier_function hc

end Package

end Stencil
