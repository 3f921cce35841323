import Stencil.Proofs.CheckMode

/-!
# What the content of one template file shows in

A template with another content has the same name and the same path, and nothing else of it gets
into the modules of other templates, the indices and the module of static files.

* `Disk.edit_cases`: a disk on which one file has another content.
* `Template.SameBut`, `Package.File.SameBut`: templates and files that differ in one only.
* `Package.generate_sameBut`: templates that differ in one file give files that differ in one
  module.
* `Config.IsModuleOf`: the module of a template file.
* `Build.collect_edited`: the static files do not depend on a file that is none of them.
* `Build.exists_prepared`, **`Build.generate_sameBut`**: the templates of a project on a disk with
  another content of one template file, and the files they give.
-/

namespace Stencil

section Related

variable {α β γ : Type} {l : List α} {r : List β} {s : List γ}

/-- What two lists have in common with a third one. -/
theorem forall₂_of_forall₂ {P : α → β → Prop} {Q : α → γ → Prop} {R : β → γ → Prop}
    (hR : ∀ a ∈ l, ∀ b c, P a b → Q a c → R b c) (h : List.Forall₂ P l r)
    (h' : List.Forall₂ Q l s) : List.Forall₂ R r s := by
  induction h generalizing s with
  | nil =>
    cases h'
    exact .nil
  | cons hp _ ih =>
    cases h' with
    | cons hq h' =>
      exact .cons (hR _ List.mem_cons_self _ _ hp hq)
        (ih (fun a ha => hR a (List.mem_cons_of_mem _ ha)) h')

end Related

/-! ## The disk -/

namespace Disk

variable {d d' : Disk} {p root : Path} {c content : List UInt8}

/-- **A file is given another content.** No other file changes, and no walk shows it. -/
theorem edit_cases (hread : d.read p = .ok c) (h : Runs (write p content) d (.ok ()) d') :
    Alters (· = d.placeOf p) d d' ∧ Shows (· ≠ d.placeOf p) d d' := by
  rcases write_cases h with ⟨-, l, hl, hfree, rfl⟩ | ⟨⟨e, he⟩, -⟩
  · obtain ⟨l', hl', hc⟩ := read_ok.mp hread
    obtain rfl := Except.ok.inj (hl.symm.trans hl')
    have hfile : d.tree.get? l = some (.file c) := by
      obtain ⟨t, ht, hc⟩ := Option.bind_eq_some_iff.mp hc
      cases t with
      | file c' => exact Option.some.inj hc ▸ ht
      | dir es => cases hc
    rw [placeOf_of_locate hl]
    refine ⟨alters_put_file hfree, fun place t hne ht => ?_⟩
    by_cases habove : place <+: l
    · obtain ⟨r, rfl⟩ := habove
      have hr : r ≠ [] := fun hr => hne (by rw [hr, List.append_nil])
      rw [FileTree.get?_append, ht, Option.bind_some] at hfile
      exact ⟨_, FileTree.get?_put_append ht, FileTree.sameFiles_put_file hr hfile content⟩
    · refine ⟨t, (FileTree.get?_alter_of_not_prefix ?_ habove).trans ht, .refl t⟩
      -- nothing stands below a file
      rintro ⟨r, rfl⟩
      have hr : r ≠ [] := fun hr => hne (by rw [hr, List.append_nil])
      rw [FileTree.get?_append, hfile, Option.bind_some, FileTree.get?_file hr] at ht
      cases ht
  · cases he

/-- What is walked through is no file. -/
theorem placeOf_ne_of_files {excluded : String → Bool} {paths : List Path}
    (hread : d.read p = .ok c) (h : d.files excluded root = .ok paths) :
    d.placeOf root ≠ d.placeOf p := by
  obtain ⟨ls, hls, -⟩ := exists_places h
  obtain ⟨t, ht, hdir, -⟩ := places_ok.mp hls
  obtain ⟨l, hl, hc⟩ := read_ok.mp hread
  unfold find? at ht
  split at ht
  · rename_i m hm
    rw [placeOf_of_locate hm, placeOf_of_locate hl]
    rintro rfl
    rw [fileAt, ht, Option.bind_some] at hc
    rw [FileTree.isDir_eq, hc] at hdir
    cases hdir
  · cases ht

/-- **The files of a walk** are located at different places. -/
theorem eq_of_placeOf_of_files {excluded : String → Bool} {paths : List Path} {q : Path}
    (h : d.files excluded root = .ok paths) (hp : p ∈ paths) (hq : q ∈ paths)
    (hpq : d.placeOf p = d.placeOf q) : p = q := by
  obtain ⟨ls, hls, rfl⟩ := exists_places h
  obtain ⟨l, hl, rfl⟩ := List.mem_map.mp hp
  obtain ⟨m, hm, rfl⟩ := List.mem_map.mp hq
  rw [placeOf_of_places hls hl, placeOf_of_places hls hm] at hpq
  rw [List.append_cancel_left hpq]

end Disk

/-! ## The package -/

/-- **The same template**, but for what stands in one file. -/
structure Template.SameBut (p : Path) (t t' : Template) : Prop where
  name : t'.toTemplateName = t.toTemplateName
  path : t'.path = t.path
  same : t.path ≠ p → t' = t

namespace Package

/-- **The same file**, but for the text of one. -/
structure File.SameBut (m : Path) (f g : File) : Prop where
  path : g.path = f.path
  sources : g.sources = f.sources
  text : f.path ≠ m → g.text = f.text

theorem File.SameBut.refl (m : Path) (f : File) : f.SameBut m f := ⟨rfl, rfl, fun _ => rfl⟩

variable {p m root : Path} {ts ts' : List Template} {texts texts' : List String}

/-- Indices do not depend on what stands in templates. -/
theorem indexFile_congr (hts : List.Forall₂ (Template.SameBut p) ts ts')
    (dirs : List (List String)) (withStatics : Bool) (dir : List String) :
    indexFile root ts' dirs withStatics dir = indexFile root ts dirs withStatics dir := by
  have hhere : List.Forall₂ (Template.SameBut p) (templatesIn dir ts) (templatesIn dir ts') := by
    refine forall₂_sortBy (fun ha hb => ?_) (List.rel_filter (fun t t' h => ?_) hts)
    · rw [ha.name, hb.name]
    · change (t.namespaces == dir) = true ↔ (t'.namespaces == dir) = true
      rw [h.name]
  have hnames := map_eq_map_of_forall₂ (hhere.imp fun t t' h => h.name.symm)
  have hpaths := map_eq_map_of_forall₂ (hhere.imp fun t t' h => h.path.symm)
  unfold indexFile
  dsimp only
  rw [hnames, hpaths]

/-- The modules of templates. -/
theorem templateFiles_sameBut {context : Context}
    (hts : List.Forall₂ (Template.SameBut p) ts ts')
    (hm : ∀ t ∈ ts, t.path = p → (templateFile root t "").path = m)
    (h : List.Forall₂ (fun t text => t.render context = .ok text) ts texts)
    (h' : List.Forall₂ (fun t text => t.render context = .ok text) ts' texts') :
    List.Forall₂ (File.SameBut m) ((ts.zip texts).map fun (t, text) => templateFile root t text)
      ((ts'.zip texts').map fun (t, text) => templateFile root t text) := by
  induction hts generalizing texts texts' with
  | nil => exact .nil
  | @cons t t' ts ts' ht _ ih =>
    cases h with
    | cons htext h =>
      cases h' with
      | cons htext' h' =>
        have hrest := ih (fun t ht => hm t (List.mem_cons_of_mem _ ht)) h h'
        refine .cons ⟨?_, ?_, fun hne => ?_⟩ hrest
        · simp only [templateFile, ht.name]
        · simp only [templateFile, ht.path]
        · have hpath : t.path ≠ p := fun he => hne (hm t List.mem_cons_self he)
          rw [ht.same hpath] at htext'
          exact Except.ok.inj (htext'.symm.trans htext)

/-- **Templates that differ in one file** give files that differ in one module. -/
theorem generate_sameBut {package : String} {index? : Option Index} {fs fs' : List File}
    (hts : List.Forall₂ (Template.SameBut p) ts ts')
    (hm : ∀ t ∈ ts, t.path = p → (templateFile (.parse package) t "").path = m)
    (h : generate package ts index? = .ok fs) (h' : generate package ts' index? = .ok fs') :
    List.Forall₂ (File.SameBut m) fs fs' := by
  have hnames : ts'.map Template.toTemplateName = ts.map Template.toTemplateName :=
    (map_eq_map_of_forall₂ (hts.imp fun t t' h => h.name.symm)).symm
  have hcontext : contextOf ts' index? = contextOf ts index? := by
    rw [contextOf, contextOf, hnames]
  simp only [generate, Except.bind_ok, hcontext] at h h'
  obtain ⟨statics, hstatics, texts, htexts, h⟩ := h
  obtain ⟨statics', hstatics', texts', htexts', h'⟩ := h'
  obtain rfl := Except.ok.inj (hstatics.symm.trans hstatics')
  rw [Except.mapM_ok] at htexts htexts'
  have hzip : (ts.zip texts).map Prod.fst = ts := List.map_fst_zip htexts.length_eq.le
  have hzip' : (ts'.zip texts').map Prod.fst = ts' := List.map_fst_zip htexts'.length_eq.le
  have hindex : indexFile (.parse package) ts' (directories (ts.map Template.toTemplateName))
        statics.isSome =
      indexFile (.parse package) ts (directories (ts.map Template.toTemplateName))
        statics.isSome :=
    funext (indexFile_congr hts _ _)
  simp only [files, hzip, hzip', hnames, hindex, Except.bind_ok] at h h'
  obtain ⟨indices, hindices, h⟩ := h
  obtain ⟨indices', hindices', h'⟩ := h'
  obtain rfl := Except.ok.inj (hindices.symm.trans hindices')
  cases h
  cases h'
  refine forall₂_sortBy (fun ha hb => by rw [ha.path, hb.path]) ?_
  have hrefl (l : List File) : List.Forall₂ (File.SameBut m) l l :=
    List.forall₂_same.mpr fun f _ => .refl m f
  exact List.rel_append (List.rel_append (hrefl _) (templateFiles_sameBut hts hm htexts htexts'))
    (hrefl _)

end Package

/-- **The module of a template file**, below the output directory. -/
def Config.IsModuleOf (c : Config) (m p : Path) : Prop :=
  ∃ rel n, p.relativeTo? c.templates = some rel ∧ TemplateName.ofPath rel rel.toString = .ok n ∧
    m = (Package.Module.template (Context.refOf n)).path (.parse c.package)

namespace Build

open Package (File)

variable {c : Config} {make : Asset.Preprocessor} {d d' : Disk} {p m : Path}
  {content : List UInt8} {files files' : List File}

/-! ## Builds -/

/-- A template that is read has a file. -/
theorem exists_read {root : Path} {t : Template} (h : readTemplate d root p = .ok t) :
    ∃ bytes, d.read p = .ok bytes := by
  unfold readTemplate at h
  split at h
  · cases h
  · obtain ⟨name, -, h⟩ := Except.bind_ok.mp h
    obtain ⟨bytes, hbytes, -⟩ := Except.bind_ok.mp h
    cases hr : d.read p with
    | ok bytes => exact ⟨bytes, rfl⟩
    | error e =>
      rw [hr] at hbytes
      cases hbytes

/-- A template file is read in every build. -/
theorem Prepares.exists_template (h : Prepares c make d files) (hp : c.ReadsTemplate d p) :
    ∃ t, readTemplate d c.templates p = .ok t := by
  obtain ⟨index?, ts, log, log', -, hread, -⟩ := h
  obtain ⟨⟨paths, read, hpaths, hread, -, -⟩, -⟩ := readTemplates_ok.mp hread
  obtain ⟨paths', hpaths', hmem, hfile⟩ := hp
  obtain rfl := Except.ok.inj (hpaths.symm.trans hpaths')
  obtain ⟨t, -, ht⟩ := exists_left_of_forall₂ hread.flip (List.mem_filter.mpr ⟨hmem, hfile⟩)
  exact ⟨t, ht⟩

theorem Prepares.exists_module (h : Prepares c make d files) (hp : c.ReadsTemplate d p) :
    ∃ m, c.IsModuleOf m p := by
  obtain ⟨t, ht⟩ := h.exists_template hp
  obtain ⟨-, rel, hrel, hname⟩ := readTemplate_known ht
  exact ⟨_, rel, _, hrel, hname, rfl⟩

/-- **Templates are read again** from a disk on which one file has another content. -/
theorem readTemplates_sameBut {excluded : String → Bool} {root : Path} {s s' m m' : State}
    {ts ts' : List Template} {paths : List Path} {bytes : List UInt8}
    (hpaths : s.disk.files excluded root = .ok paths) (hp : p ∈ paths)
    (hbytes : s.disk.read p = .ok bytes)
    (hedit : Runs (Disk.write p content) s.disk (.ok ()) s'.disk)
    (h : Runs (readTemplates excluded root) s (.ok ts) m)
    (h' : Runs (readTemplates excluded root) s' (.ok ts') m') :
    List.Forall₂ (Template.SameBut p) ts ts' := by
  obtain ⟨ha, hs⟩ := Disk.edit_cases hbytes hedit
  obtain ⟨⟨ps, read, hps, hread, -, rfl⟩, -⟩ := readTemplates_ok.mp h
  obtain ⟨⟨ps', read', hps', hread', -, rfl⟩, -⟩ := readTemplates_ok.mp h'
  obtain rfl := Except.ok.inj (hpaths.symm.trans hps)
  rw [Disk.files_again ha hs (Disk.placeOf_ne_of_files hbytes hpaths) hpaths] at hps'
  obtain rfl := Except.ok.inj hps'
  refine forall₂_sortBy (fun ha hb => ?_) (forall₂_of_forall₂ (fun q hq t t' ht ht' => ?_)
    hread hread')
  · rw [templateLe, templateLe, ha.name, hb.name]
  · obtain ⟨hpath, rel, hrel, hname⟩ := readTemplate_known ht
    obtain ⟨hpath', rel', hrel', hname'⟩ := readTemplate_known ht'
    obtain rfl := Option.some.inj (hrel.symm.trans hrel')
    refine ⟨Except.ok.inj (hname'.symm.trans hname), hpath'.trans hpath.symm, fun hne => ?_⟩
    have hplace : s.disk.placeOf q ≠ s.disk.placeOf p := fun he => hne <|
      hpath.trans (Disk.eq_of_placeOf_of_files hpaths (List.mem_filter.mp hq).1 hp he)
    exact Except.ok.inj (ht'.symm.trans (readTemplate_again ha hs hplace ht))

/-- **The static files are the same** after a file has got another content that is none of them. -/
theorem collect_edited {index? : Option Index} {bytes : List UInt8} (hbytes : d.read p = .ok bytes)
    (hedit : Runs (Disk.write p content) d (.ok ()) d')
    (hstatic : ∀ q, c.ReadsStatic d q → d.placeOf q ≠ d.placeOf p)
    (h : collect d c make = .ok index?) : collect d' c make = .ok index? := by
  obtain ⟨ha, hs⟩ := Disk.edit_cases hbytes hedit
  refine collect_of_shows ha hs (fun root _ paths hpaths => ?_) hstatic h
  exact Disk.placeOf_ne_of_files hbytes hpaths

/-- **What is prepared** from a template file with another content, if the static files are the
same: the same templates, but for that file. -/
theorem exists_prepared (hp : c.ReadsTemplate d p)
    (hedit : Runs (Disk.write p content) d (.ok ()) d')
    (h : Prepares c make d files) (h' : Prepares c make d' files')
    (hsame : collect d' c make = collect d c make) :
    ∃ index? ts ts', collect d c make = .ok index? ∧
      (∀ log, Runs (readTemplates (Exclusion.ofLines c.exclude).excludes c.templates) ⟨d, log⟩
        (.ok ts) ⟨d, log⟩) ∧
      (∀ log, Runs (readTemplates (Exclusion.ofLines c.exclude).excludes c.templates) ⟨d', log⟩
        (.ok ts') ⟨d', log⟩) ∧
      Package.generate c.package ts index? = .ok files ∧
      Package.generate c.package ts' index? = .ok files' ∧
      List.Forall₂ (Template.SameBut p) ts ts' := by
  obtain ⟨t, ht⟩ := h.exists_template hp
  obtain ⟨bytes, hbytes⟩ := exists_read ht
  obtain ⟨index?, ts, log, log', hindex, hread, hfiles⟩ := h
  obtain ⟨index?', ts', log₁, log₁', hindex', hread', hfiles'⟩ := h'
  obtain rfl := Except.ok.inj ((hsame.trans hindex).symm.trans hindex')
  obtain ⟨paths, hpaths, hmem, -⟩ := hp
  exact ⟨index?, ts, ts', hindex, readTemplates_relog hread, readTemplates_relog hread',
    hfiles, hfiles', readTemplates_sameBut hpaths hmem hbytes hedit hread hread'⟩

/-- **A template file with another content** gives files that differ in its module. -/
theorem generate_sameBut {log : List LogLine} {s : State} {index? : Option Index}
    {ts ts' : List Template}
    (hread : Runs (readTemplates (Exclusion.ofLines c.exclude).excludes c.templates) ⟨d, log⟩
      (.ok ts) s) (hm : c.IsModuleOf m p) (hts : List.Forall₂ (Template.SameBut p) ts ts')
    (h : Package.generate c.package ts index? = .ok files)
    (h' : Package.generate c.package ts' index? = .ok files') :
    List.Forall₂ (File.SameBut m) files files' := by
  refine Package.generate_sameBut hts (fun u hu hpath => ?_) h h'
  -- the name of a template is known by its path
  obtain ⟨rel, n, hrel, hname, rfl⟩ := hm
  obtain ⟨⟨ps, read, -, hreads, -, rfl⟩, -⟩ := readTemplates_ok.mp hread
  obtain ⟨q, -, hu⟩ := exists_left_of_forall₂ hreads ((mem_sortBy _).mp hu)
  obtain ⟨hq, rel', hrel', hname'⟩ := readTemplate_known hu
  obtain rfl : q = p := hq.symm.trans hpath
  obtain rfl := Option.some.inj (hrel.symm.trans hrel')
  obtain rfl := Except.ok.inj (hname.symm.trans hname')
  rfl

end Build

end Stencil
