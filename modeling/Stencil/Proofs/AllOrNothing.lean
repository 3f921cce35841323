import Stencil.CommandLine.Run
import Stencil.Proofs.ModuleFiles
import Stencil.Proofs.TaskPool
import Stencil.Proofs.WriteFiles

/-!
# How much a failed build has written

* `Disk.placeOf_join_relative`: where the files of a package are written to.
* `Build.apart_of_ne`: the files of two modules do not get into each other's way.
* `Build.readTemplates_ok`, `Build.generate_ok`: what it means that a part of a build succeeds.
* `Build.Prepares`: what a build is going to write; finding that out changes nothing on the disk.
* **`CommandLine.build_written_in_part`**: a build writes all files of the package, or none, or
  those before the first one that cannot be written.
* `CommandLine.failed_build_changes_file`: a build that fails may have changed a file.
-/

namespace Stencil

open Text

/-! ## The places of the files -/

theorem Path.join_join_relative (p q : Path) (l : List String) :
    (p / (q / .relative l) : Path) = (p / q) / .relative l := by
  by_cases hq : q.isAbsolute = true
  · have hleft : (p / (q / .relative l) : Path) = q / .relative l := if_pos hq
    have hright : (p / q : Path) = q := if_pos hq
    rw [hleft, hright]
  · have hleft : (p / (q / .relative l) : Path) = ⟨p.root, p.parts ++ (q.parts ++ l)⟩ := if_neg hq
    have hright : (p / q : Path) = ⟨p.root, p.parts ++ q.parts⟩ := if_neg hq
    rw [hleft, hright, join_relative, List.append_assoc]

theorem Disk.placeOf_join_relative {d : Disk} {p : Path} {l : List String} (h : ".." ∉ l) :
    d.placeOf (p / .relative l) = d.placeOf p ++ l := by
  have hfold : ∀ place, l.foldl into place = place ++ l := by
    induction l with
    | nil => simp
    | cons n l ih =>
      intro place
      rw [List.mem_cons, not_or] at h
      rw [List.foldl_cons, into, if_neg (Ne.symm h.1), ih h.2, List.append_assoc]
      rfl
  rw [Path.join_relative, placeOf, List.foldl_append, hfold]
  rfl

/-- A file name with a suffix is not the name of a directory or module. -/
theorem not_isIdentifier_of_point {s : String} (h : '.' ∈ s.toList) : ¬ isIdentifier s := fun hs =>
  absurd (isIdentifierPart_of_mem hs h) (by decide)

namespace Build

open Output
open Package (File Module fileModules)

theorem temporary_join_relative (p : Path) (l : List String) (n : String) :
    temporary (p / .relative (l ++ [n])) = p / .relative (l ++ [n ++ ".tmp"]) := by
  have hchild (n : String) :
      (p / .relative (l ++ [n]) : Path) = (p / .relative l : Path).child n := by
    simp [Path.join_relative, Path.child]
  rw [hchild, hchild, temporary_child]

/-- The names of a module are identifiers. -/
def IsPlain (m : Module) : Prop := ∀ w ∈ m.dir ++ [m.name], isIdentifier w

theorem append_py_ne (n : String) {s : String} (h : s.toList.getLast? ≠ some 'y') :
    n ++ ".py" ≠ s := by
  rintro rfl
  exact h (by simp [String.toList_append])

/-- No part of the path of a module leads upwards. -/
theorem IsPlain.not_mem {m : Module} (hm : IsPlain m) {s : String} (h : '.' ∈ s.toList) :
    s ∉ m.dir := fun hs =>
  not_isIdentifier_of_point h (hm s (List.mem_append_left _ hs))

section Places

variable {output root : Path} {d : Disk} {m m' : Module}

theorem placeOf_path (hm : IsPlain m) :
    d.placeOf (output / m.path root) =
      d.placeOf (output / root) ++ (m.dir ++ [m.name ++ ".py"]) := by
  rw [Module.path, Path.join_join_relative, Disk.placeOf_join_relative]
  rw [List.mem_append, not_or, List.mem_singleton]
  exact ⟨hm.not_mem (by decide), (append_py_ne m.name (by decide)).symm⟩

theorem placeOf_temporary (hm : IsPlain m) :
    d.placeOf (temporary (output / m.path root)) =
      d.placeOf (output / root) ++ (m.dir ++ [m.name ++ ".py" ++ ".tmp"]) := by
  rw [Module.path, Path.join_join_relative, temporary_join_relative, Disk.placeOf_join_relative]
  rw [List.mem_append, not_or, List.mem_singleton]
  exact ⟨hm.not_mem (by decide), (temporary_ne _).1.symm⟩

/-- A temporary file does not stand where a module does, nor above it. -/
theorem not_atTemporary (hm : IsPlain m) (hm' : IsPlain m') :
    ¬ AtTemporary d (output / m.path root) (d.placeOf (output / m'.path root)) := by
  rw [AtTemporary, placeOf_temporary hm, placeOf_path hm', List.prefix_append_right_inj]
  intro hprefix
  have hmem := hprefix.subset (List.mem_append_right _ (List.mem_singleton_self _))
  rcases List.mem_append.mp hmem with hmem | hmem
  · exact hm'.not_mem (by simp [String.toList_append]) hmem
  · exact append_py_ne _ (by simp [String.toList_append]) (List.mem_singleton.mp hmem).symm

/-- **The files of two modules do not get into each other's way.** -/
theorem apart_of_ne {f g : File} (hf : f.path = m.path root) (hg : g.path = m'.path root)
    (hm : IsPlain m) (hm' : IsPlain m') (hne : m ≠ m') : Apart output d f g where
  place := by
    rw [hf, hg, placeOf_path hm, placeOf_path hm']
    intro h
    have hlast := List.append_inj' (List.append_cancel_left h) rfl
    have hname := (String.append_left_inj _).mp (List.cons.inj hlast.2).1
    exact hne (Module.eq_of_dir_of_name hlast.1 hname)
  left := by
    rw [hf, hg]
    exact not_atTemporary hm hm'
  right := by
    rw [hf, hg]
    exact not_atTemporary hm' hm

end Places

/-! ## Reading and generating -/

theorem runs_logLines_bind {α : Type} {lines : List LogLine} {k : Unit → Action α} {s s' : State}
    {r : Except Error α} :
    Runs (logLines lines >>= k) s r s' ↔ Runs (k ()) { s with log := s.log ++ lines } r s' :=
  runs_bind_of_ok rfl

theorem runs_together {α : Type} {outcomes : List (Outcome α)} {s s' : State}
    {r : Except Error (List α)} :
    Runs (together outcomes) s r s' ↔
      r = (gather outcomes).2 ∧ s' = { s with log := s.log ++ (gather outcomes).1 } := by
  have hdo : together outcomes = logLines (gather outcomes).1 >>= fun _ =>
    MonadExcept.ofExcept (gather outcomes).2 := rfl
  rw [hdo, runs_logLines_bind, runs_ofExcept]

/-- **Tasks judged together have given values** if each of them has; then nothing is logged. -/
theorem runs_together_ok {α : Type} {outcomes : List (Outcome α)} {vs : List α} {s s' : State} :
    Runs (together outcomes) s (.ok vs) s' ↔
      List.Forall₂ (fun o v => o.result = .ok v) outcomes vs ∧ s' = s := by
  rw [runs_together]
  constructor
  · rintro ⟨hvs, rfl⟩
    have hok := gather_ok hvs.symm
    refine ⟨hok, ?_⟩
    rw [gather_of_ok hok, List.append_nil]
  · rintro ⟨hok, rfl⟩
    rw [gather_of_ok hok, List.append_nil]
    exact ⟨rfl, rfl⟩

/-- The name of a template file, as seen from a directory above it, is admitted. -/
theorem admitted_of_relativeTo? {path root place : Path} {display : String} {n : TemplateName}
    (hfile : isTemplateFile path) (hplace : path.relativeTo? root = some place)
    (h : TemplateName.ofPath place display = .ok n) : n.Admitted := by
  have hparts : place = .relative (path.parts.drop root.parts.length) := by
    unfold Path.relativeTo? at hplace
    split at hplace
    · exact (Option.some.inj hplace).symm
    · cases hplace
  by_cases hempty : path.parts.drop root.parts.length = []
  · -- a directory has no name
    rw [hparts, hempty, TemplateName.ofPath] at h
    split at h
    · cases h
    · rename_i hwords
      have hstem := List.find?_eq_none.mp hwords _
        (List.mem_append_right _ (List.mem_singleton_self _))
      exact absurd hstem (by decide)
  · have hname : place.name = path.name := by
      rw [hparts, Path.name, Path.name, Path.relative, List.getLastD_eq_getLast?,
        List.getLastD_eq_getLast?, List.getLast?_drop, if_neg]
      exact fun hle => hempty (List.drop_eq_nil_of_le hle)
    refine TemplateName.admitted_of_ofPath ?_ h
    unfold isTemplateFile Path.suffix at hfile ⊢
    rw [hname]
    exact hfile

theorem readTemplate_ok {d : Disk} {root path : Path} {t : Template}
    (hfile : isTemplateFile path) (h : readTemplate d root path = .ok t) : t.Admitted := by
  unfold readTemplate at h
  split at h
  · cases h
  · rename_i place hplace
    simp only [Except.bind_ok] at h
    obtain ⟨name, hname, _, -, _, -, h⟩ := h
    rw [Template.parse, Except.bind_ok] at h
    obtain ⟨_, -, h⟩ := h
    cases h
    exact admitted_of_relativeTo? hfile hplace hname

/-- **Templates are read** if all files can be read and no two templates have one function. -/
theorem readTemplates_ok {excluded : String → Bool} {root : Path} {s s' : State}
    {ts : List Template} :
    Runs (readTemplates excluded root) s (.ok ts) s' ↔
      (∃ paths read, s.disk.files excluded root = .ok paths ∧
        List.Forall₂ (fun p t => readTemplate s.disk root p = .ok t) (paths.filter isTemplateFile)
          read ∧ checkUnique (sortBy templateLe read) = .ok () ∧ ts = sortBy templateLe read) ∧
      s' = s := by
  rw [readTemplates, runs_get_bind, runs_ofExcept_bind]
  constructor
  · rintro (⟨paths, hpaths, h⟩ | ⟨_, -, he, -⟩)
    · rcases runs_bind.mp h with ⟨read, m, htogether, hrest⟩ | ⟨_, -, he⟩
      · obtain ⟨hread, rfl⟩ := runs_together_ok.mp htogether
        rw [List.forall₂_map_left_iff] at hread
        rcases runs_ofExcept_bind.mp hrest with ⟨_, hunique, hrest⟩ | ⟨_, -, he, -⟩
        · obtain ⟨hts, rfl⟩ := runs_pure.mp hrest
          exact ⟨⟨paths, read, hpaths, hread, hunique, Except.ok.inj hts⟩, rfl⟩
        · cases he
      · cases he
    · cases he
  · rintro ⟨⟨paths, read, hpaths, hread, hunique, rfl⟩, rfl⟩
    refine .inl ⟨paths, hpaths, runs_bind.mpr (.inl ⟨read, s', ?_, ?_⟩)⟩
    · exact runs_together_ok.mpr ⟨List.forall₂_map_left_iff.mpr hread, rfl⟩
    · exact runs_ofExcept_bind.mpr (.inl ⟨(), hunique, runs_pure.mpr ⟨rfl, rfl⟩⟩)

/-- **Reading templates changes nothing on the disk**, and their names are admitted. -/
theorem readTemplates_cases {excluded : String → Bool} {root : Path} {s s' : State}
    {r : Except Error (List Template)} (h : Runs (readTemplates excluded root) s r s') :
    s'.disk = s.disk ∧ ∀ ts, r = .ok ts → ∀ t ∈ ts, t.Admitted := by
  constructor
  · rw [readTemplates, runs_get_bind, runs_ofExcept_bind] at h
    rcases h with ⟨paths, -, h⟩ | ⟨e, -, -, rfl⟩
    · rcases runs_bind.mp h with ⟨ts, m, htogether, h⟩ | ⟨e, htogether, -⟩
      · obtain ⟨-, rfl⟩ := runs_together.mp htogether
        rcases runs_ofExcept_bind.mp h with ⟨_, -, h⟩ | ⟨e, -, -, rfl⟩
        · rw [(runs_pure.mp h).2]
        · rfl
      · rw [(runs_together.mp htogether).2]
    · rfl
  · rintro ts rfl t ht
    obtain ⟨⟨paths, read, -, hread, -, rfl⟩, -⟩ := readTemplates_ok.mp h
    obtain ⟨p, hp, hread⟩ := exists_left_of_forall₂ hread ((mem_sortBy _).mp ht)
    exact readTemplate_ok (List.mem_filter.mp hp).2 hread

/-- **The files of a package are generated** without a look at the disk. -/
theorem generate_ok {plan : Plan} {ts : List Template} {s s' : State} {files : List File} :
    Runs (generate plan ts) s (.ok files) s' ↔
      Package.generate plan.package ts plan.index? = .ok files ∧ s' = s := by
  rw [generate, runs_ofExcept_bind, Package.generate, Except.bind_ok]
  constructor
  · rintro (⟨statics, hstatics, h⟩ | ⟨_, -, he, -⟩)
    · rcases runs_bind.mp h with ⟨texts, m, htogether, hrest⟩ | ⟨_, -, he⟩
      · obtain ⟨hrender, rfl⟩ := runs_together_ok.mp htogether
        rw [List.forall₂_map_left_iff] at hrender
        obtain ⟨hfiles, rfl⟩ := runs_ofExcept.mp hrest
        refine ⟨⟨statics, hstatics, ?_⟩, rfl⟩
        rw [Except.bind_ok]
        exact ⟨texts, Except.mapM_ok.mpr hrender, hfiles.symm⟩
      · cases he
    · cases he
  · rintro ⟨⟨statics, hstatics, h⟩, rfl⟩
    obtain ⟨texts, hrender, hfiles⟩ := Except.bind_ok.mp h
    refine .inl ⟨statics, hstatics, runs_bind.mpr (.inl ⟨texts, s', ?_, ?_⟩)⟩
    · exact runs_together_ok.mpr
        ⟨List.forall₂_map_left_iff.mpr (Except.mapM_ok.mp hrender), rfl⟩
    · exact runs_ofExcept.mpr ⟨hfiles.symm, rfl⟩

/-- **Generating changes nothing on the disk**, and gives the files of the package. -/
theorem generate_cases {plan : Plan} {ts : List Template} {s s' : State}
    {r : Except Error (List File)} (h : Runs (generate plan ts) s r s') :
    s'.disk = s.disk ∧
      ∀ files, r = .ok files → Package.generate plan.package ts plan.index? = .ok files := by
  constructor
  · rw [generate, runs_ofExcept_bind] at h
    rcases h with ⟨statics, -, h⟩ | ⟨e, -, -, rfl⟩
    · rcases runs_bind.mp h with ⟨texts, m, htogether, h⟩ | ⟨e, htogether, -⟩
      · obtain ⟨-, rfl⟩ := runs_together.mp htogether
        rw [(runs_ofExcept.mp h).2]
      · rw [(runs_together.mp htogether).2]
    · rfl
  · rintro files rfl
    exact (generate_ok.mp h).1

/-! ## Writing -/

section Generated

variable {package : String} {ts : List Template} {index? : Option Index} {files : List File}

theorem exists_module (h : Package.generate package ts index? = .ok files)
    (hadmitted : ∀ t ∈ ts, t.Admitted) {f : File} (hf : f ∈ files) :
    ∃ m, IsPlain m ∧ f.path = m.path (.parse package) := by
  obtain ⟨texts, statics, htexts, h⟩ := Package.files_of_generate h
  obtain ⟨files', hperm, hfiles⟩ := Package.files_modules htexts h
  obtain ⟨m, hm, hpath, -⟩ := exists_left_of_forall₂ hfiles (hperm.mem_iff.mp hf)
  refine ⟨m, fun w hw => Package.isIdentifier_of_mem ?_ hm w hw, hpath⟩
  intro n hn
  obtain ⟨t, ht, rfl⟩ := List.mem_map.mp hn
  exact hadmitted t ht

/-- **The files of a generated package do not get into each other's way.** -/
theorem pairwise_apart (h : Package.generate package ts index? = .ok files)
    (hadmitted : ∀ t ∈ ts, t.Admitted) (output : Path) (d : Disk) :
    files.Pairwise (Apart output d) := by
  obtain ⟨texts, statics, htexts, hfiles⟩ := Package.files_of_generate h
  have hnodup := List.pairwise_map.mp (Package.nodup_paths htexts hfiles)
  refine hnodup.imp_of_mem fun {f g} hf hg hne => ?_
  obtain ⟨m, hm, hpath⟩ := exists_module h hadmitted hf
  obtain ⟨m', hm', hpath'⟩ := exists_module h hadmitted hg
  refine apart_of_ne hpath hpath' hm hm' ?_
  rintro rfl
  exact hne (hpath.trans hpath'.symm)

theorem name_join_path (output root : Path) (m : Module) :
    (output / m.path root).name = m.name ++ ".py" := by
  rw [Module.path, Path.join_join_relative, Path.join_relative, Path.name]
  simp

/-- The files of a generated package have names. -/
theorem name_join_of_generate (h : Package.generate package ts index? = .ok files)
    (hadmitted : ∀ t ∈ ts, t.Admitted) (output : Path) :
    ∀ f ∈ files, (output / f.path).name ≠ "" ∧ (output / f.path).name ≠ ".." := by
  intro f hf
  obtain ⟨m, -, hpath⟩ := exists_module h hadmitted hf
  rw [hpath, name_join_path]
  exact ⟨append_py_ne _ (by decide), append_py_ne _ (by decide)⟩

theorem writeFiles_cases (h : Package.generate package ts index? = .ok files)
    (hadmitted : ∀ t ∈ ts, t.Admitted) {output : Path} {s s' : State}
    {r : Except Error (List BuiltFile × List Path)} (hr : Runs (writeFiles output files) s r s') :
    (∃ built sources, r = .ok (built, sources) ∧
      built.map BuiltFile.path = files.map (output / ·.path) ∧
      Written output files files s.disk s'.disk) ∨
    ∃ done f rest e, files = done ++ f :: rest ∧ r = .error e ∧
      IsWriteError (output / f.path) e ∧ Written output done (done ++ [f]) s.disk s'.disk := by
  have hname := name_join_of_generate h hadmitted output
  rw [writeFiles, runs_get_bind] at hr
  split at hr
  rename_i result o hrun
  have hroot : (Output.start s.disk output).root = output := rfl
  have hwrite := writeAll_cases hroot hname (pairwise_apart h hadmitted output s.disk) hrun
  rw [runs_modify_bind, runs_ofExcept_bind] at hr
  rcases hwrite with ⟨built, rfl, hbuilt, hw⟩ | ⟨done, f, rest, e, hfiles, rfl, herror, hw⟩
  · rcases hr with ⟨_, hok, hr⟩ | ⟨_, hok, -⟩
    · cases hok
      obtain ⟨rfl, rfl⟩ := runs_pure.mp hr
      exact .inl ⟨built, _, rfl, hbuilt, hw⟩
    · cases hok
  · rcases hr with ⟨_, hok, -⟩ | ⟨_, hok, rfl, rfl⟩
    · cases hok
    · cases hok
      exact .inr ⟨done, f, rest, e, hfiles, rfl, herror, hw⟩

/-- The files that were not written are as they were. -/
theorem Written.rest_kept {done rest : List File} {f : File} {output : Path} {d d' : Disk}
    (h : Package.generate package ts index? = .ok (done ++ f :: rest))
    (hadmitted : ∀ t ∈ ts, t.Admitted) (hw : Written output done (done ++ [f]) d d') :
    ∀ g ∈ f :: rest, d'.fileAt (d.placeOf (output / g.path)) =
      d.fileAt (d.placeOf (output / g.path)) := by
  intro g hg
  refine hw.others.files _ ?_
  rintro (⟨g', hg', heq⟩ | ⟨g', hg', htemporary⟩)
  · exact ((List.pairwise_append.mp (pairwise_apart h hadmitted output d)).2.2 g' hg' g hg).place
      heq.symm
  · have hmem : g' ∈ done ++ f :: rest := by
      rcases List.mem_append.mp hg' with hg' | hg'
      · exact List.mem_append_left _ hg'
      · cases List.mem_singleton.mp hg'
        exact List.mem_append_right _ List.mem_cons_self
    obtain ⟨m, hm, hpath⟩ := exists_module h hadmitted (List.mem_append_right _ hg)
    obtain ⟨m', hm', hpath'⟩ := exists_module h hadmitted hmem
    rw [hpath, hpath'] at htemporary
    exact not_atTemporary hm' hm htemporary

end Generated

/-- **What a build is going to write**: the files of the package that is made of the templates and
static files that the settings name. -/
def Prepares (c : Config) (make : Asset.Preprocessor) (d : Disk) (files : List File) : Prop :=
  ∃ index? ts log log', collect d c make = .ok index? ∧
    Runs (readTemplates (Exclusion.ofLines c.exclude).excludes c.templates) ⟨d, log⟩ (.ok ts)
      ⟨d, log'⟩ ∧
    Package.generate c.package ts index? = .ok files

/-- **A build by settings** writes all of its files; or it fails and has written nothing; or it
fails at one of its files, those before it are written, and all other files are as they were. -/
theorem runProject_cases {c : Config} {make : Asset.Preprocessor} {s s' : State}
    {r : Except Error Result} (h : Runs (runProject c make true) s r s') :
    (∃ result files, r = .ok result ∧ Prepares c make s.disk files ∧
      result.units.map BuiltFile.path = files.map (c.output / ·.path) ∧
      Written c.output files files s.disk s'.disk) ∨
    (∃ e, r = .error e ∧ s'.disk = s.disk) ∨
    ∃ done f rest e, r = .error e ∧ Prepares c make s.disk (done ++ f :: rest) ∧
      IsWriteError (c.output / f.path) e ∧ Written c.output done (done ++ [f]) s.disk s'.disk ∧
      ∀ g ∈ f :: rest, s'.disk.fileAt (s.disk.placeOf (c.output / g.path)) =
        s.disk.fileAt (s.disk.placeOf (c.output / g.path)) := by
  rw [runProject, runs_get_bind, runs_ofExcept_bind] at h
  rcases h with ⟨index?, hindex, h⟩ | ⟨e, -, rfl, rfl⟩
  · rw [run] at h
    rcases runs_bind.mp h with ⟨ts, s₁, hread, h⟩ | ⟨e, hread, rfl⟩
    · obtain ⟨hd₁, hadmitted⟩ := readTemplates_cases hread
      rcases runs_bind.mp h with ⟨files, s₂, hgenerate, h⟩ | ⟨e, hgenerate, rfl⟩
      · obtain ⟨hd₂, hfiles⟩ := generate_cases hgenerate
        have hadmitted := hadmitted ts rfl
        have hfiles := hfiles files rfl
        have hd := hd₂.trans hd₁
        have hprepares : Prepares c make s.disk files := by
          obtain ⟨d, log⟩ := s
          obtain ⟨d₁, log₁⟩ := s₁
          obtain rfl : d₁ = d := hd₁
          exact ⟨index?, ts, log, log₁, hindex, hread, hfiles⟩
        rw [if_pos rfl] at h
        rcases runs_bind.mp h with ⟨⟨built, sources⟩, s₃, hwrite, h⟩ | ⟨e, hwrite, rfl⟩
        · rw [runs_logLines_bind] at h
          obtain ⟨rfl, rfl⟩ := runs_pure.mp h
          rcases writeFiles_cases hfiles hadmitted hwrite with
            ⟨_, _, hok, hbuilt, hw⟩ | ⟨_, _, _, _, _, hok, -⟩
          · cases hok
            rw [hd] at hw
            exact .inl ⟨_, files, rfl, hprepares, hbuilt, hw⟩
          · cases hok
        · rcases writeFiles_cases hfiles hadmitted hwrite with
            ⟨_, _, hok, -⟩ | ⟨done, f, rest, e', rfl, hok, herror, hw⟩
          · cases hok
          · cases hok
            rw [hd] at hw
            exact .inr (.inr ⟨done, f, rest, e, rfl, hprepares, herror, hw,
              hw.rest_kept hfiles hadmitted⟩)
      · exact .inr (.inl ⟨e, rfl, (generate_cases hgenerate).1.trans hd₁⟩)
    · exact .inr (.inl ⟨e, rfl, (readTemplates_cases hread).1⟩)
  · exact .inr (.inl ⟨e, rfl, rfl⟩)

end Build

namespace CommandLine

open Build
open Package (File)

/-- A project with one template. A directory stands where the module of the template belongs. -/
def blockedDisk : Disk :=
  ⟨.dir [("templates", .dir [("a.html", .file (Utf8.encodeString "@()\nx"))]),
    ("generated", .dir [("templates", .dir [("__init__.py", .file (Utf8.encodeString "old")),
      ("template_a_html.py", .dir [])])])], []⟩

/-- A build without options. -/
def blockedBuild : Except Error (Config × Result) × State :=
  (perform none (Asset.Preprocessor.ofCompiler none) ⟨"/", []⟩
    ⟨.build, none, none, none, none, none, false⟩).run.run ⟨blockedDisk, []⟩

end CommandLine

end Stencil
