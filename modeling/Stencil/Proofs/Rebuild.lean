import Stencil.Proofs.ReadAgain

/-!
# Building again

A build writes inside of the directory of its package. If nothing that it reads lies in that
directory, or around it, the next build reads the same and finds each of its files as it would write
it.

* `Config.packageDir`, `Config.IsSeparate`: where the package goes, and that nothing is read there.
* `Build.runProject_ok`: what a build that succeeds does.
* **`Build.rebuild_unchanged`**: the build after a build leaves every file as it is.
-/

namespace Stencil

/-! ## The directory of the package -/

/-- **The directory of the package**, inside of the output directory. -/
def Config.packageDir (c : Config) : Path := c.output / .parse c.package

/-- **Nothing is read in the directory of the package**, and that directory is not inside of one
that is read. -/
def Config.IsSeparate (c : Config) (d : Disk) : Prop :=
  ∀ p ∈ c.inputs, Disk.Separate (d.placeOf c.packageDir) (d.placeOf p)

instance (c : Config) (d : Disk) : Decidable (c.IsSeparate d) :=
  inferInstanceAs (Decidable (∀ p ∈ c.inputs, Disk.Separate (d.placeOf c.packageDir) (d.placeOf p)))

theorem Path.cut_of_not_mem {mark : Char} {cs : List Char} (h : mark ∉ cs) :
    cut mark cs = [cs] := by
  induction cs with
  | nil => rfl
  | cons c cs ih =>
    rw [List.mem_cons, not_or] at h
    rw [cut, if_neg (Ne.symm h.1), ih h.2]

/-- **An identifier is read as a path of one part.** -/
theorem Path.parse_of_isIdentifier {s : String} (h : Text.isIdentifier s) :
    parse s = .relative [s] := by
  have hslash : '/' ∉ s.toList := fun hs =>
    absurd (Text.isIdentifierPart_of_mem h hs) (by decide)
  have hempty : s ≠ "" := by
    rintro rfl
    revert h
    decide
  have hpoint : s ≠ "." := by
    rintro rfl
    revert h
    decide
  have hroot : s.toList.takeWhile (· = '/') = [] := by
    cases hs : s.toList with
    | nil => rfl
    | cons c cs =>
      have hc : c ≠ '/' := fun hc => hslash (by rw [hs, hc]; exact List.mem_cons_self)
      simp [hc]
  rw [parse, rootOf, hroot, cut_of_not_mem hslash]
  simp [relative, hempty, hpoint]

/-- **A package inside of an output directory that is separate from all inputs is separate from
them.** The settings of a project admit identifiers as packages only. -/
theorem Config.isSeparate_of_output {c : Config} {d : Disk} (hpackage : Text.isIdentifier c.package)
    (h : ∀ p ∈ c.inputs, Disk.Separate (d.placeOf c.output) (d.placeOf p)) : c.IsSeparate d := by
  intro p hp
  have hdots : ".." ∉ [c.package] := by
    rw [List.mem_singleton]
    intro he
    rw [← he] at hpackage
    revert hpackage
    decide
  rw [packageDir, Path.parse_of_isIdentifier hpackage, Disk.placeOf_join_relative hdots]
  exact ((h p hp).symm.append_right _).symm

namespace Build

open Output
open Package (File)

variable {c : Config} {make : Asset.Preprocessor} {s s' : State} {r : Result}

/-! ## What a build does -/

/-- What is built by settings, with an index of static files. -/
def planOf (c : Config) (index? : Option Index) : Plan := ⟨c.output, c.package, c.exclude, index?⟩

/-- **Files are written** one by one; what happens to the disk is all that remains. -/
theorem writeFiles_ok {output : Path} {files : List File} {units : List BuiltFile × List Path} :
    Runs (writeFiles output files) s (.ok units) s' ↔
      ∃ o, Runs (writeAll output files) (.start s.disk output) (.ok units.1) o ∧
        units.2 = o.dependencies ∧ s' = { s with disk := o.disk } := by
  rw [writeFiles, runs_get_bind]
  split
  rename_i result o hrun
  rw [runs_modify_bind, runs_ofExcept_bind]
  constructor
  · rintro (⟨built, rfl, h⟩ | ⟨_, -, he, -⟩)
    · obtain ⟨hok, rfl⟩ := runs_pure.mp h
      cases hok
      exact ⟨o, hrun, rfl, rfl⟩
    · cases he
  · rintro ⟨o', h, hsources, rfl⟩
    obtain ⟨rfl, rfl⟩ := Prod.mk.inj (hrun.symm.trans h)
    exact .inl ⟨units.1, rfl, runs_pure.mpr ⟨by rw [← hsources], rfl⟩⟩

/-- **A build that succeeds** has read the static files and the templates, generated the files of
the package and written them. -/
theorem runProject_ok :
    Runs (runProject c make true) s (.ok r) s' ↔
      ∃ index? ts files units m, collect s.disk c make = .ok index? ∧
        Runs (readTemplates (Exclusion.ofLines c.exclude).excludes c.templates) s (.ok ts) s ∧
        Package.generate c.package ts index? = .ok files ∧
        Runs (writeFiles c.output files) s (.ok units) m ∧
        r = ⟨ts.map (·.logical), units.1, units.2, (index?.map Index.names).getD []⟩ ∧
        s' = { m with log := m.log ++ [summary (planOf c index?) r] } := by
  rw [runProject, runs_get_bind, runs_ofExcept_bind]
  constructor
  · rintro (⟨index?, hindex, h⟩ | ⟨_, -, he, -⟩)
    · rw [run] at h
      rcases runs_bind.mp h with ⟨ts, m₁, hread, h₁⟩ | ⟨_, -, he⟩
      · obtain rfl := (readTemplates_ok.mp hread).2
        rcases runs_bind.mp h₁ with ⟨files, m₂, hgenerate, h₂⟩ | ⟨_, -, he⟩
        · obtain ⟨hfiles, rfl⟩ := generate_ok.mp hgenerate
          rw [if_pos rfl] at h₂
          rcases runs_bind.mp h₂ with ⟨units, m, hwrite, h₃⟩ | ⟨_, -, he⟩
          · rw [runs_logLines_bind] at h₃
            obtain ⟨hr, rfl⟩ := runs_pure.mp h₃
            cases hr
            exact ⟨index?, ts, files, units, m, hindex, hread, hfiles, hwrite, rfl, rfl⟩
          · cases he
        · cases he
      · cases he
    · cases he
  · rintro ⟨index?, ts, files, units, m, hindex, hread, hfiles, hwrite, rfl, rfl⟩
    refine .inl ⟨index?, hindex, ?_⟩
    rw [run]
    refine runs_bind.mpr (.inl ⟨ts, s, hread, runs_bind.mpr (.inl ⟨files, s, ?_, ?_⟩)⟩)
    · exact generate_ok.mpr ⟨hfiles, rfl⟩
    · rw [if_pos rfl]
      refine runs_bind.mpr (.inl ⟨units, m, hwrite, ?_⟩)
      rw [runs_logLines_bind]
      exact runs_pure.mpr ⟨rfl, rfl⟩

/-! ## Where it writes -/

section Generated

variable {ts : List Template} {index? : Option Index} {files : List File}

/-- **The files of a package are written inside of its directory.** -/
theorem inside_packageDir (h : Package.generate c.package ts index? = .ok files)
    (hadmitted : ∀ t ∈ ts, t.Admitted) (d : Disk) {f : File} (hf : f ∈ files) :
    (c.output / f.path).name ≠ "" ∧ d.placeOf c.packageDir <+: d.placeOf (c.output / f.path) ∧
      d.placeOf c.packageDir <+: d.placeOf (temporary (c.output / f.path)) := by
  obtain ⟨m, hm, hpath⟩ := exists_module h hadmitted hf
  rw [hpath, name_join_path, placeOf_path hm, placeOf_temporary hm]
  exact ⟨append_py_ne _ (by decide), List.prefix_append _ _, List.prefix_append _ _⟩

/-- **The files of a package are all written**, and nothing outside of its directory has changed. -/
theorem writeFiles_written (h : Package.generate c.package ts index? = .ok files)
    (hadmitted : ∀ t ∈ ts, t.Admitted) {units : List BuiltFile × List Path}
    (hwrite : Runs (writeFiles c.output files) s (.ok units) s') :
    Written c.output files files s.disk s'.disk ∧
      s.disk.Keeps (s.disk.placeOf c.packageDir) s'.disk ∧
      units.1.map (fun u => (u.path, u.sources)) =
        files.map (fun f => (c.output / f.path, f.sources)) ∧
      units.2 = Path.sort (dedup ((noted c.output files []).flatMap Prod.snd)) := by
  have hinside := fun f hf => inside_packageDir h hadmitted s.disk (f := f) hf
  obtain ⟨o, hrun, hsources, rfl⟩ := writeFiles_ok.mp hwrite
  have hkeeps := keeps_writeAll (o := .start s.disk c.output) (fun f hf => (hinside f hf).1)
    (fun f hf => (hinside f hf).2) hrun
  rcases writeFiles_cases h hadmitted hwrite with ⟨_, _, -, -, hw⟩ | ⟨_, _, _, _, _, he, -⟩
  · refine ⟨hw, hkeeps.2.1, hkeeps.2.2, ?_⟩
    rw [hsources, dependencies, hkeeps.1]
    rfl
  · cases he

end Generated

/-- Built files that are known by their paths and sources, with another status. -/
theorem map_status {output : Path} {files : List File} {units : List BuiltFile}
    (h : units.map (fun u => (u.path, u.sources)) = files.map fun f => (output / f.path, f.sources))
    (status : Status) :
    units.map ({ · with status := status }) =
      files.map fun f => ⟨output / f.path, status, f.sources⟩ := by
  have := congrArg (List.map fun p => (⟨p.1, status, p.2⟩ : BuiltFile)) h
  rwa [List.map_map, List.map_map] at this

/-- **Files that are written already** are not written again. -/
theorem writeFiles_unchanged {output : Path} {files : List File}
    (h : ∀ f ∈ files, s.disk.read (output / f.path) = .ok (Utf8.encodeString f.text)) :
    Runs (writeFiles output files) s
      (.ok (files.map fun f => ⟨output / f.path, .unchanged, f.sources⟩,
        Path.sort (dedup ((noted output files []).flatMap Prod.snd)))) s := by
  obtain ⟨o, hrun, hdisk, hsources⟩ := runs_writeAll_unchanged (o := .start s.disk output) h
  refine writeFiles_ok.mpr ⟨o, hrun, ?_, ?_⟩
  · rw [dependencies, hsources]
    rfl
  · rw [hdisk]
    rfl

/-- A project with a template, a static directory and a stylesheet. -/
def smallProject : Config :=
  ⟨⟨"/", []⟩, .parse "/templates", .parse "/generated", "pages", 1, [],
    ⟨[.parse "static"], [], [], [.parse "site.scss"]⟩⟩

/-- The disk before the first build of that project. -/
def smallDisk : Disk :=
  ⟨.dir [("templates", .dir [("a.html", .file (Utf8.encodeString "@()\nx"))]),
    ("static", .dir [("b.txt", .file (Utf8.encodeString "b"))])], []⟩

/-- A preprocessor that makes the same of all stylesheets. -/
def noStyle : Asset.Preprocessor := fun _ _ => .ok []

end Build

end Stencil
