import Stencil.Proofs.EditedFile

/-!
# Building after one template was edited

* `Build.WritesOne`: whatever becomes of a build, no other file than one is written.
* `Build.writeAll_one`: files of which all but one have their contents already.
* `Build.runs_of_prepares`: a build that has prepared its files only writes them; `Build.Gives`:
  what it gives.
* `Build.written_of_build`: what is there after a build.
* **`Build.edit_touches_one`**: a template with another content changes its module and no other
  file, and the next build writes that file at most.
-/

namespace Stencil.Build

open Output
open Package (File)

variable {c : Config} {make : Asset.Preprocessor} {output m target : Path}
  {files files' : List File}

/-! ## Writing -/

/-- **No other file than one is written**, whatever comes of it: nothing else changes on the disk,
and nothing else can fail. -/
structure WritesOne {α : Type} (target : Path) (units : α → List BuiltFile) (d d' : Disk)
    (r : Except Error α) : Prop where
  alters : d.Alters (fun l => AtTemporary d target l ∨ l = d.placeOf target) d'
  unchanged : ∀ a, r = .ok a → ∀ u ∈ units a, u.path ≠ target → u.status = .unchanged
  failed : ∀ e, r = .error e → IsWriteError target e

/-- One more file, which is either the one that is written or has its content already. -/
theorem writesOne_cons {files : List File} {f : File} {status : Status} {o o₁ o' : Output}
    {r : Except Error (List BuiltFile)}
    (hd : o.disk.Alters (fun l => AtTemporary o.disk target l ∨ l = o.disk.placeOf target) o₁.disk)
    (hstatus : output / f.path ≠ target → status = .unchanged)
    (hfiles : ∀ {q o₂}, Runs (writeAll output files) o₁ q o₂ →
      WritesOne target id o₁.disk o₂.disk q)
    (h : Runs (do
      let built ← writeAll output files
      return (⟨output / f.path, status, f.sources⟩ : BuiltFile) :: built) o₁ r o') :
    WritesOne target id o.disk o'.disk r := by
  have hmono {d' : Disk} (hd' : o₁.disk.Alters (fun l => AtTemporary o₁.disk target l ∨
      l = o₁.disk.placeOf target) d') :
      o.disk.Alters (fun l => AtTemporary o.disk target l ∨ l = o.disk.placeOf target) d' := by
    simp only [AtTemporary, hd.placeOf] at hd'
    exact hd.trans hd'
  rcases runs_bind.mp h with ⟨built, o₂, hq, h⟩ | ⟨e, hq, rfl⟩
  · obtain ⟨rfl, rfl⟩ := runs_pure.mp h
    obtain ⟨hd', hunchanged, -⟩ := hfiles hq
    refine ⟨hmono hd', fun _ hok => ?_, fun _ he => by cases he⟩
    cases hok
    exact List.forall_mem_cons.mpr ⟨hstatus, hunchanged _ rfl⟩
  · obtain ⟨hd', -, hfailed⟩ := hfiles hq
    refine ⟨hmono hd', fun _ hok => (by cases hok), fun _ he => ?_⟩
    cases he
    exact hfailed _ rfl

/-- **Files are written of which all but one have their contents already.** -/
theorem writeAll_one {o o' : Output} {r : Except Error (List BuiltFile)} (hroot : o.root = output)
    (hname : ∀ f ∈ files, (output / f.path).name ≠ "" ∧ (output / f.path).name ≠ "..")
    (hapart : files.Pairwise (Apart output o.disk))
    (hread : ∀ f ∈ files, f.path ≠ m →
      o.disk.read (output / f.path) = .ok (Utf8.encodeString f.text))
    (h : Runs (writeAll output files) o r o') :
    WritesOne (output / m) id o.disk o'.disk r := by
  induction files generalizing o o' r with
  | nil =>
    rw [writeAll, List.mapM_nil] at h
    obtain ⟨rfl, rfl⟩ := runs_pure.mp h
    refine ⟨.refl, fun _ hok => ?_, fun _ he => by cases he⟩
    cases hok
    exact List.forall_mem_nil _
  | cons f files ih =>
    obtain ⟨hempty, hdots⟩ := hname f List.mem_cons_self
    obtain ⟨hf, hfiles⟩ := List.pairwise_cons.mp hapart
    have hname' := fun g hg => hname g (List.mem_cons_of_mem _ hg)
    rw [writeAll_cons] at h
    subst hroot
    by_cases hfm : f.path = m
    · subst hfm
      rcases runs_bind.mp h with ⟨status, o₁, hwrite, h⟩ | ⟨e, hwrite, rfl⟩
      · obtain ⟨hroot₁, ⟨-, -, hd⟩ | ⟨⟨_, he, -⟩, -⟩⟩ := write_cases hempty hdots hwrite
        · refine writesOne_cons hd (fun hne => absurd rfl hne) (fun hq =>
            ih hroot₁ hname' (hfiles.imp fun ha => ha.of_alters hd) (fun g hg hne => ?_) hq) h
          refine hd.read (hread g (List.mem_cons_of_mem _ hg) hne) ?_
          rintro (htemporary | heq)
          · exact (hf g hg).left htemporary
          · exact (hf g hg).place heq.symm
        · cases he
      · obtain ⟨-, ⟨⟨_, he⟩, -⟩ | ⟨⟨_, he, herror⟩, hd⟩⟩ := write_cases hempty hdots hwrite
        · cases he
        · cases he
          refine ⟨hd.mono fun _ => .inl, fun _ hok => (by cases hok), fun _ he => ?_⟩
          cases he
          exact herror
    · have hwrite := runs_write_unchanged f.sources (hread f List.mem_cons_self hfm)
      rw [runs_bind_of_ok hwrite] at h
      -- what is noted of the file is not on the disk
      obtain ⟨o₁, hroot₁, hdisk, h⟩ : ∃ o₁ : Output, o₁.root = o.root ∧ o₁.disk = o.disk ∧
          Runs (do
            let built ← writeAll o.root files
            return (⟨o.root / f.path, .unchanged, f.sources⟩ : BuiltFile) :: built) o₁ r o' := by
        refine ⟨_, ?_, ?_, h⟩ <;> rfl
      refine writesOne_cons (hdisk ▸ .refl) (fun _ => rfl) (fun hq => ih hroot₁ hname' ?_ ?_ hq) h
      · rwa [hdisk]
      · intro g hg hne
        rw [hdisk]
        exact hread g (List.mem_cons_of_mem _ hg) hne

/-- **The files of a package are written of which all but one have their contents already.** -/
theorem writeFiles_one {ts : List Template} {index? : Option Index} {s s' : State}
    {r : Except Error (List BuiltFile × List Path)}
    (hfiles : Package.generate c.package ts index? = .ok files)
    (hadmitted : ∀ t ∈ ts, t.Admitted)
    (hread : ∀ f ∈ files, f.path ≠ m →
      s.disk.read (c.output / f.path) = .ok (Utf8.encodeString f.text))
    (h : Runs (writeFiles c.output files) s r s') :
    WritesOne (c.output / m) Prod.fst s.disk s'.disk r := by
  rw [writeFiles, runs_get_bind] at h
  split at h
  rename_i result o hrun
  have hroot : (Output.start s.disk c.output).root = c.output := rfl
  obtain ⟨hd, hunchanged, hfailed⟩ := writeAll_one hroot
    (name_join_of_generate hfiles hadmitted c.output)
    (pairwise_apart hfiles hadmitted c.output s.disk) hread hrun
  rw [runs_modify_bind, runs_ofExcept_bind] at h
  rcases h with ⟨built, rfl, h⟩ | ⟨e, rfl, rfl, rfl⟩
  · obtain ⟨rfl, rfl⟩ := runs_pure.mp h
    refine ⟨hd, fun _ hok => ?_, fun _ he => by cases he⟩
    cases hok
    exact hunchanged built rfl
  · refine ⟨hd, fun _ hok => (by cases hok), fun _ he => ?_⟩
    cases he
    exact hfailed e rfl

/-! ## Building -/

/-- **A build that has prepared its files** only writes them. -/
theorem runs_of_prepares {index? : Option Index} {ts : List Template} {s s' : State}
    {r : Except Error Result} (hindex : collect s.disk c make = .ok index?)
    (hread : Runs (readTemplates (Exclusion.ofLines c.exclude).excludes c.templates) s (.ok ts) s)
    (hfiles : Package.generate c.package ts index? = .ok files)
    (h : Runs (runProject c make true) s r s') :
    (∃ units k, Runs (writeFiles c.output files) s (.ok units) k ∧ s'.disk = k.disk ∧
      r = .ok ⟨ts.map (·.logical), units.1, units.2, (index?.map Index.names).getD []⟩) ∨
    ∃ e, Runs (writeFiles c.output files) s (.error e) s' ∧ r = .error e := by
  rw [runProject, runs_get_bind, runs_ofExcept_bind] at h
  rcases h with ⟨_, hindex', h⟩ | ⟨_, he, -⟩
  · obtain rfl := Except.ok.inj (hindex.symm.trans hindex')
    have hgenerate : Runs (generate ⟨c.output, c.package, c.exclude, index?⟩ ts) s (.ok files) s :=
      generate_ok.mpr ⟨hfiles, rfl⟩
    rw [run, runs_bind_of_ok hread, runs_bind_of_ok hgenerate, if_pos rfl] at h
    rcases runs_bind.mp h with ⟨units, k, hwrite, h⟩ | ⟨e, hwrite, rfl⟩
    · rw [runs_logLines_bind] at h
      obtain ⟨rfl, rfl⟩ := runs_pure.mp h
      exact .inl ⟨units, k, hwrite, rfl, rfl⟩
    · exact .inr ⟨e, hwrite, rfl⟩
  · cases hindex.symm.trans he

/-- **What a build gives** for the files it has prepared, but for what became of them. -/
structure Gives (c : Config) (index? : Option Index) (ts : List Template) (files : List File)
    (r : Result) : Prop where
  templates : r.templates = ts.map (·.logical)
  units : r.units.map (fun u => (u.path, u.sources)) =
    files.map fun f => (c.output / f.path, f.sources)
  dependencies : r.dependencies = Path.sort (dedup ((noted c.output files []).flatMap Prod.snd))
  statics : r.statics = (index?.map Index.names).getD []

section Prepared

variable {index? : Option Index} {ts : List Template} {s s' : State} {d : Disk}

/-- **A build writes one file only** if all other files it has prepared are there already. -/
theorem writesOne_of_prepares {q : Except Error Result}
    (hindex : collect s.disk c make = .ok index?)
    (hread : Runs (readTemplates (Exclusion.ofLines c.exclude).excludes c.templates) s (.ok ts) s)
    (hfiles : Package.generate c.package ts index? = .ok files)
    (hwritten : ∀ f ∈ files, f.path ≠ m →
      s.disk.read (c.output / f.path) = .ok (Utf8.encodeString f.text))
    (h : Runs (runProject c make true) s q s') :
    WritesOne (c.output / m) Result.units s.disk s'.disk q ∧
      ∀ r, q = .ok r → Gives c index? ts files r := by
  have hadmitted := (readTemplates_cases hread).2 ts rfl
  rcases runs_of_prepares hindex hread hfiles h with
    ⟨units, k, hwrite, hdisk, rfl⟩ | ⟨e, hwrite, rfl⟩
  · obtain ⟨hd, hunchanged, -⟩ := writeFiles_one hfiles hadmitted hwritten hwrite
    obtain ⟨-, -, hunits, hnoted⟩ := writeFiles_written hfiles hadmitted hwrite
    refine ⟨⟨hdisk ▸ hd, fun _ hok => ?_, fun _ he => by cases he⟩, fun r hok => ?_⟩
    · cases hok
      exact hunchanged _ rfl
    · cases hok
      exact ⟨rfl, hunits, hnoted, rfl⟩
  · obtain ⟨hd, -, hfailed⟩ := writeFiles_one hfiles hadmitted hwritten hwrite
    refine ⟨⟨hd, fun _ hok => (by cases hok), fun _ he => ?_⟩, fun r hok => by cases hok⟩
    cases he
    exact hfailed e rfl

/-- **After a build** the files are there that the next one prepares, and templates are still not
read where they are. -/
theorem written_of_build {log : List LogLine} {r : Result}
    (hbuild : Runs (runProject c make true) s (.ok r) ⟨d, log⟩) (hseparate : c.IsSeparate s.disk)
    (hindex : collect d c make = .ok index?)
    (hread : Runs (readTemplates (Exclusion.ofLines c.exclude).excludes c.templates) ⟨d, []⟩
      (.ok ts) ⟨d, []⟩)
    (hfiles : Package.generate c.package ts index? = .ok files) :
    Gives c index? ts files r ∧
      (∀ f ∈ files, d.read (c.output / f.path) = .ok (Utf8.encodeString f.text)) ∧
      Disk.Separate (d.placeOf c.packageDir) (d.placeOf c.templates) := by
  -- the build has read what is there after it, too
  obtain ⟨index₀, ts₀, files₀, units, k, hindex₀, hread₀, hfiles₀, hwrite, rfl, hk⟩ :=
    runProject_ok.mp hbuild
  obtain rfl : d = k.disk := congrArg State.disk hk
  obtain ⟨hw, hkeeps, hunits, hnoted⟩ :=
    writeFiles_written hfiles₀ ((readTemplates_cases hread₀).2 ts₀ rfl) hwrite
  have hroot := hseparate c.templates List.mem_cons_self
  obtain rfl := Except.ok.inj
    ((collect_again hw.others hkeeps hseparate hindex₀).symm.trans hindex)
  have hts₀ : Runs (readTemplates (Exclusion.ofLines c.exclude).excludes c.templates)
      ⟨k.disk, []⟩ (.ok ts₀) ⟨k.disk, []⟩ := readTemplates_again hw.others hkeeps hroot hread₀
  obtain rfl := Except.ok.inj (Prod.mk.inj (hts₀.symm.trans hread)).1
  obtain rfl := Except.ok.inj (hfiles₀.symm.trans hfiles)
  refine ⟨⟨rfl, hunits, hnoted, rfl⟩, hw.texts, ?_⟩
  rwa [hkeeps.placeOf, hkeeps.placeOf]

end Prepared

/-! ## Editing -/

/-- What is noted of files depends on their paths and sources. -/
theorem noted_congr {root : Path} (h : List.Forall₂ (File.SameBut m) files files')
    (sources : List (Path × List Path)) :
    noted root files' sources = noted root files sources := by
  induction h generalizing sources with
  | nil => rfl
  | cons hf _ ih =>
    change noted root _ (setEntry sources _ _) = noted root _ (setEntry sources _ _)
    rw [ih, hf.path, hf.sources]

section Edited

variable {d d' : Disk} {p : Path} {content : List UInt8}

/-- **The files of a package are still written** after a template was edited: templates are not read
where the package is. -/
theorem read_of_written {ts : List Template} {index? : Option Index}
    (hfiles : Package.generate c.package ts index? = .ok files)
    (hadmitted : ∀ t ∈ ts, t.Admitted)
    (hseparate : Disk.Separate (d.placeOf c.packageDir) (d.placeOf c.templates))
    (hp : c.ReadsTemplate d p) (ha : d.Alters (· = d.placeOf p) d') {f : File} (hf : f ∈ files)
    (hread : d.read (c.output / f.path) = .ok (Utf8.encodeString f.text)) :
    d'.read (c.output / f.path) = .ok (Utf8.encodeString f.text) := by
  obtain ⟨paths, hpaths, hmem, -⟩ := hp
  refine ha.read hread fun heq => (Disk.separate_of_files hseparate hpaths hmem).1 ?_
  rw [← heq]
  exact (inside_packageDir hfiles hadmitted d hf).2.1

end Edited

/-- A disk with a template that calls another one, and with a static file. -/
def callingDisk : Disk :=
  ⟨.dir [("templates", .dir [("a.html", .file (Utf8.encodeString "@()\nx")),
      ("b.html", .file (Utf8.encodeString "@()\n@:a()"))]),
    ("static", .dir [("b.txt", .file (Utf8.encodeString "b"))])], []⟩

/-- The outcome of a build on that disk. -/
def callingBuild : Except Error Result × State :=
  (runProject smallProject noStyle true).run.run ⟨callingDisk, []⟩

/-- The template that is called, with another content. -/
def callingEdit : Except DiskProblem Unit × Disk :=
  (Disk.write (.parse "/templates/a.html") (Utf8.encodeString "@(n: int)\n@(n)")).run.run
    callingBuild.2.disk

end Stencil.Build
