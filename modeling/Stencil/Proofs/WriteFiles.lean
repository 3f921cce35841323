import Stencil.Build.Basic
import Stencil.Proofs.DiskFrame

/-!
# Writing the files of a package

* `Output.runs_replace`, `Output.runs_write`: the steps of putting a content in place of a file.
* `Output.write_cases`: a file is swapped for its new content in one step; if that fails, nothing
  but its temporary file has changed.
* `Build.Apart`: two files that do not get into each other's way.
* `Build.Written`: how far the files of a package were written.
* **`Build.writeAll_cases`**: all files are written, or those before the first one that cannot be.
-/

namespace Stencil

/-! ## One file -/

namespace Output

theorem name_child {dir : Path} {n : String} : (dir.child n).name = n := by
  simp [Path.name, Path.child]

theorem parent_child {dir : Path} {n : String} : (dir.child n).parent = dir := by
  simp [Path.parent, Path.child]

theorem eq_child {p : Path} (h : p.name ≠ "") : p = p.parent.child p.name := by
  obtain ⟨root, parts⟩ := p
  rcases List.eq_nil_or_concat parts with rfl | ⟨l, a, rfl⟩
  · exact absurd rfl h
  · simp [Path.name, Path.parent, Path.child]

theorem temporary_child {dir : Path} {n : String} :
    temporary (dir.child n) = dir.child (n ++ ".tmp") := by
  rw [temporary, Path.withName, name_child, parent_child]

/-- **The places that writing a file may leave something at** if it fails. -/
def AtTemporary (d : Disk) (target : Path) (l : List String) : Prop :=
  d.placeOf (temporary target) <+: l

/-- The error of a file that cannot be written. -/
def IsWriteError (target : Path) (e : Error) : Prop :=
  e = .io .unwritableOutput target.toString ∨ e = .fault .isADirectory ∨ e = .fault .notADirectory

theorem temporary_ne (n : String) : n ++ ".tmp" ≠ ".." ∧ n ++ ".tmp" ≠ n := by
  constructor <;> intro h
  · have := congrArg String.length h
    rw [String.length_append] at this
    have h4 : (".tmp" : String).length = 4 := rfl
    have h2 : (".." : String).length = 2 := rfl
    omega
  · have := congrArg String.length h
    rw [String.length_append] at this
    have h4 : (".tmp" : String).length = 4 := rfl
    omega

/-- **A file is swapped for another one** in one step, or only the temporary file has changed. -/
theorem swap_cases {dir : Path} {n : String} {c : List UInt8} {d d' : Disk}
    {r : Except DiskProblem Unit} (hn : n ≠ "..")
    (h : Runs (do
      Disk.makeDirs dir
      Disk.write (dir.child (n ++ ".tmp")) c
      Disk.rename (dir.child (n ++ ".tmp")) (dir.child n)) d r d') :
    (r = .ok () ∧ d'.read (dir.child n) = .ok c ∧
      Disk.Alters (fun l => AtTemporary d (dir.child n) l ∨ l = d.placeOf (dir.child n)) d d') ∨
    (∃ e, r = .error e) ∧ Disk.Alters (AtTemporary d (dir.child n)) d d' := by
  obtain ⟨htmp, hne⟩ := temporary_ne n
  rcases runs_bind.mp h with ⟨_, d₁, hdirs, h⟩ | ⟨e, hdirs, rfl⟩
  · have hd₁ := Disk.alters_makeDirs hdirs
    rcases runs_bind.mp h with ⟨_, d₂, hwrite, h⟩ | ⟨e, hwrite, rfl⟩
    · rcases Disk.write_cases hwrite with ⟨-, l, hl, hfree, rfl⟩ | ⟨⟨e, he⟩, -⟩
      · -- the temporary file stands in the directory of the target
        obtain ⟨m, hm, hdir, rfl⟩ := (Disk.locate_child htmp).mp hl
        have htemporary : d.placeOf (temporary (dir.child n)) = m ++ [n ++ ".tmp"] := by
          rw [temporary_child, ← hd₁.placeOf, Disk.placeOf_of_locate hl]
        have htarget : d.placeOf (dir.child n) = m ++ [n] := by
          rw [← hd₁.placeOf, Disk.placeOf_of_locate ((Disk.locate_child hn).mpr ⟨m, hm, hdir, rfl⟩)]
        have hd₂ := Disk.alters_put_file (c := c) hfree
        have hd : Disk.Alters (AtTemporary d (dir.child n)) d
            { d₁ with tree := d₁.tree.put (m ++ [n ++ ".tmp"]) (.file c) } := by
          refine (hd₁.mono fun _ => False.elim).trans (hd₂.mono fun l hl => ?_)
          exact ⟨[], by rw [htemporary, hl, List.append_nil]⟩
        rcases Disk.rename_child_cases htmp hn hne (hd₂.locate hm) (hd₂.dirs m hdir)
          (Disk.fileAt_put hdir) h with ⟨rfl, hread, hmove⟩ | ⟨he, rfl⟩
        · refine .inl ⟨rfl, hread, (hd.mono fun _ => .inl).trans (hmove.mono fun l hl => ?_)⟩
          rw [AtTemporary, htemporary, htarget]
          exact hl
        · exact .inr ⟨he, hd⟩
      · cases he
    · rcases Disk.write_cases hwrite with ⟨he, -⟩ | ⟨-, rfl⟩
      · cases he
      · exact .inr ⟨⟨e, rfl⟩, hd₁.mono fun _ => False.elim⟩
  · exact .inr ⟨⟨e, rfl⟩, (Disk.alters_makeDirs hdirs).mono fun _ => False.elim⟩

theorem runs_onDisk_bind {α : Type} {a : Disk.Action Unit}
    {f : Except DiskProblem Unit → Action α} {o o' : Output} {r : Except Error α} :
    Runs (onDisk a >>= f) o r o' ↔
      ∃ q d, Runs a o.disk q d ∧ Runs (f q) { o with disk := d } r o' := by
  rcases h : a.run.run o.disk with ⟨q, d⟩
  simp only [runs_iff_of_run h]
  have hb : (onDisk a).run.run o = (.ok q, { o with disk := d }) := by
    have hrun : (onDisk a).run.run o =
        (.ok (a.run.run o.disk).1, { o with disk := (a.run.run o.disk).2 }) := rfl
    rw [hrun, h]
  rw [runs_bind_of_ok hb]
  constructor
  · intro hr
    exact ⟨q, d, ⟨rfl, rfl⟩, hr⟩
  · rintro ⟨_, _, ⟨rfl, rfl⟩, hr⟩
    exact hr

/-- The error that a failure ends in, by how the temporary file was removed. -/
def failure (target : Path) : Except DiskProblem Unit → Error
  | .ok _ => .io .unwritableOutput target.toString
  | .error e => .fault (faultOf e)

/-- **The steps of putting a content in place of a file.** -/
theorem runs_replace {target : Path} {c : List UInt8} {o o' : Output} {r : Except Error Unit}
    (hname : target.name ≠ "") (h : Runs (replace target c) o r o') :
    ∃ q d, Runs (do
        Disk.makeDirs target.parent
        Disk.write (temporary target) c
        Disk.rename (temporary target) target) o.disk q d ∧
      ((q = .ok () ∧ r = .ok () ∧ o' = { o with disk := d }) ∨
        (∃ e, q = .error e) ∧ ∃ q' d', Runs (Disk.unlink (temporary target)) d q' d' ∧
          r = .error (failure target q') ∧ o' = { o with disk := d' }) := by
  unfold replace at h
  rw [if_neg hname] at h
  obtain ⟨q, d, hswap, h⟩ := runs_onDisk_bind.mp h
  refine ⟨q, d, hswap, ?_⟩
  cases q with
  | ok u => exact .inl ⟨rfl, runs_pure.mp h⟩
  | error e =>
    obtain ⟨q', d', hunlink, h⟩ := runs_onDisk_bind.mp h
    refine .inr ⟨⟨e, rfl⟩, q', d', hunlink, ?_⟩
    cases q' with
    | ok u => exact runs_throw.mp h
    | error e' => exact runs_throw.mp h

theorem isWriteError_failure {target : Path} {q : Except DiskProblem Unit} :
    IsWriteError target (failure target q) := by
  cases q with
  | ok u => exact .inl rfl
  | error e =>
    cases e with
    | isADirectory => exact .inr (.inl rfl)
    | _ => exact .inr (.inr rfl)

/-- **A content is put in place of a file**, or all files but the temporary one are as before. -/
theorem replace_cases {dir : Path} {n : String} {c : List UInt8} {o o' : Output}
    {r : Except Error Unit} (hempty : n ≠ "") (hn : n ≠ "..")
    (h : Runs (replace (dir.child n) c) o r o') :
    ∃ d, o' = { o with disk := d } ∧
      ((r = .ok () ∧ d.read (dir.child n) = .ok c ∧ Disk.Alters (fun l =>
          AtTemporary o.disk (dir.child n) l ∨ l = o.disk.placeOf (dir.child n)) o.disk d) ∨
        (∃ e, r = .error e ∧ IsWriteError (dir.child n) e) ∧
          Disk.Alters (AtTemporary o.disk (dir.child n)) o.disk d) := by
  obtain ⟨q, d, hswap, hend⟩ := runs_replace (name_child ▸ hempty) h
  rw [parent_child, temporary_child] at hswap
  rcases swap_cases hn hswap with ⟨rfl, hread, hd⟩ | ⟨⟨e, rfl⟩, hd⟩
  · obtain ⟨-, rfl, rfl⟩ | ⟨⟨e, he⟩, -⟩ := hend
    · exact ⟨d, rfl, .inl ⟨rfl, hread, hd⟩⟩
    · cases he
  · obtain ⟨he, -⟩ | ⟨-, q', d', hunlink, rfl, rfl⟩ := hend
    · cases he
    · have hd' : Disk.Alters (AtTemporary o.disk (dir.child n)) d d' := by
        refine (Disk.alters_unlink hunlink).mono fun l hl => ?_
        rw [AtTemporary, ← hd.placeOf]
        exact hl
      exact ⟨d', rfl, .inr ⟨⟨_, rfl, isWriteError_failure⟩, hd.trans hd'⟩⟩

/-- **The steps of writing a file**: it has the content already, or that is put in its place. -/
theorem runs_write {path : Path} {text : String} {sources : List Path} {o o' : Output}
    {r : Except Error Status} (h : Runs (write path text sources) o r o') :
    (o.disk.read (o.root / path) = .ok (Utf8.encodeString text) ∧ r = .ok .unchanged ∧
        ∃ statuses,
          o' = { o with sources := setEntry o.sources (o.root / path) sources, statuses }) ∨
      o.disk.read (o.root / path) ≠ .ok (Utf8.encodeString text) ∧
        ∃ q o₁ statuses, Runs (replace (o.root / path) (Utf8.encodeString text))
            { o with sources := setEntry o.sources (o.root / path) sources } q o₁ ∧
          r = q.map (fun _ => .written) ∧ o' = { o₁ with statuses } := by
  unfold write at h
  simp only [runs_get_bind, runs_modify_bind] at h
  generalize hsame : ((o.disk.find? (o.root / path)).bind FileTree.content? ==
    some (Utf8.encodeString text)) = same at h
  cases same with
  | true =>
    simp only [Bool.not_true, Bool.false_eq_true, if_false, runs_modify_bind] at h
    obtain ⟨rfl, rfl⟩ := runs_pure.mp h
    exact .inl ⟨Disk.find?_eq_read.mp (beq_iff_eq.mp hsame), rfl, _, rfl⟩
  | false =>
    have hnew := mt Disk.find?_eq_read.mpr (beq_eq_false_iff_ne.mp hsame)
    simp only [Bool.not_false, if_true] at h
    rcases runs_bind.mp h with ⟨u, o₁, hreplace, h⟩ | ⟨e, hreplace, rfl⟩
    · rw [runs_modify_bind] at h
      obtain ⟨rfl, rfl⟩ := runs_pure.mp h
      exact .inr ⟨hnew, .ok u, o₁, _, hreplace, rfl, rfl⟩
    · exact .inr ⟨hnew, .error e, o', _, hreplace, rfl, rfl⟩

/-- **A file is written**, unless it has the content already; if that fails, all files but the
temporary one are as before. -/
theorem write_cases {path : Path} {text : String} {sources : List Path} {o o' : Output}
    {r : Except Error Status} (hempty : (o.root / path).name ≠ "")
    (hn : (o.root / path).name ≠ "..") (h : Runs (write path text sources) o r o') :
    o'.root = o.root ∧
      (((∃ status, r = .ok status) ∧
          o'.disk.read (o.root / path) = .ok (Utf8.encodeString text) ∧ Disk.Alters (fun l =>
            AtTemporary o.disk (o.root / path) l ∨ l = o.disk.placeOf (o.root / path)) o.disk
              o'.disk) ∨
        (∃ e, r = .error e ∧ IsWriteError (o.root / path) e) ∧
          Disk.Alters (AtTemporary o.disk (o.root / path)) o.disk o'.disk) := by
  obtain ⟨hsame, rfl, statuses, rfl⟩ | ⟨-, q, o₁, statuses, hreplace, rfl, rfl⟩ := runs_write h
  · exact ⟨rfl, .inl ⟨⟨_, rfl⟩, hsame, .refl⟩⟩
  · rw [eq_child hempty] at hreplace ⊢
    obtain ⟨d, rfl, ⟨rfl, hread, hd⟩ | ⟨⟨e, rfl, hwrite⟩, hd⟩⟩ := replace_cases hempty hn hreplace
    · exact ⟨rfl, .inl ⟨⟨_, rfl⟩, hread, hd⟩⟩
    · exact ⟨rfl, .inr ⟨⟨e, rfl, hwrite⟩, hd⟩⟩

end Output

/-! ## All files -/

namespace Build

open Output
open Package (File)

/-- **Two files do not get into each other's way.** -/
structure Apart (output : Path) (d : Disk) (f g : File) : Prop where
  place : d.placeOf (output / f.path) ≠ d.placeOf (output / g.path)
  left : ¬ AtTemporary d (output / f.path) (d.placeOf (output / g.path))
  right : ¬ AtTemporary d (output / g.path) (d.placeOf (output / f.path))

/-- **How far files were written**: the ones that are done hold their texts, and no file has changed
but these and what stands at a temporary place of one that was tried. -/
structure Written (output : Path) (done tried : List File) (d d' : Disk) : Prop where
  texts : ∀ g ∈ done, d'.read (output / g.path) = .ok (Utf8.encodeString g.text)
  others : d.Alters (fun l => (∃ g ∈ done, l = d.placeOf (output / g.path)) ∨
    ∃ g ∈ tried, AtTemporary d (output / g.path) l) d'

variable {output : Path} {f : File} {done tried : List File} {d d₁ d' : Disk}

theorem Apart.of_alters {touched : List String → Prop} {g : File} (h : Apart output d f g)
    (hd : d.Alters touched d₁) : Apart output d₁ f g := by
  constructor <;> simp only [AtTemporary, hd.placeOf]
  · exact h.place
  · exact h.left
  · exact h.right

theorem Written.nil : Written output [] [] d d :=
  ⟨fun _ h => (by cases h), .refl⟩

/-- Nothing is done if the first file cannot be written. -/
theorem Written.failed (h : d.Alters (AtTemporary d (output / f.path)) d') :
    Written output [] [f] d d' :=
  ⟨fun _ h => (by cases h), h.mono fun _ hl => .inr ⟨f, List.mem_singleton_self f, hl⟩⟩

/-- **One more file is written before others.** -/
theorem Written.cons (hread : d₁.read (output / f.path) = .ok (Utf8.encodeString f.text))
    (hd : d.Alters (fun l =>
      AtTemporary d (output / f.path) l ∨ l = d.placeOf (output / f.path)) d₁)
    (h : Written output done tried d₁ d') (hdone : ∀ g ∈ done, Apart output d f g)
    (htried : ∀ g ∈ tried, Apart output d f g) :
    Written output (f :: done) (f :: tried) d d' where
  texts g hg := by
    rcases List.mem_cons.mp hg with rfl | hg
    · refine h.others.read hread ?_
      rintro (⟨g', hg', heq⟩ | ⟨g', hg', htemporary⟩)
      · exact ((hdone g' hg').of_alters hd).place heq
      · exact ((htried g' hg').of_alters hd).right htemporary
    · exact h.texts g hg
  others := by
    refine (hd.mono fun l hl => ?_).trans (h.others.mono fun l hl => ?_)
    · rcases hl with hl | hl
      · exact .inr ⟨f, List.mem_cons_self, hl⟩
      · exact .inl ⟨f, List.mem_cons_self, hl⟩
    · simp only [AtTemporary, hd.placeOf] at hl
      rcases hl with ⟨g, hg, hl⟩ | ⟨g, hg, hl⟩
      · exact .inl ⟨g, List.mem_cons_of_mem _ hg, hl⟩
      · exact .inr ⟨g, List.mem_cons_of_mem _ hg, hl⟩

/-- The writing of files one by one. -/
def writeAll (output : Path) (files : List File) : Output.Action (List BuiltFile) :=
  files.mapM fun f => do
    return ⟨output / f.path, ← write f.path f.text f.sources, f.sources⟩

theorem writeAll_cons (output : Path) (f : File) (files : List File) :
    writeAll output (f :: files) = (do
      let status ← write f.path f.text f.sources
      let built ← writeAll output files
      return ⟨output / f.path, status, f.sources⟩ :: built) := by
  rw [writeAll, List.mapM_cons, bind_assoc]
  simp only [pure_bind]
  rfl

/-- **Files are written one by one**: all of them, or those before the first one that cannot be
written. -/
theorem writeAll_cases {files : List File} {o o' : Output} {r : Except Error (List BuiltFile)}
    (hroot : o.root = output)
    (hname : ∀ f ∈ files, (output / f.path).name ≠ "" ∧ (output / f.path).name ≠ "..")
    (hapart : files.Pairwise (Apart output o.disk))
    (h : Runs (writeAll output files) o r o') :
    (∃ built, r = .ok built ∧ built.map BuiltFile.path = files.map (output / ·.path) ∧
      Written output files files o.disk o'.disk) ∨
    ∃ done f rest e, files = done ++ f :: rest ∧ r = .error e ∧
      IsWriteError (output / f.path) e ∧ Written output done (done ++ [f]) o.disk o'.disk := by
  induction files generalizing o r with
  | nil =>
    rw [writeAll, List.mapM_nil] at h
    obtain ⟨rfl, rfl⟩ := runs_pure.mp h
    exact .inl ⟨[], rfl, rfl, .nil⟩
  | cons f files ih =>
    obtain ⟨hempty, hdots⟩ := hname f List.mem_cons_self
    obtain ⟨hf, hfiles⟩ := List.pairwise_cons.mp hapart
    rw [writeAll_cons] at h
    subst hroot
    rcases runs_bind.mp h with ⟨status, o₁, hwrite, h⟩ | ⟨e, hwrite, rfl⟩
    · obtain ⟨hroot₁, ⟨-, hread, hd⟩ | ⟨⟨e, he, -⟩, -⟩⟩ := write_cases hempty hdots hwrite
      · have hname' := fun g hg => hname g (List.mem_cons_of_mem _ hg)
        have hfiles' := hfiles.imp fun ha => ha.of_alters hd
        rcases runs_bind.mp h with ⟨built, o₂, hrest, h⟩ | ⟨e, hrest, rfl⟩
        · obtain ⟨rfl, rfl⟩ := runs_pure.mp h
          rcases ih hroot₁ hname' hfiles' hrest with ⟨_, hok, hbuilt, hw⟩ | ⟨_, _, _, _, _, hok, -⟩
          · cases hok
            refine .inl ⟨_, rfl, ?_, .cons hread hd hw hf hf⟩
            rw [List.map_cons, hbuilt, List.map_cons]
          · cases hok
        · rcases ih hroot₁ hname' hfiles' hrest with
            ⟨_, hok, -⟩ | ⟨done, g, rest, e', rfl, he, herror, hw⟩
          · cases hok
          · cases he
            refine .inr ⟨f :: done, g, rest, e, rfl, rfl, herror, .cons hread hd hw ?_ ?_⟩
            · exact fun g hg => hf g (List.mem_append_left _ hg)
            · intro g' hg'
              rcases List.mem_append.mp hg' with hg' | hg'
              · exact hf g' (List.mem_append_left _ hg')
              · cases List.mem_singleton.mp hg'
                exact hf g (List.mem_append_right _ List.mem_cons_self)
      · cases he
    · obtain ⟨-, ⟨⟨_, he⟩, -⟩ | ⟨⟨e', he, herror⟩, hd⟩⟩ := write_cases hempty hdots hwrite
      · cases he
      · cases he
        exact .inr ⟨[], f, files, e, rfl, rfl, herror, .failed hd⟩

end Build

end Stencil
