import Stencil.Disk.Walk
import Stencil.Proofs.Sorting
import Stencil.Proofs.WriteFiles

/-!
# What writing in one directory leaves of the trees elsewhere

A path may lead through other directories on its way, so making the directories of a path can add
empty ones anywhere on the disk. A walk gives files only; no walk tells such a tree from what it
was.

* `FileTree.SameFiles`: no walk tells two trees apart.
* `FileTree.sameFiles_put_dir`, `FileTree.sameFiles_put_file`: a tree in which one more empty
  directory stands, or in which a file has another content.
* `Disk.Separate`, `Disk.Keeps`: a change in one directory keeps the trees separate from it.
* **`Build.keeps_writeAll`**: writing the files of a directory does.
-/

namespace Stencil

/-! ## Trees that no walk tells apart -/

namespace FileTree

/-- **No walk tells the trees apart**, and if one of them is a file, the other one is the same. -/
def SameFiles (t u : FileTree) : Prop :=
  u.content? = t.content? ∧
    ∀ excluded place, u.walkFrom excluded place = t.walkFrom excluded place

/-- The names of the files among entries, without the hidden ones and those that are left out. -/
def fileNames (excluded : String → Bool) (es : List (String × FileTree)) : List String :=
  (es.filter fun e => !(e.2.isDir || isHidden e.1 || excluded e.1)).map Prod.fst

/-- The directories of a walk that give a file. -/
def walkedEntries (excluded : String → Bool) (place : List String)
    (es : List (String × FileTree)) : List (String × List (List String)) :=
  (walkEntries excluded place es).filter (!·.2.isEmpty)

section Walk

variable {excluded : String → Bool} {place : List String} {n : String} {t u : FileTree}
  {es es' : List (String × FileTree)}

theorem isDir_eq (t : FileTree) : t.isDir = t.content?.isNone := by
  cases t <;> rfl

/-- **A walk through a directory** in terms of the files and directories that it gives. -/
theorem walkFrom_dir :
    (dir es).walkFrom excluded place =
      (sortTexts (fileNames (fun n => excluded (placeText (place ++ [n]))) es)).map
          (fun n => place ++ [n]) ++
        (sortEntries (walkedEntries excluded place es)).flatMap Prod.snd := by
  have hfiles (l : List (String × FileTree)) (p : String × FileTree → Bool) :
      l.filterMap (fun e => if p e then none else some (place ++ [e.1])) =
        ((l.filter (!p ·)).map Prod.fst).map (fun n => place ++ [n]) := by
    induction l with
    | nil => rfl
    | cons e l ih => cases h : p e <;> simp [h, ih]
  have hdirs (l : List (String × List (List String))) :
      (l.filter (!·.2.isEmpty)).flatMap Prod.snd = l.flatMap Prod.snd := by
    induction l with
    | nil => rfl
    | cons e l ih =>
      obtain ⟨n, r⟩ := e
      cases r <;> simp [ih]
  rw [walkFrom, sortTexts, fileNames, walkedEntries, sortEntries, sortEntries, sortEntries,
    ← map_sortBy, ← filter_sortBy (sortsBy_textLe Prod.fst),
    ← filter_sortBy (sortsBy_textLe Prod.fst), hdirs]
  exact congrArg (· ++ _) (hfiles _ _)

/-- **Entries that no walk tells apart.** -/
def SameEntries (es es' : List (String × FileTree)) : Prop :=
  (∀ excluded, fileNames excluded es' = fileNames excluded es) ∧
    ∀ excluded place, walkedEntries excluded place es' = walkedEntries excluded place es

theorem SameFiles.refl (t : FileTree) : t.SameFiles t := ⟨rfl, fun _ _ => rfl⟩

theorem SameFiles.trans {v : FileTree} (h : t.SameFiles u) (h' : u.SameFiles v) : t.SameFiles v :=
  ⟨h'.1.trans h.1, fun excluded place => (h'.2 excluded place).trans (h.2 excluded place)⟩

theorem SameEntries.refl (es : List (String × FileTree)) : SameEntries es es :=
  ⟨fun _ => rfl, fun _ _ => rfl⟩

/-- Of a file among entries no walk shows the content. -/
theorem SameEntries.cons_of_walk (hdir : u.isDir = t.isDir)
    (hwalk : ∀ excluded place, u.walkFrom excluded place = t.walkFrom excluded place)
    (hes : SameEntries es es') : SameEntries ((n, t) :: es) ((n, u) :: es') := by
  constructor
  · intro excluded
    have hrest := hes.1 excluded
    unfold fileNames at hrest ⊢
    rw [List.filter_cons, List.filter_cons, hdir]
    split
    · rw [List.map_cons, List.map_cons, hrest]
    · exact hrest
  · intro excluded place
    have hrest := hes.2 excluded place
    unfold walkedEntries at hrest ⊢
    rw [walkEntries, walkEntries]
    split
    · exact hrest
    · rw [hwalk, List.filter_cons, List.filter_cons, hrest]

theorem SameEntries.cons (h : t.SameFiles u) (hes : SameEntries es es') :
    SameEntries ((n, t) :: es) ((n, u) :: es') :=
  .cons_of_walk (by rw [isDir_eq, isDir_eq, h.1]) h.2 hes

/-- An empty directory adds nothing to a walk. -/
theorem sameEntries_new (n : String) : SameEntries [] [(n, dir [])] := by
  constructor
  · intro excluded
    rfl
  · intro excluded place
    simp only [walkedEntries, walkEntries]
    split <;> rfl

theorem SameEntries.dir (h : SameEntries es es') : (dir es).SameFiles (.dir es') :=
  ⟨rfl, fun excluded place => by rw [walkFrom_dir, walkFrom_dir, h.1, h.2]⟩

/-- **A tree in which one more empty directory stands.** -/
theorem sameFiles_put_dir {l : List String} (h : t.get? l = none) :
    t.SameFiles (t.put l (dir [])) := by
  induction l generalizing t with
  | nil =>
    rw [get?_nil] at h
    cases h
  | cons n ns ih =>
    cases t with
    | file c => exact .refl _
    | dir es =>
      refine SameEntries.dir ?_
      rw [get?_cons, entries] at h
      induction es with
      | nil =>
        cases ns with
        | nil => exact sameEntries_new n
        | cons m ns => exact .refl _
      | cons e es ih' =>
        obtain ⟨m, u⟩ := e
        by_cases hm : m = n
        · subst hm
          rw [List.lookup_cons_self, Option.bind_some] at h
          rw [alterEntry, if_pos rfl, alter_put]
          exact .cons (ih h) (.refl es)
        · rw [List.lookup_cons, beq_eq_false_iff_ne.mpr (Ne.symm hm)] at h
          rw [alterEntry, if_neg hm]
          exact .cons (.refl u) (ih' h)

/-- **A tree with another content in one of its files.** -/
theorem sameFiles_put_file {l : List String} {c : List UInt8} (hl : l ≠ [])
    (h : t.get? l = some (file c)) (c' : List UInt8) : t.SameFiles (t.put l (file c')) := by
  induction l generalizing t with
  | nil => exact absurd rfl hl
  | cons n ns ih =>
    cases t with
    | file c => cases (get?_file (List.cons_ne_nil n ns)).symm.trans h
    | dir es =>
      refine SameEntries.dir ?_
      rw [get?_cons, entries] at h
      induction es with
      | nil => cases h
      | cons e es ih' =>
        obtain ⟨m, u⟩ := e
        by_cases hm : m = n
        · subst hm
          rw [List.lookup_cons_self, Option.bind_some] at h
          rw [alterEntry, if_pos rfl, alter_put]
          cases ns with
          | nil =>
            cases h
            exact .cons_of_walk rfl (fun _ _ => by rw [put, alter, walkFrom]; rfl) (.refl es)
          | cons n' ns => exact .cons (ih (List.cons_ne_nil _ _) h) (.refl es)
        · rw [List.lookup_cons, beq_eq_false_iff_ne.mpr (Ne.symm hm)] at h
          rw [alterEntry, if_neg hm]
          exact .cons (.refl u) (ih' h)

end Walk

end FileTree

/-! ## Trees that are kept -/

namespace Disk

/-- **Neither place lies below the other one**, and they are not the same. -/
def Separate (a b : List String) : Prop := ¬ a <+: b ∧ ¬ b <+: a

instance (a b : List String) : Decidable (Separate a b) :=
  inferInstanceAs (Decidable (¬ a <+: b ∧ ¬ b <+: a))

theorem Separate.symm {a b : List String} (h : Separate a b) : Separate b a := ⟨h.2, h.1⟩

/-- What lies below one of two separate places is separate from the other one. -/
theorem Separate.append_right {a b : List String} (h : Separate a b) (l : List String) :
    Separate a (b ++ l) := by
  constructor
  · intro hp
    rcases List.prefix_or_prefix_of_prefix hp (List.prefix_append b l) with hp | hp
    · exact h.1 hp
    · exact h.2 hp
  · exact fun hp => h.2 ((List.prefix_append b l).trans hp)

/-- **A change inside of one directory** keeps the trees at all places that are separate from it. -/
structure Keeps (inside : List String) (d d' : Disk) : Prop where
  current : d'.current = d.current
  trees : ∀ place t, Separate inside place → d.tree.get? place = some t →
    ∃ u, d'.tree.get? place = some u ∧ t.SameFiles u

variable {inside : List String} {d d' d'' : Disk}

theorem Keeps.refl : Keeps inside d d := ⟨rfl, fun _ t _ h => ⟨t, h, .refl t⟩⟩

theorem Keeps.trans (h : Keeps inside d d') (h' : Keeps inside d' d'') : Keeps inside d d'' where
  current := h'.current.trans h.current
  trees place t hplace ht := by
    obtain ⟨u, hu, htu⟩ := h.trees place t hplace ht
    obtain ⟨v, hv, huv⟩ := h'.trees place u hplace hu
    exact ⟨v, hv, htu.trans huv⟩

theorem Keeps.placeOf (h : Keeps inside d d') (p : Path) : d'.placeOf p = d.placeOf p := by
  rw [Disk.placeOf, Disk.placeOf, h.current]

/-- A change at a place inside of the directory. -/
theorem keeps_alter {place : List String} {change : Option FileTree → Option FileTree}
    (h : inside <+: place) :
    Keeps inside d { d with tree := (FileTree.alter change place (some d.tree)).getD d.tree } where
  current := rfl
  trees l t hl ht := by
    have hplace := (hl.append_right []).1
    rw [List.append_nil] at hplace
    refine ⟨t, ?_, .refl t⟩
    rw [FileTree.get?_alter_of_not_prefix ?_ ?_]
    · exact ht
    · exact fun hp => hplace (h.trans hp)
    · intro hp
      rcases List.prefix_or_prefix_of_prefix h hp with hp | hp
      · exact hl.1 hp
      · exact hl.2 hp

/-- A new directory is empty, so it may stand anywhere. -/
theorem keeps_put_dir {place : List String} (h : d.tree.get? place = none) :
    Keeps inside d { d with tree := d.tree.put place (.dir []) } where
  current := rfl
  trees l t _ ht := by
    by_cases hbelow : l <+: place
    · obtain ⟨r, rfl⟩ := hbelow
      rw [FileTree.get?_append, ht, Option.bind_some] at h
      exact ⟨_, FileTree.get?_put_append ht, FileTree.sameFiles_put_dir h⟩
    · refine ⟨t, (FileTree.get?_alter_of_not_prefix ?_ hbelow).trans ht, .refl t⟩
      rintro ⟨r, rfl⟩
      rw [FileTree.get?_append, h] at ht
      cases ht

theorem keeps_makeDirs {p : Path} {r : Except DiskProblem Unit} (h : Runs (makeDirs p) d r d') :
    Keeps inside d d' :=
  makeDirs_induction (fun _ => .refl) (fun _ _ _ => .trans) (fun _ _ => keeps_put_dir) h

theorem keeps_write {p : Path} {c : List UInt8} {r : Except DiskProblem Unit}
    (hp : inside <+: d.placeOf p) (h : Runs (write p c) d r d') : Keeps inside d d' := by
  rcases write_cases h with ⟨-, l, hl, -, rfl⟩ | ⟨-, rfl⟩
  · exact keeps_alter (placeOf_of_locate hl ▸ hp)
  · exact .refl

theorem keeps_rename {source target : Path} {r : Except DiskProblem Unit}
    (hsource : inside <+: d.placeOf source) (htarget : inside <+: d.placeOf target)
    (h : Runs (rename source target) d r d') : Keeps inside d d' := by
  rcases rename_cases h with ⟨-, s, t, c, hs, ht, -, -, rfl⟩ | ⟨-, rfl⟩
  · have hremove : Keeps inside d { d with tree := d.tree.remove s } :=
      keeps_alter (placeOf_of_locate hs ▸ hsource)
    exact hremove.trans (keeps_alter (placeOf_of_locate ht ▸ htarget))
  · exact .refl

end Disk

/-! ## Writing files -/

namespace Output

variable {inside : List String} {o o' : Output}

/-- **A content is put in place of a file** inside of a directory; only the disk changes. -/
theorem keeps_replace {target : Path} {c : List UInt8} (hname : target.name ≠ "")
    (htarget : inside <+: o.disk.placeOf target)
    (htemporary : inside <+: o.disk.placeOf (temporary target))
    (h : Runs (replace target c) o (.ok ()) o') :
    o' = { o with disk := o'.disk } ∧ Disk.Keeps inside o.disk o'.disk := by
  obtain ⟨q, d, hswap, ⟨rfl, -, rfl⟩ | ⟨-, q', d', -, hfail, -⟩⟩ := runs_replace hname h
  · refine ⟨rfl, ?_⟩
    obtain ⟨_, d₁, hdirs, hswap⟩ | ⟨e, -, he⟩ := runs_bind.mp hswap
    · have hd₁ : Disk.Keeps inside o.disk d₁ := Disk.keeps_makeDirs hdirs
      rw [← hd₁.placeOf] at htarget htemporary
      obtain ⟨_, d₂, hwrite, hrename⟩ | ⟨e, -, he⟩ := runs_bind.mp hswap
      · have hd₂ := Disk.keeps_write htemporary hwrite
        rw [← hd₂.placeOf] at htarget htemporary
        exact hd₁.trans (hd₂.trans (Disk.keeps_rename htemporary htarget hrename))
      · cases he
    · cases he
  · cases hfail

/-- **A file is written** inside of a directory; what it was made from is noted. -/
theorem keeps_write {path : Path} {text : String} {sources : List Path} {status : Status}
    (hname : (o.root / path).name ≠ "") (htarget : inside <+: o.disk.placeOf (o.root / path))
    (htemporary : inside <+: o.disk.placeOf (temporary (o.root / path)))
    (h : Runs (write path text sources) o (.ok status) o') :
    o'.root = o.root ∧ o'.sources = setEntry o.sources (o.root / path) sources ∧
      Disk.Keeps inside o.disk o'.disk := by
  obtain ⟨-, -, statuses, rfl⟩ | ⟨-, q, o₁, statuses, hreplace, hq, rfl⟩ := runs_write h
  · exact ⟨rfl, rfl, .refl⟩
  · cases q with
    | ok u =>
      obtain ⟨ho₁, hd⟩ := keeps_replace hname (by exact htarget) (by exact htemporary) hreplace
      rw [ho₁]
      exact ⟨rfl, rfl, hd⟩
    | error e => cases hq

/-- **A file that has its content already** is left as it is. -/
theorem runs_write_unchanged {path : Path} {text : String} (sources : List Path)
    (h : o.disk.read (o.root / path) = .ok (Utf8.encodeString text)) :
    Runs (write path text sources) o (.ok .unchanged)
      { o with sources := setEntry o.sources (o.root / path) sources,
               statuses := setEntry o.statuses (o.root / path) .unchanged } := by
  have hsame : ((o.disk.find? (o.root / path)).bind FileTree.content? ==
      some (Utf8.encodeString text)) = true := beq_iff_eq.mpr (Disk.find?_eq_read.mpr h)
  unfold write
  simp only [runs_get_bind, runs_modify_bind, hsame, Bool.not_true, Bool.false_eq_true, if_false,
    if_true]
  exact runs_pure.mpr ⟨rfl, rfl⟩

end Output

namespace Build

open Output
open Package (File)

variable {inside : List String} {files : List File} {o o' : Output}

/-- What is noted of files that are written one by one. -/
def noted (root : Path) (files : List File) (sources : List (Path × List Path)) :
    List (Path × List Path) :=
  files.foldl (fun l f => setEntry l (root / f.path) f.sources) sources

/-- **Files are written one by one** inside of a directory. -/
theorem keeps_writeAll {built : List BuiltFile} (hname : ∀ f ∈ files, (o.root / f.path).name ≠ "")
    (hinside : ∀ f ∈ files, inside <+: o.disk.placeOf (o.root / f.path) ∧
      inside <+: o.disk.placeOf (temporary (o.root / f.path)))
    (h : Runs (writeAll o.root files) o (.ok built) o') :
    o'.sources = noted o.root files o.sources ∧ Disk.Keeps inside o.disk o'.disk ∧
      built.map (fun b => (b.path, b.sources)) =
        files.map fun f => (o.root / f.path, f.sources) := by
  generalize hroot : o.root = root at h hname hinside ⊢
  induction files generalizing o built with
  | nil =>
    rw [writeAll, List.mapM_nil] at h
    obtain ⟨hok, rfl⟩ := runs_pure.mp h
    cases hok
    exact ⟨rfl, .refl, rfl⟩
  | cons f files ih =>
    rw [writeAll_cons] at h
    subst hroot
    obtain ⟨htarget, htemporary⟩ := hinside f List.mem_cons_self
    rcases runs_bind.mp h with ⟨status, o₁, hwrite, h⟩ | ⟨e, -, he⟩
    · obtain ⟨hroot, hsources, hd⟩ :=
        keeps_write (hname f List.mem_cons_self) htarget htemporary hwrite
      rcases runs_bind.mp h with ⟨rest, o₂, hrest, h⟩ | ⟨e, -, he⟩
      · obtain ⟨hok, rfl⟩ := runs_pure.mp h
        cases hok
        obtain ⟨hsources', hd', hbuilt⟩ := ih hroot hrest
          (fun g hg => hname g (List.mem_cons_of_mem _ hg)) fun g hg => by
            rw [hd.placeOf, hd.placeOf]
            exact hinside g (List.mem_cons_of_mem _ hg)
        refine ⟨?_, hd.trans hd', ?_⟩
        · rw [hsources', hsources]
          rfl
        · rw [List.map_cons, hbuilt, List.map_cons]
      · cases he
    · cases he

/-- **Files that have their contents already** are left as they are. -/
theorem runs_writeAll_unchanged
    (h : ∀ f ∈ files, o.disk.read (o.root / f.path) = .ok (Utf8.encodeString f.text)) :
    ∃ o', Runs (writeAll o.root files) o
      (.ok (files.map fun f => ⟨o.root / f.path, .unchanged, f.sources⟩)) o' ∧
      o'.disk = o.disk ∧ o'.sources = noted o.root files o.sources := by
  generalize hroot : o.root = root at h ⊢
  induction files generalizing o with
  | nil => exact ⟨o, runs_pure.mpr ⟨rfl, rfl⟩, rfl, rfl⟩
  | cons f files ih =>
    subst hroot
    have hwrite := runs_write_unchanged f.sources (h f List.mem_cons_self)
    obtain ⟨o', hrest, hdisk, hsources⟩ := ih (o := { o with
      sources := setEntry o.sources (o.root / f.path) f.sources,
      statuses := setEntry o.statuses (o.root / f.path) .unchanged }) rfl
      fun g hg => h g (List.mem_cons_of_mem _ hg)
    refine ⟨o', ?_, hdisk, hsources⟩
    rw [writeAll_cons, runs_bind_of_ok hwrite, runs_bind_of_ok hrest]
    exact runs_pure.mpr ⟨rfl, rfl⟩

end Build

end Stencil
