import Stencil.Build.Project
import Stencil.Proofs.AllOrNothing
import Stencil.Proofs.KeptTrees
import Stencil.Proofs.StaticSources

/-!
# Reading again

A change of the disk inside of one directory leaves what a build reads elsewhere: the walks through
directories, the contents of files, and so the templates and the index of static files.

* `FileTree.not_mem_of_mem_walkFrom`: no walk leads upwards.
* `Disk.Shows`: a disk shows what another one does; `Disk.read_again`, `Disk.places_again`: it is
  read alike.
* `Config.inputs`: the paths at which a build reads.
* **`Build.collect_of_shows`**: the static files, where all that is read of them is shown.
* **`Build.readTemplates_again`**, **`Build.collect_again`**: what was read once is read again.
-/

namespace Stencil

/-! ## Walks -/

namespace FileTree

variable {excluded : String → Bool}

theorem ne_dots_of_not_isHidden {n : String} (h : isHidden n = false) : ".." ≠ n := by
  rintro rfl
  revert h
  decide

mutual

/-- **No walk leads upwards.** -/
theorem not_mem_of_mem_walkFrom : ∀ {t : FileTree} {place l : List String}, ".." ∉ place →
    l ∈ t.walkFrom excluded place → ".." ∉ l
  | file c, place, l, _, hl => by
    rw [walkFrom] at hl
    cases hl
  | dir es, place, l, hplace, hl => by
    rw [walkFrom_dir] at hl
    rcases List.mem_append.mp hl with hl | hl
    · obtain ⟨n, hn, rfl⟩ := List.mem_map.mp hl
      obtain ⟨e, he, rfl⟩ := List.mem_map.mp ((mem_sortBy _).mp hn)
      have hvisible := (List.mem_filter.mp he).2
      simp only [Bool.not_eq_true', Bool.or_eq_false_iff] at hvisible
      rw [List.mem_append, not_or, List.mem_singleton]
      exact ⟨hplace, ne_dots_of_not_isHidden hvisible.1.2⟩
    · obtain ⟨e, he, hl⟩ := List.mem_flatMap.mp hl
      exact not_mem_of_mem_walkEntries hplace (List.mem_filter.mp ((mem_sortBy _).mp he)).1 hl

theorem not_mem_of_mem_walkEntries : ∀ {es : List (String × FileTree)} {place l : List String}
    {e : String × List (List String)}, ".." ∉ place → e ∈ walkEntries excluded place es →
    l ∈ e.2 → ".." ∉ l
  | [], _, _, _, _, he, _ => by
    rw [walkEntries] at he
    cases he
  | (n, t) :: es, place, l, e, hplace, he, hl => by
    rw [walkEntries] at he
    split at he
    · exact not_mem_of_mem_walkEntries hplace he hl
    · rename_i hvisible
      rcases List.mem_cons.mp he with rfl | he
      · rw [Bool.not_eq_true, Bool.or_eq_false_iff] at hvisible
        refine not_mem_of_mem_walkFrom ?_ hl
        rw [List.mem_append, not_or, List.mem_singleton]
        exact ⟨hplace, ne_dots_of_not_isHidden hvisible.1⟩
      · exact not_mem_of_mem_walkEntries hplace he hl

end

end FileTree

/-! ## The disk -/

namespace Disk

variable {inside : List String} {seen touched : List String → Prop} {d d' : Disk}
  {excluded : String → Bool} {p root : Path}

theorem places_ok {ls : List (List String)} :
    d.places excluded root = .ok ls ↔
      ∃ t, d.find? root = some t ∧ t.isDir = true ∧ t.walk excluded = ls := by
  unfold places
  cases d.find? root with
  | none => simp
  | some t => cases t <;> simp [FileTree.isDir]

/-- **What a walk finds below a directory** is located below the place of that directory. -/
theorem placeOf_of_places {ls : List (List String)} (h : d.places excluded root = .ok ls)
    {l : List String} (hl : l ∈ ls) : d.placeOf (root / .relative l) = d.placeOf root ++ l := by
  obtain ⟨t, -, -, rfl⟩ := places_ok.mp h
  exact placeOf_join_relative (FileTree.not_mem_of_mem_walkFrom List.not_mem_nil hl)

/-- What is found below a directory that is separate from a place is separate from it. -/
theorem separate_of_files {paths : List Path} (hroot : Separate inside (d.placeOf root))
    (h : d.files excluded root = .ok paths) (hp : p ∈ paths) : Separate inside (d.placeOf p) := by
  obtain ⟨ls, hls, rfl⟩ := exists_places h
  obtain ⟨l, hl, rfl⟩ := List.mem_map.mp hp
  rw [placeOf_of_places hls hl]
  exact hroot.append_right l

/-- **A disk shows what another one does** at the places of some kind: no walk tells what stands
there on the one from what stands there on the other. -/
def Shows (seen : List String → Prop) (d d' : Disk) : Prop :=
  ∀ place t, seen place → d.tree.get? place = some t →
    ∃ u, d'.tree.get? place = some u ∧ t.SameFiles u

theorem Keeps.shows (h : Keeps inside d d') : Shows (Separate inside) d d' := h.trees

section Again

variable (ha : Alters touched d d') (hs : Shows seen d d')
include ha hs

theorem find?_again {t : FileTree} (hp : seen (d.placeOf p)) (h : d.find? p = some t) :
    ∃ u, d'.find? p = some u ∧ t.SameFiles u := by
  unfold find? at h
  split at h
  · rename_i l hl
    rw [placeOf_of_locate hl] at hp
    rw [find?, ha.locate hl]
    exact hs l t hp h
  · cases h

/-- **A file elsewhere** has the same content. -/
theorem read_again {c : List UInt8} (hp : seen (d.placeOf p)) (h : d.read p = .ok c) :
    d'.read p = .ok c := by
  obtain ⟨l, hl, hc⟩ := read_ok.mp h
  obtain ⟨t, ht, hc⟩ := Option.bind_eq_some_iff.mp hc
  rw [placeOf_of_locate hl] at hp
  obtain ⟨u, hu, hsame⟩ := hs l t hp ht
  refine read_ok.mpr ⟨l, ha.locate hl, ?_⟩
  rw [fileAt, hu, Option.bind_some, hsame.1, hc]

/-- **A walk elsewhere** gives the same files. -/
theorem places_again {ls : List (List String)} (hp : seen (d.placeOf root))
    (h : d.places excluded root = .ok ls) : d'.places excluded root = .ok ls := by
  obtain ⟨t, ht, hdir, rfl⟩ := places_ok.mp h
  obtain ⟨u, hu, hsame⟩ := find?_again ha hs hp ht
  refine places_ok.mpr ⟨u, hu, ?_, hsame.2 excluded []⟩
  rw [FileTree.isDir_eq, hsame.1, ← FileTree.isDir_eq, hdir]

theorem files_again {paths : List Path} (hp : seen (d.placeOf root))
    (h : d.files excluded root = .ok paths) : d'.files excluded root = .ok paths := by
  obtain ⟨ls, hls, rfl⟩ := exists_places h
  exact files_of_places (places_again ha hs hp hls)

end Again

end Disk

/-! ## Static files -/

namespace Asset

namespace Collect

variable {α β : Type}

/-- **What the first action gives, if it succeeds, the second one gives as well.** -/
def Repeats (x y : Collect α) : Prop :=
  ∀ ⦃ix ix' : Index⦄ ⦃a : α⦄, Runs x ix (.ok a) ix' → Runs y ix (.ok a) ix'

theorem Repeats.refl (x : Collect α) : Repeats x x := fun _ _ _ h => h

theorem Repeats.bind {x y : Collect α} {f g : α → Collect β} (h : Repeats x y)
    (hf : ∀ a, Repeats (f a) (g a)) : Repeats (x >>= f) (y >>= g) := by
  intro ix ix' b hb
  rcases runs_bind.mp hb with ⟨a, m, ha, hb⟩ | ⟨e, -, he⟩
  · exact runs_bind.mpr (.inl ⟨a, m, h ha, hf a hb⟩)
  · cases he

/-- After what is given by a step that gives the same again. -/
theorem repeats_ofExcept_bind {x y : Except Error α} {f g : α → Collect β}
    (h : ∀ a, x = .ok a → y = .ok a ∧ Repeats (f a) (g a)) :
    Repeats (MonadExcept.ofExcept x >>= f) (MonadExcept.ofExcept y >>= g) := by
  intro ix ix' b hb
  rcases runs_ofExcept_bind.mp hb with ⟨a, ha, hb⟩ | ⟨e, -, he, -⟩
  · obtain ⟨hy, hf⟩ := h a ha
    exact runs_ofExcept_bind.mpr (.inl ⟨a, hy, hf hb⟩)
  · cases he

theorem repeats_mapM {f g : α → Collect β} {l : List α} (h : ∀ a ∈ l, Repeats (f a) (g a)) :
    Repeats (l.mapM f) (l.mapM g) := by
  induction l with
  | nil => exact .refl _
  | cons a l ih =>
    rw [List.mapM_cons, List.mapM_cons]
    have hl := ih fun b hb => h b (List.mem_cons_of_mem _ hb)
    exact (h a List.mem_cons_self).bind fun _ => hl.bind fun _ => .refl _

theorem repeats_forIn {f g : α → PUnit → Collect (ForInStep PUnit)} {l : List α}
    (h : ∀ a ∈ l, Repeats (f a ⟨⟩) (g a ⟨⟩)) : Repeats (forIn l ⟨⟩ f) (forIn l ⟨⟩ g) := by
  induction l with
  | nil => exact .refl _
  | cons a l ih =>
    rw [List.forIn_cons, List.forIn_cons]
    refine (h a List.mem_cons_self).bind fun step => ?_
    cases step with
    | done _ => exact .refl _
    | yield _ => exact ih fun b hb => h b (List.mem_cons_of_mem _ hb)

end Collect

open Collect

namespace Origin

variable {seen touched : List String → Prop} {o o' : Origin}

/-- **Files are read from another disk**, which shows the same. -/
structure Again (seen touched : List String → Prop) (o o' : Origin) : Prop where
  base : o'.base = o.base
  excluded : o'.excluded = o.excluded
  alters : o.disk.Alters touched o'.disk
  shows : o.disk.Shows seen o'.disk

variable (h : Again seen touched o o')
include h

theorem Again.read {path : Path} {c : List UInt8} (hp : seen (o.disk.placeOf path))
    (hc : o.read path = .ok c) : o'.read path = .ok c := by
  unfold Origin.read at hc ⊢
  cases hr : o.disk.read path with
  | error e =>
    rw [hr] at hc
    cases hc
  | ok c' =>
    rw [hr] at hc
    rw [Disk.read_again h.alters h.shows hp hr]
    exact hc

theorem Again.places {dir : Path} {ls : List (List String)} (hp : seen (o.disk.placeOf dir))
    (hls : o.places dir = .ok ls) : o'.places dir = .ok ls := by
  unfold Origin.places at hls ⊢
  rw [h.excluded]
  exact Disk.places_again h.alters h.shows hp hls

theorem Again.addHashed {path : Path} (hp : seen (o.disk.placeOf path)) (name : String) :
    Repeats (o.addHashed path name) (o'.addHashed path name) :=
  repeats_ofExcept_bind fun _ hc => ⟨h.read hp hc, .refl _⟩

theorem Again.addFile {path : Path} (hp : seen (o.disk.placeOf (o.base / path))) :
    Repeats (o.addFile path) (o'.addFile path) := by
  unfold Origin.addFile
  rw [h.base]
  exact h.addHashed hp _

theorem Again.addDir {dir : Path}
    (hdir : ∀ paths, o.disk.files o.excluded (o.base / dir) = .ok paths →
      seen (o.disk.placeOf (o.base / dir)) ∧ ∀ p ∈ paths, seen (o.disk.placeOf p)) :
    Repeats (o.addDir dir) (o'.addDir dir) := by
  unfold Origin.addDir
  rw [h.base]
  refine repeats_ofExcept_bind fun ls hls => ?_
  obtain ⟨hp, hpaths⟩ := hdir _ (Disk.files_of_places hls)
  exact ⟨h.places hp hls, repeats_mapM fun l hl =>
    h.addHashed (hpaths _ (List.mem_map_of_mem hl)) _⟩

theorem Again.addFileAs {path : Path} (hp : seen (o.disk.placeOf (o.base / path)))
    (name : String) : Repeats (o.addFileAs path name) (o'.addFileAs path name) := by
  unfold Origin.addFileAs
  rw [h.base]
  exact repeats_ofExcept_bind fun _ hc => ⟨h.read hp hc, .refl _⟩

theorem Again.addDirAs {dir : Path}
    (hdir : ∀ paths, o.disk.files o.excluded (o.base / dir) = .ok paths →
      seen (o.disk.placeOf (o.base / dir)) ∧ ∀ p ∈ paths, seen (o.disk.placeOf (o.base / p)))
    (below : String) : Repeats (o.addDirAs dir below) (o'.addDirAs dir below) := by
  unfold Origin.addDirAs
  rw [h.base]
  refine repeats_ofExcept_bind fun ls hls => ?_
  obtain ⟨hp, hpaths⟩ := hdir _ (Disk.files_of_places hls)
  exact ⟨h.places hp hls, repeats_mapM fun l hl =>
    h.addFileAs (hpaths _ (List.mem_map_of_mem hl)) _⟩

theorem Again.addStylesheet (path : Path) (make : Preprocessor) :
    Repeats (o.addStylesheet path make) (o'.addStylesheet path make) := by
  unfold Origin.addStylesheet
  rw [h.base]
  exact .refl _

end Origin

end Asset

/-- **The paths at which a build reads**: the templates, and the static directories and files as
seen from the root. The files of a published directory are looked for from the root once more, which
is the same if the root is absolute. What stylesheets are made of is not among them; that is left to
the preprocessor. -/
def Config.inputs (c : Config) : List Path :=
  c.templates :: (c.static.dirs.map (c.root / ·) ++ c.static.files.map (c.root / ·) ++
    c.static.published.flatMap fun e => [c.root / e.dir, c.root / (c.root / e.dir)])

/-- The directories that are walked through for static files. -/
def Config.staticRoots (c : Config) : List Path :=
  c.static.dirs.map (c.root / ·) ++ c.static.published.map (c.root / ·.dir)

namespace Build

open Asset

variable {inside : List String} {seen touched : List String → Prop} {d d' : Disk}

/-- **The index of the static files** is the same on a disk that shows all that is read for it. -/
theorem collect_of_shows {c : Config} {make : Preprocessor} {index? : Option Index}
    (ha : d.Alters touched d') (hs : d.Shows seen d')
    (hroots : ∀ root ∈ c.staticRoots, ∀ paths,
      d.files (Exclusion.ofLines c.exclude).excludes root = .ok paths → seen (d.placeOf root))
    (hfiles : ∀ p, c.ReadsStatic d p → seen (d.placeOf p))
    (h : collect d c make = .ok index?) : collect d' c make = .ok index? := by
  unfold collect at h ⊢
  split
  · rename_i henabled
    rw [if_pos henabled] at h
    dsimp only at h ⊢
    split at h
    · rename_i index hrun
      have hagain : Origin.Again seen touched
          ⟨d, c.root, (Exclusion.ofLines c.exclude).excludes⟩
          ⟨d', c.root, (Exclusion.ofLines c.exclude).excludes⟩ := ⟨rfl, rfl, ha, hs⟩
      have hrepeats : Collect.Repeats
          (addStatics ⟨d, c.root, (Exclusion.ofLines c.exclude).excludes⟩ c.static make)
          (addStatics ⟨d', c.root, (Exclusion.ofLines c.exclude).excludes⟩ c.static make) := by
        refine (Collect.repeats_forIn fun dir hdir => ?_).bind fun _ =>
          (Collect.repeats_forIn fun file hfile => ?_).bind fun _ =>
          (Collect.repeats_forIn fun e he => ?_).bind fun _ =>
          (Collect.repeats_forIn fun file _ => ?_).bind fun _ => .refl _
        · refine (hagain.addDir fun paths hpaths => ?_).bind fun _ => .refl _
          exact ⟨hroots _ (List.mem_append_left _ (List.mem_map_of_mem hdir)) paths hpaths,
            fun p hp => hfiles p (.inDir hdir hpaths hp)⟩
        · exact (hagain.addFile (hfiles _ (.byItself hfile))).bind fun _ => .refl _
        · refine (hagain.addDirAs (fun paths hpaths => ?_) _).bind fun _ => .refl _
          exact ⟨hroots _ (List.mem_append_right _ (List.mem_map.mpr ⟨e, he, rfl⟩)) paths hpaths,
            fun p hp => hfiles _ (.published he hpaths hp)⟩
        · exact (hagain.addStylesheet file make).bind fun _ => .refl _
      rw [show (addStatics _ c.static make).run.run .empty = (.ok (), index) from hrepeats hrun]
      exact h
    · cases h
  · rename_i henabled
    rwa [if_neg henabled] at h

/-- **The index of the static files** is the same on a disk that differs inside of one directory,
which holds none of them. -/
theorem collect_again {c : Config} {make : Preprocessor} {index? : Option Index}
    (ha : d.Alters touched d') (hk : d.Keeps inside d')
    (hp : ∀ p ∈ c.inputs, Disk.Separate inside (d.placeOf p))
    (h : collect d c make = .ok index?) : collect d' c make = .ok index? := by
  have hin {p : Path} (hmem : p ∈ c.static.dirs.map (c.root / ·) ++
      c.static.files.map (c.root / ·) ++
      c.static.published.flatMap fun e => [c.root / e.dir, c.root / (c.root / e.dir)]) :=
    hp p (List.mem_cons_of_mem _ hmem)
  have hdir {dir : Path} (h : dir ∈ c.static.dirs) := hin (List.mem_append_left _
    (List.mem_append_left _ (List.mem_map_of_mem (f := (c.root / · : Path → Path)) h)))
  have hpublished {e : PublishedDir} (he : e ∈ c.static.published) {p : Path}
      (hp : p ∈ [c.root / e.dir, c.root / (c.root / e.dir)]) :=
    hin (List.mem_append_right _ (List.mem_flatMap.mpr ⟨e, he, hp⟩))
  refine collect_of_shows ha hk.shows (fun root hroot _ _ => ?_) (fun p hp => ?_) h
  · rcases List.mem_append.mp hroot with hroot | hroot
    · obtain ⟨dir, hmem, rfl⟩ := List.mem_map.mp hroot
      exact hdir hmem
    · obtain ⟨e, he, rfl⟩ := List.mem_map.mp hroot
      exact hpublished he List.mem_cons_self
  · cases hp with
    | inDir hmem hpaths hp => exact Disk.separate_of_files (hdir hmem) hpaths hp
    | byItself hp =>
      exact hin (List.mem_append_left _ (List.mem_append_right _ (List.mem_map_of_mem hp)))
    | published he hpaths hp =>
      -- the file is looked for from the root once more
      obtain ⟨ls, hls, rfl⟩ := Disk.exists_places hpaths
      obtain ⟨l, hl, rfl⟩ := List.mem_map.mp hp
      obtain ⟨t, -, -, rfl⟩ := Disk.places_ok.mp hls
      rw [Path.join_join_relative, Disk.placeOf_join_relative
        (FileTree.not_mem_of_mem_walkFrom List.not_mem_nil hl)]
      exact (hpublished he (List.mem_cons_of_mem _ List.mem_cons_self)).append_right l

/-! ## Templates -/

theorem readTemplate_again {root path : Path} {t : Template} (ha : d.Alters touched d')
    (hs : d.Shows seen d') (hp : seen (d.placeOf path)) (h : readTemplate d root path = .ok t) :
    readTemplate d' root path = .ok t := by
  unfold readTemplate at h ⊢
  split
  · rename_i hplace
    rw [hplace] at h
    cases h
  · rename_i place hplace
    rw [hplace] at h
    obtain ⟨name, hname, h⟩ := Except.bind_ok.mp h
    obtain ⟨bytes, hbytes, h⟩ := Except.bind_ok.mp h
    refine Except.bind_ok.mpr ⟨name, hname, Except.bind_ok.mpr ⟨bytes, ?_, h⟩⟩
    cases hr : d.read path with
    | error e =>
      rw [hr] at hbytes
      cases hbytes
    | ok c =>
      rw [hr] at hbytes
      rw [Disk.read_again ha hs hp hr]
      exact hbytes

/-- **The templates of a directory** are the same on a disk that differs inside of another one. -/
theorem readTemplates_again {excluded : String → Bool} {root : Path} {s s' m : State}
    {ts : List Template} (ha : s.disk.Alters touched m.disk) (hk : s.disk.Keeps inside m.disk)
    (hp : Disk.Separate inside (s.disk.placeOf root))
    (h : Runs (readTemplates excluded root) s (.ok ts) s') :
    Runs (readTemplates excluded root) m (.ok ts) m := by
  obtain ⟨⟨paths, read, hpaths, hread, hunique, hts⟩, -⟩ := readTemplates_ok.mp h
  refine readTemplates_ok.mpr
    ⟨⟨paths, read, Disk.files_again ha hk.shows hp hpaths, ?_, hunique, hts⟩, rfl⟩
  have hplaces : ∀ path ∈ paths.filter isTemplateFile,
      Disk.Separate inside (s.disk.placeOf path) := fun path hpath =>
    Disk.separate_of_files hp hpaths (List.mem_filter.mp hpath).1
  exact ((List.forall₂_and_left _ _).mpr ⟨hplaces, hread⟩).imp fun path t h =>
    readTemplate_again ha hk.shows h.1 h.2

end Build

end Stencil
