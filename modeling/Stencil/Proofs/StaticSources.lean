import Stencil.Proofs.ReachedIndex
import Stencil.Proofs.StaticOrder

/-!
# Where static files come from

* `Config.ReadsStatic`: a file that a build reads as a static file.
* `Index.IsFrom`: all sources of an index are of some kind; `keeps_addDir`, ...: the actions that
  add files keep that.
* **`Build.sources_of_collect`**: the sources of the index of a project are what its settings name.
-/

namespace Stencil

open Asset

/-- **A file that a build reads as a static file**: it stands in a static directory, it is a static
file by itself, or it stands in a published directory. The paths of the last ones start at the root
once more. -/
inductive Config.ReadsStatic (c : Config) (d : Disk) : Path → Prop where
  | inDir {dir p : Path} {paths : List Path} (hdir : dir ∈ c.static.dirs)
      (hpaths : d.files (Exclusion.ofLines c.exclude).excludes (c.root / dir) = .ok paths)
      (hp : p ∈ paths) : ReadsStatic c d p
  | byItself {p : Path} (hp : p ∈ c.static.files) : ReadsStatic c d (c.root / p)
  | published {e : PublishedDir} {p : Path} {paths : List Path} (he : e ∈ c.static.published)
      (hpaths : d.files (Exclusion.ofLines c.exclude).excludes (c.root / e.dir) = .ok paths)
      (hp : p ∈ paths) : ReadsStatic c d (c.root / p)

/-- What a walk finds, as paths. -/
theorem Disk.files_of_places {d : Disk} {excluded : String → Bool} {root : Path}
    {ls : List (List String)} (h : d.places excluded root = .ok ls) :
    d.files excluded root = .ok (ls.map fun l => root / .relative l) := by
  rw [files, h]
  rfl

theorem Disk.exists_places {d : Disk} {excluded : String → Bool} {root : Path} {paths : List Path}
    (h : d.files excluded root = .ok paths) :
    ∃ ls, d.places excluded root = .ok ls ∧ paths = ls.map fun l => root / .relative l := by
  unfold files at h
  cases hls : d.places excluded root with
  | error e =>
    rw [hls] at h
    cases h
  | ok ls =>
    rw [hls] at h
    exact ⟨ls, rfl, (Except.ok.inj h).symm⟩

/-- **All sources of the index** are of some kind. -/
def Index.IsFrom (P : Path → Prop) (ix : Index) : Prop :=
  ∀ a ∈ ix.entries.map Prod.snd, ∀ p, a.source = some p → P p

namespace Asset

open Collect

variable {P : Path → Prop}

/-- A request of such a source. -/
theorem keeps_addRequest {ix ix' : Index} {r : Request} {a : Asset}
    (hsource : ∀ p, r.source = some p → P p) (h : ix.addRequest r = .ok (ix', a))
    (hix : ix.IsFrom P) : ix'.IsFrom P := by
  rcases Index.addRequest_ok.mp h with ⟨-, rfl, -⟩ | ⟨-, -, rfl, rfl⟩
  · exact hix
  · intro b hb p hp
    rw [List.map_append, List.mem_append, List.map_singleton, List.mem_singleton] at hb
    rcases hb with hb | rfl
    · exact hix b hb p hp
    · exact hsource p hp

section Origin

variable {o : Origin} {path : Path}

theorem keeps_addHashed (h : P path) (text : String) :
    Collect.Keeps (Index.IsFrom P) (o.addHashed path text) := by
  refine keeps_ofExcept_bind fun content _ => keeps_add (r := ⟨some path, logicalName text,
    hashedName path.name content, mimeOf (extension path.name), content⟩) (fun ix => ?_)
    (keeps_addRequest fun p hp => ?_)
  · rw [Index.addRequest]
  · exact Option.some.inj hp ▸ h

theorem keeps_addFileAs (h : P (o.base / path)) (text : String) :
    Collect.Keeps (Index.IsFrom P) (o.addFileAs path text) := by
  refine keeps_ofExcept_bind fun content _ => keeps_add (r := ⟨some (o.base / path),
    logicalName text, text, mimeOf (extension (o.base / path).name), content⟩) (fun ix => ?_)
    (keeps_addRequest fun p hp => ?_)
  · rw [Index.addRequest]
  · exact Option.some.inj hp ▸ h

theorem keeps_addDir
    (h : ∀ paths, o.disk.files o.excluded (o.base / path) = .ok paths → ∀ p ∈ paths, P p) :
    Collect.Keeps (Index.IsFrom P) (o.addDir path) :=
  keeps_ofExcept_bind fun _ hls => keeps_mapM fun _ hl =>
    keeps_addHashed (h _ (Disk.files_of_places hls) _ (List.mem_map_of_mem hl)) _

theorem keeps_addDirAs (below : String) (h : ∀ paths,
      o.disk.files o.excluded (o.base / path) = .ok paths → ∀ p ∈ paths, P (o.base / p)) :
    Collect.Keeps (Index.IsFrom P) (o.addDirAs path below) :=
  keeps_ofExcept_bind fun _ hls => keeps_mapM fun _ hl =>
    keeps_addFileAs (h _ (Disk.files_of_places hls) _ (List.mem_map_of_mem hl)) _

theorem keeps_addStylesheet (h : P (o.base / path)) (make : Preprocessor) :
    Collect.Keeps (Index.IsFrom P) (o.addStylesheet path make) := by
  refine keeps_get_bind fun ix => ?_
  split
  · exact keeps_throw _
  · exact keeps_throw _
  · rename_i content _
    split
    · exact keeps_throw _
    · rename_i target _
      refine keeps_add (r := ⟨some (o.base / path), logicalName target.name,
        hashedName target.name content, mimeOf (extension target.name), content⟩) (fun ix => ?_)
        (keeps_addRequest fun p hp => ?_)
      · rw [Index.addContent, Index.addRequest]
      · exact Option.some.inj hp ▸ h

end Origin

end Asset

theorem Index.mem_sources {ix : Index} {p : Path} :
    p ∈ ix.sources ↔ ∃ a ∈ ix.entries.map Prod.snd, a.source = some p := by
  rw [sources, Path.sort, mem_sortBy, mem_dedup, List.mem_filterMap]
  simp only [mem_map_entries]

namespace Build

/-- **The sources of the index of a project** are its static files and its stylesheets. -/
theorem sources_of_collect {d : Disk} {c : Config} {make : Preprocessor} {ix : Index}
    (h : collect d c make = .ok (some ix)) {p : Path} (hp : p ∈ ix.sources) :
    c.ReadsStatic d p ∨ ∃ file ∈ c.static.stylesheets, p = c.root / file := by
  have hfrom : ix.IsFrom fun p =>
      c.ReadsStatic d p ∨ ∃ file ∈ c.static.stylesheets, p = c.root / file := by
    unfold collect at h
    split at h
    · dsimp only at h
      split at h
      · rename_i hrun
        cases h
        refine (Collect.Keeps.bind ?_ fun _ => Collect.Keeps.bind ?_ fun _ =>
          Collect.Keeps.bind ?_ fun _ => Collect.Keeps.bind ?_ fun _ => Collect.keeps_pure _)
          hrun fun a ha => absurd ha List.not_mem_nil
        · exact Collect.keeps_forIn fun dir hdir => Collect.Keeps.bind (keeps_addDir
            fun paths hpaths p hp => .inl (.inDir hdir hpaths hp)) fun _ => Collect.keeps_pure _
        · exact Collect.keeps_forIn fun file hfile => Collect.Keeps.bind
            (keeps_addHashed (.inl (.byItself hfile)) _) fun _ => Collect.keeps_pure _
        · exact Collect.keeps_forIn fun e he => Collect.Keeps.bind (keeps_addDirAs _
            fun paths hpaths p hp => .inl (.published he hpaths hp)) fun _ => Collect.keeps_pure _
        · exact Collect.keeps_forIn fun file hfile => Collect.Keeps.bind
            (keeps_addStylesheet (.inr ⟨file, hfile, rfl⟩) make) fun _ => Collect.keeps_pure _
      · cases h
    · cases h
  obtain ⟨a, ha, hsource⟩ := Index.mem_sources.mp hp
  exact hfrom a ha p hsource

end Build

end Stencil
