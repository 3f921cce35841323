import Stencil.Disk.Walk
import Stencil.Proofs.LoadedSettings
import Stencil.Proofs.TemplateOrder

/-!
# Paths that files can have

No name of a file holds a slash. Paths of such names are known by their components, so there is one
way to put them in order.

* `Path.IsProper`: the paths of such names; `Path.isProper_parse`: those that texts name.
* `Path.IsProper.eq_of_components`, `Path.sort_dedup_congr`: they are put in order in one way.
* `Disk.IsProper`, `Disk.isProper_of_files`: a disk with such names, and what a walk finds on it.
* `Config.IsProper`, **`Config.isProper_of_load`**: settings with such paths, as all settings that
  are read have them.
-/

namespace Stencil

/-! ## Paths -/

namespace Path

/-- **A path that a file can have**: its root is that of some text, and no name holds a slash. -/
structure IsProper (p : Path) : Prop where
  root : p.root ∈ ["", "/", "//"]
  names : ∀ n ∈ p.parts, '/' ∉ n.toList

instance (p : Path) : Decidable p.IsProper :=
  decidable_of_iff (p.root ∈ ["", "/", "//"] ∧ ∀ n ∈ p.parts, '/' ∉ n.toList)
    ⟨fun h => ⟨h.1, h.2⟩, fun h => ⟨h.root, h.names⟩⟩

/-- **The paths that texts name** are proper. -/
theorem isProper_parse (s : String) : (parse s).IsProper where
  root := by
    change rootOf s.toList ∈ _
    rw [rootOf]
    split <;> decide
  names _ := not_mem_parse

variable {p q : Path}

theorem IsProper.join (hp : p.IsProper) (hq : q.IsProper) : (p / q : Path).IsProper := by
  change (Path.join p q).IsProper
  unfold Path.join
  split
  · exact hq
  · exact ⟨hp.root, List.forall_mem_append.mpr ⟨hp.names, hq.names⟩⟩

theorem isProper_relative {l : List String} (hl : ∀ n ∈ l, '/' ∉ n.toList) :
    (relative l).IsProper := ⟨List.mem_cons_self, hl⟩

/-- **Proper paths are known by their components**: a root is no name. -/
theorem IsProper.eq_of_components (hp : p.IsProper) (hq : q.IsProper)
    (h : p.components = q.components) : p = q := by
  have hroot {root : String} (h : root ∈ ["", "/", "//"]) (hne : root ≠ "") :
      '/' ∈ root.toList := by
    revert h hne
    simp only [List.mem_cons, List.not_mem_nil, or_false]
    rintro (rfl | rfl | rfl) hne
    · exact absurd rfl hne
    all_goals decide
  obtain ⟨r, ns⟩ := p
  obtain ⟨r', ns'⟩ := q
  unfold components isAbsolute at h
  simp only [bne_iff_ne] at h
  split at h <;> split at h
  · rw [List.cons.injEq] at h
    rw [h.1, h.2]
  · rename_i hr _
    subst h
    exact absurd (hroot hp.root hr) (hq.names r List.mem_cons_self)
  · rename_i hr
    subst h
    exact absurd (hroot hq.root hr) (hp.names r' List.mem_cons_self)
  · rename_i hr hr'
    rw [not_not] at hr hr'
    subst h hr hr'
    rfl

theorem sortsBy_le : SortsBy le :=
  ⟨fun _ _ => sortsBy_textsLe.total _ _, fun _ _ _ => sortsBy_textsLe.trans _ _ _⟩

/-- **Proper paths are put in order in one way.** -/
theorem sort_dedup_congr {l l' : List Path} (hl : ∀ p ∈ l, p.IsProper) (h : ∀ p, p ∈ l ↔ p ∈ l') :
    sort (dedup l) = sort (dedup l') := by
  refine sortBy_eq_of_perm sortsBy_le (perm_dedup h) fun p hp q hq hpq hqp => ?_
  exact (hl p (mem_dedup.mp hp)).eq_of_components (hl q (mem_dedup.mp hq))
    (textsLe_antisymm hpq hqp)

end Path

/-! ## Trees of files -/

namespace FileTree

mutual

/-- All names in a tree are of some kind. -/
def allNames (p : String → Bool) : FileTree → Bool
  | file _ => true
  | dir es => allEntries p es

/-- All names of entries, and in them, are of some kind. -/
def allEntries (p : String → Bool) : List (String × FileTree) → Bool
  | [] => true
  | (n, t) :: es => p n && t.allNames p && allEntries p es

end

variable {p : String → Bool} {t u : FileTree} {es : List (String × FileTree)}

theorem allEntries_iff :
    allEntries p es = true ↔ ∀ e ∈ es, p e.1 = true ∧ e.2.allNames p = true := by
  induction es with
  | nil => exact iff_of_true rfl (List.forall_mem_nil _)
  | cons e es ih =>
    obtain ⟨n, t⟩ := e
    rw [allEntries, Bool.and_eq_true, Bool.and_eq_true, ih, List.forall_mem_cons]

theorem allNames_of_get? {place : List String} (ht : t.allNames p = true)
    (h : t.get? place = some u) : u.allNames p = true := by
  induction place generalizing t with
  | nil => exact Option.some.inj h ▸ ht
  | cons n ns ih =>
    rw [get?_cons, Option.bind_eq_some_iff] at h
    obtain ⟨v, hv, hu⟩ := h
    cases t with
    | file c => cases hv
    | dir es => exact ih (allEntries_iff.mp ht _ (mem_of_lookup hv)).2 hu

mutual

/-- **A walk finds the names of the tree.** -/
theorem forall_of_mem_walkFrom {excluded : String → Bool} :
    ∀ {t : FileTree} {place l : List String}, t.allNames p = true → (∀ n ∈ place, p n = true) →
    l ∈ t.walkFrom excluded place → ∀ n ∈ l, p n = true
  | file c, place, l, _, _, hl => by
    rw [walkFrom] at hl
    cases hl
  | dir es, place, l, ht, hplace, hl => by
    rw [walkFrom] at hl
    rcases List.mem_append.mp hl with hl | hl
    · obtain ⟨e, he, hl⟩ := List.mem_filterMap.mp hl
      dsimp only at hl
      split at hl
      · cases hl
      · cases hl
        rw [List.forall_mem_append, List.forall_mem_singleton]
        exact ⟨hplace, (allEntries_iff.mp ht e ((mem_sortBy _).mp he)).1⟩
    · obtain ⟨e, he, hl⟩ := List.mem_flatMap.mp hl
      exact forall_of_mem_walkEntries ht hplace ((mem_sortBy _).mp he) hl

theorem forall_of_mem_walkEntries {excluded : String → Bool} :
    ∀ {es : List (String × FileTree)} {place l : List String} {e : String × List (List String)},
    allEntries p es = true → (∀ n ∈ place, p n = true) → e ∈ walkEntries excluded place es →
    l ∈ e.2 → ∀ n ∈ l, p n = true
  | [], _, _, _, _, _, he, _ => by
    rw [walkEntries] at he
    cases he
  | (n, t) :: es, place, l, e, hes, hplace, he, hl => by
    rw [allEntries, Bool.and_eq_true, Bool.and_eq_true] at hes
    rw [walkEntries] at he
    split at he
    · exact forall_of_mem_walkEntries hes.2 hplace he hl
    · rcases List.mem_cons.mp he with rfl | he
      · refine forall_of_mem_walkFrom hes.1.2 ?_ hl
        rw [List.forall_mem_append, List.forall_mem_singleton]
        exact ⟨hplace, hes.1.1⟩
      · exact forall_of_mem_walkEntries hes.2 hplace he hl

end

end FileTree

/-- **No name on the disk holds a slash.** -/
def Disk.IsProper (d : Disk) : Prop := d.tree.allNames (fun n => !n.toList.contains '/') = true

instance (d : Disk) : Decidable d.IsProper :=
  inferInstanceAs (Decidable (d.tree.allNames (fun n => !n.toList.contains '/') = true))

/-- **What a walk finds** below a proper path has proper paths. -/
theorem Disk.isProper_of_files {d : Disk} {excluded : String → Bool} {root p : Path}
    {paths : List Path} (hd : d.IsProper) (hroot : root.IsProper)
    (h : d.files excluded root = .ok paths) (hp : p ∈ paths) : p.IsProper := by
  unfold files places at h
  split at h
  · rename_i es hfind
    cases h
    obtain ⟨l, hl, rfl⟩ := List.mem_map.mp hp
    unfold find? at hfind
    split at hfind
    · have hnames := FileTree.forall_of_mem_walkFrom (FileTree.allNames_of_get? hd hfind)
        (List.forall_mem_nil _) hl
      exact hroot.join (Path.isProper_relative fun n hn => by simpa using hnames n hn)
    · cases hfind
  · cases h

/-- **Settings whose paths files can have.** -/
structure Config.IsProper (c : Config) : Prop where
  root : c.root.IsProper
  templates : c.templates.IsProper
  dirs : ∀ p ∈ c.static.dirs, p.IsProper
  files : ∀ p ∈ c.static.files, p.IsProper
  published : ∀ e ∈ c.static.published, e.dir.IsProper
  stylesheets : ∀ p ∈ c.static.stylesheets, p.IsProper

namespace Config

variable {root : Path} {c : Config}

/-- Paths below a proper root. -/
theorem isProper_of_paths {place : String} {value : Option Data} {l : List Path}
    (hroot : root.IsProper) (h : paths root place value = .ok l) : ∀ p ∈ l, p.IsProper := by
  unfold paths at h
  cases hs : texts place value with
  | error e =>
    rw [hs] at h
    cases h
  | ok ss =>
    rw [hs] at h
    cases h
    exact List.forall_mem_map.mpr fun s _ => hroot.join (Path.isProper_parse s)

theorem isProper_of_publishedDir {d : Data} {e : PublishedDir} (hroot : root.IsProper)
    (h : publishedDir root d = .ok e) : e.dir.IsProper := by
  unfold publishedDir at h
  split at h
  · obtain ⟨_, -, h⟩ := Except.bind_ok.mp h
    split at h
    · cases h
    · obtain ⟨dir, -, h⟩ := Except.bind_ok.mp h
      obtain ⟨below, -, h⟩ := Except.bind_ok.mp h
      cases h
      exact hroot.join (Path.isProper_parse _)
  · cases h

theorem isProper_of_publishedDirs {value : Option Data} {l : List PublishedDir}
    (hroot : root.IsProper) (h : publishedDirs root value = .ok l) :
    ∀ e ∈ l, e.dir.IsProper := by
  unfold publishedDirs at h
  split at h
  · cases h
    exact List.forall_mem_nil _
  · split at h
    · cases h
      exact List.forall_mem_nil _
    · split at h
      · intro e he
        obtain ⟨d, -, hd⟩ := exists_left_of_forall₂ (Except.mapM_ok.mp h) he
        exact isProper_of_publishedDir hroot hd
      · cases h

/-- The sources of static files, below a proper root. -/
theorem isProper_of_sources {value : String → Option Data} {s : StaticConfig}
    (hroot : root.IsProper) (h : (do
      let dirs ← paths root "static.dirs" (value "dirs")
      let files ← paths root "static.files" (value "files")
      let published ← publishedDirs root (value "files_as")
      let stylesheets ← paths root "static.sass" (value "sass")
      return (⟨dirs, files, published, stylesheets⟩ : StaticConfig)) = Except.ok s) :
    (∀ p ∈ s.dirs, p.IsProper) ∧ (∀ p ∈ s.files, p.IsProper) ∧
      (∀ e ∈ s.published, e.dir.IsProper) ∧ ∀ p ∈ s.stylesheets, p.IsProper := by
  obtain ⟨dirs, hdirs, h⟩ := Except.bind_ok.mp h
  obtain ⟨files, hfiles, h⟩ := Except.bind_ok.mp h
  obtain ⟨published, hpublished, h⟩ := Except.bind_ok.mp h
  obtain ⟨stylesheets, hstylesheets, h⟩ := Except.bind_ok.mp h
  cases h
  exact ⟨isProper_of_paths hroot hdirs, isProper_of_paths hroot hfiles,
    isProper_of_publishedDirs hroot hpublished, isProper_of_paths hroot hstylesheets⟩

theorem isProper_of_staticOf {value : Option Data} {s : StaticConfig} (hroot : root.IsProper)
    (h : staticOf root value = .ok s) :
    (∀ p ∈ s.dirs, p.IsProper) ∧ (∀ p ∈ s.files, p.IsProper) ∧
      (∀ e ∈ s.published, e.dir.IsProper) ∧ ∀ p ∈ s.stylesheets, p.IsProper := by
  have hnone : (∀ p ∈ StaticConfig.none.dirs, p.IsProper) ∧
      (∀ p ∈ StaticConfig.none.files, p.IsProper) ∧
      (∀ e ∈ StaticConfig.none.published, e.dir.IsProper) ∧
      ∀ p ∈ StaticConfig.none.stylesheets, p.IsProper :=
    ⟨List.forall_mem_nil _, List.forall_mem_nil _, List.forall_mem_nil _, List.forall_mem_nil _⟩
  unfold staticOf at h
  split at h
  · exact Except.ok.inj h ▸ hnone
  · exact Except.ok.inj h ▸ hnone
  · obtain ⟨_, -, h⟩ := Except.bind_ok.mp h
    dsimp only at h
    split at h
    · split at h
      · exact isProper_of_sources hroot h
      · exact isProper_of_sources hroot h
      · cases h
    · exact isProper_of_sources hroot h
  · cases h

/-- **The settings that a mapping gives** have proper paths, if they start at a proper one. -/
theorem isProper_of_ofData {processors : Option Nat} {entries : List (Data × Data)}
    (hroot : root.IsProper) (h : ofData processors root entries = .ok c) : c.IsProper := by
  unfold ofData at h
  obtain ⟨_, -, h⟩ := Except.bind_ok.mp h
  obtain ⟨workers, -, h⟩ := Except.bind_ok.mp h
  obtain ⟨templates, -, h⟩ := Except.bind_ok.mp h
  obtain ⟨output, -, h⟩ := Except.bind_ok.mp h
  obtain ⟨package, -, h⟩ := Except.bind_ok.mp h
  obtain ⟨exclude, -, h⟩ := Except.bind_ok.mp h
  obtain ⟨static, hstatic, h⟩ := Except.bind_ok.mp h
  obtain ⟨hdirs, hfiles, hpublished, hstylesheets⟩ := isProper_of_staticOf hroot hstatic
  obtain ⟨rfl, -⟩ := check_ok.mp h
  exact ⟨hroot, hroot.join (Path.isProper_parse _), hdirs, hfiles, hpublished, hstylesheets⟩

/-- The settings that the entries of a file give, or those without any. -/
theorem isProper_of_entries {processors : Option Nat} {entries : Except Error (List (Data × Data))}
    (hroot : root.IsProper) (h : (do
      match ← entries with
      | [] => return .default processors root
      | entries => ofData processors root entries) = Except.ok c) : c.IsProper := by
  obtain ⟨entries, -, h⟩ := Except.bind_ok.mp h
  split at h
  · cases h
    exact ⟨hroot, hroot.join (Path.isProper_parse _), List.forall_mem_nil _,
      List.forall_mem_nil _, List.forall_mem_nil _, List.forall_mem_nil _⟩
  · exact isProper_of_ofData hroot h

/-- **The settings of a project**, or of a configuration file, have proper paths. -/
theorem isProper_of_load {processors : Option Nat} {d : Disk} {path : Option Path}
    (hroot : root.IsProper) (hpath : ∀ p, path = some p → p.IsProper)
    (h : load processors d root path = .ok c) : c.IsProper := by
  unfold load loadBy at h
  dsimp only at h
  split at h
  · rename_i p
    split at h
    · have hp := hpath p rfl
      have hparent : p.parent.IsProper :=
        ⟨hp.root, fun n hn => hp.names n (List.dropLast_subset _ hn)⟩
      exact isProper_of_entries hparent h
    · cases h
  · exact isProper_of_entries hroot h

end Config

end Stencil
