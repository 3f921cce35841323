import Stencil.Proofs.DiskWays
import Stencil.Proofs.ReadAgain

/-!
# The files of a walk

A walk gives each file once that is neither hidden nor left out nor inside such a directory: the
files of a directory by name, and then what is below its subdirectories, which are taken by name.

* `FileTree.IsListed`: what a walk has to give.
* `FileTree.Precedes`: the order in which it has to.
* `FileTree.mem_walkFrom_iff`, `FileTree.pairwise_walkFrom`: it does.
* **`Disk.files_listed`**: the files below a directory of a disk.
-/

namespace Stencil

namespace FileTree

/-- **A file is to be listed** by a walk through a tree that stands at `base`: it is in the tree,
neither it nor a directory on the way to it is hidden, and neither is left out. The text of a
directory ends with a slash. -/
structure IsListed (excluded : String → Bool) (base : List String) (t : FileTree)
    (place : List String) : Prop where
  isFile : ∃ c, t.get? place = some (.file c)
  shown : ∀ n ∈ place, isHidden n = false
  entered : ∀ above below, above ≠ [] → below ≠ [] → place = above ++ below →
    excluded (placeText (base ++ above) ++ "/") = false
  kept : excluded (placeText (base ++ place)) = false

/-- **The order of files in a tree.** In each directory its own files come first, by name, and then
what is below its subdirectories, which come by name too. -/
inductive Precedes : List String → List String → Prop
  | files {n m : String} : n < m → Precedes [n] [m]
  | fileFirst {n m k : String} {ms : List String} : Precedes [n] (m :: k :: ms)
  | directories {n m k l : String} {ns ms : List String} : n < m →
    Precedes (n :: k :: ns) (m :: l :: ms)
  | inside {n : String} {ns ms : List String} : Precedes ns ms → Precedes (n :: ns) (n :: ms)

variable {excluded : String → Bool} {base place l r : List String} {n : String} {t u : FileTree}
  {es : List (String × FileTree)}

theorem isDistinct_of_get? (ht : t.isDistinct = true) (h : t.get? place = some u) :
    u.isDistinct = true := by
  induction place generalizing t with
  | nil => exact Option.some.inj h ▸ ht
  | cons n ns ih =>
    rw [get?_cons, Option.bind_eq_some_iff] at h
    obtain ⟨v, hv, hu⟩ := h
    cases t with
    | file c => cases hv
    | dir es => exact ih ((isDistinct_dir.mp ht).2 _ (mem_of_lookup hv)) hu

/-- What stands under a name of a directory. -/
theorem get?_of_mem (hes : (es.map Prod.fst).Nodup) (h : (n, t) ∈ es) (place : List String) :
    (dir es).get? (n :: place) = t.get? place := by
  rw [get?_cons, entries, lookup_of_mem hes h, Option.bind_some]

/-! ## The order -/

theorem Precedes.irrefl : ∀ {l : List String}, ¬ Precedes l l
  | _, .files h => String.lt_irrefl _ h
  | _, .directories h => String.lt_irrefl _ h
  | _, .inside h => h.irrefl

theorem Precedes.append (h : Precedes l r) : ∀ base : List String, Precedes (base ++ l) (base ++ r)
  | [] => h
  | _ :: base => .inside (h.append base)

/-! ## What a walk gives -/

/-- A file of the directory itself. -/
theorem isListed_file (hes : (es.map Prod.fst).Nodup) {c : List UInt8} (h : (n, file c) ∈ es) :
    (dir es).IsListed excluded base [n] ↔
      isHidden n = false ∧ excluded (placeText (base ++ [n])) = false := by
  refine ⟨fun hl => ⟨hl.shown n List.mem_cons_self, hl.kept⟩, fun ⟨hshown, hkept⟩ =>
    ⟨⟨c, get?_of_mem hes h []⟩, by simpa using hshown, ?_, hkept⟩⟩
  intro above below habove hbelow heq
  have := congrArg List.length heq
  rw [List.length_append, List.length_singleton] at this
  have := List.length_pos_iff.mpr habove
  have := List.length_pos_iff.mpr hbelow
  omega

/-- A file below a subdirectory. -/
theorem isListed_cons (hes : (es.map Prod.fst).Nodup) (h : (n, t) ∈ es) (hplace : place ≠ []) :
    (dir es).IsListed excluded base (n :: place) ↔
      isHidden n = false ∧ excluded (placeText (base ++ [n]) ++ "/") = false ∧
        t.IsListed excluded (base ++ [n]) place := by
  constructor
  · rintro ⟨hfile, hshown, hentered, hkept⟩
    rw [get?_of_mem hes h] at hfile
    rw [List.forall_mem_cons] at hshown
    refine ⟨hshown.1, hentered [n] place (by simp) hplace rfl, hfile, hshown.2, ?_, ?_⟩
    · intro above below habove hbelow heq
      have := hentered (n :: above) below (by simp) hbelow (congrArg (n :: ·) heq)
      rwa [List.append_cons] at this
    · rwa [List.append_cons] at hkept
  · rintro ⟨hn, hout, hfile, hshown, hentered, hkept⟩
    refine ⟨by rwa [get?_of_mem hes h], List.forall_mem_cons.mpr ⟨hn, hshown⟩, ?_, ?_⟩
    · intro above below habove hbelow heq
      obtain ⟨m, ms, rfl⟩ := List.exists_cons_of_ne_nil habove
      rw [List.cons_append, List.cons.injEq] at heq
      obtain ⟨rfl, heq⟩ := heq
      cases ms with
      | nil => exact hout
      | cons m ms =>
        rw [List.append_cons]
        exact hentered _ below (by simp) hbelow heq
    · rwa [List.append_cons]

theorem mem_walkEntries {e : String × List (List String)} :
    e ∈ walkEntries excluded base es ↔ ∃ t, (e.1, t) ∈ es ∧ isHidden e.1 = false ∧
      excluded (placeText (base ++ [e.1]) ++ "/") = false ∧
      e.2 = t.walkFrom excluded (base ++ [e.1]) := by
  induction es with
  | nil => simp [walkEntries]
  | cons a es ih =>
    obtain ⟨n, t⟩ := a
    obtain ⟨m, ls⟩ := e
    rw [walkEntries]
    split
    · rename_i hout
      rw [ih]
      refine exists_congr fun u => ?_
      rw [List.mem_cons]
      refine ⟨fun ⟨hmem, h⟩ => ⟨.inr hmem, h⟩, ?_⟩
      rintro ⟨heq | hmem, hshown, hentered, h⟩
      · cases heq
        simp [hshown, hentered] at hout
      · exact ⟨hmem, hshown, hentered, h⟩
    · rename_i hin
      rw [Bool.or_eq_true, not_or, Bool.not_eq_true, Bool.not_eq_true] at hin
      rw [List.mem_cons, ih]
      constructor
      · rintro (heq | ⟨u, hmem, h⟩)
        · cases heq
          exact ⟨t, List.mem_cons_self, hin.1, hin.2, rfl⟩
        · exact ⟨u, List.mem_cons_of_mem _ hmem, h⟩
      · rintro ⟨u, hmem, hshown, hentered, h⟩
        rcases List.mem_cons.mp hmem with heq | hmem
        · cases heq
          exact .inl (Prod.ext rfl h)
        · exact .inr ⟨u, hmem, hshown, hentered, h⟩

/-- The entries of a directory that a walk enters keep their order. -/
theorem sublist_walkEntries :
    ((walkEntries excluded base es).map Prod.fst).Sublist (es.map Prod.fst) := by
  induction es with
  | nil => exact .slnil
  | cons a es ih =>
    obtain ⟨n, t⟩ := a
    rw [walkEntries]
    split
    · exact ih.cons n
    · exact ih.cons_cons n

/-- **What a walk through a directory gives**: files of its own, and what walks through its
subdirectories give. -/
theorem mem_walkFrom_dir :
    l ∈ (dir es).walkFrom excluded base ↔
      (∃ n c, (n, file c) ∈ es ∧ isHidden n = false ∧ excluded (placeText (base ++ [n])) = false ∧
        l = base ++ [n]) ∨
      ∃ n t, (n, t) ∈ es ∧ isHidden n = false ∧
        excluded (placeText (base ++ [n]) ++ "/") = false ∧
        l ∈ t.walkFrom excluded (base ++ [n]) := by
  rw [walkFrom, List.mem_append, List.mem_filterMap, List.mem_flatMap]
  refine or_congr ?_ ?_
  · constructor
    · rintro ⟨⟨n, t⟩, hmem, h⟩
      dsimp only at h
      split at h
      · cases h
      · rename_i hin
        simp only [Bool.or_eq_true, not_or, Bool.not_eq_true] at hin
        cases t with
        | dir _ => cases hin.1.1
        | file c =>
          exact ⟨n, c, (mem_sortBy _).mp hmem, hin.1.2, hin.2, (Option.some.inj h).symm⟩
    · rintro ⟨n, c, hmem, hshown, hkept, rfl⟩
      exact ⟨(n, file c), (mem_sortBy _).mpr hmem, by simp [isDir, hshown, hkept]⟩
  · constructor
    · rintro ⟨e, he, hl⟩
      obtain ⟨t, hmem, hshown, hentered, heq⟩ := mem_walkEntries.mp ((mem_sortBy _).mp he)
      exact ⟨e.1, t, hmem, hshown, hentered, heq ▸ hl⟩
    · rintro ⟨n, t, hmem, hshown, hentered, hl⟩
      exact ⟨(n, t.walkFrom excluded (base ++ [n])),
        (mem_sortBy _).mpr (mem_walkEntries.mpr ⟨t, hmem, hshown, hentered, rfl⟩), hl⟩

/-- What is listed. -/
theorem mem_walkFrom_of_isListed (ht : t.isDistinct = true) (hplace : place ≠ [])
    (h : t.IsListed excluded base place) : base ++ place ∈ t.walkFrom excluded base := by
  induction place generalizing t base with
  | nil => exact absurd rfl hplace
  | cons n ns ih =>
    obtain ⟨c, hc⟩ := h.isFile
    rw [get?_cons, Option.bind_eq_some_iff] at hc
    obtain ⟨u, hu, hc⟩ := hc
    cases t with
    | file _ => cases hu
    | dir es =>
      obtain ⟨hes, hdistinct⟩ := isDistinct_dir.mp ht
      have hmem := mem_of_lookup hu
      rw [mem_walkFrom_dir]
      cases ns with
      | nil =>
        obtain rfl := Option.some.inj hc
        obtain ⟨hshown, hkept⟩ := (isListed_file hes hmem).mp h
        exact .inl ⟨n, c, hmem, hshown, hkept, rfl⟩
      | cons m ns =>
        obtain ⟨hshown, hentered, h⟩ := (isListed_cons hes hmem (by simp)).mp h
        rw [List.append_cons]
        exact .inr ⟨n, u, hmem, hshown, hentered, ih (hdistinct _ hmem) (by simp) h⟩

mutual

/-- What a walk gives is to be listed. -/
theorem isListed_of_mem_walkFrom : ∀ {t : FileTree} {base l : List String},
    t.isDistinct = true → l ∈ t.walkFrom excluded base →
    ∃ place, place ≠ [] ∧ l = base ++ place ∧ t.IsListed excluded base place
  | file _, base, l, _, h => by
    rw [walkFrom] at h
    cases h
  | dir es, base, l, ht, h => by
    obtain ⟨hes, hdistinct⟩ := isDistinct_dir.mp ht
    rcases mem_walkFrom_dir.mp h with ⟨n, c, hmem, hshown, hkept, rfl⟩ |
      ⟨n, t, hmem, hshown, hentered, hl⟩
    · exact ⟨[n], by simp, rfl, (isListed_file hes hmem).mpr ⟨hshown, hkept⟩⟩
    · obtain ⟨place, hplace, rfl, hlisted⟩ :=
        isListed_of_mem_entry hmem (hdistinct _ hmem) hl
      exact ⟨n :: place, by simp, List.append_cons .. |>.symm,
        (isListed_cons hes hmem hplace).mpr ⟨hshown, hentered, hlisted⟩⟩

/-- What a walk through an entry gives is to be listed. -/
theorem isListed_of_mem_entry : ∀ {es : List (String × FileTree)} {n : String} {t : FileTree}
    {base l : List String}, (n, t) ∈ es → t.isDistinct = true → l ∈ t.walkFrom excluded base →
    ∃ place, place ≠ [] ∧ l = base ++ place ∧ t.IsListed excluded base place
  | (m, u) :: es, n, t, base, l, hmem, ht, hl => by
    by_cases heq : (n, t) = (m, u)
    · cases heq
      exact isListed_of_mem_walkFrom ht hl
    · exact isListed_of_mem_entry ((List.mem_cons.mp hmem).resolve_left heq) ht hl

end

/-! ## In which order a walk gives it -/

/-- The files of a directory come by name. -/
theorem pairwise_files (hes : (es.map Prod.fst).Nodup) :
    (((sortEntries es).filterMap fun (n, t) =>
      if t.isDir || isHidden n || excluded (placeText (base ++ [n])) then none
      else some (base ++ [n])).Pairwise Precedes) := by
  refine List.Pairwise.filterMap _ ?_ (pairwise_lt_sortBy hes)
  rintro ⟨n, t⟩ ⟨m, u⟩ hlt a ha b hb
  dsimp only at ha hb
  split at ha
  · cases ha
  · split at hb
    · cases hb
    · cases ha
      cases hb
      exact (Precedes.files hlt).append base

/-- What is below the subdirectories comes by their names. -/
theorem pairwise_below (ht : (dir es).isDistinct = true)
    (h : ∀ e ∈ es, (e.2.walkFrom excluded (base ++ [e.1])).Pairwise Precedes) :
    ((sortEntries (walkEntries excluded base es)).flatMap Prod.snd).Pairwise Precedes := by
  obtain ⟨hes, hdistinct⟩ := isDistinct_dir.mp ht
  have hnames : ((walkEntries excluded base es).map Prod.fst).Nodup := sublist_walkEntries.nodup hes
  have hsorted : (sortEntries (walkEntries excluded base es)).Pairwise fun a b => a.1 < b.1 :=
    pairwise_lt_sortBy hnames
  rw [List.pairwise_flatMap]
  refine ⟨fun e he => ?_, ?_⟩
  · obtain ⟨t, hmem, -, -, heq⟩ := mem_walkEntries.mp ((mem_sortBy _).mp he)
    exact heq ▸ h _ hmem
  · refine hsorted.imp_of_mem fun {a b} ha hb hlt x hx y hy => ?_
    obtain ⟨t, hmem, -, -, heq⟩ := mem_walkEntries.mp ((mem_sortBy _).mp ha)
    obtain ⟨u, hmem', -, -, heq'⟩ := mem_walkEntries.mp ((mem_sortBy _).mp hb)
    rw [heq] at hx
    rw [heq'] at hy
    obtain ⟨ns, hns, rfl, -⟩ := isListed_of_mem_walkFrom (hdistinct _ hmem) hx
    obtain ⟨ms, hms, rfl, -⟩ := isListed_of_mem_walkFrom (hdistinct _ hmem') hy
    obtain ⟨k, ns, rfl⟩ := List.exists_cons_of_ne_nil hns
    obtain ⟨l, ms, rfl⟩ := List.exists_cons_of_ne_nil hms
    rw [← List.append_cons, ← List.append_cons]
    exact (Precedes.directories hlt).append base

/-- The walk through a directory is in order if those through its entries are. -/
theorem pairwise_walkFrom_dir (ht : (dir es).isDistinct = true)
    (h : ∀ e ∈ es, (e.2.walkFrom excluded (base ++ [e.1])).Pairwise Precedes) :
    ((dir es).walkFrom excluded base).Pairwise Precedes := by
  obtain ⟨hes, hdistinct⟩ := isDistinct_dir.mp ht
  rw [walkFrom, List.pairwise_append]
  refine ⟨pairwise_files hes, pairwise_below ht h, fun a ha b hb => ?_⟩
  obtain ⟨⟨n, t⟩, -, ha⟩ := List.mem_filterMap.mp ha
  obtain ⟨e, he, hb⟩ := List.mem_flatMap.mp hb
  obtain ⟨u, hmem, -, -, heq⟩ := mem_walkEntries.mp ((mem_sortBy _).mp he)
  rw [heq] at hb
  obtain ⟨ms, hms, rfl, -⟩ := isListed_of_mem_walkFrom (hdistinct _ hmem) hb
  obtain ⟨k, ms, rfl⟩ := List.exists_cons_of_ne_nil hms
  dsimp only at ha
  split at ha
  · cases ha
  · cases ha
    rw [← List.append_cons]
    exact Precedes.fileFirst.append base

mutual

/-- **A walk is in order.** -/
theorem pairwise_walkFrom : ∀ {t : FileTree} {base : List String}, t.isDistinct = true →
    (t.walkFrom excluded base).Pairwise Precedes
  | file _, base, _ => by
    rw [walkFrom]
    exact .nil
  | dir es, base, ht =>
    pairwise_walkFrom_dir ht (pairwise_walkFrom_entry (isDistinct_dir.mp ht).2)

/-- The walks through the entries of a directory are in order. -/
theorem pairwise_walkFrom_entry : ∀ {es : List (String × FileTree)} {base : List String},
    (∀ e ∈ es, e.2.isDistinct = true) →
    ∀ e ∈ es, (e.2.walkFrom excluded (base ++ [e.1])).Pairwise Precedes
  | [], _, _ => List.forall_mem_nil _
  | (_, _) :: _, _, h =>
    List.forall_mem_cons.mpr ⟨pairwise_walkFrom (List.forall_mem_cons.mp h).1,
      pairwise_walkFrom_entry (List.forall_mem_cons.mp h).2⟩

end

end FileTree

/-! ## Walks on a disk -/

namespace Disk

open FileTree

/-- **The files below a directory.** A walk gives each file that is to be listed exactly once and
nothing else: the files with no hidden component in their path below the root, of which neither a
directory below the root is left out nor the file itself. In every directory its own files come
first, by name, and then all that is below its subdirectories, by the names of these. -/
theorem files_listed {d : Disk} (hd : d.tree.isDistinct = true) (excluded : String → Bool)
    {root : Path} {t : FileTree} (hroot : d.find? root = some t) (ht : t.isDir = true) :
    ∃ places : List (List String),
      d.files excluded root = .ok (places.map fun place => root / .relative place) ∧
      (∀ place, (t.IsListed excluded [] place → places.count place = 1) ∧
        (¬ t.IsListed excluded [] place → places.count place = 0)) ∧
      places.Pairwise Precedes := by
  have hdistinct : t.isDistinct = true := by
    unfold find? at hroot
    split at hroot
    · exact isDistinct_of_get? hd hroot
    · cases hroot
  have hordered : (t.walk excluded).Pairwise Precedes := pairwise_walkFrom hdistinct
  have hnodup : (t.walk excluded).Nodup := hordered.imp fun {a b} h heq => (heq ▸ h).irrefl
  refine ⟨t.walk excluded, files_of_places (places_ok.mpr ⟨t, hroot, ht, rfl⟩), ?_, hordered⟩
  refine fun place => ⟨fun h => ?_, fun h => List.count_eq_zero.mpr fun hmem => h ?_⟩
  · refine List.count_eq_one_of_mem hnodup (mem_walkFrom_of_isListed hdistinct ?_ h)
    rintro rfl
    obtain ⟨c, hc⟩ := h.isFile
    cases t with
    | file _ => cases ht
    | dir es => cases hc
  · obtain ⟨_, -, rfl, hlisted⟩ := isListed_of_mem_walkFrom hdistinct hmem
    exact hlisted

/-- A tree with a hidden file, a subdirectory and files in it. -/
def sampleTree : FileTree :=
  .dir [("sub", .dir [("c.html", .file []), ("a.html", .file [])]), ("b.html", .file []),
    (".b.html", .file []), ("node", .dir [("sub", .dir [("d.html", .file [])])])]

/-- In one directory of a disk, below a subdirectory that is left out no file is listed. -/
theorem files_listed_sample :
    (⟨.dir [("site", sampleTree)], []⟩ : Disk).tree.isDistinct = true ∧
    (⟨.dir [("site", sampleTree)], []⟩ : Disk).find? (.parse "site") = some sampleTree ∧
    sampleTree.isDir = true ∧
    ∃ places : List (List String),
      (⟨.dir [("site", sampleTree)], []⟩ : Disk).files (· == "node/") (.parse "site") =
        .ok (places.map fun place => .parse "site" / .relative place) ∧
      places.count ["sub", "a.html"] = 1 ∧ places.count [".b.html"] = 0 ∧
      places.count ["node", "sub", "d.html"] = 0 ∧ places.Pairwise Precedes := by
  have hdistinct : (⟨.dir [("site", sampleTree)], []⟩ : Disk).tree.isDistinct = true := by decide
  have hfind : (⟨.dir [("site", sampleTree)], []⟩ : Disk).find? (.parse "site") =
      some sampleTree := by rfl
  obtain ⟨places, hfiles, hcount, hordered⟩ := files_listed hdistinct (· == "node/") hfind rfl
  refine ⟨hdistinct, hfind, rfl, places, hfiles, (hcount _).1 ?_, (hcount _).2 ?_, (hcount _).2 ?_,
    hordered⟩
  · rw [sampleTree, isListed_cons (by decide) (.head _) (by simp),
      isListed_file (by decide) (.tail _ (.head _))]
    decide
  · intro h
    have := h.shown ".b.html" (.head _)
    revert this
    decide
  · intro h
    have := h.entered ["node"] ["sub", "d.html"] (by simp) (by simp) rfl
    revert this
    decide

end Disk

end Stencil
