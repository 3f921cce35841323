import Stencil.Proofs.DiskFrame

/-!
# The ways of paths

A path comes by the places of all directories that lead to what it names. Making these directories
fails exactly if a regular file stands at one of the places; then no path that comes by there leads
anywhere.

* `FileTree.isDistinct`, `Disk.Sound`: no two entries of a directory have one name, and the current
  directory exists; `FileTree.get?_remove`: what is removed from such a tree is gone.
* `Disk.way`: the places that a path comes by; `Disk.IsBlocked`: a file stands at one of them.
* **`Disk.makeDirs_cases`**: the directories of a path are made, or the path is blocked.
-/

namespace Stencil

/-! ## Distinct names -/

namespace FileTree

mutual

/-- **No two entries of a directory have one name**, anywhere in a tree. -/
def isDistinct : FileTree → Bool
  | file _ => true
  | dir es => decide (es.map Prod.fst).Nodup && distinctEntries es

/-- The same of the trees among entries. -/
def distinctEntries : List (String × FileTree) → Bool
  | [] => true
  | (_, t) :: es => t.isDistinct && distinctEntries es

end

variable {t u : FileTree} {es : List (String × FileTree)} {name : String} {place : List String}
  {change : Option FileTree → Option FileTree}

theorem distinctEntries_iff : distinctEntries es = true ↔ ∀ e ∈ es, e.2.isDistinct = true := by
  induction es with
  | nil => exact iff_of_true rfl (List.forall_mem_nil _)
  | cons e es ih =>
    obtain ⟨n, t⟩ := e
    rw [distinctEntries, Bool.and_eq_true, ih, List.forall_mem_cons]

theorem isDistinct_dir : (dir es).isDistinct = true ↔
    (es.map Prod.fst).Nodup ∧ ∀ e ∈ es, e.2.isDistinct = true := by
  rw [isDistinct, Bool.and_eq_true, decide_eq_true_iff, distinctEntries_iff]

theorem mem_names_alterEntry {n : String} (h : n ∈ (alterEntry name change es).map Prod.fst) :
    n = name ∨ n ∈ es.map Prod.fst := by
  induction es with
  | nil =>
    obtain ⟨e, he, rfl⟩ := List.mem_map.mp h
    obtain ⟨t, -, rfl⟩ := Option.map_eq_some_iff.mp (Option.mem_toList.mp he)
    exact .inl rfl
  | cons e es ih =>
    obtain ⟨m, t⟩ := e
    unfold alterEntry at h
    split at h
    · rw [List.map_append, List.mem_append] at h
      rcases h with h | h
      · obtain ⟨e, he, rfl⟩ := List.mem_map.mp h
        obtain ⟨u, -, rfl⟩ := Option.map_eq_some_iff.mp (Option.mem_toList.mp he)
        exact .inr List.mem_cons_self
      · exact .inr (List.mem_cons_of_mem _ h)
    · rcases List.mem_cons.mp h with rfl | h
      · exact .inr List.mem_cons_self
      · exact (ih h).imp_right (List.mem_cons_of_mem _)

/-- A change that gives trees with distinct names if it is given such. -/
def KeepsDistinct (change : Option FileTree → Option FileTree) : Prop :=
  ∀ o, (∀ t ∈ o, t.isDistinct = true) → ∀ u ∈ change o, u.isDistinct = true

theorem isDistinct_alterEntry (hchange : KeepsDistinct change)
    (h : (dir es).isDistinct = true) : (dir (alterEntry name change es)).isDistinct = true := by
  rw [isDistinct_dir] at h ⊢
  induction es with
  | nil =>
    rw [alterEntry]
    cases hu : change none with
    | none => exact ⟨List.nodup_nil, List.forall_mem_nil _⟩
    | some u =>
      refine ⟨List.nodup_cons.mpr ⟨List.not_mem_nil, List.nodup_nil⟩,
        List.forall_mem_singleton.mpr ?_⟩
      exact hchange none (fun _ h => (by cases h)) u hu
  | cons e es ih =>
    obtain ⟨m, t⟩ := e
    rw [List.map_cons, List.nodup_cons, List.forall_mem_cons] at h
    obtain ⟨⟨hm, hnodup⟩, ht, hes⟩ := h
    rw [alterEntry]
    split
    · cases hu : change (some t) with
      | none => exact ⟨hnodup, hes⟩
      | some u =>
        refine ⟨List.nodup_cons.mpr ⟨hm, hnodup⟩, List.forall_mem_cons.mpr ⟨?_, hes⟩⟩
        exact hchange (some t) (fun v hv => Option.some.inj hv ▸ ht) u hu
    · rename_i hne
      obtain ⟨hnodup', hes'⟩ := ih ⟨hnodup, hes⟩
      refine ⟨List.nodup_cons.mpr ⟨fun hmem => ?_, hnodup'⟩, List.forall_mem_cons.mpr ⟨ht, hes'⟩⟩
      exact (mem_names_alterEntry hmem).elim hne hm

/-- **A change at a place keeps names distinct**, if what it puts there has distinct names. -/
theorem keepsDistinct_alter (hchange : KeepsDistinct change) (place : List String) :
    KeepsDistinct (alter change place) := by
  induction place with
  | nil => exact hchange
  | cons n ns ih =>
    intro o ho u hu
    cases o with
    | none => cases hu
    | some t =>
      cases t with
      | file c => exact ho u hu
      | dir es =>
        cases hu
        exact isDistinct_alterEntry ih (ho _ rfl)

theorem isDistinct_put (ht : t.isDistinct = true) (hu : u.isDistinct = true) :
    (t.put place u).isDistinct = true :=
  keepsDistinct_alter (fun _ _ _ h => Option.some.inj h ▸ hu) place (some t)
    (fun _ h => Option.some.inj h ▸ ht) _ (alter_put t u place)

theorem isDistinct_remove (ht : t.isDistinct = true) : (t.remove place).isDistinct = true := by
  rw [remove]
  cases hu : alter (fun _ => none) place (some t) with
  | none => exact ht
  | some u =>
    have hkeeps : KeepsDistinct fun _ => none := fun _ _ _ h => (by cases h)
    exact keepsDistinct_alter hkeeps place (some t) (fun _ h => Option.some.inj h ▸ ht) u hu

/-- An entry is removed with its name, if no other one has it. -/
theorem lookup_alterEntry_none (h : (es.map Prod.fst).Nodup) :
    (alterEntry name (fun _ => none) es).lookup name = none := by
  induction es with
  | nil => rfl
  | cons e es ih =>
    obtain ⟨m, t⟩ := e
    rw [List.map_cons, List.nodup_cons] at h
    by_cases hm : m = name
    · subst hm
      rw [alterEntry, if_pos rfl, Option.map_none, Option.toList_none, List.nil_append,
        List.lookup_eq_none_iff]
      rintro ⟨k, u⟩ he
      exact bne_iff_ne.mpr fun heq => h.1 (List.mem_map.mpr ⟨_, he, heq.symm⟩)
    · rw [alterEntry, if_neg hm, List.lookup_cons, beq_eq_false_iff_ne.mpr (Ne.symm hm), ih h.2]

/-- **What is removed is gone.** -/
theorem get?_remove (ht : t.isDistinct = true) (hplace : place ≠ []) :
    (t.remove place).get? place = none := by
  induction place generalizing t with
  | nil => exact absurd rfl hplace
  | cons n ns ih =>
    cases t with
    | file c => rfl
    | dir es =>
      obtain ⟨hnodup, hes⟩ := isDistinct_dir.mp ht
      cases ns with
      | nil =>
        show (dir (alterEntry n (alter (fun _ => none) []) es)).get? [n] = none
        rw [get?_cons, entries]
        exact congrArg (Option.bind · _) (lookup_alterEntry_none hnodup)
      | cons k ks =>
        cases hu : es.lookup n with
        | none => exact get?_alter_cons_none hu
        | some u =>
          exact (get?_alter_cons hu).trans (ih (hes _ (mem_of_lookup hu)) (List.cons_ne_nil _ _))

end FileTree

namespace Disk

/-- **A disk as a file system has it**: no two entries of a directory have one name, and the current
directory is there. -/
structure Sound (d : Disk) : Prop where
  distinct : d.tree.isDistinct = true
  current : d.HasDir d.current

/-! ## The places that a path comes by -/

/-- **The places that are come by** from a place over the parts of a path. -/
def wayFrom : List String → List String → List (List String)
  | place, [] => [place]
  | place, part :: parts => place :: wayFrom (into place part) parts

/-- The place that a path starts at. -/
def startOf (d : Disk) (p : Path) : List String := if p.isAbsolute then [] else d.current

/-- **The places that a path comes by**, from the one that it starts at to the one that it names. -/
def way (d : Disk) (p : Path) : List (List String) := wayFrom (d.startOf p) p.parts

/-- **A path is blocked**: a regular file stands at one of the places that it comes by. -/
def IsBlocked (d : Disk) (p : Path) : Prop := ∃ l ∈ d.way p, (d.fileAt l).isSome

/-- There is a directory at a place as soon as those that a path comes by are made. -/
def GetsDir (d : Disk) (p : Path) (l : List String) : Prop := d.HasDir l ∨ l ∈ d.way p

variable {d d' : Disk} {p : Path} {place l m : List String} {part n : String}
  {parts : List String} {r : Except DiskProblem Unit}

theorem fileAt_eq_some {c : List UInt8} :
    d.fileAt l = some c ↔ d.tree.get? l = some (.file c) := by
  rw [fileAt, Option.bind_eq_some_iff]
  constructor
  · rintro ⟨t, ht, hc⟩
    cases t with
    | file c' => rw [ht, Option.some.inj hc]
    | dir es => cases hc
  · intro h
    exact ⟨_, h, rfl⟩

theorem any_isDir : (d.tree.get? l).any (·.isDir) = true ↔ d.HasDir l := by
  unfold HasDir
  cases d.tree.get? l with
  | none => simp
  | some t => cases t <;> simp [FileTree.isDir]

theorem fileAt_of_hasDir (h : d.HasDir l) : d.fileAt l = none := by
  obtain ⟨es, he⟩ := h
  rw [fileAt, he]
  rfl

/-- Whatever leads to a directory is one. -/
theorem HasDir.of_prefix (h : d.HasDir l) (hm : m <+: l) : d.HasDir m := by
  by_contra hno
  exact not_prefix_of_hasDir hno h hm

theorem Sound.hasDir_startOf (h : d.Sound) (p : Path) : d.HasDir (d.startOf p) := by
  unfold startOf
  split
  · exact h.current.of_prefix List.nil_prefix
  · exact h.current

/-- Something can be put at a place: it is a directory, or there is one that it belongs to. -/
def HasRoom (d : Disk) (l : List String) : Prop := d.HasDir l ∨ ∃ m n, l = m ++ [n] ∧ d.HasDir m

/-- From a directory every part of a path leads on. -/
theorem HasDir.hasRoom_into (h : d.HasDir place) (part : String) : d.HasRoom (into place part) := by
  unfold into
  split
  · exact .inl (h.of_prefix (List.dropLast_prefix place))
  · exact .inr ⟨place, part, rfl, h⟩

/-! ## Making directories -/

/-- A new directory is the only one that is there now and was not before. -/
theorem hasDir_put_dir (hnone : d.tree.get? place = none) (hroom : d.HasRoom place) :
    HasDir { d with tree := d.tree.put place (.dir []) } l ↔ d.HasDir l ∨ l = place := by
  obtain ⟨es, he⟩ | ⟨m, n, rfl, es, he⟩ := hroom
  · cases hnone.symm.trans he
  have hput : (d.tree.put (m ++ [n]) (.dir [])).get? (m ++ [n]) = some (.dir []) :=
    FileTree.get?_put_self he
  by_cases hl : m ++ [n] <+: l
  · obtain ⟨k, rfl⟩ := hl
    have hold : ¬ d.HasDir (m ++ [n] ++ k) := by
      rintro ⟨es', he'⟩
      rw [FileTree.get?_append, hnone] at he'
      cases he'
    rw [or_iff_right hold, List.append_right_eq_self]
    unfold HasDir
    rw [FileTree.get?_append, hput, Option.bind_some]
    cases k <;> simp [FileTree.get?, FileTree.entries]
  · have hne : l ≠ m ++ [n] := fun heq => hl (heq ▸ List.prefix_rfl)
    rw [or_iff_left hne]
    rcases FileTree.alike_alter (fun _ => some (.dir [])) d.tree hl with heq | ⟨es', es'', h, h'⟩
    · unfold HasDir
      rw [heq]
      rfl
    · exact iff_of_true ⟨es'', h'⟩ ⟨es', h⟩

/-- **A directory is made**, or a file stands in its place. -/
theorem makeDir_outcome (hp : d.locate p = .ok place) (hroom : d.HasRoom place)
    (h : Runs (makeDir p) d r d') :
    (r = .ok () ∧ d.fileAt place = none ∧ Alters (fun _ => False) d d' ∧
      (d.tree.isDistinct = true → d'.tree.isDistinct = true) ∧
      ∀ l, d'.HasDir l ↔ d.HasDir l ∨ l = place) ∨
    (∃ e, r = .error e) ∧ (d.fileAt place).isSome ∧ d' = d := by
  unfold makeDir at h
  simp only [runs_place_bind, runs_get_bind, hp] at h
  rcases h with ⟨_, hl, h⟩ | ⟨e, he, -⟩
  · cases hl
    split at h
    · rename_i es hdir
      obtain ⟨rfl, rfl⟩ := runs_pure.mp h
      have hhas : d'.HasDir place := ⟨es, hdir⟩
      refine .inl ⟨rfl, fileAt_of_hasDir hhas, .refl, id, fun l => (or_iff_left_of_imp ?_).symm⟩
      rintro rfl
      exact hhas
    · rename_i c hfile
      obtain ⟨rfl, rfl⟩ := runs_throw.mp h
      refine .inr ⟨⟨_, rfl⟩, ?_, rfl⟩
      rw [fileAt, hfile]
      rfl
    · rename_i hnone
      obtain ⟨rfl, rfl⟩ := runs_modify.mp h
      refine .inl ⟨rfl, by rw [fileAt, hnone]; rfl, alters_put_dir hnone, fun ht => ?_,
        fun l => hasDir_put_dir hnone hroom⟩
      exact FileTree.isDistinct_put ht (by decide)
  · cases he

/-! ### The way of a path -/

theorem follow_of_hasDir (h : d.HasDir place) :
    d.follow place (part :: parts) = d.follow (into place part) parts := by
  rw [follow, checkDir_ok.mpr h]
  rfl

/-- No path leads on from a file. -/
theorem follow_of_file (h : (d.fileAt place).isSome) :
    d.follow place (part :: parts) = .error .notADirectory := by
  obtain ⟨c, hc⟩ := Option.isSome_iff_exists.mp h
  rw [follow, checkDir, fileAt_eq_some.mp hc]

theorem foldl_mem_wayFrom : parts.foldl into place ∈ wayFrom place parts := by
  induction parts generalizing place with
  | nil => exact List.mem_singleton_self _
  | cons part parts ih => exact List.mem_cons_of_mem _ ih

/-- What a path names is on its way. -/
theorem placeOf_mem_way (d : Disk) (p : Path) : d.placeOf p ∈ d.way p := foldl_mem_wayFrom

/-- A way over directories is followed to its end. -/
theorem follow_of_way (h : ∀ l ∈ wayFrom place parts, d.HasDir l) :
    d.follow place parts = .ok (parts.foldl into place) := by
  induction parts generalizing place with
  | nil => rfl
  | cons part parts ih =>
    obtain ⟨hplace, hparts⟩ := List.forall_mem_cons.mp h
    rw [follow_of_hasDir hplace, ih hparts]
    rfl

/-- From a directory every name leads on. -/
theorem locate_child_into (hp : d.locate p = .ok place) (h : d.HasDir place) :
    d.locate (p.child part) = .ok (into place part) :=
  follow_append.mpr ⟨place, hp, follow_of_hasDir h⟩

/-- **The directories on the way from a place are made**, or a file is found there. -/
theorem makeDirsFrom_cases (hp : d.locate p = .ok place) (hroom : d.HasRoom place)
    (h : Runs (makeDirsFrom p parts) d r d') :
    Alters (fun _ => False) d d' ∧ (d.tree.isDistinct = true → d'.tree.isDistinct = true) ∧
    ((r = .ok () ∧ (∀ l ∈ wayFrom place parts, d.fileAt l = none) ∧
        ∀ l, d'.HasDir l ↔ d.HasDir l ∨ l ∈ wayFrom place parts) ∨
      (∃ e, r = .error e) ∧ (∃ l ∈ wayFrom place parts, (d.fileAt l).isSome) ∧
        ∀ n, d'.follow place (parts ++ [n]) = .error .notADirectory) := by
  induction parts generalizing p place d with
  | nil =>
    rcases makeDir_outcome hp hroom h with ⟨rfl, hfile, hd, hdistinct, hdirs⟩ | ⟨he, hfile, rfl⟩
    · refine ⟨hd, hdistinct, .inl ⟨rfl, List.forall_mem_singleton.mpr hfile, fun l => ?_⟩⟩
      rw [hdirs, wayFrom, List.mem_singleton]
    · exact ⟨.refl, id, .inr ⟨he, ⟨_, List.mem_cons_self, hfile⟩, fun n => follow_of_file hfile⟩⟩
  | cons part parts ih =>
    rcases runs_bind.mp h with ⟨_, d₁, hone, h⟩ | ⟨e, hone, rfl⟩
    · obtain ⟨-, hfile, hd₁, hdistinct₁, hdirs₁⟩ | ⟨⟨e, he⟩, -⟩ := makeDir_outcome hp hroom hone
      · -- the place is a directory now, and the way goes on from it
        have hplace : d₁.HasDir place := (hdirs₁ place).mpr (.inr rfl)
        have hsame : ∀ l, d₁.fileAt l = d.fileAt l := fun l => hd₁.files l id
        obtain ⟨hd, hdistinct, hcases⟩ :=
          ih (locate_child_into (hd₁.locate hp) hplace) (hplace.hasRoom_into part) h
        refine ⟨hd₁.trans hd, hdistinct ∘ hdistinct₁, ?_⟩
        simp only [hsame, hdirs₁] at hcases
        rcases hcases with ⟨rfl, hfree, hdirs⟩ | ⟨he, ⟨l, hl, hblocked⟩, hlost⟩
        · refine .inl ⟨rfl, List.forall_mem_cons.mpr ⟨hfile, hfree⟩, fun l => ?_⟩
          rw [hdirs, wayFrom, List.mem_cons, or_assoc]
        · refine .inr ⟨he, ⟨l, List.mem_cons_of_mem _ hl, hblocked⟩, fun n => ?_⟩
          rw [List.cons_append, follow_of_hasDir (hd.dirs place hplace)]
          exact hlost n
      · cases he
    · obtain ⟨he, -⟩ | ⟨-, hfile, rfl⟩ := makeDir_outcome hp hroom hone
      · cases he
      · exact ⟨.refl, id,
          .inr ⟨⟨e, rfl⟩, ⟨_, List.mem_cons_self, hfile⟩, fun n => follow_of_file hfile⟩⟩

theorem Sound.of_alters {touched : List String → Prop} (h : d.Sound) (hd : Alters touched d d')
    (hdistinct : d.tree.isDistinct = true → d'.tree.isDistinct = true) : d'.Sound :=
  ⟨hdistinct h.distinct, hd.current ▸ hd.dirs _ h.current⟩

/-- **The directories of a path are made**, or the path is blocked; then no path that comes by there
leads anywhere. -/
theorem makeDirs_cases (hd : d.Sound) (h : Runs (makeDirs p) d r d') :
    Alters (fun _ => False) d d' ∧ d'.Sound ∧
    ((r = .ok () ∧ ¬ d.IsBlocked p ∧ ∀ l, d'.HasDir l ↔ d.GetsDir p l) ∨
      (∃ e, r = .error e) ∧ d.IsBlocked p ∧
        ∀ n, d'.locate (p.child n) = .error .notADirectory) := by
  have hstart : d.locate ⟨p.root, []⟩ = .ok (d.startOf p) := rfl
  obtain ⟨halters, hdistinct, hcases⟩ :=
    makeDirsFrom_cases hstart (.inl (hd.hasDir_startOf p)) h
  refine ⟨halters, hd.of_alters halters hdistinct, ?_⟩
  rcases hcases with ⟨rfl, hfree, hdirs⟩ | ⟨he, hblocked, hlost⟩
  · refine .inl ⟨rfl, ?_, hdirs⟩
    rintro ⟨l, hl, hfile⟩
    rw [hfree l hl] at hfile
    cases hfile
  · refine .inr ⟨he, hblocked, fun n => ?_⟩
    have hsame : d'.startOf p = d.startOf p := by rw [startOf, startOf, halters.current]
    exact (congrArg (d'.follow · (p.parts ++ [n])) hsame).trans (hlost n)

/-- Once the directories of a path are made, it leads to where it names. -/
theorem locate_of_getsDir (hcurrent : d'.current = d.current)
    (hdirs : ∀ l, d'.HasDir l ↔ d.GetsDir p l) : d'.locate p = .ok (d.placeOf p) := by
  unfold locate
  rw [hcurrent]
  exact follow_of_way fun l hl => (hdirs l).mpr (.inr hl)

/-- The place of a path with one more part. -/
theorem placeOf_child (d : Disk) (p : Path) (part : String) :
    d.placeOf (p.child part) = into (d.placeOf p) part :=
  List.foldl_append

/-! ## Files that are put, moved and removed -/

/-- A new file makes no directory. -/
theorem hasDir_put_file {c : List UInt8} (hplace : ¬ d.HasDir place) :
    HasDir { d with tree := d.tree.put place (.file c) } l ↔ d.HasDir l := by
  refine ⟨fun ⟨es, he⟩ => ?_, (alters_put_file hplace).dirs l⟩
  by_cases hl : place <+: l
  · obtain ⟨k, rfl⟩ := hl
    rcases FileTree.get?_put_below d.tree (.file c) place k with h | h
    · rw [h] at he
      cases k <;> cases he
    · exact ⟨es, h.symm.trans he⟩
  · rcases FileTree.alike_alter (fun _ => some (.file c)) d.tree hl with h | ⟨es', -, h, -⟩
    · exact ⟨es, h.trans he⟩
    · exact ⟨es', h⟩

/-- **A file that is removed is gone**, and it is the only one to change. -/
theorem alters_remove_file {c : List UInt8} (hd : d.tree.isDistinct = true) (hplace : place ≠ [])
    (h : d.fileAt place = some c) :
    Alters (· = place) d { d with tree := d.tree.remove place } ∧
      fileAt { d with tree := d.tree.remove place } place = none := by
  have hgone := FileTree.get?_remove hd hplace
  have halters : Alters (place <+: ·) d { d with tree := d.tree.remove place } :=
    alters_alter (not_hasDir_of_fileAt h)
  refine ⟨⟨rfl, halters.dirs, fun l hl => ?_⟩, by rw [fileAt, hgone]; rfl⟩
  by_cases hp : place <+: l
  · obtain ⟨k, rfl⟩ := hp
    have hk : k ≠ [] := fun hk => hl (by rw [hk, List.append_nil])
    rw [fileAt, fileAt, FileTree.get?_append, hgone, FileTree.get?_append, fileAt_eq_some.mp h,
      Option.bind_some, FileTree.get?_file hk, Option.bind_none]
  · exact halters.files l hp

/-- **A file that is moved** is at the other place, and only these two change. -/
theorem alters_move_file {c : List UInt8} (hd : d.tree.isDistinct = true) (hplace : place ≠ [])
    (hc : d.fileAt place = some c) (hl : ¬ d.HasDir l) (hne : ¬ place <+: l) :
    Alters (fun m => m = place ∨ m = l) d
        { d with tree := (d.tree.remove place).put l (.file c) } ∧
      fileAt { d with tree := (d.tree.remove place).put l (.file c) } place = none := by
  obtain ⟨hremove, hgone⟩ := alters_remove_file hd hplace hc
  have hl' : ¬ HasDir { d with tree := d.tree.remove place } l := by
    rintro ⟨es, he⟩
    rcases FileTree.alike_alter (fun _ => none) d.tree hne with heq | ⟨es', _, hdir, -⟩
    · exact hl ⟨es, heq.trans he⟩
    · exact hl ⟨es', hdir⟩
  have hput := alters_put_file (c := c) hl'
  refine ⟨(hremove.mono fun m => .inl).trans (hput.mono fun m => .inr), ?_⟩
  exact (hput.files place fun heq => hne (heq ▸ List.prefix_rfl)).trans hgone

variable {q : Path} {c : List UInt8}

/-- A file that is moved to where a path leads is read there. -/
theorem read_move_file (hd : d.tree.isDistinct = true) (hplace : place ≠ [])
    (hc : d.fileAt place = some c) (hl : ¬ d.HasDir l) (hne : ¬ place <+: l)
    (hq : d.locate q = .ok l) (hroom : d.HasRoom l) :
    read { d with tree := (d.tree.remove place).put l (.file c) } q = .ok c := by
  refine read_ok.mpr ⟨l, (alters_move_file hd hplace hc hl hne).1.locate hq, ?_⟩
  obtain hhas | ⟨m, n, rfl, hm⟩ := hroom
  · exact absurd hhas hl
  · exact fileAt_put ((alters_remove_file hd hplace hc).1.dirs m hm)

/-- What writing to a place does. -/
theorem write_located (hp : d.locate p = .ok place) (h : Runs (write p c) d r d') :
    (¬ d.HasDir place ∧ r = .ok () ∧ d' = { d with tree := d.tree.put place (.file c) }) ∨
      d.HasDir place ∧ r = .error .isADirectory ∧ d' = d := by
  unfold write at h
  simp only [runs_place_bind, runs_get_bind, hp] at h
  rcases h with ⟨_, hl, h⟩ | ⟨e, he, -⟩
  · cases hl
    split at h
    · rename_i hdir
      exact .inr ⟨any_isDir.mp hdir, runs_throw.mp h⟩
    · rename_i hdir
      exact .inl ⟨hdir ∘ any_isDir.mpr, runs_modify.mp h⟩
  · cases he

/-- What moving a file to a place does. -/
theorem rename_located (hp : d.locate p = .ok place) (hq : d.locate q = .ok l)
    (hc : d.fileAt place = some c) (h : Runs (rename p q) d r d') :
    (¬ d.HasDir l ∧ r = .ok () ∧
      d' = { d with tree := (d.tree.remove place).put l (.file c) }) ∨
      d.HasDir l ∧ r = .error .isADirectory ∧ d' = d := by
  rw [fileAt_eq_some] at hc
  unfold rename at h
  simp only [runs_place_bind, runs_get_bind, hp, hq] at h
  rcases h with ⟨_, hs, ⟨_, ht, h⟩ | ⟨e, he, -⟩⟩ | ⟨e, he, -⟩
  · cases hs
    cases ht
    rw [hc] at h
    simp only [runs_get_bind] at h
    split at h
    · rename_i hdir
      exact .inr ⟨any_isDir.mp hdir, runs_throw.mp h⟩
    · rename_i hdir
      rw [remove, runs_modify_bind] at h
      exact .inl ⟨hdir ∘ any_isDir.mpr, runs_modify.mp h⟩
  · cases he
  · cases he

/-- What is not there cannot be removed. -/
theorem unlink_lost {e : DiskProblem} (hp : d.locate p = .error e) (he : e ≠ .missing)
    (h : Runs (unlink p) d r d') : r = .error e ∧ d' = d := by
  unfold unlink at h
  rw [runs_get_bind, hp] at h
  cases e with
  | missing => exact absurd rfl he
  | notADirectory | isADirectory | «exists» => exact runs_throw.mp h

/-- A directory is not removed. -/
theorem unlink_dir (hp : d.locate p = .ok place) (hdir : d.HasDir place)
    (h : Runs (unlink p) d r d') : r = .error .isADirectory ∧ d' = d := by
  obtain ⟨es, he⟩ := hdir
  unfold unlink at h
  simp only [runs_get_bind, hp, he] at h
  exact runs_throw.mp h

theorem unlink_file (hp : d.locate p = .ok place) (hc : d.fileAt place = some c)
    (h : Runs (unlink p) d r d') :
    r = .ok () ∧ d' = { d with tree := d.tree.remove place } := by
  unfold unlink at h
  simp only [runs_get_bind, hp, fileAt_eq_some.mp hc] at h
  exact runs_modify.mp h

end Disk

end Stencil
