import Mathlib.Data.List.Basic
import Stencil.Disk.Basic
import Stencil.Proofs.Actions
import Stencil.Proofs.Result

/-!
# What a change of the disk leaves alone

* `FileTree.alike_alter`, `FileTree.get?_put_append`: a change shows at its place and below.
* `Disk.fileAt`: the content of the file at a place; `Disk.placeOf`: the place that a path names.
* `Disk.Alters`: a change that touches no files but those at some places.
* `Disk.makeDirs_induction`, `Disk.write_cases`, `Disk.rename_cases`, `Disk.alters_unlink`: what
  each change of the disk does, also if it fails.
-/

namespace Stencil

/-! ## Trees -/

namespace FileTree

theorem get?_nil {t : FileTree} : t.get? [] = some t := by
  cases t <;> rfl

theorem get?_cons {t : FileTree} {n : String} {ns : List String} :
    t.get? (n :: ns) = (t.entries.lookup n).bind (·.get? ns) := by
  cases t <;> rfl

theorem get?_append {t : FileTree} {a b : List String} :
    t.get? (a ++ b) = (t.get? a).bind (·.get? b) := by
  induction a generalizing t with
  | nil => rw [List.nil_append, get?_nil, Option.bind_some]
  | cons n a ih =>
    rw [List.cons_append, get?_cons, get?_cons, Option.bind_assoc]
    exact congrArg _ (funext fun u => ih)

/-- Nothing stands below a file. -/
theorem get?_file {c : List UInt8} {l : List String} (h : l ≠ []) : (file c).get? l = none := by
  cases l with
  | nil => exact absurd rfl h
  | cons n l => rfl

/-! ### Changes -/

theorem lookup_alterEntry_of_ne {name n : String} {change : Option FileTree → Option FileTree}
    {es : List (String × FileTree)} (h : n ≠ name) :
    (alterEntry name change es).lookup n = es.lookup n := by
  have hone : ∀ o : Option FileTree, ((o.map fun t => (name, t)).toList).lookup n = none := by
    rintro (_ | t)
    · rfl
    · rw [Option.map_some, Option.toList_some, List.lookup_cons, beq_eq_false_iff_ne.mpr h]
      rfl
  induction es with
  | nil => exact hone _
  | cons e es ih =>
    obtain ⟨m, t⟩ := e
    unfold alterEntry
    split
    · rename_i hm
      subst hm
      rw [List.lookup_append, hone, Option.none_or, List.lookup_cons, beq_eq_false_iff_ne.mpr h]
    · rw [List.lookup_cons, List.lookup_cons, ih]

/-- An entry that is changed and not removed. -/
theorem lookup_alterEntry_self {name : String} {change : Option FileTree → Option FileTree}
    {es : List (String × FileTree)} (h : ∀ t, (change (some t)).isSome) :
    (alterEntry name change es).lookup name = change (es.lookup name) := by
  induction es with
  | nil =>
    rw [alterEntry, List.lookup_nil]
    cases change none with
    | none => rfl
    | some t => simp
  | cons e es ih =>
    obtain ⟨m, t⟩ := e
    by_cases hm : m = name
    · obtain ⟨u, hu⟩ := Option.isSome_iff_exists.mp (h t)
      subst hm
      simp [alterEntry, hu]
    · rw [alterEntry, if_neg hm, List.lookup_cons, List.lookup_cons,
        beq_eq_false_iff_ne.mpr (Ne.symm hm), ih]

variable {change : Option FileTree → Option FileTree}

theorem isSome_alter_cons {n : String} {ns : List String} (t : FileTree) :
    (alter change (n :: ns) (some t)).isSome := by
  cases t <;> rfl

/-- A change below an entry of a directory. -/
theorem get?_alter_cons {n m : String} {ns l : List String} {es : List (String × FileTree)}
    {u : FileTree} (h : es.lookup n = some u) :
    ((alter change (n :: m :: ns) (some (dir es))).getD (dir es)).get? (n :: l) =
      ((alter change (m :: ns) (some u)).getD u).get? l := by
  show (dir (alterEntry n (alter change (m :: ns)) es)).get? (n :: l) = _
  have hsome : (alter change (m :: ns) (some u)).isSome := isSome_alter_cons u
  obtain ⟨v, hv⟩ := Option.isSome_iff_exists.mp hsome
  rw [get?_cons, entries, lookup_alterEntry_self isSome_alter_cons, h, hv]
  rfl

/-- A change below a name that is no entry of a directory. -/
theorem get?_alter_cons_none {n m : String} {ns l : List String}
    {es : List (String × FileTree)} (h : es.lookup n = none) :
    ((alter change (n :: m :: ns) (some (dir es))).getD (dir es)).get? (n :: l) = none := by
  show (dir (alterEntry n (alter change (m :: ns)) es)).get? (n :: l) = none
  rw [get?_cons, entries, lookup_alterEntry_self isSome_alter_cons, h]
  rfl

/-- A change below another entry of a directory. -/
theorem get?_alter_cons_of_ne {n m : String} {ns l : List String}
    {es : List (String × FileTree)} (h : m ≠ n) :
    ((alter change (n :: ns) (some (dir es))).getD (dir es)).get? (m :: l) =
      (dir es).get? (m :: l) := by
  show (dir (alterEntry n (alter change ns) es)).get? (m :: l) = _
  rw [get?_cons, get?_cons, entries, entries, lookup_alterEntry_of_ne h]

/-- **What a change elsewhere does to what stands at a place**: nothing, but a directory may get
other entries. -/
def Alike (a b : Option FileTree) : Prop :=
  a = b ∨ ∃ es es', a = some (.dir es) ∧ b = some (.dir es')

/-- A change shows only at its place and below. -/
theorem alike_alter (change : Option FileTree → Option FileTree) {place l : List String}
    (t : FileTree) (h : ¬ place <+: l) :
    Alike (t.get? l) (((alter change place (some t)).getD t).get? l) := by
  induction place generalizing t l with
  | nil => exact absurd List.nil_prefix h
  | cons n ns ih =>
    cases t with
    | file c => exact .inl rfl
    | dir es =>
      cases l with
      | nil => exact .inr ⟨es, _, rfl, rfl⟩
      | cons m ms =>
        by_cases hm : m = n
        · subst hm
          have hns : ¬ ns <+: ms := fun hp => h (List.cons_prefix_cons.mpr ⟨rfl, hp⟩)
          cases ns with
          | nil => exact absurd List.nil_prefix hns
          | cons k ks =>
            cases hu : es.lookup m with
            | none =>
              rw [get?_alter_cons_none hu, get?_cons, entries, hu]
              exact .inl rfl
            | some u =>
              rw [get?_alter_cons hu, get?_cons, entries, hu]
              exact ih u hns
        · rw [get?_alter_cons_of_ne hm]
          exact .inl rfl

/-- A change does not show at a place that is neither above nor below its own. -/
theorem get?_alter_of_not_prefix {place l : List String} {t : FileTree} (h : ¬ place <+: l)
    (h' : ¬ l <+: place) : ((alter change place (some t)).getD t).get? l = t.get? l := by
  induction place generalizing t l with
  | nil => exact absurd List.nil_prefix h
  | cons n ns ih =>
    cases t with
    | file c => rfl
    | dir es =>
      cases l with
      | nil => exact absurd List.nil_prefix h'
      | cons m ms =>
        by_cases hm : m = n
        · subst hm
          rw [List.cons_prefix_cons, and_iff_right rfl] at h h'
          cases ns with
          | nil => exact absurd List.nil_prefix h
          | cons k ks =>
            cases hu : es.lookup m with
            | none => rw [get?_alter_cons_none hu, get?_cons, entries, hu, Option.bind_none]
            | some u =>
              rw [get?_alter_cons hu, get?_cons, entries, hu]
              exact ih h h'
        · exact get?_alter_cons_of_ne hm

/-! ### What is put at a place -/

section Put

variable {t u new : FileTree} {place l : List String} {n : String}
  {es : List (String × FileTree)}

theorem alter_put (u new : FileTree) (place : List String) :
    alter (fun _ => some new) place (some u) = some (u.put place new) := by
  have hsome : (alter (fun _ => some new) place (some u)).isSome := by
    cases place with
    | nil => rfl
    | cons n ns => exact isSome_alter_cons u
  obtain ⟨v, hv⟩ := Option.isSome_iff_exists.mp hsome
  rw [put, hv]
  rfl

/-- What is put below an entry of a directory. -/
theorem get?_put_cons (h : es.lookup n = some u) :
    ((dir es).put (n :: place) new).get? (n :: l) = (u.put place new).get? l := by
  show (dir (alterEntry n (alter (fun _ => some new) place) es)).get? (n :: l) = _
  rw [get?_cons, entries, lookup_alterEntry_self fun v => by rw [alter_put]; rfl, h, alter_put]
  rfl

/-- What is put below a place is put into what stands there. -/
theorem get?_put_append (h : t.get? place = some u) :
    (t.put (place ++ l) new).get? place = some (u.put l new) := by
  induction place generalizing t with
  | nil =>
    rw [get?_nil, Option.some_inj] at h
    rw [h, get?_nil, List.nil_append]
  | cons n ns ih =>
    rw [get?_cons, Option.bind_eq_some_iff] at h
    obtain ⟨v, hv, h⟩ := h
    cases t with
    | file c => cases hv
    | dir es =>
      rw [entries] at hv
      rw [List.cons_append, get?_put_cons hv]
      exact ih h

/-- What is put at a place stands there, unless the way to it is blocked. -/
theorem get?_put_below (t new : FileTree) (place l : List String) :
    (t.put place new).get? (place ++ l) = new.get? l ∨
      (t.put place new).get? (place ++ l) = t.get? (place ++ l) := by
  induction place generalizing t with
  | nil => exact .inl rfl
  | cons n ns ih =>
    cases t with
    | file c => exact .inr rfl
    | dir es =>
      rw [List.cons_append]
      cases hu : es.lookup n with
      | none =>
        cases ns with
        | nil =>
          left
          show (dir (alterEntry n (alter (fun _ => some new) []) es)).get? (n :: l) = new.get? l
          rw [get?_cons, entries, lookup_alterEntry_self fun _ => rfl]
          rfl
        | cons k ks =>
          right
          rw [@get?_cons (dir es), entries, hu]
          exact get?_alter_cons_none hu
      | some u =>
        rw [get?_put_cons hu, @get?_cons (dir es), entries, hu]
        exact ih u

/-- What is put into a directory stands there. -/
theorem get?_put_self {dir : List String} (h : t.get? dir = some (.dir es)) :
    (t.put (dir ++ [n]) new).get? (dir ++ [n]) = some new := by
  rw [get?_append, get?_put_append h, Option.bind_some]
  show (FileTree.dir (alterEntry n (alter (fun _ => some new) []) es)).get? [n] = some new
  rw [get?_cons, entries, lookup_alterEntry_self fun _ => rfl]
  exact get?_nil

end Put

end FileTree

namespace Disk

/-! ## What stands where -/

/-- **The content of the file at a place.** -/
def fileAt (d : Disk) (place : List String) : Option (List UInt8) :=
  (d.tree.get? place).bind FileTree.content?

/-- There is a directory at a place. -/
def HasDir (d : Disk) (place : List String) : Prop := ∃ es, d.tree.get? place = some (.dir es)

theorem checkDir_ok {d : Disk} {place : List String} :
    d.checkDir place = .ok () ↔ d.HasDir place := by
  unfold checkDir HasDir
  split <;> simp [*]

/-- The place that one more part leads to. -/
def into (place : List String) (part : String) : List String :=
  if part = ".." then place.dropLast else place ++ [part]

/-- **The place that a path names**, whether or not the directories on the way exist. -/
def placeOf (d : Disk) (p : Path) : List String :=
  p.parts.foldl into (if p.isAbsolute then [] else d.current)

theorem follow_cons {d : Disk} {place l : List String} {part : String} {parts : List String} :
    d.follow place (part :: parts) = .ok l ↔
      d.HasDir place ∧ d.follow (into place part) parts = .ok l := by
  rw [follow, ← checkDir_ok]
  cases d.checkDir place with
  | error e => simp
  | ok u => simp [into]

theorem follow_append {d : Disk} {place l : List String} {a b : List String} :
    d.follow place (a ++ b) = .ok l ↔ ∃ m, d.follow place a = .ok m ∧ d.follow m b = .ok l := by
  induction a generalizing place with
  | nil => simp [follow]
  | cons part a ih => simp only [List.cons_append, follow_cons, ih, and_assoc, exists_and_left]

theorem foldl_of_follow {d : Disk} {place l : List String} {parts : List String}
    (h : d.follow place parts = .ok l) : l = parts.foldl into place := by
  induction parts generalizing place with
  | nil =>
    cases h
    rfl
  | cons part parts ih => exact ih (follow_cons.mp h).2

theorem placeOf_of_locate {d : Disk} {p : Path} {l : List String} (h : d.locate p = .ok l) :
    d.placeOf p = l := (foldl_of_follow h).symm

/-- **A path is located by locating the directory** and adding the last part. -/
theorem locate_child {d : Disk} {p : Path} {n : String} {l : List String} (hn : n ≠ "..") :
    d.locate (p.child n) = .ok l ↔
      ∃ m, d.locate p = .ok m ∧ d.HasDir m ∧ l = m ++ [n] := by
  have habs : (p.child n).isAbsolute = p.isAbsolute := rfl
  have hparts : (p.child n).parts = p.parts ++ [n] := rfl
  rw [locate, habs, hparts, follow_append]
  refine exists_congr fun m => and_congr_right fun _ => ?_
  rw [follow_cons, follow, Except.ok.injEq, eq_comm, into, if_neg hn]

/-- **What is read is in the file** that the path names. -/
theorem read_ok {d : Disk} {p : Path} {c : List UInt8} :
    d.read p = .ok c ↔ ∃ l, d.locate p = .ok l ∧ d.fileAt l = some c := by
  rw [read, Except.bind_ok]
  refine exists_congr fun l => and_congr_right fun _ => ?_
  unfold fileAt
  cases d.tree.get? l with
  | none => simp [throw, throwThe, MonadExceptOf.throw]
  | some t =>
    cases t with
    | file c' => simp [FileTree.content?, Except.pure_ok]
    | dir es => simp [FileTree.content?, throw, throwThe, MonadExceptOf.throw]

/-- What a file holds is what is read from it. -/
theorem find?_eq_read {d : Disk} {p : Path} {c : List UInt8} :
    (d.find? p).bind FileTree.content? = some c ↔ d.read p = .ok c := by
  rw [read_ok, find?]
  constructor
  · intro h
    split at h
    · rename_i l hl
      exact ⟨l, hl, h⟩
    · cases h
  · rintro ⟨l, hl, hc⟩
    rw [hl]
    exact hc

/-! ## What a change leaves alone -/

/-- **A change of the disk** that touches no files but those at some places. Directories remain. -/
structure Alters (touched : List String → Prop) (d d' : Disk) : Prop where
  current : d'.current = d.current
  dirs : ∀ l, d.HasDir l → d'.HasDir l
  files : ∀ l, ¬ touched l → d'.fileAt l = d.fileAt l

namespace Alters

variable {touched touched' : List String → Prop} {d d' d'' : Disk}

theorem refl : Alters touched d d := ⟨rfl, fun _ h => h, fun _ _ => rfl⟩

theorem trans (h : Alters touched d d') (h' : Alters touched d' d'') : Alters touched d d'' :=
  ⟨h'.current.trans h.current, fun l hl => h'.dirs l (h.dirs l hl),
    fun l hl => (h'.files l hl).trans (h.files l hl)⟩

theorem mono (h : Alters touched d d') (hle : ∀ l, touched l → touched' l) :
    Alters touched' d d' :=
  ⟨h.current, h.dirs, fun l hl => h.files l fun ht => hl (hle l ht)⟩

theorem placeOf (h : Alters touched d d') (p : Path) : d'.placeOf p = d.placeOf p := by
  rw [Disk.placeOf, Disk.placeOf, h.current]

theorem follow (h : Alters touched d d') {place l : List String} {parts : List String}
    (hl : d.follow place parts = .ok l) : d'.follow place parts = .ok l := by
  induction parts generalizing place with
  | nil => exact hl
  | cons part parts ih =>
    rw [follow_cons] at hl ⊢
    exact ⟨h.dirs place hl.1, ih hl.2⟩

/-- A path that is located stays so. -/
theorem locate (h : Alters touched d d') {p : Path} {l : List String} (hl : d.locate p = .ok l) :
    d'.locate p = .ok l := by
  unfold Disk.locate at hl ⊢
  rw [h.current]
  exact h.follow hl

/-- A file at a place that is not touched is read as before. -/
theorem read (h : Alters touched d d') {p : Path} {c : List UInt8} (hr : d.read p = .ok c)
    (hp : ¬ touched (d.placeOf p)) : d'.read p = .ok c := by
  obtain ⟨l, hl, hc⟩ := read_ok.mp hr
  rw [placeOf_of_locate hl] at hp
  exact read_ok.mpr ⟨l, h.locate hl, (h.files l hp).trans hc⟩

end Alters

/-! ## The single changes -/

/-- Nothing is a directory at or below a place that is none. -/
theorem not_prefix_of_hasDir {d : Disk} {place l : List String} (h : ¬ d.HasDir place)
    (hl : d.HasDir l) : ¬ place <+: l := by
  rintro ⟨r, rfl⟩
  obtain ⟨es, he⟩ := hl
  rw [FileTree.get?_append, Option.bind_eq_some_iff] at he
  obtain ⟨t, ht, he⟩ := he
  cases t with
  | dir es' => exact h ⟨es', ht⟩
  | file c =>
    cases r with
    | nil => cases he
    | cons n r => cases he

theorem alters_alter {d : Disk} {place : List String}
    {change : Option FileTree → Option FileTree} (h : ¬ d.HasDir place) :
    Alters (place <+: ·) d
      { d with tree := (FileTree.alter change place (some d.tree)).getD d.tree } where
  current := rfl
  dirs l hl := by
    rcases FileTree.alike_alter change d.tree (not_prefix_of_hasDir h hl) with
      he | ⟨es, es', -, he⟩
    · obtain ⟨es, hes⟩ := hl
      exact ⟨es, he ▸ hes⟩
    · exact ⟨es', he⟩
  files l hl := by
    unfold fileAt
    rcases FileTree.alike_alter change d.tree hl with he | ⟨es, es', he, he'⟩
    · rw [he]
    · rw [he, he']
      rfl

/-- A file that is put where no directory stands is the only one to change. -/
theorem alters_put_file {d : Disk} {place : List String} {c : List UInt8}
    (h : ¬ d.HasDir place) :
    Alters (· = place) d { d with tree := d.tree.put place (.file c) } where
  __ := alters_alter h
  files l hl := by
    by_cases hp : place <+: l
    · obtain ⟨r, rfl⟩ := hp
      have hr : r ≠ [] := fun hr => hl (by rw [hr, List.append_nil])
      have hold : d.tree.get? (place ++ r) = none := by
        rw [FileTree.get?_append]
        cases ht : d.tree.get? place with
        | none => rfl
        | some t =>
          cases t with
          | file c' => exact FileTree.get?_file hr
          | dir es => exact absurd ⟨es, ht⟩ h
      unfold fileAt
      rcases FileTree.get?_put_below d.tree (.file c) place r with he | he
      · rw [he, FileTree.get?_file hr, hold]
      · rw [he]
    · exact (alters_alter h).files l hp

/-- A directory that is put where nothing stands changes no file. -/
theorem alters_put_dir {d : Disk} {place : List String} (h : d.tree.get? place = none) :
    Alters (fun _ => False) d { d with tree := d.tree.put place (.dir []) } where
  __ := alters_alter fun ⟨es, he⟩ => by rw [h] at he; cases he
  files l _ := by
    by_cases hp : place <+: l
    · obtain ⟨r, rfl⟩ := hp
      unfold fileAt
      rcases FileTree.get?_put_below d.tree (.dir []) place r with he | he
      · rw [he, FileTree.get?_append, h]
        cases r <;> rfl
      · rw [he]
    · exact (alters_alter fun ⟨es, he⟩ => by rw [h] at he; cases he).files l hp

theorem fileAt_put {d : Disk} {dir : List String} {n : String} {c : List UInt8}
    (h : d.HasDir dir) :
    fileAt { d with tree := d.tree.put (dir ++ [n]) (.file c) } (dir ++ [n]) = some c := by
  obtain ⟨es, he⟩ := h
  rw [fileAt, FileTree.get?_put_self he]
  rfl

/-! ## Runs of the changes -/

theorem runs_place_bind {α : Type} {p : Path} {f : List String → Action α} {d d' : Disk}
    {r : Except DiskProblem α} :
    Runs (place p >>= f) d r d' ↔
      (∃ l, d.locate p = .ok l ∧ Runs (f l) d r d') ∨
      ∃ e, d.locate p = .error e ∧ r = .error e ∧ d' = d := by
  rw [place, bind_assoc, runs_get_bind, runs_ofExcept_bind]

/-- **A directory is made** where nothing stands, or nothing is changed. -/
theorem makeDir_cases {p : Path} {d d' : Disk} {r : Except DiskProblem Unit}
    (h : Runs (makeDir p) d r d') :
    d' = d ∨ ∃ l, d.tree.get? l = none ∧ d' = { d with tree := d.tree.put l (.dir []) } := by
  unfold makeDir at h
  simp only [runs_place_bind, runs_get_bind] at h
  rcases h with ⟨l, -, h⟩ | ⟨e, -, -, rfl⟩
  · split at h
    · exact .inl (runs_pure.mp h).2
    · exact .inl (runs_throw.mp h).2
    · rename_i hnone
      exact .inr ⟨l, hnone, (runs_modify.mp h).2⟩
  · exact .inl rfl

/-- **Making directories is a row of changes** each of which puts an empty directory where nothing
stands. -/
theorem makeDirs_induction {P : Disk → Disk → Prop} (hrefl : ∀ d, P d d)
    (htrans : ∀ d m d', P d m → P m d' → P d d')
    (hput : ∀ d l, d.tree.get? l = none → P d { d with tree := d.tree.put l (.dir []) })
    {p : Path} {d d' : Disk} {r : Except DiskProblem Unit} (h : Runs (makeDirs p) d r d') :
    P d d' := by
  have hone {p : Path} {d d' : Disk} {r : Except DiskProblem Unit}
      (h : Runs (makeDir p) d r d') : P d d' := by
    rcases makeDir_cases h with rfl | ⟨l, hl, rfl⟩
    · exact hrefl _
    · exact hput d l hl
  unfold makeDirs at h
  generalize (⟨p.root, []⟩ : Path) = q, p.parts = parts at h
  induction parts generalizing q d with
  | nil => exact hone h
  | cons part parts ih =>
    rcases runs_bind.mp h with ⟨_, m, hm, h⟩ | ⟨e, hm, -⟩
    · exact htrans _ _ _ (hone hm) (ih _ h)
    · exact hone hm

/-- **Making directories changes no file.** -/
theorem alters_makeDirs {p : Path} {d d' : Disk} {r : Except DiskProblem Unit}
    (h : Runs (makeDirs p) d r d') : Alters (fun _ => False) d d' :=
  makeDirs_induction (fun _ => .refl) (fun _ _ _ => .trans) (fun _ _ => alters_put_dir) h

/-- **A file is written** where no directory stands, or nothing is changed. -/
theorem write_cases {p : Path} {c : List UInt8} {d d' : Disk} {r : Except DiskProblem Unit}
    (h : Runs (write p c) d r d') :
    (r = .ok () ∧ ∃ l, d.locate p = .ok l ∧ ¬ d.HasDir l ∧
      d' = { d with tree := d.tree.put l (.file c) }) ∨
    (∃ e, r = .error e) ∧ d' = d := by
  unfold write at h
  simp only [runs_place_bind, runs_get_bind] at h
  rcases h with ⟨l, hl, h⟩ | ⟨e, -, rfl, rfl⟩
  · split at h
    · obtain ⟨rfl, rfl⟩ := runs_throw.mp h
      exact .inr ⟨⟨_, rfl⟩, rfl⟩
    · rename_i hdir
      obtain ⟨rfl, rfl⟩ := runs_modify.mp h
      refine .inl ⟨rfl, l, hl, fun ⟨es, he⟩ => hdir ?_, rfl⟩
      rw [he]
      rfl
  · exact .inr ⟨⟨e, rfl⟩, rfl⟩

theorem not_hasDir_of_fileAt {d : Disk} {l : List String} {c : List UInt8}
    (h : d.fileAt l = some c) : ¬ d.HasDir l := by
  rintro ⟨es, he⟩
  rw [fileAt, he] at h
  cases h

/-- **A file is moved** to where no directory stands, or nothing is changed. -/
theorem rename_cases {source target : Path} {d d' : Disk} {r : Except DiskProblem Unit}
    (h : Runs (rename source target) d r d') :
    (r = .ok () ∧ ∃ s t c, d.locate source = .ok s ∧ d.locate target = .ok t ∧
      d.fileAt s = some c ∧ ¬ d.HasDir t ∧
      d' = { d with tree := (d.tree.remove s).put t (.file c) }) ∨
    (∃ e, r = .error e) ∧ d' = d := by
  unfold rename at h
  simp only [runs_place_bind, runs_get_bind] at h
  rcases h with ⟨s, hs, ⟨t, ht, h⟩ | ⟨e, -, rfl, rfl⟩⟩ | ⟨e, -, rfl, rfl⟩
  · split at h
    · obtain ⟨rfl, rfl⟩ := runs_throw.mp h
      exact .inr ⟨⟨_, rfl⟩, rfl⟩
    · obtain ⟨rfl, rfl⟩ := runs_throw.mp h
      exact .inr ⟨⟨_, rfl⟩, rfl⟩
    · rename_i c hfile
      rw [runs_get_bind] at h
      split at h
      · obtain ⟨rfl, rfl⟩ := runs_throw.mp h
        exact .inr ⟨⟨_, rfl⟩, rfl⟩
      · rename_i hdir
        rw [Disk.remove, runs_modify_bind] at h
        obtain ⟨rfl, rfl⟩ := runs_modify.mp h
        refine .inl ⟨rfl, s, t, c, hs, ht, ?_, fun ⟨es, he⟩ => hdir ?_, rfl⟩
        · rw [fileAt, hfile]
          rfl
        · rw [he]
          rfl
  · exact .inr ⟨⟨e, rfl⟩, rfl⟩
  · exact .inr ⟨⟨e, rfl⟩, rfl⟩

/-- What moving a file changes. -/
theorem alters_move {d : Disk} {s t : List String} {c : List UInt8} (hs : d.fileAt s = some c)
    (ht : ¬ d.HasDir t) (hst : ¬ s <+: t) :
    Alters (fun l => s <+: l ∨ l = t) d
      { d with tree := (d.tree.remove s).put t (.file c) } := by
  have hremove : Alters (s <+: ·) d { d with tree := d.tree.remove s } :=
    alters_alter (not_hasDir_of_fileAt hs)
  have ht' : ¬ HasDir { d with tree := d.tree.remove s } t := by
    rintro ⟨es, he⟩
    rcases FileTree.alike_alter (fun _ => none) d.tree hst with heq | ⟨es', _, hdir, -⟩
    · exact ht ⟨es, heq.trans he⟩
    · exact ht ⟨es', hdir⟩
  exact (hremove.mono fun l => .inl).trans ((alters_put_file ht').mono fun l => .inr)

/-- **A file gets another name in its directory**, or nothing is changed. -/
theorem rename_child_cases {p : Path} {a b : String} {d d' : Disk} {m : List String}
    {c : List UInt8} {r : Except DiskProblem Unit} (ha : a ≠ "..") (hb : b ≠ "..") (hab : a ≠ b)
    (hm : d.locate p = .ok m) (hdir : d.HasDir m) (hc : d.fileAt (m ++ [a]) = some c)
    (h : Runs (rename (p.child a) (p.child b)) d r d') :
    (r = .ok () ∧ d'.read (p.child b) = .ok c ∧
      Alters (fun l => m ++ [a] <+: l ∨ l = m ++ [b]) d d') ∨
    (∃ e, r = .error e) ∧ d' = d := by
  rcases rename_cases h with ⟨rfl, s, t, c', hs, ht, hc', hfree, rfl⟩ | hsame
  · have hsource : s = m ++ [a] :=
      Except.ok.inj (hs.symm.trans ((locate_child ha).mpr ⟨m, hm, hdir, rfl⟩))
    have htarget : t = m ++ [b] :=
      Except.ok.inj (ht.symm.trans ((locate_child hb).mpr ⟨m, hm, hdir, rfl⟩))
    subst hsource htarget
    cases hc.symm.trans hc'
    have hapart : ¬ m ++ [a] <+: m ++ [b] := fun hp => by
      have heq := hp.eq_of_length (by simp)
      exact hab (List.cons.inj (List.append_cancel_left heq)).1
    have hmove := alters_move hc hfree hapart
    have hdir' : HasDir { d with tree := d.tree.remove (m ++ [a]) } m :=
      (alters_alter (not_hasDir_of_fileAt hc)).dirs m hdir
    exact .inl ⟨rfl, read_ok.mpr ⟨_, hmove.locate ht, fileAt_put hdir'⟩, hmove⟩
  · exact .inr hsame

/-- Removing a file changes no other file. -/
theorem alters_unlink {p : Path} {d d' : Disk} {r : Except DiskProblem Unit}
    (h : Runs (unlink p) d r d') : Alters (d.placeOf p <+: ·) d d' := by
  unfold unlink at h
  rw [runs_get_bind] at h
  split at h
  · rw [(runs_pure.mp h).2]
    exact .refl
  · rw [(runs_throw.mp h).2]
    exact .refl
  · rename_i l hl
    rw [runs_get_bind] at h
    split at h
    · rw [(runs_pure.mp h).2]
      exact .refl
    · rw [(runs_throw.mp h).2]
      exact .refl
    · rename_i c hfile
      rw [(runs_modify.mp h).2, placeOf_of_locate hl]
      refine alters_alter fun ⟨es, he⟩ => ?_
      rw [hfile] at he
      cases he

end Disk

end Stencil
