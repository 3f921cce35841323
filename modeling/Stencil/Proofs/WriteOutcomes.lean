import Stencil.Proofs.DiskWays
import Stencil.Proofs.WriteFiles

/-!
# What writing a file comes to

A file is written under a temporary name in its directory and then moved. Before that the directory
is made; if any of this fails, the temporary file is removed.

* `Output.ReplaceOutcome`: the outcomes of putting a content in place of a file, each with what
  stands in the way and with the disk that it leaves; `Output.replace_outcome`: there are no others.
* **`Output.write_outcomes`**: which outcome it is, by what stands where before.
* **`Output.write_frame`**: which files are as before.
-/

namespace Stencil.Output

open Disk

/-- A directory stands where the temporary file goes, or will do so once the directories on the way
are made. -/
def TemporaryIsDir (d : Disk) (target : Path) : Prop :=
  d.GetsDir target.parent (d.placeOf (temporary target))

/-- A directory stands where the file goes, or will do so. -/
def TargetIsDir (d : Disk) (target : Path) : Prop := d.GetsDir target.parent (d.placeOf target)

/-- **What putting a content in place of a file comes to**, by what stands in the way. -/
inductive ReplaceOutcome (d : Disk) (target : Path) (content : List UInt8) :
    Except Error Unit → Disk → Prop
  | nameless (hname : target.name = "") :
      ReplaceOutcome d target content (.error (.fault .noFileName)) d
  | blocked {d' : Disk} (hname : target.name ≠ "") (hway : d.IsBlocked target.parent)
      (hd : Alters (fun _ => False) d d') :
      ReplaceOutcome d target content (.error (.fault .notADirectory)) d'
  | temporaryDir {d' : Disk} (hname : target.name ≠ "") (hway : ¬ d.IsBlocked target.parent)
      (htemporary : TemporaryIsDir d target) (hd : Alters (fun _ => False) d d') :
      ReplaceOutcome d target content (.error (.fault .isADirectory)) d'
  | targetDir {d' : Disk} (hname : target.name ≠ "") (hway : ¬ d.IsBlocked target.parent)
      (htemporary : ¬ TemporaryIsDir d target) (htarget : TargetIsDir d target)
      (hd : Alters (· = d.placeOf (temporary target)) d d')
      (hgone : d'.fileAt (d.placeOf (temporary target)) = none) :
      ReplaceOutcome d target content (.error (.io .unwritableOutput target.toString)) d'
  | replaced {d' : Disk} (hname : target.name ≠ "") (hway : ¬ d.IsBlocked target.parent)
      (htemporary : ¬ TemporaryIsDir d target) (htarget : ¬ TargetIsDir d target)
      (hd : Alters (fun l => l = d.placeOf (temporary target) ∨ l = d.placeOf target) d d')
      (hgone : d'.fileAt (d.placeOf (temporary target)) = none)
      (hread : d'.read target = .ok content) :
      ReplaceOutcome d target content (.ok ()) d'

section Replace

variable {d d₁ d' : Disk} {dir : Path} {n : String} {c : List UInt8} {o o' : Output}
  {r : Except Error Unit}

theorem placeOf_temporary :
    d.placeOf (temporary (dir.child n)) = d.placeOf dir ++ [n ++ ".tmp"] := by
  rw [temporary_child, placeOf_child, into, if_neg (temporary_ne n).1]

theorem placeOf_temporary_ne : d.placeOf (temporary (dir.child n)) ≠ [] := by
  rw [placeOf_temporary]
  exact List.append_ne_nil_of_right_ne_nil _ (List.cons_ne_nil _ _)

/-- The place of a file is not below that of its temporary file. -/
theorem not_temporary_prefix :
    ¬ d.placeOf (temporary (dir.child n)) <+: d.placeOf (dir.child n) := by
  rw [placeOf_temporary, placeOf_child]
  intro hp
  unfold into at hp
  split at hp
  · have hle := hp.length_le
    rw [List.length_append, List.length_dropLast, List.length_singleton] at hle
    omega
  · have heq := List.append_cancel_left (hp.eq_of_length (by simp))
    exact (temporary_ne n).2 (List.cons.inj heq).1

/-- **The temporary file gets the name of the file**, or a directory has it; then the temporary file
can be removed. Here `d₁` has the directory of both, which is reached as on `d`. -/
theorem move_outcome {q : Except DiskProblem Unit} (hd₁ : d₁.Sound)
    (hdir : d₁.HasDir (d.placeOf dir))
    (hlead : ∀ k, d₁.locate (dir.child k) = .ok (d.placeOf (dir.child k)))
    (hfree : ¬ d₁.HasDir (d.placeOf (temporary (dir.child n))))
    (h : Runs (rename (temporary (dir.child n)) (dir.child n)) { d₁ with
      tree := d₁.tree.put (d.placeOf (temporary (dir.child n))) (.file c) } q d') :
    (q = .ok () ∧ ¬ d₁.HasDir (d.placeOf (dir.child n)) ∧ d'.Sound ∧
      Alters (fun l => l = d.placeOf (temporary (dir.child n)) ∨ l = d.placeOf (dir.child n))
        d₁ d' ∧
      d'.fileAt (d.placeOf (temporary (dir.child n))) = none ∧
      d'.read (dir.child n) = .ok c) ∨
    (∃ e, q = .error e) ∧ d₁.HasDir (d.placeOf (dir.child n)) ∧
      ∀ {q' d₂}, Runs (unlink (temporary (dir.child n))) d' q' d₂ → q' = .ok () ∧ d₂.Sound ∧
        Alters (· = d.placeOf (temporary (dir.child n))) d₁ d₂ ∧
        d₂.fileAt (d.placeOf (temporary (dir.child n))) = none := by
  have hput := alters_put_file (c := c) hfree
  have hsound := hd₁.of_alters hput fun ht => FileTree.isDistinct_put ht rfl
  have hfile : fileAt { d₁ with
      tree := d₁.tree.put (d.placeOf (temporary (dir.child n))) (.file c) }
      (d.placeOf (temporary (dir.child n))) = some c := by
    rw [placeOf_temporary]
    exact fileAt_put hdir
  have htemporary : d₁.locate (temporary (dir.child n)) =
      .ok (d.placeOf (temporary (dir.child n))) := by
    rw [temporary_child]
    exact hlead _
  rcases rename_located (hput.locate htemporary) (hput.locate (hlead n)) hfile h with
    ⟨hnone, rfl, rfl⟩ | ⟨hisdir, rfl, rfl⟩
  · obtain ⟨hmove, hgone⟩ := alters_move_file hsound.distinct placeOf_temporary_ne hfile hnone
      not_temporary_prefix
    refine .inl ⟨rfl, fun h => hnone ((hasDir_put_file hfree).mpr h), ?_,
      (hput.mono fun _ => .inl).trans hmove, hgone, ?_⟩
    · refine hsound.of_alters hmove fun ht => ?_
      exact FileTree.isDistinct_put (FileTree.isDistinct_remove ht) rfl
    · refine read_move_file hsound.distinct placeOf_temporary_ne hfile hnone not_temporary_prefix
        (hput.locate (hlead n)) ?_
      rw [placeOf_child]
      exact (hput.dirs _ hdir).hasRoom_into n
  · refine .inr ⟨⟨_, rfl⟩, (hasDir_put_file hfree).mp hisdir, fun hunlink => ?_⟩
    obtain ⟨rfl, rfl⟩ := unlink_file (hput.locate htemporary) hfile hunlink
    obtain ⟨hremove, hgone⟩ := alters_remove_file hsound.distinct placeOf_temporary_ne hfile
    exact ⟨rfl, hsound.of_alters hremove FileTree.isDistinct_remove, hput.trans hremove, hgone⟩

/-- A content is put in place of a file that has a name. -/
theorem replace_child_outcome (hd : o.disk.Sound) (hname : n ≠ "")
    (h : Runs (replace (dir.child n) c) o r o') :
    ∃ d, o' = { o with disk := d } ∧ d.Sound ∧ ReplaceOutcome o.disk (dir.child n) c r d := by
  have hname' : (dir.child n).name ≠ "" := name_child ▸ hname
  obtain ⟨q, d₁, hswap, hend⟩ := runs_replace hname' h
  rw [parent_child] at hswap
  rcases runs_bind.mp hswap with ⟨_, d₂, hdirs, hswap⟩ | ⟨e, hdirs, rfl⟩
  · obtain ⟨hd₂, hsound₂, ⟨-, hway, hiff⟩ | ⟨⟨e, he⟩, -⟩⟩ := makeDirs_cases hd hdirs
    · -- both names lead to places in the directory, which is there now
      have hway' : ¬ o.disk.IsBlocked (dir.child n).parent := by rwa [parent_child]
      have hdir := locate_of_getsDir hd₂.current hiff
      have hhas := (hiff _).mpr (.inr (placeOf_mem_way o.disk dir))
      have hlead : ∀ k, d₂.locate (dir.child k) = .ok (o.disk.placeOf (dir.child k)) := fun k =>
        placeOf_child o.disk dir k ▸ locate_child_into hdir hhas
      have htemporary : d₂.locate (temporary (dir.child n)) =
          .ok (o.disk.placeOf (temporary (dir.child n))) := by
        rw [temporary_child]
        exact hlead _
      have hiff' : ∀ l, d₂.HasDir l ↔ o.disk.GetsDir (dir.child n).parent l := by
        rwa [parent_child]
      rcases runs_bind.mp hswap with ⟨_, d₃, hwrite, hrename⟩ | ⟨e, hwrite, rfl⟩
      · obtain ⟨hfree, -, rfl⟩ | ⟨-, he, -⟩ := write_located htemporary hwrite
        · have hfree' := fun h => hfree ((hiff' _).mpr h)
          have hall {touched : List String → Prop} {d' : Disk} (h : Alters touched d₂ d') :=
            (hd₂.mono fun _ => False.elim).trans h
          rcases move_outcome hsound₂ hhas hlead hfree hrename with
            ⟨rfl, hnone, hsound₁, hmove, hgone, hread⟩ | ⟨⟨e, rfl⟩, hisdir, hremoved⟩
          · obtain ⟨-, rfl, rfl⟩ | ⟨⟨e, he⟩, -⟩ := hend
            · exact ⟨_, rfl, hsound₁, .replaced hname' hway' hfree'
                (fun h => hnone ((hiff' _).mpr h)) (hall hmove) hgone hread⟩
            · cases he
          · obtain ⟨he, -⟩ | ⟨-, q', d₃, hunlink, rfl, rfl⟩ := hend
            · cases he
            · obtain ⟨rfl, hsound₃, hremove, hgone⟩ := hremoved hunlink
              exact ⟨_, rfl, hsound₃, .targetDir hname' hway' hfree' ((hiff' _).mp hisdir)
                (hall hremove) hgone⟩
        · cases he
      · obtain ⟨-, he, -⟩ | ⟨hisdir, -, rfl⟩ := write_located htemporary hwrite
        · cases he
        · obtain ⟨he, -⟩ | ⟨-, q', d₃, hunlink, rfl, rfl⟩ := hend
          · cases he
          · obtain ⟨rfl, rfl⟩ := unlink_dir htemporary hisdir hunlink
            exact ⟨_, rfl, hsound₂, .temporaryDir hname' hway' ((hiff' _).mp hisdir) hd₂⟩
    · cases he
  · -- a file is on the way, so the temporary file cannot be looked for
    obtain ⟨hd₁, hsound₁, ⟨he, -⟩ | ⟨-, hway, hlost⟩⟩ := makeDirs_cases hd hdirs
    · cases he
    · obtain ⟨he, -⟩ | ⟨-, q', d₂, hunlink, rfl, rfl⟩ := hend
      · cases he
      · rw [temporary_child] at hunlink
        obtain ⟨rfl, rfl⟩ := unlink_lost (hlost _) DiskProblem.noConfusion hunlink
        exact ⟨_, rfl, hsound₁, .blocked hname' (parent_child ▸ hway) hd₁⟩

/-- **A content is put in place of a file, or not, as its outcomes say.** -/
theorem replace_outcome {target : Path} (hd : o.disk.Sound)
    (h : Runs (replace target c) o r o') :
    ∃ d, o' = { o with disk := d } ∧ d.Sound ∧ ReplaceOutcome o.disk target c r d := by
  by_cases hname : target.name = ""
  · unfold replace at h
    rw [if_pos hname] at h
    obtain ⟨rfl, rfl⟩ := runs_throw.mp h
    exact ⟨_, rfl, hd, .nameless hname⟩
  · rw [eq_child hname] at h ⊢
    exact replace_child_outcome hd hname h

/-- What is put in place of a file is read there, and the temporary file is gone. -/
theorem ReplaceOutcome.read {target : Path} (h : ReplaceOutcome d target c (.ok ()) d') :
    d'.read target = .ok c ∧ d'.fileAt (d.placeOf (temporary target)) = none := by
  cases h with
  | replaced _ _ _ _ _ hgone hread => exact ⟨hread, hgone⟩

/-- **Only the temporary file changes**, and the file itself if all went well. The temporary file is
gone or as before. -/
theorem ReplaceOutcome.frame {target : Path} (h : ReplaceOutcome d target c r d') :
    Alters (fun l => l = d.placeOf (temporary target) ∨ r = .ok () ∧ l = d.placeOf target) d d' ∧
      (d'.fileAt (d.placeOf (temporary target)) = d.fileAt (d.placeOf (temporary target)) ∨
        d'.fileAt (d.placeOf (temporary target)) = none) := by
  cases h with
  | nameless => exact ⟨.refl, .inl rfl⟩
  | blocked _ _ hd => exact ⟨hd.mono fun _ => False.elim, .inl (hd.files _ id)⟩
  | temporaryDir _ _ _ hd => exact ⟨hd.mono fun _ => False.elim, .inl (hd.files _ id)⟩
  | targetDir _ _ _ _ hd hgone => exact ⟨hd.mono fun _ => .inl, .inr hgone⟩
  | replaced _ _ _ _ hd hgone =>
    exact ⟨hd.mono fun _ => Or.imp_right fun hl => ⟨rfl, hl⟩, .inr hgone⟩

end Replace

/-! ## Writing -/

section Write

variable {path : Path} {text : String} {sources : List Path} {o o' : Output}
  {r : Except Error Status}

/-- **A file is written**: it has the content already, or that is put in its place. -/
theorem write_steps (hd : o.disk.Sound) (h : Runs (write path text sources) o r o') :
    o'.disk.Sound ∧
    ((o.disk.read (o.root / path) = .ok (Utf8.encodeString text) ∧ r = .ok .unchanged ∧
        o'.disk = o.disk) ∨
      o.disk.read (o.root / path) ≠ .ok (Utf8.encodeString text) ∧
        ∃ q, ReplaceOutcome o.disk (o.root / path) (Utf8.encodeString text) q o'.disk ∧
          r = q.map fun _ => .written) := by
  obtain ⟨hsame, hr, statuses, rfl⟩ | ⟨hnew, q, o₁, statuses, hreplace, hr, rfl⟩ := runs_write h
  · exact ⟨hd, .inl ⟨hsame, hr, rfl⟩⟩
  · obtain ⟨d, rfl, hsound, hout⟩ := replace_outcome (by exact hd) hreplace
    exact ⟨hsound, .inr ⟨hnew, q, hout, hr⟩⟩

/-- **What writing a file comes to.** A file that does not have its content yet is written, unless
it has no name, a file is on the way to it, or a directory stands in place of it or of its temporary
file. Only the last of these but one is said to be the failure that it is. -/
theorem write_outcomes (hd : o.disk.Sound) (h : Runs (write path text sources) o r o') :
    (r = .ok .unchanged ↔ o.disk.read (o.root / path) = .ok (Utf8.encodeString text)) ∧
    (o.disk.read (o.root / path) ≠ .ok (Utf8.encodeString text) →
      (r = .ok .written ↔ (o.root / path).name ≠ "" ∧ ¬ o.disk.IsBlocked (o.root / path).parent ∧
        ¬ TemporaryIsDir o.disk (o.root / path) ∧ ¬ TargetIsDir o.disk (o.root / path)) ∧
      (r = .error (.io .unwritableOutput (o.root / path).toString) ↔
        (o.root / path).name ≠ "" ∧ ¬ o.disk.IsBlocked (o.root / path).parent ∧
          ¬ TemporaryIsDir o.disk (o.root / path) ∧ TargetIsDir o.disk (o.root / path)) ∧
      (r = .error (.fault .isADirectory) ↔
        (o.root / path).name ≠ "" ∧ ¬ o.disk.IsBlocked (o.root / path).parent ∧
          TemporaryIsDir o.disk (o.root / path)) ∧
      (r = .error (.fault .notADirectory) ↔
        (o.root / path).name ≠ "" ∧ o.disk.IsBlocked (o.root / path).parent) ∧
      (r = .error (.fault .noFileName) ↔ (o.root / path).name = "")) := by
  obtain ⟨-, ⟨hsame, rfl, -⟩ | ⟨hnew, q, hout, rfl⟩⟩ := write_steps hd h
  · exact ⟨iff_of_true rfl hsame, fun hnew => absurd hsame hnew⟩
  · generalize o'.disk = d at hout
    cases hout with
    | nameless hname => simp [Except.map, hname, hnew]
    | blocked hname hway => simp [Except.map, hname, hnew, hway]
    | temporaryDir hname hway htemporary => simp [Except.map, hname, hnew, hway, htemporary]
    | targetDir hname hway htemporary htarget =>
      simp [Except.map, hname, hnew, hway, htemporary, htarget]
    | replaced hname hway htemporary htarget =>
      simp [Except.map, hname, hnew, hway, htemporary, htarget]

/-- An output directory below the current one, on a disk that holds nothing else. -/
def outputOn (out : FileTree) : Output := start ⟨.dir [("out", out)], []⟩ (.relative ["out"])

theorem sound_outputOn {out : FileTree} (h : out.isDistinct = true) : (outputOn out).disk.Sound :=
  ⟨FileTree.isDistinct_dir.mpr ⟨(by simp), List.forall_mem_singleton.mpr h⟩, _, rfl⟩

/-- A file is on the way to the one that is to be written. -/
theorem write_outcomes_blocked : (outputOn (.file [])).disk.Sound ∧
    ∃ r o', Runs (write (.relative ["a.py"]) "new" []) (outputOn (.file [])) r o' ∧
      r = .error (.fault .notADirectory) := by
  have hd : (outputOn (.file [])).disk.Sound := sound_outputOn rfl
  obtain ⟨r, o', h⟩ : ∃ r o', Runs (write (.relative ["a.py"]) "new" []) (outputOn (.file [])) r o' :=
    ⟨_, _, rfl⟩
  obtain ⟨-, -, -, hblocked, -⟩ := (write_outcomes hd h).2 (by decide +kernel)
  exact ⟨hd, r, o', h, hblocked.mpr ⟨by decide, ["out"], by decide, rfl⟩⟩

/-- **Failures that are not said to be such**: a file is on the way, or a directory has the temporary
name. -/
theorem write_fails_bare :
    (∃ o', (outputOn (.file [])).disk.Sound ∧
      Runs (write (.relative ["a.py"]) "new" []) (outputOn (.file []))
        (.error (.fault .notADirectory)) o') ∧
    (∃ o', (outputOn (.dir [("a.py.tmp", .dir [])])).disk.Sound ∧
      Runs (write (.relative ["a.py"]) "new" []) (outputOn (.dir [("a.py.tmp", .dir [])]))
        (.error (.fault .isADirectory)) o') := by
  refine ⟨⟨_, sound_outputOn rfl, runs_of_fst ?_⟩, ⟨_, sound_outputOn (by decide), runs_of_fst ?_⟩⟩
  · decide +kernel
  · decide +kernel

end Write

end Stencil.Output
