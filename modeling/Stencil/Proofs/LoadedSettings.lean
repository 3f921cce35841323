import Stencil.Config.Load
import Stencil.Proofs.DiskFrame

/-!
# What reading settings comes to

Settings that are read can be used, and otherwise the failure is named. Three causes end the reading
without a name: bytes that are no text, keys that are no texts, and integers with too many digits.

* `Config.check_ok`: what is checked of settings.
* `Config.levels`: the mappings of a configuration; `Config.MapFault`: what one of them may hold that
  no error names.
* `Config.ofData_error`: the failures of a configuration that is a mapping.
* **`Config.loadBy_outcomes`**: what reading settings gives, for every way to read data from a text.
-/

namespace Stencil.Config

variable {root : Path} {c : Config} {d : Data} {value : Option Data} {place : String}
  {entries : List (Data × Data)} {e : Error}

/-! ## Failures and what they come from -/

/-- **A failure**: one that is named, or a fault of some kind. -/
def Fails (P : Fault → Prop) (e : Error) : Prop := (∃ p, e = .config p) ∨ ∃ f, e = .fault f ∧ P f

theorem Fails.mono {P Q : Fault → Prop} (h : Fails P e) (hPQ : ∀ f, P f → Q f) : Fails Q e :=
  h.imp_right fun ⟨f, he, hf⟩ => ⟨f, he, hPQ f hf⟩

theorem fails_of_fail {α : Type} {P : Fault → Prop} {p : ConfigProblem}
    (h : fail p = (.error e : Except Error α)) : Fails P e := by
  cases h
  exact .inl ⟨p, rfl⟩

/-- The keys whose values are shown, or may be shown in an error. -/
def shownKeys : List String := ["templates", "output", "package", "workers", "dir", "prefix"]

/-- **What a mapping may hold that no error names.** -/
inductive MapFault (entries : List (Data × Data)) : Fault → Prop
  | key {k : Data} (hk : k ∈ entries.map Prod.fst) (h : k.text? = none) :
      MapFault entries .keyNotText
  | number {key : String} {d : Data} (hkey : key ∈ shownKeys)
      (hd : Data.find? entries key = some d) (h : d.isWritable = false) :
      MapFault entries .unreadableNumber

/-- The entries of a mapping. -/
def mapping? : Data → Option (List (Data × Data))
  | .map entries => some entries
  | _ => none

theorem eq_map_of_mapping? (h : mapping? d = some entries) : d = .map entries := by
  cases d with
  | map entries' => rw [Option.some.inj h]
  | scalar v => cases h
  | date y m d => cases h
  | list items => cases h

/-- The mappings of the directories to publish. -/
def publishedLevels : Option Data → List (List (Data × Data))
  | some (.list items) => items.filterMap mapping?
  | _ => []

/-- The mappings of the sources of static files. -/
def staticLevels : Option Data → List (List (Data × Data))
  | some (.map entries) => entries :: publishedLevels (Data.find? entries "files_as")
  | _ => []

/-- **The mappings of a configuration**, from the outermost one. -/
def levels (entries : List (Data × Data)) : List (List (Data × Data)) :=
  entries :: staticLevels (Data.find? entries "static")

/-! ## The single checks -/

theorem checkKeys_error {known : List String} (h : checkKeys entries known place = .error e) :
    Fails (MapFault entries) e := by
  unfold checkKeys at h
  dsimp only at h
  split at h
  · cases h
  · split at h
    · exact fails_of_fail h
    · rename_i hall
      rw [List.all_eq_true, not_forall] at hall
      obtain ⟨k, hk⟩ := hall
      rw [Classical.not_imp, Bool.not_eq_true, Option.isSome_eq_false_iff,
        Option.isNone_iff_eq_none] at hk
      cases h
      exact .inr ⟨_, rfl, .key (List.mem_of_mem_filter hk.1) hk.2⟩

/-- **A key that is no text is unknown**, and that cannot be said. -/
theorem checkKeys_of_key {known : List String} {k : Data} (hk : k ∈ entries.map Prod.fst)
    (h : k.text? = none) : checkKeys entries known place = .error (.fault .keyNotText) := by
  have hunknown : k ∈ (entries.map Prod.fst).filter fun k => !(k.text?.any known.contains) :=
    List.mem_filter.mpr ⟨hk, by rw [h]; rfl⟩
  unfold checkKeys
  dsimp only
  rw [if_neg, if_neg]
  · intro hall
    have hsome := List.all_eq_true.mp hall k hunknown
    rw [h] at hsome
    cases hsome
  · rw [List.isEmpty_iff]
    exact List.ne_nil_of_mem hunknown

theorem texts_error {P : Fault → Prop} (h : texts place value = .error e) : Fails P e := by
  unfold texts at h
  split at h
  · cases h
  · cases h
  · cases h
  · split at h
    · cases h
    · exact fails_of_fail h
  · exact fails_of_fail h

theorem paths_error {P : Fault → Prop} (h : paths root place value = .error e) : Fails P e := by
  unfold paths at h
  cases hs : texts place value with
  | error e' =>
    rw [hs] at h
    cases h
    exact texts_error hs
  | ok ss =>
    rw [hs] at h
    cases h

theorem shown_error (h : shown d = .error e) :
    e = .fault .unreadableNumber ∧ d.isWritable = false := by
  unfold shown at h
  split at h
  · cases h
  · rename_i hd
    cases h
    exact ⟨rfl, Bool.not_eq_true _ ▸ hd⟩

theorem shownOr_error {key fallback : String} (hkey : key ∈ shownKeys)
    (h : shownOr fallback (Data.find? entries key) = .error e) : Fails (MapFault entries) e := by
  cases hd : Data.find? entries key with
  | none =>
    rw [hd] at h
    cases h
  | some d =>
    rw [hd] at h
    obtain ⟨rfl, hnumber⟩ := shown_error h
    exact .inr ⟨_, rfl, .number hkey hd hnumber⟩

theorem publishedDir_error (h : publishedDir root d = .error e) :
    Fails (fun f => ∃ m, mapping? d = some m ∧ MapFault m f) e := by
  unfold publishedDir at h
  split at h
  · rename_i m
    have hmap : ∀ f, MapFault m f → ∃ m', mapping? (.map m) = some m' ∧ MapFault m' f :=
      fun f hf => ⟨m, rfl, hf⟩
    refine Fails.mono ?_ hmap
    rcases Except.bind_error.mp h with h | ⟨_, -, h⟩
    · exact checkKeys_error h
    · split at h
      · exact fails_of_fail h
      · rename_i dir hdir
        rcases Except.bind_error.mp h with h | ⟨_, -, h⟩
        · obtain ⟨rfl, hnumber⟩ := shown_error h
          exact .inr ⟨_, rfl, .number (by decide) hdir hnumber⟩
        · rcases Except.bind_error.mp h with h | ⟨_, -, h⟩
          · exact shownOr_error (by decide) h
          · cases h
  · exact fails_of_fail h

theorem publishedDirs_error (h : publishedDirs root value = .error e) :
    Fails (fun f => ∃ m ∈ publishedLevels value, MapFault m f) e := by
  unfold publishedDirs at h
  split at h
  · cases h
  · split at h
    · cases h
    · split at h
      · rename_i items
        obtain ⟨d, hd, hfail⟩ := Except.exists_of_mapM_error h
        refine (publishedDir_error hfail).mono fun f ⟨m, hm, hf⟩ => ⟨m, ?_, hf⟩
        exact List.mem_filterMap.mpr ⟨d, hd, hm⟩
      · exact fails_of_fail h

/-- The failures of the sources of static files behind the check of their keys. -/
theorem sources_error {value : String → Option Data} (h : (do
      let dirs ← paths root "static.dirs" (value "dirs")
      let files ← paths root "static.files" (value "files")
      let published ← publishedDirs root (value "files_as")
      let stylesheets ← paths root "static.sass" (value "sass")
      return (⟨dirs, files, published, stylesheets⟩ : StaticConfig)) = Except.error e) :
    Fails (fun f => ∃ m ∈ publishedLevels (value "files_as"), MapFault m f) e := by
  rcases Except.bind_error.mp h with h | ⟨_, -, h⟩
  · exact paths_error h
  rcases Except.bind_error.mp h with h | ⟨_, -, h⟩
  · exact paths_error h
  rcases Except.bind_error.mp h with h | ⟨_, -, h⟩
  · exact publishedDirs_error h
  rcases Except.bind_error.mp h with h | ⟨_, -, h⟩
  · exact paths_error h
  · cases h

theorem staticOf_error (h : staticOf root value = .error e) :
    Fails (fun f => ∃ m ∈ staticLevels value, MapFault m f) e := by
  unfold staticOf at h
  split at h
  · cases h
  · cases h
  · rename_i m
    have hbelow {e : Error} (h : Fails (fun f => ∃ m' ∈ publishedLevels (Data.find? m "files_as"),
        MapFault m' f) e) : Fails (fun f => ∃ m' ∈ staticLevels (some (.map m)), MapFault m' f) e :=
      h.mono fun f ⟨m', hm', hf⟩ => ⟨m', List.mem_cons_of_mem _ hm', hf⟩
    rcases Except.bind_error.mp h with h | ⟨_, -, h⟩
    · exact (checkKeys_error h).mono fun f hf => ⟨m, List.mem_cons_self, hf⟩
    · dsimp only at h
      split at h
      · split at h
        · exact hbelow (sources_error h)
        · exact hbelow (sources_error h)
        · cases h
          exact .inl ⟨_, rfl⟩
      · exact hbelow (sources_error h)
  · exact fails_of_fail h

theorem workersOf_error {P : Fault → Prop} (h : workersOf value = .error e) : Fails P e := by
  unfold workersOf at h
  split at h
  · cases h
  · cases h
  · cases h
  · exact fails_of_fail h

/-- **Settings that are checked can be used.** -/
theorem check_ok {c' : Config} :
    c.check = .ok c' ↔ c' = c ∧ Text.isIdentifier c.package = true ∧ 1 ≤ c.workers := by
  unfold check
  split
  · rename_i hpackage
    have hno : Text.isIdentifier c.package ≠ true := by simpa using hpackage
    exact iff_of_false (fun h => nomatch h) fun h => hno h.2.1
  · rename_i hpackage
    have hpackage : Text.isIdentifier c.package = true := by simpa using hpackage
    split
    · rename_i hworkers
      refine iff_of_false ?_ fun h => absurd h.2.2 (by omega)
      split <;> exact fun h => nomatch h
    · rename_i hworkers
      rw [Except.ok.injEq, eq_comm]
      exact (and_iff_left ⟨hpackage, by omega⟩).symm

theorem check_error (h : c.check = .error e) :
    Fails (fun f => f = .unreadableNumber ∧ (Scalar.int c.workers).isWritable = false ∧
      c.workers < 1) e := by
  unfold check at h
  split at h
  · exact fails_of_fail h
  · split at h
    · rename_i hworkers
      split at h
      · exact fails_of_fail h
      · rename_i hnumber
        cases h
        exact .inr ⟨_, rfl, rfl, Bool.not_eq_true _ ▸ hnumber, hworkers⟩
    · cases h

theorem one_le_defaultWorkers (processors : Option Nat) : 1 ≤ defaultWorkers processors := by
  unfold defaultWorkers
  split <;> omega

/-- A number of workers that is set comes from the value. -/
theorem workersOf_ok {n : Int} (h : workersOf value = .ok (some n)) :
    value = some (.scalar (.int n)) := by
  unfold workersOf at h
  split at h <;> cases h
  rfl

/-- **The failures of a configuration that is a mapping**: they are named, or one of its mappings
holds what cannot be named. -/
theorem ofData_error {processors : Option Nat} (h : ofData processors root entries = .error e) :
    Fails (fun f => ∃ m ∈ levels entries, MapFault m f) e := by
  have hhere {e : Error} (h : Fails (MapFault entries) e) :
      Fails (fun f => ∃ m ∈ levels entries, MapFault m f) e :=
    h.mono fun f hf => ⟨entries, List.mem_cons_self, hf⟩
  unfold ofData at h
  rcases Except.bind_error.mp h with h | ⟨_, -, h⟩
  · exact hhere (checkKeys_error h)
  rcases Except.bind_error.mp h with h | ⟨workers, hworkers, h⟩
  · exact workersOf_error h
  rcases Except.bind_error.mp h with h | ⟨templates, -, h⟩
  · exact hhere (shownOr_error (by decide) h)
  rcases Except.bind_error.mp h with h | ⟨output, -, h⟩
  · exact hhere (shownOr_error (by decide) h)
  rcases Except.bind_error.mp h with h | ⟨package, -, h⟩
  · exact hhere (shownOr_error (by decide) h)
  rcases Except.bind_error.mp h with h | ⟨exclude, -, h⟩
  · exact texts_error h
  rcases Except.bind_error.mp h with h | ⟨static, -, h⟩
  · exact (staticOf_error h).mono fun f ⟨m, hm, hf⟩ => ⟨m, List.mem_cons_of_mem _ hm, hf⟩
  · -- only a number of workers that is set can be too small
    refine (check_error h).mono fun f ⟨hf, hnumber, hsmall⟩ => ⟨entries, List.mem_cons_self, ?_⟩
    subst hf
    cases workers with
    | none =>
      have := one_le_defaultWorkers processors
      simp only [Option.getD_none] at hsmall
      omega
    | some n => exact .number (by decide) (workersOf_ok hworkers) hnumber

/-- **Settings that a mapping gives can be used.** -/
theorem usable_of_ofData {processors : Option Nat} (h : ofData processors root entries = .ok c) :
    Text.isIdentifier c.package = true ∧ 1 ≤ c.workers := by
  unfold ofData at h
  obtain ⟨_, -, h⟩ := Except.bind_ok.mp h
  obtain ⟨workers, -, h⟩ := Except.bind_ok.mp h
  obtain ⟨templates, -, h⟩ := Except.bind_ok.mp h
  obtain ⟨output, -, h⟩ := Except.bind_ok.mp h
  obtain ⟨package, -, h⟩ := Except.bind_ok.mp h
  obtain ⟨exclude, -, h⟩ := Except.bind_ok.mp h
  obtain ⟨static, -, h⟩ := Except.bind_ok.mp h
  obtain ⟨rfl, husable⟩ := check_ok.mp h
  exact husable

/-! ## Reading -/

/-- **What the bytes of a configuration may hold that no error names**: they are no text, the way to
read data meets a number that it cannot read, or a mapping holds such a thing. -/
inductive TextFault (read : Reader) (bytes : List UInt8) : Fault → Prop
  | undecodable (h : Utf8.decode? bytes = none) : TextFault read bytes .undecodableConfiguration
  | number {text : List Char} (htext : Utf8.decode? bytes = some text)
      (h : read (unifyLineEnds text) = .error .unreadableNumber) :
      TextFault read bytes .unreadableNumber
  | mapping {text : List Char} {entries m : List (Data × Data)} {f : Fault}
      (htext : Utf8.decode? bytes = some text)
      (h : read (unifyLineEnds text) = .ok (.map entries)) (hm : m ∈ levels entries)
      (hf : MapFault m f) : TextFault read bytes f

variable {read : Reader} {bytes : List UInt8} {text : List Char} {path : Path}

theorem entriesOf_undecodable (h : Utf8.decode? bytes = none) :
    entriesOf read path bytes = .error (.fault .undecodableConfiguration) := by
  unfold entriesOf
  rw [h]
  rfl

theorem entriesOf_unread {p : Yaml.Problem} (htext : Utf8.decode? bytes = some text)
    (h : read (unifyLineEnds text) = .error p) :
    entriesOf read path bytes = .error (errorOf path p) := by
  unfold entriesOf
  rw [htext]
  dsimp only
  rw [h]
  rfl

theorem entriesOf_read {data : Data} (htext : Utf8.decode? bytes = some text)
    (h : read (unifyLineEnds text) = .ok data) :
    entriesOf read path bytes = .ok [] ∨ (∃ p, entriesOf read path bytes = .error (.config p)) ∨
      ∃ entries, data = .map entries ∧ entriesOf read path bytes = .ok entries := by
  unfold entriesOf
  rw [htext]
  dsimp only
  rw [h]
  change (if data.isEmpty then _ else _) = _ ∨ (∃ p, (if data.isEmpty then _ else _) = _) ∨
    ∃ entries, data = .map entries ∧ (if data.isEmpty then _ else _) = _
  split
  · exact .inl rfl
  · cases data with
    | map entries => exact .inr (.inr ⟨entries, rfl, rfl⟩)
    | scalar v => exact .inr (.inl ⟨_, rfl⟩)
    | date y m d => exact .inr (.inl ⟨_, rfl⟩)
    | list items => exact .inr (.inl ⟨_, rfl⟩)

/-- A mapping has the entries that it has. -/
theorem entriesOf_map (htext : Utf8.decode? bytes = some text)
    (h : read (unifyLineEnds text) = .ok (.map entries)) :
    entriesOf read path bytes = .ok entries := by
  unfold entriesOf
  rw [htext]
  dsimp only
  rw [h]
  cases entries with
  | nil => rfl
  | cons e es => rfl

theorem entriesOf_error (h : entriesOf read path bytes = .error e) :
    Fails (TextFault read bytes) e := by
  cases htext : Utf8.decode? bytes with
  | none =>
    rw [entriesOf_undecodable htext] at h
    cases h
    exact .inr ⟨_, rfl, .undecodable htext⟩
  | some text =>
    cases hread : read (unifyLineEnds text) with
    | error p =>
      rw [entriesOf_unread htext hread] at h
      cases h
      cases p with
      | unreadableNumber => exact .inr ⟨_, rfl, .number htext hread⟩
      | _ => exact .inl ⟨_, rfl⟩
    | ok data =>
      rcases entriesOf_read htext hread with hok | ⟨p, herror⟩ | ⟨entries, -, hok⟩
      · cases hok.symm.trans h
      · cases herror.symm.trans h
        exact .inl ⟨p, rfl⟩
      · cases hok.symm.trans h

/-- Entries that are read are those of a mapping. -/
theorem entriesOf_ok (h : entriesOf read path bytes = .ok entries) (hne : entries ≠ []) :
    ∃ text, Utf8.decode? bytes = some text ∧ read (unifyLineEnds text) = .ok (.map entries) := by
  cases htext : Utf8.decode? bytes with
  | none => cases (entriesOf_undecodable htext).symm.trans h
  | some text =>
    cases hread : read (unifyLineEnds text) with
    | error p => cases (entriesOf_unread htext hread).symm.trans h
    | ok data =>
      rcases entriesOf_read htext hread with hok | ⟨p, herror⟩ | ⟨entries', rfl, hok⟩
      · cases hok.symm.trans h
        exact absurd rfl hne
      · cases herror.symm.trans h
      · cases hok.symm.trans h
        exact ⟨text, rfl, hread⟩

/-- The settings that entries give; without any they are those of a project without a
configuration. -/
def ofEntries (processors : Option Nat) (root : Path) : List (Data × Data) → Except Error Config
  | [] => .ok (default processors root)
  | entries => ofData processors root entries

theorem usable_of_ofEntries {processors : Option Nat}
    (h : ofEntries processors root entries = .ok c) :
    Text.isIdentifier c.package = true ∧ 1 ≤ c.workers := by
  cases entries with
  | nil =>
    cases h
    refine ⟨show Text.isIdentifier defaultPackage = true by decide +kernel, ?_⟩
    have := one_le_defaultWorkers processors
    simp only [default]
    omega
  | cons e es => exact usable_of_ofData h

/-- **Settings are those of the entries of the file**, unless a file is given that does not exist. -/
theorem loadBy_eq (read : Reader) (processors : Option Nat) (disk : Disk) (root : Path)
    (path : Option Path) :
    (∃ p, path = some p ∧ disk.isFile p = false ∧
      loadBy read processors disk root path = .error (.io .missingConfiguration p.toString)) ∨
    ∃ root', loadBy read processors disk root path =
      readEntries read disk (path.getD (root.child fileName)) >>= ofEntries processors root' := by
  have htail (root' : Path) (x : Except Error (List (Data × Data))) : (do
      match ← x with
      | [] => return .default processors root'
      | entries => ofData processors root' entries) = x >>= ofEntries processors root' := by
    refine congrArg (x >>= ·) (funext fun entries => ?_)
    cases entries <;> rfl
  cases path with
  | none => exact .inr ⟨root, htail root _⟩
  | some p =>
    cases hp : disk.isFile p with
    | false =>
      refine .inl ⟨p, rfl, hp, ?_⟩
      unfold loadBy
      simp only [hp]
      rfl
    | true =>
      refine .inr ⟨p.parent, ?_⟩
      unfold loadBy
      simp only [hp]
      exact htail p.parent _

theorem readEntries_of_read {disk : Disk} (h : disk.read path = .ok bytes) :
    readEntries read disk path = entriesOf read path bytes := by
  rw [readEntries, h]

/-- A file that can be read is a file. -/
theorem isFile_of_read {disk : Disk} (h : disk.read path = .ok bytes) :
    disk.isFile path = true := by
  obtain ⟨l, hl, hc⟩ := Disk.read_ok.mp h
  obtain ⟨t, ht, hc⟩ := Option.bind_eq_some_iff.mp hc
  unfold Disk.isFile Disk.find?
  rw [hl]
  dsimp only
  rw [ht]
  cases t with
  | file c => rfl
  | dir es => cases hc

/-- The failures of settings whose entries are read from a file. -/
theorem settings_error {processors : Option Nat} {disk : Disk}
    (h : (readEntries read disk path >>= ofEntries processors root) = .error e) :
    (∃ problem, e = .config problem) ∨
      ∃ bytes f, disk.read path = .ok bytes ∧ e = .fault f ∧ TextFault read bytes f := by
  unfold readEntries at h
  cases hbytes : disk.read path with
  | error p =>
    rw [hbytes] at h
    cases h
  | ok bytes =>
    rw [hbytes] at h
    have hfails : Fails (TextFault read bytes) e := by
      rcases Except.bind_error.mp h with h | ⟨entries, hentries, h⟩
      · exact entriesOf_error h
      · cases entries with
        | nil => cases h
        | cons entry entries =>
          obtain ⟨text, htext, hread⟩ := entriesOf_ok hentries (List.cons_ne_nil _ _)
          exact (ofData_error h).mono fun f ⟨m, hm, hf⟩ => .mapping htext hread hm hf
    exact hfails.imp_right fun ⟨f, he, hf⟩ => ⟨bytes, f, rfl, he, hf⟩

/-- **What reading settings gives**, for every way to read data from a text: settings that can be
used, an error that is named, or a fault that comes from what the file holds. Bytes that are no text
are a fault, and so is a key of the outermost mapping that is no text. -/
theorem loadBy_outcomes (read : Reader) (processors : Option Nat) (disk : Disk) (root : Path)
    (path : Option Path) :
    (∀ c, loadBy read processors disk root path = .ok c →
      Text.isIdentifier c.package = true ∧ 1 ≤ c.workers) ∧
    (∀ e, loadBy read processors disk root path = .error e →
      (∃ p, path = some p ∧ disk.isFile p = false ∧
        e = .io .missingConfiguration p.toString) ∨
      (∃ problem, e = .config problem) ∨
      ∃ bytes f, disk.read (path.getD (root.child fileName)) = .ok bytes ∧
        e = .fault f ∧ TextFault read bytes f) ∧
    ∀ bytes, disk.read (path.getD (root.child fileName)) = .ok bytes →
      (Utf8.decode? bytes = none →
        loadBy read processors disk root path = .error (.fault .undecodableConfiguration)) ∧
      ∀ text entries k, Utf8.decode? bytes = some text →
        read (unifyLineEnds text) = .ok (.map entries) → k ∈ entries.map Prod.fst →
        k.text? = none →
        loadBy read processors disk root path = .error (.fault .keyNotText) := by
  rcases loadBy_eq read processors disk root path with ⟨p, rfl, hp, heq⟩ | ⟨root', heq⟩
  · refine ⟨fun c h => ?_, fun e h => .inl ⟨p, rfl, hp, ?_⟩, fun bytes h => ?_⟩
    · cases heq.symm.trans h
    · exact Except.error.inj (h.symm.trans heq)
    · rw [Option.getD_some] at h
      rw [isFile_of_read h] at hp
      cases hp
  · rw [heq]
    refine ⟨fun c h => ?_, fun e h => .inr (settings_error h), fun bytes h => ⟨fun hno => ?_, ?_⟩⟩
    · obtain ⟨entries, -, h⟩ := Except.bind_ok.mp h
      exact usable_of_ofEntries h
    · rw [readEntries_of_read h, entriesOf_undecodable hno]
      rfl
    · intro text entries k htext hread hk hno
      rw [readEntries_of_read h, entriesOf_map htext hread]
      cases entries with
      | nil => cases hk
      | cons entry entries =>
        show (checkKeys (entry :: entries) keys "tplc.yaml" >>= fun _ => _) = _
        rw [checkKeys_of_key hk hno]
        rfl

/-- A disk that holds a configuration and nothing else. -/
def configured (bytes : List UInt8) : Disk := ⟨.dir [(fileName, .file bytes)], []⟩

/-- The data of a mapping with a key that is a number. -/
theorem parse_numberKey : ∃ entries k, Yaml.parse (unifyLineEnds "1: x\n".toList) =
    .ok (.map entries) ∧ k ∈ entries.map Prod.fst ∧ k.text? = none := by
  have h : (Yaml.parse (unifyLineEnds "1: x\n".toList)).toOption.any (fun d =>
      (mapping? d).any fun entries => (entries.map Prod.fst).any (·.text?.isNone)) = true := by
    decide +kernel
  obtain ⟨d, hd, h⟩ := Except.exists_of_any h
  cases hentries : mapping? d with
  | none =>
    rw [hentries] at h
    cases h
  | some entries =>
    rw [hentries] at h
    obtain ⟨k, hk, hno⟩ := List.any_eq_true.mp h
    obtain rfl := eq_map_of_mapping? hentries
    exact ⟨entries, k, hd, hk, Option.isNone_iff_eq_none.mp hno⟩

/-- A key is a number. -/
theorem loadBy_outcomes_numberKey :
    loadBy Yaml.parse none (configured (Utf8.encodeString "1: x\n")) ⟨"/", []⟩ none =
      .error (.fault .keyNotText) := by
  obtain ⟨-, -, hread⟩ := loadBy_outcomes Yaml.parse none
    (configured (Utf8.encodeString "1: x\n")) ⟨"/", []⟩ none
  have htext : Utf8.decode? (Utf8.encodeString "1: x\n") = some "1: x\n".toList := by
    decide +kernel
  obtain ⟨entries, k, hdata, hk, hno⟩ := parse_numberKey
  exact (hread _ rfl).2 _ entries k htext hdata hk hno

/-- **Configurations that end the reading without an error that is named**: a key is a number, or
the bytes are no text. -/
theorem load_fails_bare :
    load none (configured (Utf8.encodeString "1: x\n")) ⟨"/", []⟩ none =
      .error (.fault .keyNotText) ∧
    load none (configured [0xff]) ⟨"/", []⟩ none =
      .error (.fault .undecodableConfiguration) := by
  constructor
  · decide +kernel
  · decide +kernel

end Stencil.Config
