import Mathlib.Logic.Function.Basic
import Stencil.Proofs.LoadedSettings

/-!
# Keys without a value

A key of a configuration may stand there with nothing behind it. Most keys are then as good as
absent, but those whose values are shown take the text `None` for their value.

* `Config.Level`: the mappings of a configuration, with the keys that are known in them;
  `Config.Level.alter` changes one of them, `Config.putAt` adds a key to a mapping.
* `Config.ofValues`: settings come from the values of known keys only.
* `Config.Level.nulled`: what becomes of settings when a key is added without a value.
* **`Config.ofData_putAt_null`**: what reading settings gives then, for every known key.
-/

namespace Stencil

namespace Config

variable {m entries : List (Data × Data)} {key : String} {v d : Data} {j : Nat}

/-! ## Mappings that change -/

/-- **A mapping with one more key**, after the first `j` of its entries. -/
def putAt (j : Nat) (key : String) (v : Data) (m : List (Data × Data)) : List (Data × Data) :=
  m.take j ++ (.text key, v) :: m.drop j

/-- Data with a change in its mapping. -/
def onMap (f : List (Data × Data) → List (Data × Data)) : Data → Data
  | .map m => .map (f m)
  | d => d

/-- Data with a change in an item of its list. -/
def onItem (i : Nat) (f : Data → Data) : Data → Data
  | .list items => .list (items.modify i f)
  | d => d

/-- A mapping with a change in the value of a key. -/
def onKey (key : String) (f : Data → Data) : List (Data × Data) → List (Data × Data)
  | [] => []
  | (k, d) :: m => if k.text? == some key then (k, f d) :: m else (k, d) :: onKey key f m

/-- **The mappings of a configuration**: the outermost one, that of the static files, and those of
the directories to publish. -/
inductive Level where
  | outer
  | static
  | published (i : Nat)
  deriving DecidableEq, Repr

namespace Level

/-- The keys that are known in a mapping. -/
def keys : Level → List String
  | outer => Config.keys
  | static => ["dirs", "files", "files_as", "sass"]
  | published _ => ["dir", "prefix"]

theorem mem_keys_outer : key ∈ outer.keys ↔ key = "templates" ∨ key = "output" ∨
    key = "package" ∨ key = "workers" ∨ key = "exclude" ∨ key = "static" := by
  simp [keys, Config.keys]

theorem mem_keys_static :
    key ∈ static.keys ↔ key = "dirs" ∨ key = "files" ∨ key = "files_as" ∨ key = "sass" := by
  simp [keys]

theorem mem_keys_published {i : Nat} :
    key ∈ (published i).keys ↔ key = "dir" ∨ key = "prefix" := by
  simp [keys]

/-- The mapping of a level, if there is one. -/
def mapping? (entries : List (Data × Data)) : Level → Option (List (Data × Data))
  | outer => some entries
  | static => (Data.find? entries "static").bind Config.mapping?
  | published i => do
    let m ← (Data.find? entries "static").bind Config.mapping?
    match Data.find? m "files_as" with
    | some (.list items) => items[i]?.bind Config.mapping?
    | _ => none

/-- **A configuration with a change in one of its mappings.** -/
def alter (f : List (Data × Data) → List (Data × Data)) :
    Level → List (Data × Data) → List (Data × Data)
  | outer => f
  | static => onKey "static" (onMap f)
  | published i => onKey "static" (onMap (onKey "files_as" (onItem i (onMap f))))

/-- **What becomes of settings when a key is added without a value.** -/
def nulled (key : String) (c : Config) : Level → Config
  | outer =>
    match key with
    | "templates" => { c with templates := c.root / .parse "None" }
    | "output" => { c with output := c.root / .parse "None" }
    | "package" => { c with package := "None" }
    | _ => c
  | static => c
  | published i =>
    match key with
    | "prefix" =>
      let published := c.static.published.modify i fun dir => { dir with below := "None" }
      { c with static := { c.static with published } }
    | _ => c

end Level

theorem find?_append (l r : List (Data × Data)) (key : String) :
    Data.find? (l ++ r) key = (Data.find? l key).or (Data.find? r key) := by
  rw [Data.find?, List.find?_append, Option.map_or]
  rfl

theorem find?_cons (k v : Data) (m : List (Data × Data)) (key : String) :
    Data.find? ((k, v) :: m) key = if k.text? == some key then some v else Data.find? m key := by
  rw [Data.find?, List.find?_cons]
  cases k.text? == some key <;> rfl

/-- **The values of a mapping with one more key.** -/
theorem find?_putAt (h : Data.find? m key = none) (j : Nat) (v : Data) :
    Data.find? (putAt j key v m) = Function.update (Data.find? m) key (some v) := by
  funext k
  have hm : Data.find? m k = (Data.find? (m.take j) k).or (Data.find? (m.drop j) k) := by
    rw [← find?_append, List.take_append_drop]
  rw [putAt, find?_append, find?_cons]
  by_cases hk : k = key
  · subst hk
    rw [h, eq_comm, Option.or_eq_none_iff] at hm
    rw [Function.update_self, hm.1, Option.none_or, if_pos (by simp [Data.text, Data.text?])]
  · rw [Function.update_of_ne hk, if_neg (by simpa [Data.text, Data.text?] using Ne.symm hk), hm]

/-- The values of a mapping in which that of a key changes. -/
theorem find?_onKey (key : String) (f : Data → Data) (m : List (Data × Data)) :
    Data.find? (onKey key f m) =
      Function.update (Data.find? m) key ((Data.find? m key).map f) := by
  funext k
  induction m with
  | nil => by_cases hk : k = key <;> simp [onKey, Data.find?, hk]
  | cons e m ih =>
    obtain ⟨k', d⟩ := e
    rw [onKey]
    split
    · rename_i hkey
      rw [beq_iff_eq] at hkey
      by_cases hk : k = key
      · simp [find?_cons, hk, hkey]
      · simp [find?_cons, hk, hkey, Ne.symm hk]
    · rename_i hkey
      rw [beq_iff_eq] at hkey
      by_cases hk : k = key
      · subst hk
        simpa [find?_cons, hkey] using ih
      · simp only [find?_cons, ih, Function.update_of_ne hk]

theorem keys_onKey (key : String) (f : Data → Data) (m : List (Data × Data)) :
    (onKey key f m).map Prod.fst = m.map Prod.fst := by
  induction m with
  | nil => rfl
  | cons e m ih =>
    rw [onKey]
    split
    · rfl
    · rw [List.map_cons, ih, List.map_cons]

theorem onMap_id : onMap id = id := by
  funext d
  cases d <;> rfl

theorem onItem_id (i : Nat) : onItem i id = id := by
  funext d
  cases d with
  | list items => rw [onItem, List.modify_id]; rfl
  | _ => rfl

theorem onKey_id (key : String) : onKey key id = id := by
  funext m
  induction m with
  | nil => rfl
  | cons e m ih =>
    rw [onKey, ih]
    split <;> rfl

theorem Level.alter_id (l : Level) : l.alter id = id := by
  cases l with
  | outer => rfl
  | static => rw [alter, onMap_id, onKey_id]
  | published i => rw [alter, onMap_id, onItem_id, onKey_id, onMap_id, onKey_id]

/-! ## The check of the keys -/

variable {known : List String} {place : String}

theorem checkKeys_congr {m' : List (Data × Data)} (h : m.map Prod.fst = m'.map Prod.fst) :
    checkKeys m known place = checkKeys m' known place := by
  rw [checkKeys, checkKeys, h]

/-- **A known key more is not noticed** by the check of the keys. -/
theorem checkKeys_putAt (hkey : key ∈ known) (j : Nat) (v : Data) (m : List (Data × Data)) :
    checkKeys (putAt j key v m) known place = checkKeys m known place := by
  have hunknown : ((putAt j key v m).map Prod.fst).filter
      (fun k => !(k.text?.any known.contains)) =
        (m.map Prod.fst).filter fun k => !(k.text?.any known.contains) := by
    conv_rhs => rw [← List.take_append_drop j m]
    rw [putAt, List.map_append, List.map_cons, List.filter_append, List.filter_cons_of_neg,
      List.map_append, List.filter_append]
    simpa [Data.text, Data.text?] using hkey
  rw [checkKeys, checkKeys, hunknown]

/-! ## Values of keys -/

/-- **Settings come from the values of known keys only.** -/
def ofValues (processors : Option Nat) (root : Path) (value : String → Option Data) :
    Except Error Config := do
  let workers ← workersOf (value "workers")
  let templates ← shownOr defaultTemplates (value "templates")
  let output ← shownOr defaultOutput (value "output")
  let package ← shownOr defaultPackage (value "package")
  let exclude ← texts "exclude" (value "exclude")
  let static ← staticOf root (value "static")
  check
    { root
      templates := root / .parse templates
      output := root / .parse output
      package
      workers := workers.getD (defaultWorkers processors)
      exclude
      static }

/-- The sources of static files come from the values of known keys only. -/
def staticOfValues (root : Path) (value : String → Option Data) : Except Error StaticConfig := do
  match value "files_as" with
  | some d =>
    match d.isEmpty, d with
    | true, _ | _, .list _ => pure ()
    | _, _ => fail .entriesNotList
  | none => pure ()
  let dirs ← paths root "static.dirs" (value "dirs")
  let files ← paths root "static.files" (value "files")
  let published ← publishedDirs root (value "files_as")
  let stylesheets ← paths root "static.sass" (value "sass")
  return ⟨dirs, files, published, stylesheets⟩

/-- A directory to publish comes from the values of known keys only. -/
def publishedOfValues (root : Path) (value : String → Option Data) : Except Error PublishedDir :=
  match value "dir" with
  | none => fail .entryWithoutDir
  | some dir => do
    let dir ← shown dir
    let below ← shownOr "" (value "prefix")
    return ⟨root / .parse dir, below⟩

variable {processors : Option Nat} {root : Path} {value : String → Option Data}

theorem ofData_eq : ofData processors root entries =
    (checkKeys entries keys "tplc.yaml" >>= fun _ =>
      ofValues processors root (Data.find? entries)) := rfl

theorem staticOf_map : staticOf root (some (.map m)) =
    (checkKeys m Level.static.keys "static" >>= fun _ => staticOfValues root (Data.find? m)) := by
  cases h : Data.find? m "files_as" <;> simp only [staticOf, staticOfValues, h] <;> rfl

theorem publishedDir_map (i : Nat) : publishedDir root (.map m) =
    (checkKeys m (Level.published i).keys "static.files_as" >>= fun _ =>
      publishedOfValues root (Data.find? m)) := rfl

/-- Settings are checked by their package and their number of workers. -/
theorem check_map {c : Config} {g : Config → Config} (hworkers : (g c).workers = c.workers)
    (hpackage : (g c).package = c.package ∨
      Text.isIdentifier (g c).package = true ∧ Text.isIdentifier c.package = true) :
    check (g c) = (check c).map g := by
  have htail : (if (g c).workers < 1 then
        if (Scalar.int (g c).workers).isWritable then fail (.workersNotPositive (g c).workers)
        else .error (.fault .unreadableNumber)
      else .ok (g c) : Except Error Config) =
    (if c.workers < 1 then
        if (Scalar.int c.workers).isWritable then fail (.workersNotPositive c.workers)
        else .error (.fault .unreadableNumber)
      else .ok c : Except Error Config).map g := by
    rw [hworkers]
    split
    · split <;> rfl
    · rfl
  rw [check, check, htail]
  rcases hpackage with h | ⟨h', h⟩
  · rw [h]
    split <;> rfl
  · rw [h', h]
    rfl

/-! ## Keys of the outermost mapping -/

theorem shownOr_none (fallback : String) : shownOr fallback none = .ok fallback := rfl

/-- The text that is shown for no value. -/
theorem shownOr_null (fallback : String) : shownOr fallback (some .null) = .ok "None" := rfl

theorem workersOf_null : workersOf (some .null) = workersOf none := rfl

theorem texts_null : texts place (some .null) = texts place none := rfl

theorem staticOf_null : staticOf root (some .null) = staticOf root none := rfl

/-- A key of the outermost mapping is added without a value. -/
theorem ofValues_null (hkey : key ∈ Level.outer.keys) (h : value key = none) :
    ofValues processors root (Function.update value key (some .null)) =
      (ofValues processors root value).map (Level.outer.nulled key) := by
  rw [ofValues, ofValues]
  rcases Level.mem_keys_outer.mp hkey with rfl | rfl | rfl | rfl | rfl | rfl <;>
    simp only [Function.update_apply, String.reduceEq, if_true, if_false, h, shownOr_none,
      shownOr_null, workersOf_null, texts_null, staticOf_null, Except.ok_bind]
  case inl =>
    refine Except.bind_eq_map fun workers => Except.bind_eq_map fun output => ?_
    refine Except.bind_eq_map fun package => Except.bind_eq_map fun exclude => ?_
    refine Except.bind_eq_map fun static => ?_
    exact check_map (c := ⟨root, _, _, _, _, _, _⟩) (g := Level.outer.nulled "templates") rfl
      (.inl rfl)
  case inr.inl =>
    refine Except.bind_eq_map fun workers => Except.bind_eq_map fun templates => ?_
    refine Except.bind_eq_map fun package => Except.bind_eq_map fun exclude => ?_
    refine Except.bind_eq_map fun static => ?_
    exact check_map (c := ⟨root, _, _, _, _, _, _⟩) (g := Level.outer.nulled "output") rfl
      (.inl rfl)
  case inr.inr.inl =>
    refine Except.bind_eq_map fun workers => Except.bind_eq_map fun templates => ?_
    refine Except.bind_eq_map fun output => Except.bind_eq_map fun exclude => ?_
    refine Except.bind_eq_map fun static => ?_
    have hnames : Text.isIdentifier "None" = true ∧ Text.isIdentifier defaultPackage = true := by
      decide +kernel
    exact check_map (c := ⟨root, _, _, _, _, _, _⟩) (g := Level.outer.nulled "package") rfl
      (.inr hnames)
  all_goals exact (congrFun Except.map_id _).symm

/-! ## Keys of the static files -/

/-- A key of the static files is added without a value. -/
theorem staticOfValues_null (hkey : key ∈ Level.static.keys) (h : value key = none) :
    staticOfValues root (Function.update value key (some .null)) = staticOfValues root value := by
  rw [staticOfValues, staticOfValues]
  rcases Level.mem_keys_static.mp hkey with rfl | rfl | rfl | rfl <;>
    simp only [Function.update_apply, String.reduceEq, if_true, if_false, h] <;> rfl

theorem ofValues_static {d' : Data} {g : StaticConfig → StaticConfig}
    (h : staticOf root (some d') = (staticOf root (some d)).map g) :
    ofValues processors root (Function.update value "static" (some d')) =
      (ofValues processors root (Function.update value "static" (some d))).map
        fun c => { c with static := g c.static } := by
  simp only [ofValues, Function.update_apply, String.reduceEq, if_true, if_false, h]
  refine Except.bind_eq_map fun workers => Except.bind_eq_map fun templates => ?_
  refine Except.bind_eq_map fun output => Except.bind_eq_map fun package => ?_
  refine Except.bind_eq_map fun exclude => Except.map_bind_eq_map fun static => ?_
  exact check_map (c := ⟨root, _, _, _, _, _, static⟩)
    (g := fun c => { c with static := g c.static }) rfl (.inl rfl)

/-- **The mapping of the static files changes**, and the sources with it. -/
theorem ofData_static (processors : Option Nat) {f k : List (Data × Data) → List (Data × Data)}
    {g : StaticConfig → StaticConfig} (hm : Level.static.mapping? entries = some m)
    (h : staticOf root (some (.map (k m))) = (staticOf root (some (.map (f m)))).map g) :
    ofData processors root (Level.static.alter k entries) =
      (ofData processors root (Level.static.alter f entries)).map
        fun c => { c with static := g c.static } := by
  obtain ⟨d, hd, hm⟩ := Option.bind_eq_some_iff.mp hm
  obtain rfl := eq_map_of_mapping? hm
  have hkeys (f : List (Data × Data) → List (Data × Data)) :
      ofData processors root (Level.static.alter f entries) =
        (checkKeys entries keys "tplc.yaml" >>= fun _ => ofValues processors root
          (Function.update (Data.find? entries) "static" (some (.map (f m))))) := by
    rw [ofData_eq, Level.alter, checkKeys_congr (keys_onKey _ _ _), find?_onKey, hd]
    rfl
  rw [hkeys, hkeys]
  exact Except.bind_eq_map fun _ => ofValues_static h

/-! ## Keys of the directories to publish -/

theorem publishedDirs_list (items : List Data) :
    publishedDirs root (some (.list items)) = items.mapM (publishedDir root) := by
  cases items <;> rfl

/-- The sources of static files with directories to publish. -/
theorem staticOfValues_of_list {items : List Data} (h : value "files_as" = some (.list items)) :
    staticOfValues root value = do
      let dirs ← paths root "static.dirs" (value "dirs")
      let files ← paths root "static.files" (value "files")
      let published ← items.mapM (publishedDir root)
      let stylesheets ← paths root "static.sass" (value "sass")
      return ⟨dirs, files, published, stylesheets⟩ := by
  simp only [staticOfValues, h, publishedDirs_list]
  cases items <;> rfl

theorem staticOfValues_list {items items' : List Data} {g : List PublishedDir → List PublishedDir}
    (h : items'.mapM (publishedDir root) = (items.mapM (publishedDir root)).map g) :
    staticOfValues root (Function.update value "files_as" (some (.list items'))) =
      (staticOfValues root (Function.update value "files_as" (some (.list items)))).map
        fun s => { s with published := g s.published } := by
  rw [staticOfValues_of_list (Function.update_self _ _ _),
    staticOfValues_of_list (Function.update_self _ _ _), h]
  simp only [Function.update_apply, String.reduceEq, if_false]
  refine Except.bind_eq_map fun dirs => Except.bind_eq_map fun files => ?_
  refine Except.map_bind_eq_map fun published => Except.bind_eq_map fun stylesheets => ?_
  rfl

/-- The mapping of a directory to publish is that of an item. -/
theorem mapping?_published {i : Nat} (h : (Level.published i).mapping? entries = some m) :
    ∃ m₀ items, Level.static.mapping? entries = some m₀ ∧
      Data.find? m₀ "files_as" = some (.list items) ∧ items[i]? = some (.map m) := by
  obtain ⟨m₀, hm₀, h⟩ := Option.bind_eq_some_iff.mp h
  split at h
  · rename_i items hitems
    obtain ⟨d, hd, h⟩ := Option.bind_eq_some_iff.mp h
    obtain rfl := eq_map_of_mapping? h
    exact ⟨m₀, items, hm₀, hitems, hd⟩
  · cases h

/-- **The mapping of a directory to publish changes**, and that directory with it. -/
theorem ofData_published (processors : Option Nat) {i : Nat}
    {f k : List (Data × Data) → List (Data × Data)}
    {g : PublishedDir → PublishedDir} (hm : (Level.published i).mapping? entries = some m)
    (h : publishedDir root (.map (k m)) = (publishedDir root (.map (f m))).map g) :
    ofData processors root ((Level.published i).alter k entries) =
      (ofData processors root ((Level.published i).alter f entries)).map fun c =>
        { c with static := { c.static with published := c.static.published.modify i g } } := by
  obtain ⟨m₀, items, hm₀, hitems, hi⟩ := mapping?_published hm
  have hkeys (f : List (Data × Data) → List (Data × Data)) :
      staticOf root (some (.map (onKey "files_as" (onItem i (onMap f)) m₀))) =
        (checkKeys m₀ Level.static.keys "static" >>= fun _ => staticOfValues root
          (Function.update (Data.find? m₀) "files_as"
            (some (.list (items.modify i (onMap f)))))) := by
    rw [staticOf_map, checkKeys_congr (keys_onKey _ _ _), find?_onKey, hitems]
    rfl
  refine ofData_static _ (g := fun s => { s with published := s.published.modify i g }) hm₀ ?_
  rw [hkeys, hkeys]
  refine Except.bind_eq_map fun _ => staticOfValues_list (Except.mapM_modify fun d hd => ?_)
  obtain rfl := Option.some.inj (hd.symm.trans hi)
  exact h

/-- The prefix of a directory to publish is added without a value. -/
theorem publishedOfValues_prefix (h : value "prefix" = none) :
    publishedOfValues root (Function.update value "prefix" (some .null)) =
      (publishedOfValues root value).map fun d => { d with below := "None" } := by
  simp only [publishedOfValues, Function.update_apply, String.reduceEq, if_true, if_false, h]
  split
  · rfl
  · exact Except.bind_eq_map fun dir => rfl

/-! ## Settings without a key -/

variable {c : Config}

/-- What the settings that are read come from. -/
theorem ofData_ok (h : ofData processors root entries = .ok c) :
    c.root = root ∧
    (∃ t, shownOr defaultTemplates (Data.find? entries "templates") = .ok t ∧
      c.templates = root / .parse t) ∧
    (∃ t, shownOr defaultOutput (Data.find? entries "output") = .ok t ∧
      c.output = root / .parse t) ∧
    shownOr defaultPackage (Data.find? entries "package") = .ok c.package ∧
    staticOf root (Data.find? entries "static") = .ok c.static := by
  rw [ofData_eq] at h
  obtain ⟨_, -, h⟩ := Except.bind_ok.mp h
  obtain ⟨workers, -, h⟩ := Except.bind_ok.mp h
  obtain ⟨templates, htemplates, h⟩ := Except.bind_ok.mp h
  obtain ⟨output, houtput, h⟩ := Except.bind_ok.mp h
  obtain ⟨package, hpackage, h⟩ := Except.bind_ok.mp h
  obtain ⟨exclude, -, h⟩ := Except.bind_ok.mp h
  obtain ⟨static, hstatic, h⟩ := Except.bind_ok.mp h
  obtain ⟨rfl, -⟩ := check_ok.mp h
  exact ⟨rfl, ⟨templates, htemplates, rfl⟩, ⟨output, houtput, rfl⟩, hpackage, hstatic⟩

/-- What a directory to publish comes from. -/
theorem publishedDir_ok {i : Nat} (h : ofData processors root entries = .ok c)
    (hm : (Level.published i).mapping? entries = some m) :
    ∃ dir, c.static.published[i]? = some dir ∧ (Data.find? m "dir").isSome ∧
      shownOr "" (Data.find? m "prefix") = .ok dir.below := by
  obtain ⟨m₀, items, hm₀, hitems, hi⟩ := mapping?_published hm
  obtain ⟨d, hd, hm₀⟩ := Option.bind_eq_some_iff.mp hm₀
  obtain rfl := eq_map_of_mapping? hm₀
  obtain ⟨-, -, -, -, hstatic⟩ := ofData_ok h
  rw [hd, staticOf_map] at hstatic
  obtain ⟨_, -, hstatic⟩ := Except.bind_ok.mp hstatic
  rw [staticOfValues_of_list hitems] at hstatic
  obtain ⟨dirs, -, hstatic⟩ := Except.bind_ok.mp hstatic
  obtain ⟨files, -, hstatic⟩ := Except.bind_ok.mp hstatic
  obtain ⟨published, hpublished, hstatic⟩ := Except.bind_ok.mp hstatic
  obtain ⟨stylesheets, -, hstatic⟩ := Except.bind_ok.mp hstatic
  rw [← Except.pure_ok.mp hstatic]
  obtain ⟨hlength, hget⟩ := List.forall₂_iff_get.mp (Except.mapM_ok.mp hpublished)
  obtain ⟨hi, hitem⟩ := List.getElem?_eq_some_iff.mp hi
  have hdir := hget i hi (hlength ▸ hi)
  rw [List.get_eq_getElem, hitem, publishedDir_map i] at hdir
  obtain ⟨_, -, hdir⟩ := Except.bind_ok.mp hdir
  refine ⟨_, List.getElem?_eq_getElem (hlength ▸ hi), ?_⟩
  rw [publishedOfValues] at hdir
  split at hdir
  · cases hdir
  · rename_i d hd
    obtain ⟨text, -, hdir⟩ := Except.bind_ok.mp hdir
    obtain ⟨below, hbelow, hdir⟩ := Except.bind_ok.mp hdir
    refine ⟨by rw [hd]; rfl, hbelow.trans (congrArg Except.ok ?_)⟩
    exact congrArg PublishedDir.below (Except.pure_ok.mp hdir)

/-- Relative paths of one part below a root differ with that part. -/
theorem div_parse_ne {a b : String} (ha : Path.parse a = ⟨"", [a]⟩) (hb : Path.parse b = ⟨"", [b]⟩)
    (h : a ≠ b) : root / Path.parse a ≠ root / Path.parse b := by
  intro heq
  rw [ha, hb] at heq
  have hparts : root.parts ++ [a] = root.parts ++ [b] := congrArg Path.parts heq
  exact h (List.singleton_inj.mp (List.append_cancel_left hparts))

/-- The keys whose values are shown and that may be absent. -/
def textKeys : List String := ["templates", "output", "package", "prefix"]

/-- **Settings that can be used change** exactly if the key that is added without a value is one
whose value is shown. -/
theorem nulled_eq_iff (l : Level) (h : ofData processors root entries = .ok c)
    (hm : l.mapping? entries = some m) (hkey : key ∈ l.keys) (habsent : Data.find? m key = none) :
    l.nulled key c = c ↔ key ∉ textKeys := by
  have hparse : ∀ s ∈ ["None", "templates", "generated"], Path.parse s = ⟨"", [s]⟩ := by
    decide +kernel
  obtain ⟨rfl, ⟨templates, htemplates, hc⟩, ⟨output, houtput, hc'⟩, hpackage, -⟩ := ofData_ok h
  cases l with
  | outer =>
    obtain rfl := Option.some.inj hm
    rcases Level.mem_keys_outer.mp hkey with rfl | rfl | rfl | rfl | rfl | rfl
    · rw [habsent] at htemplates
      obtain rfl := Except.ok.inj htemplates
      refine iff_of_false (fun heq => ?_) (by decide)
      refine div_parse_ne (hparse _ (by decide)) (hparse "templates" (by decide)) (by decide)
        ((congrArg Config.templates heq).trans hc)
    · rw [habsent] at houtput
      obtain rfl := Except.ok.inj houtput
      refine iff_of_false (fun heq => ?_) (by decide)
      refine div_parse_ne (hparse _ (by decide)) (hparse "generated" (by decide)) (by decide)
        ((congrArg Config.output heq).trans hc')
    · rw [habsent] at hpackage
      refine iff_of_false (fun heq => ?_) (by decide)
      have hnone : "None" = defaultPackage :=
        (congrArg Config.package heq).trans (Except.ok.inj hpackage).symm
      exact absurd hnone (by decide)
    · exact iff_of_true rfl (by decide)
    · exact iff_of_true rfl (by decide)
    · exact iff_of_true rfl (by decide)
  | static =>
    refine iff_of_true rfl ?_
    rcases Level.mem_keys_static.mp hkey with rfl | rfl | rfl | rfl <;> decide
  | published i =>
    obtain ⟨dir, hdir, hsome, hbelow⟩ := publishedDir_ok h hm
    rcases Level.mem_keys_published.mp hkey with rfl | rfl
    · exact iff_of_true rfl (by decide)
    · rw [habsent] at hbelow
      refine iff_of_false (fun heq => ?_) (by decide)
      have hitem : (c.static.published.modify i fun dir => { dir with below := "None" })[i]? =
          c.static.published[i]? := congrArg (fun c : Config => c.static.published[i]?) heq
      rw [List.getElem?_modify, hdir, Option.map_eq_map, Option.map_some, if_pos rfl] at hitem
      have hnone : "None" = dir.below := congrArg PublishedDir.below (Option.some.inj hitem)
      exact absurd (hnone.trans (Except.ok.inj hbelow).symm) (by decide)

/-- **What becomes of settings when a known key that is absent is added without a value.** The
result is the same, the error as well as the settings, but for five keys: the settings that can be
used change if the value of the key is shown, and a directory to publish that is missing is taken to
be the one of the name `None`. -/
theorem ofData_putAt_null (l : Level) (hm : l.mapping? entries = some m) (hkey : key ∈ l.keys)
    (habsent : Data.find? m key = none) (j : Nat) :
    (key ≠ "dir" →
      ofData processors root (l.alter (putAt j key .null) entries) =
        (ofData processors root entries).map (l.nulled key) ∧
      ∀ c, ofData processors root entries = .ok c → (l.nulled key c = c ↔ key ∉ textKeys)) ∧
    (key = "dir" →
      ofData processors root (l.alter (putAt j key .null) entries) =
        ofData processors root (l.alter (putAt j key (.text "None")) entries) ∧
      ∃ e, ofData processors root entries = .error e) := by
  refine ⟨fun hdir => ⟨?_, fun c hc => nulled_eq_iff l hc hm hkey habsent⟩, ?_⟩
  · cases l with
    | outer =>
      obtain rfl := Option.some.inj hm
      have hknown : key ∈ keys := hkey
      rw [Level.alter, ofData_eq, checkKeys_putAt hknown, find?_putAt habsent]
      exact Except.bind_eq_map fun _ => ofValues_null hkey habsent
    | static =>
      have hsame : staticOf root (some (.map (putAt j key .null m))) =
          (staticOf root (some (.map m))).map id := by
        rw [staticOf_map, checkKeys_putAt hkey, find?_putAt habsent,
          staticOfValues_null hkey habsent, ← staticOf_map, Except.map_id]
        rfl
      have hall := ofData_static processors (f := id) (k := putAt j key .null) hm hsame
      rwa [Level.alter_id] at hall
    | published i =>
      obtain rfl := (Level.mem_keys_published.mp hkey).resolve_left hdir
      have hsame : publishedDir root (.map (putAt j "prefix" .null m)) =
          (publishedDir root (.map m)).map fun d => { d with below := "None" } := by
        rw [publishedDir_map i, checkKeys_putAt hkey, find?_putAt habsent,
          publishedOfValues_prefix habsent]
        exact Except.bind_eq_map fun _ => rfl
      have hall := ofData_published processors (f := id) (k := putAt j "prefix" .null) hm hsame
      rwa [Level.alter_id] at hall
  · rintro rfl
    cases l with
    | outer => exact absurd hkey (by decide)
    | static => exact absurd hkey (by decide)
    | published i =>
      constructor
      · have hsame : publishedDir root (.map (putAt j "dir" .null m)) =
            (publishedDir root (.map (putAt j "dir" (.text "None") m))).map id := by
          rw [publishedDir_map i, publishedDir_map i, checkKeys_putAt hkey, checkKeys_putAt hkey,
            find?_putAt habsent, find?_putAt habsent, Except.map_id]
          rfl
        rw [ofData_published processors (f := putAt j "dir" (.text "None")) hm hsame]
        simp only [List.modify_id]
        exact congrFun Except.map_id _
      · cases h : ofData processors root entries with
        | error e => exact ⟨e, rfl⟩
        | ok c =>
          obtain ⟨dir, -, hsome, -⟩ := publishedDir_ok h hm
          rw [habsent] at hsome
          cases hsome

/-- A configuration with one directory to publish, which has the given keys. -/
def publishing (m : List (Data × Data)) : List (Data × Data) :=
  [(.text "static", .map [(.text "files_as", .list [.map m])])]

/-- A directory is published without a prefix. -/
theorem ofData_putAt_null_prefix :
    (Level.published 0).mapping? (publishing [(.text "dir", .text "vendor")]) =
      some [(.text "dir", .text "vendor")] ∧
    "prefix" ∈ (Level.published 0).keys ∧
    Data.find? [(.text "dir", .text "vendor")] "prefix" = none ∧ "prefix" ≠ "dir" ∧
    ofData none (.relative ["proj"])
        (publishing [(.text "dir", .text "vendor"), (.text "prefix", .null)]) =
      (ofData none (.relative ["proj"]) (publishing [(.text "dir", .text "vendor")])).map
        ((Level.published 0).nulled "prefix") := by
  have hm : (Level.published 0).mapping? (publishing [(.text "dir", .text "vendor")]) =
      some [(.text "dir", .text "vendor")] := rfl
  have hkey : "prefix" ∈ (Level.published 0).keys := by decide
  have habsent : Data.find? [(.text "dir", .text "vendor")] "prefix" = none := by decide
  have hdir : "prefix" ≠ "dir" := by decide
  exact ⟨hm, hkey, habsent, hdir,
    ((ofData_putAt_null (.published 0) hm hkey habsent 1).1 hdir).1⟩

/-- **Keys without a value that are not as good as absent**: the templates are looked for in another
directory, and a directory to publish is no longer missing. -/
theorem null_keys_noticed :
    (ofData none (.relative ["proj"]) []).toOption.map Config.templates =
      some (.relative ["proj", "templates"]) ∧
    (ofData none (.relative ["proj"]) [(.text "templates", .null)]).toOption.map Config.templates =
      some (.relative ["proj", "None"]) ∧
    ofData none (.relative ["proj"]) (publishing [(.text "prefix", .text "js")]) =
      .error (.config .entryWithoutDir) ∧
    (ofData none (.relative ["proj"])
        (publishing [(.text "prefix", .text "js"), (.text "dir", .null)])).toOption.map
          (·.static.published) = some [⟨.relative ["proj", "None"], "js"⟩] := by
  refine ⟨?_, ?_, ?_, ?_⟩ <;> decide +kernel

end Config

end Stencil
