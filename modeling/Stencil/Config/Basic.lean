import Stencil.Data.Basic
import Stencil.Error
import Stencil.Path
import Stencil.Text.Identifier

/-!
# Settings of a build

* `Config`: the settings, with paths that are resolved already.
* `Config.ofData`: the settings that a mapping gives; `Config.default`: those without one.
* `Config.withOverrides`: settings from the command line go before those of the file.
-/

namespace Stencil

/-- A directory whose files keep their names and are published below a prefix. -/
structure PublishedDir where
  dir : Path
  below : String
  deriving DecidableEq, Repr

/-- **Where the static files of a build come from.** -/
structure StaticConfig where
  dirs : List Path
  files : List Path
  published : List PublishedDir
  stylesheets : List Path
  deriving DecidableEq, Repr

namespace StaticConfig

def none : StaticConfig := ⟨[], [], [], []⟩

/-- There is a source of static files. -/
def isEnabled (s : StaticConfig) : Bool :=
  !(s.dirs.isEmpty && s.files.isEmpty && s.published.isEmpty && s.stylesheets.isEmpty)

end StaticConfig

/-- **The settings of a build.** -/
structure Config where
  root : Path
  templates : Path
  output : Path
  package : String
  workers : Int
  exclude : List String
  static : StaticConfig
  deriving DecidableEq, Repr

/-- The number of workers on a machine: one for each processor, at most eight, at least one. -/
def defaultWorkers (processors : Option Nat) : Nat :=
  min 8 (match processors with | some (n + 1) => n + 1 | _ => 1)

/-- Settings that go before those of a file. -/
structure Overrides where
  templates : Option Path
  output : Option Path
  package : Option String
  workers : Option Int
  deriving DecidableEq, Repr

namespace Config

/-- A failure of the settings. -/
def fail {α : Type} (problem : ConfigProblem) : Except Error α := .error (.config problem)

/-- **All keys of a mapping must be known**; an unknown one that is no text cannot be reported. -/
def checkKeys (entries : List (Data × Data)) (known : List String) (place : String) :
    Except Error Unit :=
  let unknown := (entries.map Prod.fst).filter fun k => !(k.text?.any known.contains)
  if unknown.isEmpty then .ok ()
  else if unknown.all (·.text?.isSome) then
    fail (.unknownKeys place (sortTexts (dedup (unknown.filterMap Data.text?))))
  else .error (.fault .keyNotText)

/-- A text or a list of texts; nothing is the empty list. -/
def texts (place : String) : Option Data → Except Error (List String)
  | none | some (.scalar .null) => .ok []
  | some (.scalar (.text s)) => .ok [s]
  | some (.list items) =>
    if items.all (·.text?.isSome) then .ok (items.filterMap Data.text?) else fail (.notTexts place)
  | some _ => fail (.notTexts place)

/-- Paths below a root. -/
def paths (root : Path) (place : String) (value : Option Data) : Except Error (List Path) :=
  (texts place value).map (·.map fun s => root / .parse s)

/-- The text of a value, if it has one. -/
def shown (d : Data) : Except Error String :=
  if d.isWritable then .ok d.shown else .error (.fault .unreadableNumber)

/-- The text of a value, or a default if there is no value. -/
def shownOr (fallback : String) : Option Data → Except Error String
  | none => .ok fallback
  | some d => shown d

/-- A directory to publish. -/
def publishedDir (root : Path) : Data → Except Error PublishedDir
  | .map entries => do
    checkKeys entries ["dir", "prefix"] "static.files_as"
    match Data.find? entries "dir" with
    | none => fail .entryWithoutDir
    | some dir => do
      let dir ← shown dir
      let below ← shownOr "" (Data.find? entries "prefix")
      return ⟨root / .parse dir, below⟩
  | _ => fail .entryNotMapping

/-- The directories to publish. -/
def publishedDirs (root : Path) (value : Option Data) : Except Error (List PublishedDir) :=
  match value with
  | none => .ok []
  | some d =>
    if d.isEmpty then .ok []
    else
      match d with
      | .list items => items.mapM (publishedDir root)
      | _ => fail .entriesNotList

/-- The sources of static files. -/
def staticOf (root : Path) : Option Data → Except Error StaticConfig
  | none | some (.scalar .null) => .ok .none
  | some (.map entries) => do
    checkKeys entries ["dirs", "files", "files_as", "sass"] "static"
    let value := Data.find? entries
    match value "files_as" with
    | some d =>
      match d.isEmpty, d with
      | true, _ | _, .list _ => pure ()
      | _, _ => fail .entriesNotList
    | none => pure ()
    let dirs ← paths root "static.dirs" (value "dirs")
    let files ← paths root "static.files" (value "files")
    let published ← publishedDirs root (value "files_as")
    let stylesheets ← paths root "static.sass" (value "sass")
    return ⟨dirs, files, published, stylesheets⟩
  | some _ => fail .staticNotMapping

/-- The number of workers that is set, if one is. -/
def workersOf : Option Data → Except Error (Option Int)
  | none | some (.scalar .null) => .ok none
  | some (.scalar (.int n)) => .ok (some n)
  | some _ => fail .workersNotInteger

/-- **Settings that can be used**: the package is an identifier and there is at least one worker. -/
def check (c : Config) : Except Error Config :=
  if !Text.isIdentifier c.package then fail (.badPackage (Text.quote c.package))
  else if c.workers < 1 then
    if (Scalar.int c.workers).isWritable then fail (.workersNotPositive c.workers)
    else .error (.fault .unreadableNumber)
  else .ok c

/-- The keys of a configuration. -/
def keys : List String := ["templates", "output", "package", "workers", "exclude", "static"]

def defaultTemplates : String := "templates"

def defaultOutput : String := "generated"

def defaultPackage : String := "templates"

/-- **The settings of a project without a configuration.** -/
def default (processors : Option Nat) (root : Path) : Config :=
  ⟨root, root / .parse defaultTemplates, root / .parse defaultOutput, defaultPackage,
    defaultWorkers processors, [], .none⟩

/-- **The settings that a mapping gives**; relative paths start at the root. -/
def ofData (processors : Option Nat) (root : Path) (entries : List (Data × Data)) :
    Except Error Config := do
  checkKeys entries keys "tplc.yaml"
  let value := Data.find? entries
  let workers ← workersOf (value "workers")
  let templates ← shownOr defaultTemplates (value "templates")
  let output ← shownOr defaultOutput (value "output")
  let package ← shownOr defaultPackage (value "package")
  let exclude ← texts "exclude" (value "exclude")
  let static ← staticOf root (value "static")
  check
    { root
      templates := root / .parse templates
      output := root / .parse output
      package
      workers := workers.getD (defaultWorkers processors)
      exclude
      static }

/-- **The settings with others before them**; they are checked again if there are any. -/
def withOverrides (c : Config) (o : Overrides) : Except Error Config :=
  if o = ⟨none, none, none, none⟩ then .ok c
  else
    check { c with
      templates := o.templates.getD c.templates
      output := o.output.getD c.output
      package := o.package.getD c.package
      workers := o.workers.getD c.workers }

end Config

end Stencil
