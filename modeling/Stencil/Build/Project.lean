import Stencil.Asset.Stylesheet
import Stencil.Build.Basic
import Stencil.Config.Basic

/-!
# Building by settings

* `Build.collect`: the index of the static files that settings name.
* `Build.runProject`: collects the static files, then builds.
-/

namespace Stencil.Build

open Asset

/-- Adds the static files that settings name: directories, files, published directories, and last
the stylesheets, which may refer to the others. -/
def addStatics (o : Origin) (s : StaticConfig) (make : Preprocessor) : Collect Unit := do
  for dir in s.dirs do
    let _ ← o.addDir dir
  for file in s.files do
    let _ ← o.addFile file
  for entry in s.published do
    let _ ← o.addDirAs entry.dir entry.below
  for file in s.stylesheets do
    let _ ← o.addStylesheet file make

/-- **The index of the static files that settings name**; none if they name no source of any. -/
def collect (disk : Disk) (c : Config) (make : Preprocessor) : Except Error (Option Index) :=
  if c.static.isEnabled then
    let origin : Origin := ⟨disk, c.root, (Exclusion.ofLines c.exclude).excludes⟩
    match (addStatics origin c.static make).run.run .empty with
    | (.ok (), index) => .ok (some index)
    | (.error e, _) => .error e
  else .ok none

/-- **Builds by settings**, or only checks that it can be done. -/
def runProject (c : Config) (make : Preprocessor) (write : Bool) : Action Result := do
  let index? ← MonadExcept.ofExcept (collect (← get).disk c make)
  run ⟨c.output, c.package, c.exclude, index?⟩ c.templates write

end Stencil.Build
