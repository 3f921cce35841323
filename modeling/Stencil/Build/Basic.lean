import Stencil.Asset.Collect
import Stencil.Build.Task
import Stencil.Disk.Glob
import Stencil.Output
import Stencil.Package.Generate
import Stencil.Template.Parser

/-!
# Building a package

All templates are read before any code is generated, and all code is generated before any file is
written.

* `Build.State`: the disk and the log; `Build.Action`: a step of a build.
* `Build.Plan`: where the package goes and what goes into it.
* `Build.run`: reads, generates, and writes or only checks; `Build.Result`: what it gives.
-/

namespace Stencil.Build

/-- **The disk, and the lines logged so far.** -/
structure State where
  disk : Disk
  log : List LogLine
  deriving Repr

/-- A step of a build; what was done before a failure remains. -/
abbrev Action := ExceptT Error (StateM State)

/-- More lines in the log. -/
def logLines (lines : List LogLine) : Action Unit :=
  modify fun s => { s with log := s.log ++ lines }

/-- **What is built**: the package and the directory it is written to, the templates and static
files that are left out, and the static files if there are any. -/
structure Plan where
  output : Path
  package : String
  exclude : List String
  index? : Option Index
  deriving Repr

/-- A generated file, what became of it, and what it was made from. -/
structure BuiltFile where
  path : Path
  status : Status
  sources : List Path
  deriving DecidableEq, Repr

/-- **What a build gives.** -/
structure Result where
  /-- The logical names of the templates. -/
  templates : List String
  units : List BuiltFile
  dependencies : List Path
  /-- The public names of the static files by logical name. -/
  statics : List (String × String)
  deriving DecidableEq, Repr

/-- The number of files of a status. -/
def Result.count (r : Result) (status : Status) : Nat :=
  (r.units.filter (·.status = status)).length

/-- **The outcomes of tasks, judged together.** -/
def together {α : Type} (outcomes : List (Outcome α)) : Action (List α) := do
  let (lines, result) := gather outcomes
  logLines lines
  MonadExcept.ofExcept result

/-- **The template in a file** below a directory; messages name the file as seen from there. -/
def readTemplate (disk : Disk) (root path : Path) : Except Error Template := do
  match path.relativeTo? root with
  | none => throw (.fault .outside)
  | some place =>
    let name ← TemplateName.ofPath place place.toString
    let bytes ← (disk.read path).mapError fun _ => .io .unreadableTemplate path.toString
    let text ← decodeSource bytes place.toString
    Template.parse name path place.toString text

/-- The order of templates: by namespaces, then by function. -/
def templateLe (a b : Template) : Bool :=
  if a.namespaces = b.namespaces then textLe a.function b.function
  else textsLe a.namespaces b.namespaces

/-- **No two templates have one function.** -/
def checkUnique (ts : List Template) : Except Error Unit :=
  match firstRepeat? (fun t => (t.namespaces, t.function)) [] ts with
  | none => .ok ()
  | some (a, b) =>
    .error (.duplicate .template (".".intercalate (a.namespaces ++ [a.function])) a.path.toString
      b.path.toString)

/-- The templates below a directory, in order. -/
def readTemplates (excluded : String → Bool) (root : Path) : Action (List Template) := do
  let disk := (← get).disk
  let paths ← MonadExcept.ofExcept (disk.files excluded root)
  let ts ← together ((paths.filter isTemplateFile).map fun p =>
    ⟨((p.relativeTo? root).getD p).toString, readTemplate disk root p⟩)
  let ts := sortBy templateLe ts
  MonadExcept.ofExcept (checkUnique ts)
  return ts

/-- The files of the package. -/
def generate (plan : Plan) (ts : List Template) : Action (List Package.File) := do
  let statics ← MonadExcept.ofExcept (plan.index?.mapM Package.staticsModule)
  let context := Package.contextOf ts plan.index?
  let texts ← together (ts.map fun t => ⟨t.logical, t.render context⟩)
  MonadExcept.ofExcept (Package.files plan.package (ts.zip texts) statics)

/-- Writes files; gives what became of each, and all files that they were made from. -/
def writeFiles (output : Path) (files : List Package.File) :
    Action (List BuiltFile × List Path) := do
  let action : Output.Action (List BuiltFile) := files.mapM fun f => do
    return ⟨output / f.path, ← Output.write f.path f.text f.sources, f.sources⟩
  let (result, after) := action.run.run (.start (← get).disk output)
  modify fun s => { s with disk := after.disk }
  return (← MonadExcept.ofExcept result, after.dependencies)

/-- What files that are not written give. -/
def checkFiles (output : Path) (files : List Package.File) : List BuiltFile × List Path :=
  (files.map fun f => ⟨output / f.path, .checked, f.sources⟩,
    Path.sort (dedup (files.flatMap Package.File.sources)))

/-- The line that ends a build. -/
def summary (plan : Plan) (r : Result) : LogLine :=
  ⟨.info, "Compiled " ++ toString r.templates.length ++ " templates into " ++
    (plan.output / .parse plan.package).toString ++ " (" ++ toString (r.count .written) ++
    " written, " ++ toString (r.count .unchanged) ++ " unchanged)"⟩

/-- **Builds the package of the templates below a directory**, or only checks that it can be
built. -/
def run (plan : Plan) (templates : Path) (write : Bool) : Action Result := do
  let excluded := (Exclusion.ofLines plan.exclude).excludes
  let ts ← readTemplates excluded templates
  let files ← generate plan ts
  let result (units : List BuiltFile × List Path) : Result :=
    ⟨ts.map (·.logical), units.1, units.2, (plan.index?.map Index.names).getD []⟩
  if write then
    let r := result (← writeFiles plan.output files)
    logLines [summary plan r]
    return r
  else return result (checkFiles plan.output files)

end Stencil.Build
