import Stencil.Disk.Basic
import Stencil.Error
import Stencil.Text.Utf8

/-!
# Writing generated files

A file is written only if its content changes. It is written under another name first, so that a
reader sees the old content or the new one.

* `Output`: the files written so far, and the disk.
* `Output.write`: one more file.
* `Output.dependencies`: all files that the written ones were made from.
-/

namespace Stencil

/-- **What became of a generated file.** -/
inductive Status where
  | written
  | unchanged
  | checked
  deriving DecidableEq, Repr

def Status.label : Status → String
  | written => "written"
  | unchanged => "unchanged"
  | checked => "checked"

/-- **Files written below a directory**, each with what became of it and what it was made from. -/
structure Output where
  disk : Disk
  root : Path
  statuses : List (Path × Status)
  sources : List (Path × List Path)
  deriving Repr

namespace Output

/-- Nothing written yet. -/
def start (disk : Disk) (root : Path) : Output := ⟨disk, root, [], []⟩

/-- A change of the output that may fail; what was done before the failure remains. -/
abbrev Action := ExceptT Error (StateM Output)

/-- The entries with another value for a key. -/
def setEntry {κ α : Type} [BEq κ] (entries : List (κ × α)) (key : κ) (value : α) : List (κ × α) :=
  (key, value) :: entries.filter (·.1 != key)

/-- A change of the disk, with its outcome. -/
def onDisk (action : Disk.Action Unit) : Action (Except DiskProblem Unit) := do
  let o ← get
  let (outcome, disk) := action.run.run o.disk
  set { o with disk }
  return outcome

/-- The fault of a file that cannot be removed. -/
def faultOf : DiskProblem → Fault
  | .isADirectory => .isADirectory
  | _ => .notADirectory

/-- The name under which a file is written first. -/
def temporary (target : Path) : Path := target.withName (target.name ++ ".tmp")

/-- **Puts a content in place of a file.** If that fails, the file of the other name is removed. -/
def replace (target : Path) (content : List UInt8) : Action Unit := do
  if target.name = "" then throw (.fault .noFileName)
  let outcome ← onDisk do
    Disk.makeDirs target.parent
    Disk.write (temporary target) content
    Disk.rename (temporary target) target
  match outcome with
  | .ok () => return
  | .error _ =>
    match ← onDisk (Disk.unlink (temporary target)) with
    | .ok () => throw (.io .unwritableOutput target.toString)
    | .error e => throw (.fault (faultOf e))

/-- **Writes a file, unless it has the content already.** -/
def write (path : Path) (text : String) (sources : List Path) : Action Status := do
  let target := (← get).root / path
  let content := Utf8.encodeString text
  modify fun o => { o with sources := setEntry o.sources target sources }
  let unchanged := ((← get).disk.find? target).bind FileTree.content? == some content
  if !unchanged then replace target content
  let status : Status := if unchanged then .unchanged else .written
  modify fun o => { o with statuses := setEntry o.statuses target status }
  return status

/-- **All files that the written ones were made from**, each once and in order. -/
def dependencies (o : Output) : List Path := Path.sort (dedup (o.sources.flatMap Prod.snd))

/-- What a file was made from. -/
def sourcesOf (o : Output) (path : Path) : List Path := (o.sources.lookup (o.root / path)).getD []

/-- The files of a status, in order. -/
def withStatus (o : Output) (status : Status) : List Path :=
  Path.sort ((o.statuses.filter (·.2 = status)).map Prod.fst)

end Output

end Stencil
