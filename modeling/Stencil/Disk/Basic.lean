import Stencil.Disk.Tree
import Stencil.Path

/-!
# The disk

A tree of files with a current directory. Two points in a path name the directory above the one that
the path has reached, so every directory on the way must exist.

* `Disk.locate`: the place that a path names; `Disk.find?`, `Disk.read`: what stands there.
* `Disk.Action`: a change of the disk that may fail; what was done before the failure remains.
* `Disk.makeDirs`, `Disk.write`, `Disk.rename`, `Disk.unlink`: the changes.
-/

namespace Stencil

/-- **Why the disk refuses.** -/
inductive DiskProblem where
  | missing
  | notADirectory
  | isADirectory
  | exists
  deriving DecidableEq, Repr

/-- **A tree of files and the place of the current directory.** -/
structure Disk where
  tree : FileTree
  current : List String
  deriving Inhabited, Repr

namespace Disk

/-- A disk that holds nothing but the current directory. -/
def empty (current : List String) : Disk :=
  ⟨current.foldr (fun n t => .dir [(n, t)]) (.dir []), current⟩

/-- The directory at a place must exist. -/
def checkDir (d : Disk) (place : List String) : Except DiskProblem Unit :=
  match d.tree.get? place with
  | some (.dir _) => .ok ()
  | some (.file _) => .error .notADirectory
  | none => .error .missing

/-- The place that is reached from another one by the parts of a path. -/
def follow (d : Disk) : List String → List String → Except DiskProblem (List String)
  | place, [] => .ok place
  | place, part :: parts =>
    match d.checkDir place with
    | .error e => .error e
    | .ok () => d.follow (if part = ".." then place.dropLast else place ++ [part]) parts

/-- **The place that a path names.** All directories on the way exist; what the path names need
not. -/
def locate (d : Disk) (p : Path) : Except DiskProblem (List String) :=
  d.follow (if p.isAbsolute then [] else d.current) p.parts

/-- **What a path names.** -/
def find? (d : Disk) (p : Path) : Option FileTree :=
  match d.locate p with
  | .ok place => d.tree.get? place
  | .error _ => none

def isDir (d : Disk) (p : Path) : Bool := (d.find? p).any (·.isDir)

def isFile (d : Disk) (p : Path) : Bool := (d.find? p).any (!·.isDir)

/-- **The content of the file that a path names.** -/
def read (d : Disk) (p : Path) : Except DiskProblem (List UInt8) := do
  match d.tree.get? (← d.locate p) with
  | some (.file c) => return c
  | some (.dir _) => throw .isADirectory
  | none => throw .missing

/-- A change of the disk that may fail. -/
abbrev Action := ExceptT DiskProblem (StateM Disk)

/-- Puts a file or directory at a place. -/
def put (place : List String) (new : FileTree) : Action Unit :=
  modify fun d => { d with tree := d.tree.put place new }

/-- Removes what stands at a place. -/
def remove (place : List String) : Action Unit :=
  modify fun d => { d with tree := d.tree.remove place }

/-- The place that a path names on the disk as it is. -/
def place (p : Path) : Action (List String) := do MonadExcept.ofExcept ((← get).locate p)

/-- Makes a directory, unless it exists. -/
def makeDir (p : Path) : Action Unit := do
  let l ← place p
  match (← get).tree.get? l with
  | some (.dir _) => return
  | some (.file _) => throw .exists
  | none => put l (.dir [])

/-- Makes a directory and the ones below it that lead to a place. -/
def makeDirsFrom (p : Path) : List String → Action Unit
  | [] => makeDir p
  | part :: parts => do
    makeDir p
    makeDirsFrom (p.child part) parts

/-- **Makes a directory and all directories that lead to it.** -/
def makeDirs (p : Path) : Action Unit := makeDirsFrom ⟨p.root, []⟩ p.parts

/-- **Writes a file**, new or not. -/
def write (p : Path) (content : List UInt8) : Action Unit := do
  let l ← place p
  if ((← get).tree.get? l).any (·.isDir) then throw .isADirectory
  put l (.file content)

/-- **Gives a file another name**; a file of that name is replaced. -/
def rename (source target : Path) : Action Unit := do
  let s ← place source
  let t ← place target
  match (← get).tree.get? s with
  | none => throw .missing
  | some (.dir _) => throw .isADirectory
  | some (.file c) =>
    if ((← get).tree.get? t).any (·.isDir) then throw .isADirectory
    remove s
    put t (.file c)

/-- **Removes a file, if there is one.** -/
def unlink (p : Path) : Action Unit := do
  match (← get).locate p with
  | .error .missing => return
  | .error e => throw e
  | .ok l =>
    match (← get).tree.get? l with
    | none => return
    | some (.dir _) => throw .isADirectory
    | some (.file _) => remove l

end Disk

end Stencil
