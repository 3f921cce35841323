import Stencil.Asset.Index
import Stencil.Disk.Walk

/-!
# Collecting static files

* `Asset.Origin`: the disk, the directory that relative paths start at and what is left out.
* `Origin.addFile`, `Origin.addDir`: files under hashed names.
* `Origin.addFileAs`, `Origin.addDirAs`: files under names of their own.
-/

namespace Stencil.Asset

/-- **Where static files are read from.** -/
structure Origin where
  disk : Disk
  base : Path
  excluded : String → Bool

/-- A change of an index that may fail; what was added before the failure remains. -/
abbrev Collect := ExceptT Error (StateM Index)

/-- One more entry. -/
def Collect.add (entry : Index → Except Error (Index × Asset)) : Collect Asset := do
  let (index, asset) ← MonadExcept.ofExcept (entry (← get))
  set index
  return asset

namespace Origin

/-- The content of a static file. -/
def read (o : Origin) (path : Path) : Except Error (List UInt8) :=
  (o.disk.read path).mapError fun _ => .io .unreadableStatic path.toString

/-- The places of the files below a directory. -/
def places (o : Origin) (dir : Path) : Except Error (List (List String)) :=
  o.disk.places o.excluded dir

/-- Adds a file under a hashed name; its logical name is that of the given text. -/
def addHashed (o : Origin) (path : Path) (name : String) : Collect Asset := do
  let content ← MonadExcept.ofExcept (o.read path)
  Collect.add fun ix =>
    ix.add path (logicalName name) (hashedName path.name content) (mimeOf (extension path.name))
      content

/-- **Adds a file**; its logical name is that of its file name. -/
def addFile (o : Origin) (path : Path) : Collect Asset :=
  o.addHashed (o.base / path) (o.base / path).name

/-- **Adds the files of a directory**; their logical names are those of their places in it. -/
def addDir (o : Origin) (dir : Path) : Collect (List Asset) := do
  let root := o.base / dir
  (← MonadExcept.ofExcept (o.places root)).mapM fun place =>
    o.addHashed (root / .relative place) (placeText place)

/-- **Adds a file under a public name of its own.** -/
def addFileAs (o : Origin) (path : Path) (publicPath : String) : Collect Asset := do
  let path := o.base / path
  let content ← MonadExcept.ofExcept (o.read path)
  Collect.add fun ix =>
    ix.add path (logicalName publicPath) publicPath (mimeOf (extension path.name)) content

/-- A text without the slashes at its ends. -/
def trimSlashes (s : String) : String :=
  let isSlash (c : Char) : Bool := c = '/'
  String.ofList ((s.toList.dropWhile isSlash).reverse.dropWhile isSlash).reverse

/-- **Adds the files of a directory below a public directory.** The path of each file is taken from
the base once more, as `addFileAs` does. -/
def addDirAs (o : Origin) (dir : Path) (below : String) : Collect (List Asset) := do
  let root := o.base / dir
  let target := Path.parse (trimSlashes below)
  (← MonadExcept.ofExcept (o.places root)).mapM fun place =>
    o.addFileAs (root / .relative place) (target / .relative place).toString

end Origin

end Stencil.Asset
