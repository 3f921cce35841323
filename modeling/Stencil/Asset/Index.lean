import Stencil.Asset.Name
import Stencil.Error

/-!
# The index of static files

Every file has a logical name, which templates use, and a public name. Equal contents are kept once.

* `Asset`: an entry; `Index`: the entries by logical name, the owners of public names and the
  contents by digest.
* `Index.add`: one more entry; a logical name stands once, and files of one public name have one
  content.
-/

namespace Stencil

/-- **A static file.** One that was not read from disk may have no source. -/
structure Asset where
  source : Option Path
  name : String
  digest : String
  publicPath : String
  mime : String
  content : List UInt8
  deriving DecidableEq, Repr

/-- How a source is named in messages. -/
def Asset.describe (source : Option Path) : String := (source.map Path.toString).getD "<data>"

/-- **An index of static files.** -/
structure Index where
  /-- The entries by logical name, in the order in which they were added. -/
  entries : List (String × Asset)
  /-- The logical name of the first entry of each public name. -/
  owners : List (String × String)
  /-- The contents by digest. -/
  arena : List (String × List UInt8)
  deriving DecidableEq, Repr

namespace Index

def empty : Index := ⟨[], [], []⟩

/-- The entry of a logical name. -/
def get? (ix : Index) (name : String) : Option Asset := ix.entries.lookup name

/-- The entry that owns a public name. -/
def owner? (ix : Index) (publicPath : String) : Option Asset :=
  (ix.owners.lookup publicPath).bind ix.get?

/-- The list with a pair at its end, unless the key stands in it. -/
def putNew {α : Type} (l : List (String × α)) (key : String) (value : α) : List (String × α) :=
  if (l.lookup key).isSome then l else l ++ [(key, value)]

/-- **One more entry.** An entry of the same logical name is an error, unless it is the same content
of the same source; so is a file of the same public name with another content. -/
def add (ix : Index) (source : Option Path) (name publicPath mime : String)
    (content : List UInt8) : Except Error (Index × Asset) :=
  let digest := Md5.hex content
  match ix.get? name with
  | some old =>
    if source.isSome && old.source = source && old.digest = digest then .ok (ix, old)
    else .error (.duplicate .static name (Asset.describe old.source) (Asset.describe source))
  | none =>
    match ix.owner? publicPath with
    | some old =>
      if old.digest = digest then .ok (insert digest)
      else .error
        (.duplicate .publicPath publicPath (Asset.describe old.source) (Asset.describe source))
    | none => .ok (insert digest)
where
  /-- The index with the new entry, and the entry. -/
  insert (digest : String) : Index × Asset :=
    let kept := (ix.arena.lookup digest).getD content
    let asset : Asset := ⟨source, name, digest, publicPath, mime, kept⟩
    (⟨ix.entries ++ [(name, asset)], putNew ix.owners publicPath name,
      putNew ix.arena digest content⟩, asset)

/-- **Adds a content as if it had been read from a file of the given name.** -/
def addContent (ix : Index) (source : Option Path) (name : String) (content : List UInt8) :
    Except Error (Index × Asset) :=
  ix.add source (Asset.logicalName name) (Asset.hashedName name content)
    (Asset.mimeOf (Asset.extension name)) content

/-- The entries in the order of their logical names. -/
def assets (ix : Index) : List Asset :=
  sortBy (fun a b => textLe a.name b.name) (ix.entries.map Prod.snd)

/-- **The public names by logical name**, in the order of the latter. -/
def names (ix : Index) : List (String × String) := ix.assets.map fun a => (a.name, a.publicPath)

/-- The files that entries were read from, each once and in order. -/
def sources (ix : Index) : List Path := Path.sort (dedup (ix.assets.filterMap Asset.source))

def size (ix : Index) : Nat := ix.entries.length

end Index

end Stencil
