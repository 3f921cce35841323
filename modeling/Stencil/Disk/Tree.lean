/-!
# Trees of files

* `FileTree`: a file with its content, or a directory with named entries.
* `FileTree.get?`: what stands at a place; `FileTree.alter`: the one way to change a tree.
* `FileTree.additions`: the directories and files of a tree that are not in an older one, or differ
  there. Directories come before what they hold.
-/

namespace Stencil

/-- **A file, or a directory with its entries.** -/
inductive FileTree where
  | file (content : List UInt8)
  | dir (entries : List (String × FileTree))
  deriving Inhabited, Repr

namespace FileTree

/-- The entries of a directory; a file has none. -/
def entries : FileTree → List (String × FileTree)
  | dir es => es
  | file _ => []

def isDir : FileTree → Bool
  | dir _ => true
  | file _ => false

/-- The content of a file. -/
def content? : FileTree → Option (List UInt8)
  | file c => some c
  | dir _ => none

/-- **What stands at a place**, which is given by names from the top. -/
def get? : FileTree → List String → Option FileTree
  | t, [] => some t
  | t, n :: ns => (t.entries.lookup n).bind (get? · ns)

/-- The entries with the one of a name changed, removed or added. -/
def alterEntry (name : String) (change : Option FileTree → Option FileTree) :
    List (String × FileTree) → List (String × FileTree)
  | [] => ((change none).map fun t => (name, t)).toList
  | (n, t) :: es =>
    if n = name then ((change (some t)).map fun u => (n, u)).toList ++ es
    else (n, t) :: alterEntry name change es

/-- **The tree with what stands at a place changed, removed or added.** A place below something that
is no directory is left alone. -/
def alter (change : Option FileTree → Option FileTree) :
    List String → Option FileTree → Option FileTree
  | [], t => change t
  | n :: ns, some (dir es) => some (dir (alterEntry n (alter change ns) es))
  | _ :: _, t => t

/-- The tree with a file or directory put at a place. -/
def put (t : FileTree) (place : List String) (new : FileTree) : FileTree :=
  (alter (fun _ => some new) place (some t)).getD t

/-- The tree without what stands at a place. -/
def remove (t : FileTree) (place : List String) : FileTree :=
  (alter (fun _ => none) place (some t)).getD t

/-! ## What one tree has beyond another -/

mutual

/-- What a tree that stands at a place has beyond an older one at that place. -/
def additionsFrom (old : Option FileTree) (place : List String) :
    FileTree → List (List String × FileTree)
  | file c => if old.bind content? = some c then [] else [(place, file c)]
  | dir es =>
    let here := if old.any isDir then [] else [(place, dir [])]
    here ++ additionsBelow ((old.map entries).getD []) place es

/-- What entries of a directory have beyond those of an older one. -/
def additionsBelow (old : List (String × FileTree)) (place : List String) :
    List (String × FileTree) → List (List String × FileTree)
  | [] => []
  | (n, t) :: es =>
    t.additionsFrom (old.lookup n) (place ++ [n]) ++ additionsBelow old place es

end

/-- **What a tree has beyond an older one**: new directories, each without what it holds, and files
that are new or changed, by place. -/
def additions (old new : FileTree) : List (List String × FileTree) :=
  new.additionsFrom (some old) []

end FileTree

end Stencil
