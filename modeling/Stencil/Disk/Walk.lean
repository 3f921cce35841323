import Stencil.Disk.Basic
import Stencil.Error

/-!
# Walking through directories

* `FileTree.walk`: the files of a tree in order, hidden ones and those left out excepted.
* `Disk.places`, `Disk.files`: the files below a directory, by place and by path.
-/

namespace Stencil

/-- A name that starts with a point. -/
def isHidden (name : String) : Bool := name.toList.head? = some '.'

/-- The text of a place below a directory. -/
def placeText (place : List String) : String := "/".intercalate place

namespace FileTree

/-- Entries in the order of their names. -/
def sortEntries {α : Type} (es : List (String × α)) : List (String × α) :=
  sortBy (fun a b => textLe a.1 b.1) es

mutual

/-- The files of a tree that stands at a place: first the ones in the directory itself, then those
of its subdirectories, each by name. -/
def walkFrom (excluded : String → Bool) (place : List String) : FileTree → List (List String)
  | file _ => []
  | dir es =>
    ((sortEntries es).filterMap fun (n, t) =>
      if t.isDir || isHidden n || excluded (placeText (place ++ [n])) then none
      else some (place ++ [n])) ++
    (sortEntries (walkEntries excluded place es)).flatMap Prod.snd

/-- The files of the subdirectories, each with the name of its directory. A directory that is left
out is not entered. -/
def walkEntries (excluded : String → Bool) (place : List String) :
    List (String × FileTree) → List (String × List (List String))
  | [] => []
  | (n, t) :: es =>
    let others := walkEntries excluded place es
    if isHidden n || excluded (placeText (place ++ [n]) ++ "/") then others
    else (n, t.walkFrom excluded (place ++ [n])) :: others

end

/-- **The places of the files of a tree**, in order. A place is left out if the test says so of its
text; the text of a directory ends with a slash. -/
def walk (excluded : String → Bool) (t : FileTree) : List (List String) := t.walkFrom excluded []

end FileTree

/-- **The places of the files below a directory**, seen from it. -/
def Disk.places (d : Disk) (excluded : String → Bool) (root : Path) :
    Except Error (List (List String)) :=
  match d.find? root with
  | some (.dir es) => .ok ((FileTree.dir es).walk excluded)
  | _ => .error (.io .notADirectory root.toString)

/-- **The paths of the files below a directory.** -/
def Disk.files (d : Disk) (excluded : String → Bool) (root : Path) : Except Error (List Path) :=
  (d.places excluded root).map (·.map fun l => root / .relative l)

end Stencil
