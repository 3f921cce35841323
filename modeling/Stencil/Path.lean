import Stencil.Order

/-!
# Paths

A path is kept in parts: empty parts and single points are dropped when it is read, two points are
kept.

* `Path.parse`, `Path.toString`: reading and writing a path.
* `Path.join`: an absolute right side replaces the left one.
* `Path.relativeTo?`, `Path.le`: prefixes and order go by parts.
-/

namespace Stencil

/-- **A path**: what stands before the first part (nothing, one slash or two) and the parts. -/
structure Path where
  root : String
  parts : List String
  deriving DecidableEq, Repr

namespace Path

/-- The path that names the current directory. -/
def here : Path := ⟨"", []⟩

/-- A relative path. -/
def relative (parts : List String) : Path := ⟨"", parts⟩

/-- Cuts a text at each occurrence of a character. -/
def cut (mark : Char) : List Char → List (List Char)
  | [] => [[]]
  | c :: cs =>
    if c = mark then [] :: cut mark cs
    else
      match cut mark cs with
      | [] => [[c]]
      | l :: ls => (c :: l) :: ls

/-- The root of a path text: exactly two slashes at its start count as two, all other numbers of
slashes as one. -/
def rootOf (cs : List Char) : String :=
  match (cs.takeWhile (· = '/')).length with
  | 0 => ""
  | 2 => "//"
  | _ => "/"

/-- **The path that a text names.** -/
def parse (s : String) : Path :=
  ⟨rootOf s.toList,
    ((cut '/' s.toList).map String.ofList).filter fun p => p != "" && p != "."⟩

/-- **The text of a path**; the empty relative path is a point. -/
protected def toString (p : Path) : String :=
  if p.root = "" && p.parts.isEmpty then "." else p.root ++ "/".intercalate p.parts

instance : ToString Path := ⟨Path.toString⟩

def isAbsolute (p : Path) : Bool := p.root != ""

/-- **One path below another**; an absolute right side replaces the left one. -/
def join (p q : Path) : Path := if q.isAbsolute then q else ⟨p.root, p.parts ++ q.parts⟩

instance : HDiv Path Path Path := ⟨join⟩

/-- A path with one more part. -/
def child (p : Path) (name : String) : Path := ⟨p.root, p.parts ++ [name]⟩

/-- The last part; empty if there is none. -/
def name (p : Path) : String := p.parts.getLastD ""

/-- The path without its last part. -/
def parent (p : Path) : Path := ⟨p.root, p.parts.dropLast⟩

/-- The components of a path: its root, if it has one, and its parts. -/
def components (p : Path) : List String := if p.isAbsolute then p.root :: p.parts else p.parts

/-- A file name cut before its last point: what stands before and after the point, if there is
one. -/
def splitLastPoint (name : List Char) : Option (List Char × List Char) :=
  let after := (name.reverse.takeWhile (· ≠ '.')).reverse
  if after.length = name.length then none
  else some (name.take (name.length - after.length - 1), after)

/-- The suffix of a file name with its point: empty if the last point stands first or last. -/
def suffixOf (name : String) : String :=
  match splitLastPoint name.toList with
  | some (before, after) =>
    if before.isEmpty || after.isEmpty then "" else String.ofList ('.' :: after)
  | none => ""

/-- The suffix of the last part. -/
def suffix (p : Path) : String := suffixOf p.name

/-- The file name without its suffix. -/
def stemOf (name : String) : String :=
  String.ofList (name.toList.take (name.length - (suffixOf name).length))

/-- The path with another last part. -/
def withName (p : Path) (name : String) : Path := p.parent.child name

/-- The path with another suffix; none if there is no last part. -/
def withSuffix? (p : Path) (suffix : String) : Option Path :=
  if p.name = "" then none else some (p.withName (stemOf p.name ++ suffix))

/-- **The path seen from another one that it lies below.** -/
def relativeTo? (p base : Path) : Option Path :=
  if p.root = base.root && base.parts.isPrefixOf p.parts then
    some (relative (p.parts.drop base.parts.length))
  else none

/-- **The order of paths**, by components. -/
def le (p q : Path) : Bool := textsLe p.components q.components

/-- Paths in increasing order. -/
def sort (l : List Path) : List Path := sortBy le l

end Path

end Stencil
