import Stencil.Config.Basic
import Stencil.Disk.Basic
import Stencil.Text.Utf8
import Stencil.Yaml.Schema

/-!
# Reading settings

* `Config.fileName`: the file that holds the settings of a project.
* `Config.loadBy`: the settings of a project, or of a file given by its path, for any way to read
  data from a text; `Config.load`: the usual way.
-/

namespace Stencil.Config

/-- The file that holds the settings of a project. -/
def fileName : String := "tplc.yaml"

/-- A text with every line end made one line break. -/
def unifyLineEnds : List Char → List Char
  | '\r' :: '\n' :: cs => '\n' :: unifyLineEnds cs
  | '\r' :: cs => '\n' :: unifyLineEnds cs
  | c :: cs => c :: unifyLineEnds cs
  | [] => []

/-- The error for a text that cannot be read. -/
def errorOf (path : Path) : Yaml.Problem → Error
  | .unreadableNumber => .fault .unreadableNumber
  | _ => .config (.invalidYaml path.toString)

/-- A way to read data from a text. -/
abbrev Reader := List Char → Except Yaml.Problem Data

/-- The entries of a configuration text. Data without parts counts as no entries. -/
def entriesOf (read : Reader) (path : Path) (bytes : List UInt8) :
    Except Error (List (Data × Data)) := do
  let some text := Utf8.decode? bytes | throw (.fault .undecodableConfiguration)
  let data ← (read (unifyLineEnds text)).mapError (errorOf path)
  if data.isEmpty then return []
  match data with
  | .map entries => return entries
  | _ => throw (.config (.notMapping path.toString))

/-- The entries of a configuration file; a file that does not exist has none. -/
def readEntries (read : Reader) (disk : Disk) (path : Path) :
    Except Error (List (Data × Data)) :=
  match disk.read path with
  | .ok bytes => entriesOf read path bytes
  | .error _ => .ok []

/-- **The settings of a project**, from the file that is given or from the usual one. A file that is
given must exist, and its paths start where it stands. -/
def loadBy (read : Reader) (processors : Option Nat) (disk : Disk) (root : Path)
    (path : Option Path) : Except Error Config := do
  let (file, root) ←
    match path with
    | some p =>
      if disk.isFile p then pure (p, p.parent)
      else throw (.io .missingConfiguration p.toString)
    | none => pure (root.child fileName, root)
  match ← readEntries read disk file with
  | [] => return .default processors root
  | entries => ofData processors root entries

/-- **The settings of a project**, as `loadBy` says, from texts in the usual notation. -/
def load : Option Nat → Disk → Path → Option Path → Except Error Config := loadBy Yaml.parse

end Stencil.Config
