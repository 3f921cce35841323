import Stencil.Error
import Stencil.Template.Basic
import Stencil.Text.Identifier

/-!
# Names of templates

* `isTemplateFile`: the files that are templates.
* `TemplateName.ofPath`: the name of the template in a file.
* `decodeSource`: the text of a template file.
-/

namespace Stencil

open Text

/-- The formats of templates, which are the suffixes of their files. -/
def formats : List String := ["html", "xml", "svg"]

/-- What the names in generated code start with that belong to the generator. -/
def ownPrefix : String := "_tplc"

/-- **A file that is a template**: by its suffix, hidden files excepted. -/
def isTemplateFile (path : Path) : Bool :=
  formats.contains (String.ofList (path.suffix.toList.drop 1)) && path.name.toList.head? != some '.'

/-- A text with underscores in place of its dashes. -/
def underscored (s : String) : String :=
  String.ofList (s.toList.map fun c => if c = '-' then '_' else c)

/-- A name that can stand in generated code and does not belong to the generator. -/
def isTemplateWord (s : String) : Bool :=
  isIdentifier s && !isReserved s && !ownPrefix.toList.isPrefixOf s.toList

/-- **The name of the template in a file**, by its path below the template directory. -/
def TemplateName.ofPath (path : Path) (display : String) : Except Error TemplateName :=
  let suffix := path.suffix
  let namespaces := path.parent.components.map underscored
  let stem := underscored (String.ofList (path.name.toList.take
    (if suffix = "" then 0 else path.name.length - suffix.length)))
  match (namespaces ++ [stem]).find? (!isTemplateWord ·) with
  | some bad => .error (.parse (.badTemplateName bad path.toString) (.start display))
  | none => .ok ⟨namespaces, stem, String.ofList (suffix.toList.drop 1)⟩

/-- **The text of a template file**, without the byte order mark at its start. A byte that is not
well-formed UTF-8 is reported where the text before it ends. -/
def decodeSource (bytes : List UInt8) (display : String) : Except Error (List Char) :=
  match Utf8.decodeLongest bytes with
  | (cs, []) => .ok (if cs.head? = some '\ufeff' then cs.drop 1 else cs)
  | (cs, left) =>
    let (line, column) := Source.locate ⟨cs, display⟩ cs.length
    .error (.parse .badEncoding ⟨display, line, column, bytes.length - left.length, ""⟩)

end Stencil
