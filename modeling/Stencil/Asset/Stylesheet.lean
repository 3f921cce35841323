import Stencil.Asset.Collect
import Stencil.Text.Utf8

/-!
# Stylesheets

* `Preprocessor`: makes a stylesheet, and may refer to the static files known so far.
* `Origin.addStylesheet`: adds what a preprocessor makes.
* `Preprocessor.ofCompiler`: the preprocessor that uses a compiler, if one is installed.
-/

namespace Stencil.Asset

/-- Why a stylesheet was not made: an error that is passed on, or a reason. -/
inductive StylesheetFailure where
  | passed (error : Error)
  | reason (text : String)
  deriving DecidableEq, Repr

/-- **Makes a stylesheet from a file**, given the public names by logical name. -/
abbrev Preprocessor := Path → List (String × String) → Except StylesheetFailure (List UInt8)

/-- The suffix of stylesheets. -/
def stylesheetSuffix : String := ".css"

/-- **Adds what a preprocessor makes of a file**, under the name of the file with another suffix. -/
def Origin.addStylesheet (o : Origin) (path : Path) (make : Preprocessor) : Collect Asset := do
  let path := o.base / path
  match make path (← get).names with
  | .error (.passed e) => throw e
  | .error (.reason text) => throw (.stylesheet text path.toString)
  | .ok content =>
    match path.withSuffix? stylesheetSuffix with
    | none => throw (.fault .noFileName)
    | some target => Collect.add (Index.addContent · (some path) target.name content)

/-- A compiler of stylesheets: it is given the style of its output, the file, and a function that
finds the public name of a static file. -/
abbrev Compiler := String → Path → (String → Except String String) → Except String String

namespace Preprocessor

/-- The style in which compilers write. -/
def outputStyle : String := "compressed"

/-- The public name of a static file, which is given by any text with its logical name. -/
def publicName (names : List (String × String)) (name : String) : Except String String :=
  match names.lookup (logicalName name) with
  | some publicPath => .ok publicPath
  | none => .error ("Static file " ++ name ++ " not found")

/-- **The preprocessor that uses a compiler**, if one is installed. -/
def ofCompiler : Option Compiler → Preprocessor
  | none, _, _ => .error (.reason "libsass is not installed (pip install tplc[sass])")
  | some compile, path, names =>
    match compile outputStyle path (publicName names) with
    | .ok text => .ok (Utf8.encodeString text)
    | .error text => .error (.reason text)

end Preprocessor

end Stencil.Asset
