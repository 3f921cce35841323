import Stencil.Build.Project
import Stencil.Data.Json

/-!
# Reports

* `Report.ofResult`: the report of a build; `Report.ofError`: that of a failure.
-/

namespace Stencil

/-- The kind of an error, as reports name it. -/
def Error.kind : Error → String
  | general _ => "TplcError"
  | io .. => "IoError"
  | parse .. => "ParseError"
  | duplicate .. => "DuplicateNameError"
  | stylesheet .. => "CollaboratorError"
  | config _ => "ConfigError"
  | fault _ => ""

namespace Report

/-- The version of the format of reports. -/
def protocol : Nat := 1

/-- The version of the tool. -/
def version : String := "0.1.0"

/-- A number. -/
def number (n : Nat) : Data := .scalar (.int n)

/-- A list of texts. -/
def texts (l : List String) : Data := .list (l.map .text)

/-- A mapping, in the order of its keys. -/
def object (entries : List (String × Data)) : Data :=
  .map (entries.map fun (k, v) => (.text k, v))

/-- A path as seen from a directory, if it lies below it. -/
def seenFrom (root path : Path) : String := ((path.relativeTo? root).getD path).toString

/-- A generated file. -/
def ofFile (root : Path) (f : Build.BuiltFile) : Data :=
  object
    [("path", .text (seenFrom root f.path)), ("status", .text f.status.label),
      ("sources", texts (f.sources.map (seenFrom root)))]

/-- **The report of a build**, with paths as seen from a directory. -/
def ofResult (root : Path) (c : Config) (r : Build.Result) : Data :=
  object
    [("protocol", number protocol), ("version", .text version), ("package", .text c.package),
      ("output", .text (seenFrom root c.output)), ("templates", texts r.templates),
      ("units", .list (r.units.map (ofFile root))),
      ("statics", object (r.statics.map fun (k, v) => (k, .text v))),
      ("dependencies", texts (r.dependencies.map (seenFrom root))),
      ("written", number (r.count .written)), ("unchanged", number (r.count .unchanged))]

/-- **The report of a failure**, with the place in a template if there is one. -/
def ofError (e : Error) : Data :=
  let (file, line, column) :=
    match e with
    | .parse _ p =>
      (if p.file = "" then Data.null else .text p.file, number p.line, number p.column)
    | _ => (.null, .null, .null)
  object
    [("protocol", number protocol), ("error", .text e.message), ("kind", .text e.kind),
      ("file", file), ("line", line), ("column", column)]

end Report

end Stencil
