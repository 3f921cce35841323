import Stencil.Asset.Module
import Stencil.Package.File

/-!
# Generating a package

* `Package.generate`: the files of a package from its templates and an index of static files.
-/

namespace Stencil.Package

/-- The module of static files with the files it was made from. -/
def staticsModule (ix : Index) : Except Error (String × List Path) := do
  return (← ix.moduleText, ix.sources)

/-- The context in which the templates of a package are generated. -/
def contextOf (ts : List Template) (index? : Option Index) : Context :=
  .ofNames (ts.map Template.toTemplateName) (index?.map fun ix => ix.names.map Prod.fst)

/-- **The files of a package**: the first template that fails decides the error. -/
def generate (package : String) (ts : List Template) (index? : Option Index) :
    Except Error (List File) := do
  let statics ← index?.mapM staticsModule
  let texts ← ts.mapM (Template.render (contextOf ts index?))
  files package (ts.zip texts) statics

end Stencil.Package
