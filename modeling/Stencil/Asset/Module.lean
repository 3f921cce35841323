import Stencil.Asset.Index
import Stencil.Text.Quoted

/-!
# The module of static files

* `Index.moduleText`: a variable for each static file, a tuple of them by public name and a function
  that finds one. Equal contents are written once.
-/

namespace Stencil.Index

/-- The names that the module uses itself. -/
def reservedNames : List String := [
  "STATICS", "StaticFile", "Optional", "annotations", "get", "_BY_NAME"]

/-- How a source is named in the module. -/
def origin (a : Asset) : String := Asset.describe a.source

/-- The variable of a content. -/
def dataName (digest : String) : String := "_data_" ++ digest

/-- The line of a content. -/
def dataLine (digest : String) (content : List UInt8) : String :=
  dataName digest ++ " = " ++ Text.quoteBytes content ++ "\n"

/-- The lines of a file. -/
def assetLines (a : Asset) : String :=
  "\n# From " ++ origin a ++ "\n" ++ a.name ++ " = StaticFile(" ++ dataName a.digest ++ ", " ++
    Text.quote a.publicPath ++ ", " ++ Text.quote a.mime ++ ")\n"

/-- What the module starts with. -/
def moduleStart : String :=
  "# Generated by tplc from static files. Do not edit.\n" ++
  "from __future__ import annotations\n\n" ++
  "from typing import Optional\n\n" ++
  "from ._utils import StaticFile\n\n"

/-- What the module ends with. -/
def moduleEnd : String :=
  "\n_BY_NAME = \x7bs.name: s for s in STATICS\x7d\n" ++
  "\n\ndef get(name: str) -> Optional[StaticFile]:\n" ++
  "    \"\"\"Static file by its public name.\"\"\"\n" ++
  "    return _BY_NAME.get(name)\n"

/-- The contents by digest, in the order of the digests, each once. -/
def contents (assets : List Asset) : List (String × List UInt8) :=
  sortBy (fun a b => textLe a.1 b.1)
    (assets.foldl (fun l a => putNew l a.digest a.content) [])

/-- The first logical name of each public name, in the order of the public names. -/
def listed (assets : List Asset) : List (String × String) :=
  sortBy (fun a b => textLe a.1 b.1)
    (assets.foldl (fun l a => putNew l a.publicPath a.name) [])

/-- **The text of the module of static files**, unless a file has a name that the module uses
itself. -/
def moduleText (ix : Index) : Except Error String :=
  let assets := ix.assets
  match assets.find? fun a => reservedNames.contains a.name with
  | some a => .error (.duplicate .static a.name "statics module" (origin a))
  | none => .ok <|
    moduleStart ++ String.join ((contents assets).map fun (d, c) => dataLine d c) ++
      String.join (assets.map assetLines) ++
      "\nSTATICS = (\n" ++
      String.join ((listed assets).map fun (_, name) => "    " ++ name ++ ",\n") ++ ")\n" ++
      moduleEnd

end Stencil.Index
