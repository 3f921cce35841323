import Stencil.Code.Module

/-!
# Generated packages

A package holds the helper module, the module of static files if there is one, a module for each
template, and in every directory an index that imports its modules and directories.

* `Package.File`: a file of a package.
* `Package.helpersText`: the module that every generated module imports.
* `Package.indexText`: the index of a directory, unless two things in it have one name.
* `Package.files`: all files, in the order of their paths.
-/

namespace Stencil

/-- **A file of a package**: its path below the output directory, its text, and the files it was
made from. -/
structure Package.File where
  path : Path
  text : String
  sources : List Path
  deriving DecidableEq, Repr

namespace Package

/-! ## The helper module -/

/-- **The text of the helper module**: escaping, values that write themselves, and buffers. -/
def helpersText : String :=
  "# Generated by tplc: helpers of the templates. Do not edit.\n" ++
  "from __future__ import annotations\n\n" ++
  "from dataclasses import dataclass\n" ++
  "from typing import Any, Callable, Protocol, runtime_checkable\n\n\n" ++
  "class Writer(Protocol):\n" ++
  "    def write(self, text: str, /) -> Any: ...\n\n\n" ++
  "@runtime_checkable\n" ++
  "class ToHtml(Protocol):\n" ++
  "    def to_html(self, out: Writer) -> None: ...\n\n\n" ++
  "Content = Callable[[Writer], None]\n" ++
  "_ENTITIES = [(\"&\", \"&amp;\"), (\"<\", \"&lt;\"), (\">\", \"&gt;\"), " ++
  "('\"', \"&quot;\"), (\"'\", \"&#x27;\")]\n\n\n" ++
  "def escape(text: str) -> str:\n" ++
  "    for char, entity in _ENTITIES:\n" ++
  "        text = text.replace(char, entity)\n" ++
  "    return text\n\n\n" ++
  "def write_escaped(out: Writer, value: Any) -> None:\n" ++
  "    own = getattr(value, \"to_html\", None)\n" ++
  "    safe = getattr(value, \"__html__\", None)\n" ++
  "    if callable(own):\n" ++
  "        own(out)\n" ++
  "    else:\n" ++
  "        out.write(safe() if callable(safe) else escape(str(value)))\n\n\n" ++
  "def write_raw(out: Writer, value: Any) -> None:\n" ++
  "    out.write(str(value))\n\n\n" ++
  "@dataclass(frozen=True)\n" ++
  "class Html:\n" ++
  "    value: Any\n\n" ++
  "    def to_html(self, out: Writer) -> None:\n" ++
  "        out.write(str(self.value))\n\n" ++
  "    def __str__(self) -> str:\n" ++
  "        return str(self.value)\n\n\n" ++
  "class HtmlBuffer:\n" ++
  "    def __init__(self) -> None:\n" ++
  "        self.parts: list[str] = []\n\n" ++
  "    def write(self, text: str) -> int:\n" ++
  "        self.parts.append(text)\n" ++
  "        return len(text)\n\n" ++
  "    def getvalue(self) -> str:\n" ++
  "        return \"\".join(self.parts)\n\n" ++
  "    __str__ = getvalue\n\n" ++
  "    def to_html(self, out: Writer) -> None:\n" ++
  "        out.write(self.getvalue())\n\n\n" ++
  "def render(template: Callable[..., None], *args: Any, **kwargs: Any) -> str:\n" ++
  "    buffer = HtmlBuffer()\n" ++
  "    template(buffer, *args, **kwargs)\n" ++
  "    return buffer.getvalue()\n\n\n" ++
  "@dataclass(frozen=True)\n" ++
  "class StaticFile:\n" ++
  "    content: bytes\n" ++
  "    name: str\n" ++
  "    mime: str\n"

/-! ## Indexes and files -/

/-- What an index starts with. -/
def indexHeader : String := "# Generated by tplc. Do not edit.\n"

/-- The names under which the function of a template is exported: for a page also its stem. -/
def exports (n : TemplateName) : List String :=
  if n.isPage then [n.stem, n.function] else [n.function]

/-- A name with what it belongs to. -/
structure Claim where
  name : String
  owner : String
  deriving DecidableEq, Repr

/-- How a directory is named in messages. -/
def shownDir (dir : List String) : String :=
  let s := "/".intercalate dir
  if s = "" then "<root>" else s

/-- The names of a directory: its modules and directories, then what its templates export. -/
def claims (dir children : List String) (templates : List TemplateName) (withStatics : Bool) :
    List Claim :=
  let modules := if withStatics then [Names.utils, Names.statics] else [Names.utils]
  modules.map (fun m => ⟨m, "module " ++ shownDir dir ++ "/" ++ m ++ ".py"⟩) ++
    children.map (fun c => ⟨c, "directory " ++ shownDir dir ++ "/" ++ c⟩) ++
    templates.flatMap fun t => (exports t).map fun n => ⟨n, t.logical⟩

/-- The first name that is claimed twice, with both claims. -/
def conflict? : List Claim → List Claim → Option (Claim × Claim)
  | _, [] => none
  | before, c :: cs =>
    match before.find? (·.name == c.name) with
    | some old => some (old, c)
    | none => conflict? (before ++ [c]) cs

/-- The list of exported names at the end of an index. -/
def exportList (names : List String) : String :=
  if names.isEmpty then ""
  else
    "\n__all__ = [\n" ++
      String.join (names.map fun n => "    " ++ Text.quote n ++ ",\n") ++ "]\n"

/-- **What the index of a directory imports**: a directory below it, the static files or the
function of a template. -/
inductive IndexImport where
  | directory (name : String)
  | statics
  | template (name : TemplateName)
  deriving DecidableEq, Repr

/-- The line of an import. -/
def IndexImport.line : IndexImport → String
  | directory name => "from . import " ++ name ++ "\n"
  | statics => "from . import " ++ Names.statics ++ "\n"
  | template t =>
    "from ." ++ t.module ++ " import " ++ ", ".intercalate (sortTexts (exports t)) ++ "\n"

/-- The imports of an index, in the order of its lines. -/
def indexImports (children : List String) (templates : List TemplateName) (withStatics : Bool) :
    List IndexImport :=
  children.map .directory ++ (if withStatics then [.statics] else []) ++ templates.map .template

/-- **The index of a directory**, unless two things in it have one name. -/
def indexText (dir children : List String) (templates : List TemplateName) (withStatics : Bool) :
    Except Error String :=
  match conflict? [] (claims dir children templates withStatics) with
  | some (old, new) => .error (.duplicate .template new.name old.owner new.owner)
  | none =>
    let parts := children ++ (if withStatics then [Names.statics] else [])
    let exported := sortTexts (dedup (parts ++ templates.flatMap exports))
    .ok <| indexHeader ++
      String.join ((indexImports children templates withStatics).map IndexImport.line) ++
      exportList exported

/-- The starts of a list, from the empty one to the list itself. -/
def starts : List String → List (List String)
  | [] => [[]]
  | d :: ds => [] :: (starts ds).map (d :: ·)

/-- The directories of a package: all that lead to a template, each once and in order. -/
def directories (names : List TemplateName) : List (List String) :=
  sortBy textsLe (dedup ([] :: names.flatMap fun n => starts n.namespaces))

/-- The directories directly below one, in order. -/
def childrenOf (dirs : List (List String)) (dir : List String) : List String :=
  sortTexts (dedup (dirs.filterMap fun d =>
    if dir.isPrefixOf d then (d.drop dir.length).head? else none))

/-- The templates of a directory, in the order of their functions. -/
def templatesIn (dir : List String) (ts : List Template) : List Template :=
  sortBy (fun a b => textLe a.function b.function) (ts.filter (·.namespaces == dir))

/-- The index of a directory as a file. -/
def indexFile (root : Path) (ts : List Template) (dirs : List (List String)) (withStatics : Bool)
    (dir : List String) : Except Error File := do
  let here := templatesIn dir ts
  let text ← indexText dir (childrenOf dirs dir) (here.map Template.toTemplateName)
    (withStatics && dir.isEmpty)
  return ⟨root / .relative (dir ++ ["__init__.py"]), text, Path.sort (here.map Template.path)⟩

/-- The module of a template as a file. -/
def templateFile (root : Path) (t : Template) (text : String) : File :=
  ⟨root / .relative (t.namespaces ++ [t.module ++ ".py"]), text, [t.path]⟩

/-- **All files of a package**, in the order of their paths: its name, the templates with the texts
of their modules, and the module of static files with the files it was made from. -/
def files (package : String) (modules : List (Template × String))
    (statics : Option (String × List Path)) : Except Error (List File) := do
  let root := Path.parse package
  let ts := modules.map Prod.fst
  let dirs := directories (ts.map Template.toTemplateName)
  let indices ← dirs.mapM (indexFile root ts dirs statics.isSome)
  let all : List File :=
    ⟨root.child (Names.utils ++ ".py"), helpersText, []⟩ ::
      (statics.map fun (text, sources) =>
        (⟨root.child (Names.statics ++ ".py"), text, Path.sort sources⟩ : File)).toList ++
      modules.map (fun (t, text) => templateFile root t text) ++ indices
  return sortBy (fun a b => textLe a.path.toString b.path.toString) all

end Package

end Stencil
