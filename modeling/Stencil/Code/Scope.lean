import Stencil.Code.Stmt
import Stencil.Template.Basic

/-!
# Names in scope

* `Scope`: the names that can be used, with their names in the code.
* `Context`: the templates and static files of a build; `Context.target` finds what a call runs.
* `Env.resolution`: what names and paths of an expression become.
-/

namespace Stencil

/-- **The names in scope**, with their names in the code; later ones hide earlier ones. -/
abbrev Scope := List (String × String)

namespace Scope

/-- The name in the code; a name that is not in scope stays as it is. -/
def rename (s : Scope) (name : String) : String := (s.lookup name).getD name

/-- The name is in scope. -/
def has (s : Scope) (name : String) : Bool := (s.lookup name).isSome

/-- The scope of a rendering function: its parameters. -/
def ofParams (params : List Param) : Scope := params.map fun p => (p.name, p.name)

/-- The scope with more names, each with its name in the code. -/
def extend (s : Scope) (renamed : Scope) (names : List String) : Scope :=
  names.foldl (fun s n => (n, renamed.rename n) :: s) s

end Scope

/-- **The templates and static files of a build.** A template is found by its directories and a
name: that of its function, or its stem. Without an index of static files no path leads to one. -/
structure Context where
  templates : List ((List String × String) × TemplateRef)
  statics : Option (List String)

namespace Context

def empty : Context := ⟨[], none⟩

/-- The function of a template. -/
def refOf (n : TemplateName) : TemplateRef := ⟨n.namespaces, n.function⟩

/-- The table with one more entry, which replaces one of the same key. -/
def put (table : List ((List String × String) × TemplateRef)) (key : List String × String)
    (ref : TemplateRef) : List ((List String × String) × TemplateRef) :=
  (key, ref) :: table.filter fun entry => entry.1 != key

/-- The table with one more entry, unless there is one of the same key. -/
def putNew (table : List ((List String × String) × TemplateRef)) (key : List String × String)
    (ref : TemplateRef) : List ((List String × String) × TemplateRef) :=
  if (table.lookup key).isSome then table else (key, ref) :: table

/-- The table with the names of a template. -/
def add (table : List ((List String × String) × TemplateRef)) (n : TemplateName) :
    List ((List String × String) × TemplateRef) :=
  let table := put table (n.namespaces, n.function) (refOf n)
  if n.isPage then putNew table (n.namespaces, n.stem) (refOf n) else table

/-- **The context of a list of templates**: each is known under the name of its function, and a page
also under its stem, unless another name stands there already. -/
def ofNames (names : List TemplateName) (statics : Option (List String)) : Context :=
  ⟨names.foldl add [], statics⟩

/-- The template that a path names, seen from a directory: first below it, then from the root. -/
def find? (c : Context) (here path : List String) : Option TemplateRef :=
  let name := path.getLastD ""
  let dirs := path.dropLast
  (c.templates.lookup (here ++ dirs, name)).or (c.templates.lookup (dirs, name))

/-- **What a call runs**: a name in scope, a template, or any other function. -/
def target (c : Context) (self : TemplateName) (s : Scope) (path : List String) : Target :=
  match path, s.lookup (path.headD "") with
  | [_], some name => .bound name
  | _, _ =>
    match c.find? self.namespaces path with
    | some ref => if ref = refOf self then .own ref.function else .template ref
    | none => .other path

end Context

/-- **What is known while the code of one template is generated.** -/
structure Env where
  self : TemplateName
  context : Context

namespace Env

/-- The code of a path to a static file: a path that starts at `statics`, which no local name hides,
must name a known file. -/
def staticPath (env : Env) (s : Scope) (path : List String) (position : Nat) :
    Except Failure (Option String) :=
  match env.context.statics with
  | none => .ok none
  | some known =>
    if path.head? = some Names.statics && !s.has Names.statics then
      match path with
      | [_, file] =>
        if known.contains file then .ok (some (Names.staticsAlias ++ "." ++ file))
        else .error (.at (.unknownStatic file) position)
      | _ => .error (.at (.unknownStatic ("::".intercalate (path.drop 1))) position)
    else .ok none

/-- **What the names and paths of an expression become.** -/
def resolution (env : Env) (s : Scope) : Resolution := ⟨s.rename, env.staticPath s⟩

end Env

end Stencil
