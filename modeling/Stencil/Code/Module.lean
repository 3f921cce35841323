import Stencil.Code.Check
import Stencil.Code.Generate
import Stencil.Error

/-!
# Generated modules

* `Template.moduleText`: a header, imports, the rendering function and, for a page, its second name.
* `Template.blamed`: the place of the template that an error at a line of the module is blamed on.
* `Template.render`: the text of the module of a template.
-/

namespace Stencil

/-- **The number of line ends of a text**, as the generated language counts them: a line ends with a
line feed, with a carriage return, or with both. -/
def lineEnds : List Char → Nat
  | [] => 0
  | '\r' :: '\n' :: cs => lineEnds cs + 1
  | c :: cs => if c = '\n' ∨ c = '\r' then lineEnds cs + 1 else lineEnds cs

/-- What stands at the top of every generated module. -/
def moduleHeader (logical : String) : String :=
  "# Generated by tplc from " ++ logical ++ ". Do not edit."

/-- The points that lead from a module to the root of the package. -/
def upward (namespaces : List String) : String :=
  String.ofList (List.replicate (namespaces.length + 1) '.')

/-- **What the module of a template imports for itself**: the helpers, the functions of other
templates and the static files. -/
inductive ModuleImport where
  | helpers
  | template (ref : TemplateRef)
  | statics
  deriving DecidableEq, Repr

/-- The line of an import; `up` are the points that lead to the root of the package. -/
def ModuleImport.line (up : String) : ModuleImport → String
  | helpers =>
    "from " ++ up ++ Names.utils ++ " import Content, Html, ToHtml, Writer, write_escaped as " ++
      Names.writeEscaped ++ ", write_raw as " ++ Names.writeRaw
  | template r =>
    "from " ++ up ++ ".".intercalate (r.namespaces ++ [r.module]) ++ " import " ++ r.function ++
      " as " ++ r.localName
  | statics => "from " ++ up ++ " import " ++ Names.statics ++ " as " ++ Names.staticsAlias

mutual

/-- An expression refers to a static file. -/
def Expr.usesStatics : Expr → Bool
  | .literal _ _ | .path _ _ => false
  | .name _ n => (Names.staticsAlias ++ ".").toList.isPrefixOf n.toList
  | .field _ v _ => v.usesStatics
  | .method _ r _ as => r.usesStatics || Expr.anyUsesStatics as
  | .call _ f as => f.usesStatics || Expr.anyUsesStatics as
  | .index _ v i => v.usesStatics || i.usesStatics
  | .tuple _ is => Expr.anyUsesStatics is
  | .list _ is => Expr.anyUsesStatics is
  | .range _ s e _ => s.usesStatics || e.usesStatics
  | .unary _ _ e => e.usesStatics
  | .binary _ _ l r => l.usesStatics || r.usesStatics
  | .group _ e => e.usesStatics

/-- One of the expressions refers to a static file. -/
def Expr.anyUsesStatics : List Expr → Bool
  | [] => false
  | e :: es => e.usesStatics || Expr.anyUsesStatics es

end

/-- The templates that statements import, each once and in order. -/
def importedRefs (stmts : List Stmt) : List TemplateRef :=
  sortBy TemplateRef.le (dedup (Stmt.refsAll stmts))

/-- **What a module with the given statements imports for itself**, in the order of its lines. -/
def moduleImports (stmts : List Stmt) : List ModuleImport :=
  .helpers :: (importedRefs stmts).map .template ++
    (if Expr.anyUsesStatics (Stmt.exprsAll stmts) then [.statics] else [])

namespace Template

/-- **The lines of the rendering function.** -/
def functionLines (t : Template) (stmts : List Stmt) : List Line :=
  ⟨0, .define t.function t.params, 0⟩ :: Stmt.orPass 1 0 (Stmt.linesAll 1 stmts)

/-- The lines before the rendering function. -/
def headLines (t : Template) (stmts : List Stmt) : List String :=
  [moduleHeader t.logical, "from __future__ import annotations", ""] ++ t.imports ++
    (moduleImports stmts).map (ModuleImport.line (upward t.namespaces))

/-- The second name of a page's rendering function. -/
def secondName (t : Template) : String :=
  if t.isPage then "\n\n" ++ t.stem ++ " = " ++ t.function ++ "\n" else ""

/-- The text before the rendering function. -/
def headText (t : Template) (stmts : List Stmt) : String :=
  "\n".intercalate (t.headLines stmts) ++ "\n\n\n"

/-- **The text of a module with the given statements.** -/
def moduleText (t : Template) (stmts : List Stmt) : String :=
  t.headText stmts ++ Line.join (t.functionLines stmts) ++ t.secondName

/-- The number of the line of a module that holds line `i` of the rendering function, as the
compiler counts them from one. -/
def lineNumber (t : Template) (stmts : List Stmt) (i : Nat) : Nat :=
  lineEnds (t.headText stmts).toList + i + 1

/-- The number of lines before the rendering function: only line feeds are counted. -/
def prefixLines (t : Template) (stmts : List Stmt) : Nat :=
  (t.headText stmts).toList.count '\n'

/-- **The place that a line of the module is blamed on**, by its number: the place that the line of
the rendering function comes from, or the start of the template if there is no such line. -/
def blamed (t : Template) (stmts : List Stmt) (number : Nat) : Nat :=
  if number ≤ t.prefixLines stmts then 0
  else
    match (t.functionLines stmts)[number - t.prefixLines stmts - 1]? with
    | some l => l.position
    | none => 0

/-- **The compiler must accept a module** with the given statements; an error is blamed on the line
where it is found, of which the head of the rendering function is the first. -/
def compile (t : Template) (stmts : List Stmt) : Except Failure Unit :=
  (Stmt.checkAll 0 stmts).mapError fun r =>
    .at (.invalidCode r.problem) (t.blamed stmts (t.lineNumber stmts (r.line + 1)))

/-- The text of the module of a template, or why there is none. -/
def module? (context : Context) (t : Template) : Except Failure String := do
  let stmts ← t.stmts context
  t.compile stmts
  return t.moduleText stmts

/-- **The text of the module of a template.** Errors name the template and not its file. -/
def render (context : Context) (t : Template) : Except Error String :=
  Source.lift ⟨t.text, t.logical⟩ (t.module? context)

end Template

end Stencil
