import Stencil.Expr.Basic
import Stencil.Pattern.Basic
import Stencil.Path

/-!
# Templates

* `Node`: the pieces of a template's body.
* `TemplateName`, `Template`: a template with its names, parameters and body.
-/

namespace Stencil

/-- The condition of a branch: an expression that holds, or a value that a pattern matches. -/
inductive Condition where
  | holds (value : Expr)
  | matches (pattern : Pattern) (value : Expr)
  deriving Repr

/-- **A piece of a body.** Nodes start at their `@`, texts at their first character. -/
inductive Node where
  | text (position : Nat) (text : String)
  /-- A value that is written; `raw` if it is not escaped. -/
  | value (position : Nat) (value : Expr) (raw : Bool)
  | comment (position : Nat) (text : String)
  /-- Branches that are tried in order, and what is written if none is taken. -/
  | branch (position : Nat) (arms : List (Condition × List Node)) (otherwise : Option (List Node))
  | loop (position : Nat) (pattern : Pattern) (iterable : Expr) (body : List Node)
  /-- Cases that are tried in order: a pattern, a guard and a body. -/
  | cases (position : Nat) (subject : Expr) (arms : List (Pattern × Option Expr × List Node))
  /-- A call of a template or function, with expressions or blocks as arguments and further blocks
  after them. -/
  | call (position : Nat) (path : List String) (args : List (Expr ⊕ List Node))
      (blocks : List (List Node))
  deriving Repr

/-- The body of a template or block. -/
abbrev Body := List Node

/-- Where a node starts. -/
def Node.position : Node → Nat
  | text p _ | value p _ _ | comment p _ | branch p _ _ | loop p _ _ _ | cases p _ _
  | call p _ _ _ => p

/-- The text that a node adds to the text around it: a comment adds none. -/
def Node.plain? : Node → Option String
  | text _ t => some t
  | comment _ _ => some ""
  | _ => none

/-- A parameter of a template: its name and the text of its type. -/
structure Param where
  name : String
  type : String
  deriving DecidableEq, Repr

/-- **The name of a template**: its directories, the name of its file and the format it writes. -/
structure TemplateName where
  namespaces : List String
  stem : String
  format : String
  deriving DecidableEq, Repr

namespace TemplateName

/-- The name of the rendering function. -/
def function (n : TemplateName) : String := n.stem ++ "_" ++ n.format

/-- The name of the module that holds the rendering function. -/
def module (n : TemplateName) : String := "template_" ++ n.function

/-- The name shown in messages: directories, stem and format. -/
def logical (n : TemplateName) : String :=
  "/".intercalate (n.namespaces ++ [n.stem ++ "." ++ n.format])

/-- A template whose function is also exported under its stem alone. -/
def isPage (n : TemplateName) : Bool := n.format == "html"

end TemplateName

/-- What a template text holds: import statements, parameters and a body. -/
structure Outline where
  imports : List String
  params : List Param
  body : Body
  deriving Repr

/-- **A template**, with the path of its file and its text. -/
structure Template extends TemplateName, Outline where
  path : Path
  text : List Char
  deriving Repr

end Stencil
