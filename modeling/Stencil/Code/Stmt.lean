import Stencil.Order
import Stencil.Pattern.Code
import Stencil.Template.Basic

/-!
# Statements of generated functions

* `Stmt`: the statements, with the place of the template that each comes from.
* `Head`, `Line`: what a line of code says, and a line with its indentation.
* `Stmt.lines`: a statement as indented lines; an empty body is one line that does nothing.
-/

namespace Stencil

namespace Names

/-- The parameter of every rendering function that takes the output. -/
def out : String := "_tplc_out_"

def writeEscaped : String := "_tplc_write_escaped"

def writeRaw : String := "_tplc_write_raw"

/-- The name of the module of static files inside generated modules. -/
def staticsAlias : String := "_tplc_statics"

/-- The module of helpers of a generated package. -/
def utils : String := "_utils"

/-- The module of static files of a generated package, and the first part of paths into it. -/
def statics : String := "statics"

end Names

/-- A rendering function of another module. -/
structure TemplateRef where
  namespaces : List String
  function : String
  deriving DecidableEq, Repr

namespace TemplateRef

def module (r : TemplateRef) : String := "template_" ++ r.function

/-- The name of the function inside other modules. -/
def localName (r : TemplateRef) : String :=
  "_tplc_" ++ "__".intercalate (r.namespaces ++ [r.function])

/-- The order of references: by directories, then by name. -/
def le (a b : TemplateRef) : Bool :=
  if a.namespaces = b.namespaces then textLe a.function b.function
  else textsLe a.namespaces b.namespaces

end TemplateRef

/-- **What a call of a template runs.** -/
inductive Target where
  /-- A name that a parameter or a pattern binds. -/
  | bound (name : String)
  /-- The function of the module itself. -/
  | own (function : String)
  | template (ref : TemplateRef)
  /-- Any other function. -/
  | other (path : List String)
  deriving DecidableEq, Repr

/-- The text of a target. -/
def Target.code : Target → String
  | bound n => n
  | own f => f
  | template r => r.localName
  | other path => ".".intercalate path

/-- A value in a statement: an expression of the template, or a name that generation made. -/
inductive Operand where
  | value (e : Expr)
  | made (name : String)
  deriving Repr

namespace Operand

/-- The text of an operand. -/
def code : Operand → String
  | value e => e.code
  | made n => n

/-- The expression of the template that an operand is, if it is one. -/
def expr? : Operand → Option Expr
  | value e => some e
  | made _ => none

end Operand

/-- **A statement of a generated function**, with the place of the construct it comes from. -/
inductive Stmt where
  | write (position : Nat) (text : String)
  | interpolate (position : Nat) (raw : Bool) (value : Expr)
  /-- A value that is computed and not used. -/
  | evaluate (position : Nat) (value : Expr)
  | call (position : Nat) (target : Target) (args : List Operand)
  /-- A function of the output, which is passed on as content. -/
  | define (position : Nat) (name : String) (body : List Stmt)
  | branch (position : Nat) (arms : List (Expr × List Stmt)) (otherwise : Option (List Stmt))
  | loop (position : Nat) (target : Pattern) (iterable : Expr) (body : List Stmt)
  | select (position : Nat) (subject : Operand)
      (cases : List (Pattern × Option Expr × List Stmt))
  deriving Repr

/-- **What a line of code says**: a simple statement, or the head of a block. -/
inductive Head where
  | write (text : String)
  | interpolate (raw : Bool) (value : Expr)
  | evaluate (value : Expr)
  | call (target : Target) (args : List Operand)
  | define (name : String) (params : List Param)
  /-- The condition of an arm; the first arm of a branch has a word of its own. -/
  | branch (first : Bool) (condition : Expr)
  | otherwise
  | loop (target : Pattern) (iterable : Expr)
  | select (subject : Operand)
  | case (pattern : Pattern) (guard : Option Expr)
  /-- Does nothing. -/
  | pass
  deriving Repr

/-- **The text of a line**, its indentation aside. -/
def Head.code : Head → String
  | write s => Names.out ++ ".write(" ++ Text.quote s ++ ")"
  | interpolate raw e =>
    (if raw then Names.writeRaw else Names.writeEscaped) ++ "(" ++ Names.out ++ ", " ++ e.code ++
      ")"
  | evaluate e => e.code
  | call target args =>
    target.code ++ "(" ++ ", ".intercalate (Names.out :: args.map Operand.code) ++ ")"
  | define name params =>
    "def " ++ name ++ "(" ++ Names.out ++ ": Writer" ++
      String.join (params.map fun p => ", " ++ p.name ++ ": " ++ p.type) ++ ") -> None:"
  | branch first e => (if first then "if " else "elif ") ++ e.code ++ ":"
  | otherwise => "else:"
  | loop target iterable => "for " ++ target.target ++ " in " ++ iterable.code ++ ":"
  | select subject => "match " ++ subject.code ++ ":"
  | case pattern guard =>
    "case " ++ pattern.code ++ (match guard with | some g => " if " ++ g.code | none => "") ++ ":"
  | pass => "pass"

/-- A line of code with its level of indentation and the place it comes from. -/
structure Line where
  indent : Nat
  head : Head
  position : Nat
  deriving Repr

/-- **A line with its indentation.** -/
def Line.text (l : Line) : String :=
  String.ofList (List.replicate (4 * l.indent) ' ') ++ l.head.code

/-- The lines as one text. -/
def Line.join (ls : List Line) : String := "\n".intercalate (ls.map Line.text) ++ "\n"

namespace Stmt

def position : Stmt → Nat
  | write p _ | interpolate p _ _ | evaluate p _ | call p _ _ | define p _ _ | branch p _ _
  | loop p _ _ _ | select p _ _ => p

/-- The lines of a body: one that does nothing if there are no others. -/
def orPass (indent position : Nat) (ls : List Line) : List Line :=
  if ls.isEmpty then [⟨indent, .pass, position⟩] else ls

mutual

/-- **The lines of a statement**, at a level of indentation. -/
def lines (indent : Nat) : Stmt → List Line
  | write p s => [⟨indent, .write s, p⟩]
  | interpolate p raw e => [⟨indent, .interpolate raw e, p⟩]
  | evaluate p e => [⟨indent, .evaluate e, p⟩]
  | call p target args => [⟨indent, .call target args, p⟩]
  | define p name body =>
    ⟨indent, .define name [], p⟩ :: orPass (indent + 1) p (linesAll (indent + 1) body)
  | branch p arms otherwise => armLines indent p true arms ++ otherwiseLines indent p otherwise
  | loop p target iterable body =>
    ⟨indent, .loop target iterable, p⟩ :: orPass (indent + 1) p (linesAll (indent + 1) body)
  | select p subject cases => ⟨indent, .select subject, p⟩ :: caseLines (indent + 1) p cases

/-- The lines of statements, in order. -/
def linesAll (indent : Nat) : List Stmt → List Line
  | [] => []
  | s :: ss => s.lines indent ++ linesAll indent ss

/-- The lines of the arms of a branch. -/
def armLines (indent p : Nat) (first : Bool) : List (Expr × List Stmt) → List Line
  | [] => []
  | (e, body) :: arms =>
    ⟨indent, .branch first e, p⟩ ::
      orPass (indent + 1) p (linesAll (indent + 1) body) ++ armLines indent p false arms

/-- The lines of what is done if no arm is taken. -/
def otherwiseLines (indent p : Nat) : Option (List Stmt) → List Line
  | none => []
  | some body => ⟨indent, .otherwise, p⟩ :: orPass (indent + 1) p (linesAll (indent + 1) body)

/-- The lines of cases. -/
def caseLines (indent p : Nat) : List (Pattern × Option Expr × List Stmt) → List Line
  | [] => []
  | (pattern, guard, body) :: cases =>
    ⟨indent, .case pattern guard, p⟩ ::
      orPass (indent + 1) p (linesAll (indent + 1) body) ++ caseLines indent p cases

end

/-! ## What statements refer to -/

mutual

/-- The templates that a statement calls, in order. -/
def refs : Stmt → List TemplateRef
  | call _ (.template r) _ => [r]
  | define _ _ body => refsAll body
  | branch _ arms otherwise => armRefs arms ++ otherwiseRefs otherwise
  | loop _ _ _ body => refsAll body
  | select _ _ cases => caseRefs cases
  | _ => []

/-- The templates that statements call. -/
def refsAll : List Stmt → List TemplateRef
  | [] => []
  | s :: ss => s.refs ++ refsAll ss

/-- The templates that the arms of a branch call. -/
def armRefs : List (Expr × List Stmt) → List TemplateRef
  | [] => []
  | (_, body) :: arms => refsAll body ++ armRefs arms

/-- The templates that are called if no arm is taken. -/
def otherwiseRefs : Option (List Stmt) → List TemplateRef
  | none => []
  | some body => refsAll body

/-- The templates that cases call. -/
def caseRefs : List (Pattern × Option Expr × List Stmt) → List TemplateRef
  | [] => []
  | (_, _, body) :: cases => refsAll body ++ caseRefs cases

end

mutual

/-- The expressions of a statement, in the order of its lines. -/
def exprs : Stmt → List Expr
  | write .. => []
  | interpolate _ _ e => [e]
  | evaluate _ e => [e]
  | call _ _ args => args.filterMap Operand.expr?
  | define _ _ body => exprsAll body
  | branch _ arms otherwise => armExprs arms ++ otherwiseExprs otherwise
  | loop _ _ e body => e :: exprsAll body
  | select _ subject cases => subject.expr?.toList ++ caseExprs cases

/-- The expressions of statements. -/
def exprsAll : List Stmt → List Expr
  | [] => []
  | s :: ss => s.exprs ++ exprsAll ss

/-- The expressions of the arms of a branch. -/
def armExprs : List (Expr × List Stmt) → List Expr
  | [] => []
  | (e, body) :: arms => e :: exprsAll body ++ armExprs arms

/-- The expressions of what is done if no arm is taken. -/
def otherwiseExprs : Option (List Stmt) → List Expr
  | none => []
  | some body => exprsAll body

/-- The expressions of cases: guards and bodies. -/
def caseExprs : List (Pattern × Option Expr × List Stmt) → List Expr
  | [] => []
  | (_, guard, body) :: cases => guard.toList ++ exprsAll body ++ caseExprs cases

end

end Stmt

end Stencil
