import Stencil.Problem
import Stencil.Expr.Basic
import Stencil.Decimal.Read
import Stencil.Decimal.Shortest
import Stencil.Text.Quoted

/-!
# Code of expressions

Names are first resolved on the tree; the text is printed from the resolved tree.

* `Resolution`, `Expr.resolve`: local names get their names in the code, paths may get a code of
  their own.
* `Expr.code`: the text. Unary and binary operations stand in parentheses, so that the order of
  evaluation does not hang on precedence and comparisons do not chain.
-/

namespace Stencil

namespace Literal

/-- An integer whose decimal digits can be written. -/
def isWritable : Literal → Bool
  | int n => n.natAbs < Nat.pow 10 maxDecimalDigits
  | _ => true

/-- **The text of a literal value.** -/
def code : Literal → String
  | null => "None"
  | bool true => "True"
  | bool false => "False"
  | int n => toString n
  | float x =>
    if x.isFinite then x.text .literal
    else "float(" ++ Text.quote (x.text .literal) ++ ")"
  | text ps => Text.quotePoints ps

end Literal

/-- **What names and paths become in the code.** -/
structure Resolution where
  /-- The name in the code of a name in the template. -/
  rename : String → String
  /-- The code of a path, if it has one of its own. -/
  ofPath : List String → Nat → Except Failure (Option String)

/-- Every name and path stays as it is. -/
def Resolution.trivial : Resolution := ⟨id, fun _ _ => .ok none⟩

/-- The path with its first part renamed. -/
def Resolution.renameHead (r : Resolution) : List String → List String
  | [] => []
  | n :: ns => r.rename n :: ns

namespace Expr

mutual

/-- **The expression with its names resolved.** It fails at a path that must not be used, and at an
integer that cannot be written; of two failures the one met first in the order of printing wins,
where the end of a range comes before its start. -/
def resolve (r : Resolution) : Expr → Except Failure Expr
  | literal p v => if v.isWritable then .ok (literal p v) else .error .unreadableNumber
  | name p n => .ok (name p (r.rename n))
  | path p parts => do
    match ← r.ofPath parts p with
    | some code => return name p code
    | none => return path p (r.renameHead parts)
  | field p v n => do return field p (← v.resolve r) n
  | method p v n as => do
    let v ← v.resolve r
    return method p v n (← resolveAll r as)
  | call p f as => do
    let f ← f.resolve r
    return call p f (← resolveAll r as)
  | index p v i => do
    let v ← v.resolve r
    return index p v (← i.resolve r)
  | tuple p is => do return tuple p (← resolveAll r is)
  | list p is => do return list p (← resolveAll r is)
  | range p s e i => do
    let e ← e.resolve r
    return range p (← s.resolve r) e i
  | unary p o e => do return unary p o (← e.resolve r)
  | binary p o a b => do
    let a ← a.resolve r
    return binary p o a (← b.resolve r)
  | group p e => do return group p (← e.resolve r)

/-- The expressions with their names resolved, from the first to the last. -/
def resolveAll (r : Resolution) : List Expr → Except Failure (List Expr)
  | [] => .ok []
  | e :: es => do
    let e ← e.resolve r
    return e :: (← resolveAll r es)

end

/-- The base of a postfix expression: a literal needs parentheses, as a point after digits would be
read as part of the number. -/
def asBase (e : Expr) (code : String) : String :=
  match e with
  | literal .. => "(" ++ code ++ ")"
  | _ => code

mutual

/-- **The text of an expression.** -/
def code : Expr → String
  | literal _ v => v.code
  | name _ n => n
  | path _ parts => ".".intercalate parts
  | field _ v n => asBase v v.code ++ "." ++ n
  | method _ v n as => asBase v v.code ++ "." ++ n ++ "(" ++ ", ".intercalate (codeAll as) ++ ")"
  | call _ f as => asBase f f.code ++ "(" ++ ", ".intercalate (codeAll as) ++ ")"
  | index _ v i => asBase v v.code ++ "[" ++ i.code ++ "]"
  | tuple _ [i] => "(" ++ i.code ++ ",)"
  | tuple _ is => "(" ++ ", ".intercalate (codeAll is) ++ ")"
  | list _ is => "[" ++ ", ".intercalate (codeAll is) ++ "]"
  | range _ s e inclusive =>
    "range(" ++ s.code ++ ", " ++ e.code ++ (if inclusive then " + 1" else "") ++ ")"
  | unary _ .not e => "(not " ++ e.code ++ ")"
  | unary _ .neg e => "(-" ++ e.code ++ ")"
  | binary _ o a b => "(" ++ a.code ++ " " ++ o.symbol ++ " " ++ b.code ++ ")"
  | group _ e => "(" ++ e.code ++ ")"

/-- The texts of expressions. -/
def codeAll : List Expr → List String
  | [] => []
  | e :: es => e.code :: codeAll es

end

end Expr

end Stencil
