import Stencil.Expr.Code
import Stencil.Pattern.Basic

/-!
# Code of patterns

* `Pattern.resolve`: the pattern with the names it binds as they are in the code.
* `Pattern.code`: the text of a case; `Pattern.target`: the text of a plain loop's target.
-/

namespace Stencil.Pattern

mutual

/-- **The pattern with the names it binds as they are in the code.** It fails at an integer that
cannot be written. -/
def resolve (rename : String → String) : Pattern → Except Failure Pattern
  | wildcard p => .ok (wildcard p)
  | binding p n => .ok (binding p (rename n))
  | literal p v => if v.isWritable then .ok (literal p v) else .error .unreadableNumber
  | value p path => .ok (value p path)
  | tuple p items rest => do return tuple p (← resolveAll rename items) rest
  | variant p path items => do return variant p path (← resolveAll rename items)
  | struct p path fields o => do return struct p path (← resolveFields rename fields) o
  | or p alternatives => do return or p (← resolveAll rename alternatives)

/-- The patterns with the names they bind as they are in the code. -/
def resolveAll (rename : String → String) : List Pattern → Except Failure (List Pattern)
  | [] => .ok []
  | p :: ps => do
    let p ← p.resolve rename
    return p :: (← resolveAll rename ps)

/-- The fields with the names they bind as they are in the code. -/
def resolveFields (rename : String → String) :
    List (String × Pattern) → Except Failure (List (String × Pattern))
  | [] => .ok []
  | (n, p) :: fs => do
    let p ← p.resolve rename
    return (n, p) :: (← resolveFields rename fs)

end

/-- Texts in parentheses; one alone is followed by a comma. -/
def parenthesize : List String → String
  | [s] => "(" ++ s ++ ",)"
  | ss => "(" ++ ", ".intercalate ss ++ ")"

/-- The items of a tuple with the star that takes the rest in its place. -/
def withRest (items : List String) : Option Nat → List String
  | none => items
  | some n => items.take n ++ "*_" :: items.drop n

mutual

/-- **The text of a pattern in a case.** -/
def code : Pattern → String
  | wildcard _ => "_"
  | binding _ n => n
  | literal _ v => v.code
  | value _ path => ".".intercalate path
  | tuple _ items rest => parenthesize (withRest (codeAll items) rest)
  | variant _ path items => ".".intercalate path ++ "(" ++ ", ".intercalate (codeAll items) ++ ")"
  | struct _ path fields _ =>
    ".".intercalate path ++ "(" ++ ", ".intercalate (codeFields fields) ++ ")"
  | or _ alternatives => " | ".intercalate (codeAll alternatives)

/-- The texts of patterns. -/
def codeAll : List Pattern → List String
  | [] => []
  | p :: ps => p.code :: codeAll ps

/-- The texts of fields. -/
def codeFields : List (String × Pattern) → List String
  | [] => []
  | (n, p) :: fs => (n ++ "=" ++ p.code) :: codeFields fs

end

mutual

/-- **The text of an irrefutable pattern as the target of a plain loop.** -/
def target : Pattern → String
  | binding _ n => n
  | tuple _ items _ => parenthesize (targetAll items)
  | _ => "_"

/-- The texts of the items of a target. -/
def targetAll : List Pattern → List String
  | [] => []
  | p :: ps => p.target :: targetAll ps

end

end Stencil.Pattern
