import Stencil.Expr.Basic

/-!
# Patterns

* `Pattern`: the syntax trees of patterns.
* `Pattern.names`: the names that a pattern binds, in order.
* `Pattern.isIrrefutable`: what can stand as the target of a plain loop.
* `Pattern.simplify`: alternatives with a catch-all become that catch-all.
-/

namespace Stencil

/-- **A pattern.** -/
inductive Pattern where
  /-- Matches everything and binds nothing. -/
  | wildcard (position : Nat)
  /-- Matches everything and binds it to a name. -/
  | binding (position : Nat) (name : String)
  | literal (position : Nat) (value : Literal)
  /-- A variant without data: a path of at least two parts. -/
  | value (position : Nat) (path : List String)
  /-- A tuple; `rest` is the number of items before its `..`, if it has one. -/
  | tuple (position : Nat) (items : List Pattern) (rest : Option Nat)
  /-- A variant with data by position. -/
  | variant (position : Nat) (path : List String) (items : List Pattern)
  /-- A structure with named fields; `open_` if it ends in `..`. -/
  | struct (position : Nat) (path : List String) (fields : List (String × Pattern)) (open_ : Bool)
  /-- Two alternatives or more. -/
  | or (position : Nat) (alternatives : List Pattern)
  deriving Repr

namespace Pattern

/-- Where a pattern starts. -/
def position : Pattern → Nat
  | wildcard p | binding p _ | literal p _ | value p _ | tuple p _ _ | variant p _ _
  | struct p _ _ _ | or p _ => p

/-- A bare name or `_`, which matches everything. -/
def isCatchAll : Pattern → Bool
  | wildcard _ | binding _ _ => true
  | _ => false

mutual

/-- **A pattern that any value of fitting shape matches** and that can be the target of a plain
loop: a name, `_`, or a tuple of such patterns without `..`. -/
def isIrrefutable : Pattern → Bool
  | wildcard _ => true
  | binding _ _ => true
  | tuple _ items none => allIrrefutable items
  | _ => false

/-- All patterns of a list are irrefutable. -/
def allIrrefutable : List Pattern → Bool
  | [] => true
  | p :: ps => p.isIrrefutable && allIrrefutable ps

end

mutual

/-- **The names that a pattern binds**, in order; alternatives bind the names of the first. -/
def names : Pattern → List String
  | wildcard _ | literal _ _ | value _ _ => []
  | binding _ n => [n]
  | tuple _ items _ => namesAll items
  | variant _ _ items => namesAll items
  | struct _ _ fields _ => namesFields fields
  | or _ [] => []
  | or _ (p :: _) => p.names

/-- The names that a list of patterns binds. -/
def namesAll : List Pattern → List String
  | [] => []
  | p :: ps => p.names ++ namesAll ps

/-- The names that the fields of a structure bind. -/
def namesFields : List (String × Pattern) → List String
  | [] => []
  | (_, p) :: fs => p.names ++ namesFields fs

end

mutual

/-- **The pattern with every choice that has a catch-all among its alternatives replaced by that
catch-all.** The generated language allows such an alternative in the last place only. -/
def simplify : Pattern → Pattern
  | or p alternatives =>
    let alternatives := simplifyAll alternatives
    (alternatives.find? isCatchAll).getD (or p alternatives)
  | tuple p items rest => tuple p (simplifyAll items) rest
  | variant p path items => variant p path (simplifyAll items)
  | struct p path fields o => struct p path (simplifyFields fields) o
  | p => p

/-- The patterns, simplified. -/
def simplifyAll : List Pattern → List Pattern
  | [] => []
  | p :: ps => p.simplify :: simplifyAll ps

/-- The fields, with their patterns simplified. -/
def simplifyFields : List (String × Pattern) → List (String × Pattern)
  | [] => []
  | (n, p) :: fs => (n, p.simplify) :: simplifyFields fs

end

mutual

/-- The pattern with its positions set to zero. -/
def unplaced : Pattern → Pattern
  | wildcard _ => wildcard 0
  | binding _ n => binding 0 n
  | literal _ v => literal 0 v
  | value _ path => value 0 path
  | tuple _ items rest => tuple 0 (unplacedAll items) rest
  | variant _ path items => variant 0 path (unplacedAll items)
  | struct _ path fields o => struct 0 path (unplacedFields fields) o
  | or _ alternatives => or 0 (unplacedAll alternatives)

/-- The patterns with their positions set to zero. -/
def unplacedAll : List Pattern → List Pattern
  | [] => []
  | p :: ps => p.unplaced :: unplacedAll ps

/-- The fields with their positions set to zero. -/
def unplacedFields : List (String × Pattern) → List (String × Pattern)
  | [] => []
  | (n, p) :: fs => (n, p.unplaced) :: unplacedFields fs

end

end Pattern

end Stencil
