import Stencil.Template.Basic

/-!
# Nodes and patterns at any depth

* `Node.nodes`, `Node.nodesAll`: the nodes of a body with all that stand inside them.
* `Node.patterns`, `Node.patternsAll`: the patterns that stand in them.
-/

namespace Stencil.Node

mutual

/-- **A node and the nodes inside it**, at any depth. -/
def nodes : Node → List Node
  | .text p s => [.text p s]
  | .value p e raw => [.value p e raw]
  | .comment p s => [.comment p s]
  | .branch p arms otherwise =>
    .branch p arms otherwise :: (armNodes arms ++ otherwiseNodes otherwise)
  | .loop p pattern iterable body => .loop p pattern iterable body :: nodesAll body
  | .cases p subject arms => .cases p subject arms :: caseNodes arms
  | .call p path args blocks => .call p path args blocks :: (argumentNodes args ++ blockNodes blocks)

/-- The nodes of a body, at any depth. -/
def nodesAll : List Node → List Node
  | [] => []
  | n :: ns => n.nodes ++ nodesAll ns

/-- The nodes inside arms. -/
def armNodes : List (Condition × List Node) → List Node
  | [] => []
  | (_, body) :: arms => nodesAll body ++ armNodes arms

/-- The nodes inside what is done if no arm is taken. -/
def otherwiseNodes : Option (List Node) → List Node
  | none => []
  | some body => nodesAll body

/-- The nodes inside cases. -/
def caseNodes : List (Pattern × Option Expr × List Node) → List Node
  | [] => []
  | (_, _, body) :: arms => nodesAll body ++ caseNodes arms

/-- The nodes inside arguments. -/
def argumentNodes : List (Expr ⊕ List Node) → List Node
  | [] => []
  | .inl _ :: args => argumentNodes args
  | .inr body :: args => nodesAll body ++ argumentNodes args

/-- The nodes inside blocks. -/
def blockNodes : List (List Node) → List Node
  | [] => []
  | body :: blocks => nodesAll body ++ blockNodes blocks

end

mutual

/-- **The patterns of a node and of the nodes inside it**: of its loops, arms and cases. -/
def patterns : Node → List Pattern
  | .text _ _ | .value _ _ _ | .comment _ _ => []
  | .branch _ arms otherwise => armPatterns arms ++ otherwisePatterns otherwise
  | .loop _ pattern _ body => pattern :: patternsAll body
  | .cases _ _ arms => casePatterns arms
  | .call _ _ args blocks => argumentPatterns args ++ blockPatterns blocks

/-- The patterns in a body, at any depth. -/
def patternsAll : List Node → List Pattern
  | [] => []
  | n :: ns => n.patterns ++ patternsAll ns

/-- The patterns of arms and inside them. -/
def armPatterns : List (Condition × List Node) → List Pattern
  | [] => []
  | (.holds _, body) :: arms => patternsAll body ++ armPatterns arms
  | (.matches pattern _, body) :: arms => pattern :: (patternsAll body ++ armPatterns arms)

/-- The patterns inside what is done if no arm is taken. -/
def otherwisePatterns : Option (List Node) → List Pattern
  | none => []
  | some body => patternsAll body

/-- The patterns of cases and inside them. -/
def casePatterns : List (Pattern × Option Expr × List Node) → List Pattern
  | [] => []
  | (pattern, _, body) :: arms => pattern :: (patternsAll body ++ casePatterns arms)

/-- The patterns inside arguments. -/
def argumentPatterns : List (Expr ⊕ List Node) → List Pattern
  | [] => []
  | .inl _ :: args => argumentPatterns args
  | .inr body :: args => patternsAll body ++ argumentPatterns args

/-- The patterns inside blocks. -/
def blockPatterns : List (List Node) → List Pattern
  | [] => []
  | body :: blocks => patternsAll body ++ blockPatterns blocks

end

end Stencil.Node
