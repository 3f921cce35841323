import Stencil.Text.CodePoint
import Stencil.Decimal.Binary64

/-!
# Expressions

* `Literal`, `Expr`: the syntax trees of expressions; every node knows where it starts.
* `UnaryOp`, `BinaryOp`: the operators, each binary one with its level.
* `Expr.unplaced`: the tree with its positions set to zero.
-/

namespace Stencil

/-- **A literal value.** A text is a list of code points, as it may hold lone surrogates. -/
inductive Literal where
  | null
  | bool (b : Bool)
  | int (n : Int)
  | float (x : Binary64)
  | text (points : List Text.CodePoint)
  deriving DecidableEq, Repr

inductive UnaryOp where
  | not
  | neg
  deriving DecidableEq, Repr

inductive BinaryOp where
  | or
  | and
  | eq
  | ne
  | lt
  | le
  | gt
  | ge
  | add
  | sub
  | mul
  | div
  | mod
  deriving DecidableEq, Repr

/-- The spelling of an operator in generated code. -/
def UnaryOp.symbol : UnaryOp → String
  | not => "not"
  | neg => "-"

/-- The spelling of an operator in generated code. -/
def BinaryOp.symbol : BinaryOp → String
  | or => "or"
  | and => "and"
  | eq => "=="
  | ne => "!="
  | lt => "<"
  | le => "<="
  | gt => ">"
  | ge => ">="
  | add => "+"
  | sub => "-"
  | mul => "*"
  | div => "/"
  | mod => "%"

/-- **The level of an operator**: one of a higher level binds tighter. -/
def BinaryOp.level : BinaryOp → Nat
  | or => 0
  | and => 1
  | eq | ne | lt | le | gt | ge => 2
  | add | sub => 3
  | mul | div | mod => 4

/-- The number of levels. -/
def BinaryOp.levels : Nat := 5

theorem BinaryOp.level_lt (op : BinaryOp) : op.level < levels := by
  cases op <;> decide

/-- **An expression.** A node starts where its first token does; a postfix or binary node starts
where its leftmost operand does. -/
inductive Expr where
  | literal (position : Nat) (value : Literal)
  | name (position : Nat) (name : String)
  /-- A path `a::b` of at least two parts. -/
  | path (position : Nat) (parts : List String)
  | field (position : Nat) (value : Expr) (name : String)
  | method (position : Nat) (receiver : Expr) (name : String) (args : List Expr)
  | call (position : Nat) (func : Expr) (args : List Expr)
  | index (position : Nat) (value index : Expr)
  | tuple (position : Nat) (items : List Expr)
  | list (position : Nat) (items : List Expr)
  | range (position : Nat) (start stop : Expr) (inclusive : Bool)
  | unary (position : Nat) (op : UnaryOp) (operand : Expr)
  | binary (position : Nat) (op : BinaryOp) (left right : Expr)
  /-- An expression in parentheses. -/
  | group (position : Nat) (inner : Expr)
  deriving Repr

namespace Expr

/-- **Where an expression starts.** -/
def position : Expr → Nat
  | literal p _ | name p _ | path p _ | field p .. | method p .. | call p .. | index p ..
  | tuple p _ | list p _ | range p .. | unary p .. | binary p .. | group p _ => p

mutual

/-- **The tree with its positions set to zero.** -/
def unplaced : Expr → Expr
  | literal _ v => literal 0 v
  | name _ n => name 0 n
  | path _ ps => path 0 ps
  | field _ v n => field 0 v.unplaced n
  | method _ r n as => method 0 r.unplaced n (unplacedAll as)
  | call _ f as => call 0 f.unplaced (unplacedAll as)
  | index _ v i => index 0 v.unplaced i.unplaced
  | tuple _ is => tuple 0 (unplacedAll is)
  | list _ is => list 0 (unplacedAll is)
  | range _ s e i => range 0 s.unplaced e.unplaced i
  | unary _ o e => unary 0 o e.unplaced
  | binary _ o l r => binary 0 o l.unplaced r.unplaced
  | group _ e => group 0 e.unplaced

/-- The trees with their positions set to zero. -/
def unplacedAll : List Expr → List Expr
  | [] => []
  | e :: es => e.unplaced :: unplacedAll es

end

end Expr

end Stencil
