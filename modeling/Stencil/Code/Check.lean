import Stencil.Code.Stmt

/-!
# What the generated language refuses

Statements that are well formed line by line may still be refused as a whole.

* `Pattern.captures`: the names that a pattern captures, if it is accepted.
* `Refusal`: why code is refused, and at which of its lines.
* `Stmt.check`: patterns and the nesting of loops, in the order of the lines.
-/

namespace Stencil

/-- The most loops that may stand inside one another in one function. -/
def maxLoops : Nat := 20

namespace Pattern

/-- The first name that stands again later in the list. -/
def firstRepeated? : List String → Option String
  | [] => none
  | n :: ns => if ns.contains n then some n else firstRepeated? ns

/-- One more captured name, which must not have been captured before. -/
def capture (name : String) (stores : List String) : Except CodeProblem (List String) :=
  if stores.contains name then .error (.repeatedBinding name) else .ok (stores ++ [name])

/-- Two lists hold the same names. -/
def sameNames (a b : List String) : Bool := a.length == b.length && b.all a.contains

mutual

/-- **The names that a pattern captures after those in `stores`**, if it is accepted: a name is
captured once, a field is named once, and alternatives capture the same names. -/
def captures (stores : List String) : Pattern → Except CodeProblem (List String)
  | wildcard _ | literal _ _ | value _ _ => .ok stores
  | binding _ n => if n = "_" then .ok stores else capture n stores
  | tuple _ items _ => capturesAll stores items
  | variant _ _ items => capturesAll stores items
  | struct _ _ fields _ =>
    match firstRepeated? (fields.map Prod.fst) with
    | some f => .error (.repeatedField f)
    | none => capturesFields stores fields
  | or _ alternatives => do
    match ← capturesOr none alternatives with
    | none => .ok stores
    | some names => names.foldlM (fun stores n => capture n stores) stores

/-- The names that patterns capture one after the other. -/
def capturesAll (stores : List String) : List Pattern → Except CodeProblem (List String)
  | [] => .ok stores
  | p :: ps => do capturesAll (← p.captures stores) ps

/-- The names that fields capture one after the other. -/
def capturesFields (stores : List String) :
    List (String × Pattern) → Except CodeProblem (List String)
  | [] => .ok stores
  | (_, p) :: fs => do capturesFields (← p.captures stores) fs

/-- The names that alternatives capture, those of the first one if there is one; `control` are the
names of the alternatives before. An alternative that is a choice itself counts as its own
alternatives. -/
def capturesOr (control : Option (List String)) :
    List Pattern → Except CodeProblem (Option (List String))
  | [] => .ok control
  | or _ (q :: qs) :: ps => do capturesOr (← capturesOr control (q :: qs)) ps
  | p :: ps => do
    let names ← p.captures []
    match control with
    | none => capturesOr (some names) ps
    | some control =>
      if sameNames control names then capturesOr (some control) ps
      else .error .differentBindings

end

end Pattern

/-- **Why code is refused**, and how many of its lines come before the refused one. -/
structure Refusal where
  problem : CodeProblem
  line : Nat
  deriving DecidableEq, Repr

namespace Stmt

/-- A check of code that stands after `n` lines of what is checked. -/
def after (n : Nat) (r : Except Refusal Unit) : Except Refusal Unit :=
  r.mapError fun x => ⟨x.problem, n + x.line⟩

/-- A pattern must be accepted. -/
def checkPattern (p : Pattern) : Except Refusal Unit :=
  match p.captures [] with
  | .ok _ => .ok ()
  | .error e => .error ⟨e, 0⟩

/-- The number of lines of a body. -/
def bodyLength (body : List Stmt) : Nat := (orPass 0 0 (linesAll 0 body)).length

mutual

/-- **What is refused in a statement**, inside `loops` loops of the same function. -/
def check (loops : Nat) : Stmt → Except Refusal Unit
  | define _ _ body => after 1 (checkAll 0 body)
  | branch p arms otherwise => do
    checkArms loops arms
    after ((armLines 0 p true arms).length + 1) (checkOtherwise loops otherwise)
  | loop _ _ _ body =>
    if loops < maxLoops then after 1 (checkAll (loops + 1) body) else .error ⟨.tooManyLoops, 0⟩
  | select _ _ cases => after 1 (checkCases loops cases)
  | _ => .ok ()

/-- What is refused in statements: the first refusal counts. -/
def checkAll (loops : Nat) : List Stmt → Except Refusal Unit
  | [] => .ok ()
  | s :: ss => do
    s.check loops
    after (s.lines 0).length (checkAll loops ss)

/-- What is refused in the arms of a branch. -/
def checkArms (loops : Nat) : List (Expr × List Stmt) → Except Refusal Unit
  | [] => .ok ()
  | (_, body) :: arms => do
    after 1 (checkAll loops body)
    after (bodyLength body + 1) (checkArms loops arms)

/-- What is refused in what is done if no arm is taken. -/
def checkOtherwise (loops : Nat) : Option (List Stmt) → Except Refusal Unit
  | none => .ok ()
  | some body => checkAll loops body

/-- What is refused in cases. -/
def checkCases (loops : Nat) : List (Pattern × Option Expr × List Stmt) → Except Refusal Unit
  | [] => .ok ()
  | (pattern, _, body) :: cases => do
    checkPattern pattern
    after 1 (checkAll loops body)
    after (bodyLength body + 1) (checkCases loops cases)

end

end Stmt

end Stencil
