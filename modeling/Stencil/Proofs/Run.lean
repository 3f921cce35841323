import Stencil.Code.Module
import Stencil.Proofs.Layout
import Stencil.Proofs.SimplePatterns

/-!
# Running templates and generated lines

A run is seen through its trace. What expressions yield and what a callee does with the blocks it is
given is left open: an oracle says it for each expression, which is known by its place, and for each
point of the run, which is the number of events before it.

* `Event`, `Oracle`: what a run shows, and what it asks for.
* `Node.run`, `Template.trace`: a template, as its constructs say.
* `Tree.run`, `Line.trace?`: lines of code, as their heads and their indentation say. Lines that
  break the rules of blocks, and names that hold nothing, end a run without a result.
-/

namespace Stencil

/-- **What a run shows**; `τ` tells what a call runs. The arguments of a call that are blocks are not
expressions. -/
inductive Event (τ : Type) where
  | char (c : Char)
  | interpolated (raw : Bool) (e : Expr)
  | condition (e : Expr)
  | guard (e : Expr)
  | subject (e : Expr)
  | items (e : Expr)
  | call (target : τ) (args : List (Option Expr))

/-- What happened in a run, in order. -/
abbrev Trace (τ : Type) := List (Event τ)

/-- **What a run asks for**: the first number is the point of the run, the second one the place of
an expression. -/
structure Oracle (α : Type) extends Matching α where
  holds : Nat → Nat → Bool
  value : Nat → Nat → α
  items : Nat → Nat → List α
  /-- The arguments that a callee runs, in order. -/
  uses : Nat → List Nat

variable {α : Type}

/-! ## Templates -/

/-- The expression that an argument is, if it is no block. -/
def argument? : Expr ⊕ List Node → Option Expr
  | .inl e => some e
  | .inr _ => none

/-- What an argument adds to a trace when the callee runs it; only blocks add anything. -/
def runContent (runs : List (Option (Trace (List String) → Trace (List String))))
    (tr : Trace (List String)) (i : Nat) : Trace (List String) :=
  match runs[i]? with
  | some (some run) => run tr
  | _ => tr

section Templates

variable (O : Oracle α)

mutual

/-- **What a node adds to a trace.** -/
def Node.run : Node → Trace (List String) → Trace (List String)
  | .text _ s, tr => tr ++ s.toList.map .char
  | .comment _ _, tr => tr
  | .value _ e raw, tr => tr ++ [.interpolated raw e]
  | .branch _ arms otherwise, tr => Node.runArms (fun tr => Node.runOtherwise otherwise tr) arms tr
  | .loop _ pattern iterable body, tr =>
    (O.items tr.length iterable.position).foldl
      (fun tr v => if O.fits pattern v then Node.runAll body tr else tr) (tr ++ [.items iterable])
  | .cases _ subject arms, tr =>
    Node.runCases (O.value tr.length subject.position) arms (tr ++ [.subject subject])
  | .call _ path args blocks, tr =>
    (O.uses tr.length).foldl (runContent (Node.argumentRuns args ++ Node.blockRuns blocks))
      (tr ++ [.call path (args.map argument? ++ blocks.map fun _ => none)])
termination_by structural x => x

/-- The nodes of a body, one after the other. -/
def Node.runAll : List Node → Trace (List String) → Trace (List String)
  | [], tr => tr
  | n :: ns, tr => Node.runAll ns (n.run tr)
termination_by structural x => x

/-- The body of the first arm that holds, and no condition after it. -/
def Node.runArms (otherwise : Trace (List String) → Trace (List String)) :
    List (Condition × List Node) → Trace (List String) → Trace (List String)
  | [], tr => otherwise tr
  | (.holds e, body) :: arms, tr =>
    if O.holds tr.length e.position then Node.runAll body (tr ++ [.condition e])
    else Node.runArms otherwise arms (tr ++ [.condition e])
  | (.matches pattern e, body) :: arms, tr =>
    if O.fits pattern (O.value tr.length e.position) then Node.runAll body (tr ++ [.subject e])
    else Node.runArms otherwise arms (tr ++ [.subject e])
termination_by structural x => x

/-- What is done if no arm holds. -/
def Node.runOtherwise : Option (List Node) → Trace (List String) → Trace (List String)
  | none, tr => tr
  | some body, tr => Node.runAll body tr
termination_by structural x => x

/-- The body of the first case that a value matches and whose guard holds. -/
def Node.runCases (v : α) :
    List (Pattern × Option Expr × List Node) → Trace (List String) → Trace (List String)
  | [], tr => tr
  | (pattern, none, body) :: arms, tr =>
    if O.fits pattern v then Node.runAll body tr else Node.runCases v arms tr
  | (pattern, some guard, body) :: arms, tr =>
    if O.fits pattern v then
      if O.holds tr.length guard.position then Node.runAll body (tr ++ [.guard guard])
      else Node.runCases v arms (tr ++ [.guard guard])
    else Node.runCases v arms tr
termination_by structural x => x

/-- What the arguments of a call do when the callee runs them. -/
def Node.argumentRuns :
    List (Expr ⊕ List Node) → List (Option (Trace (List String) → Trace (List String)))
  | [] => []
  | .inl _ :: args => none :: Node.argumentRuns args
  | .inr body :: args => some (fun tr => Node.runAll body tr) :: Node.argumentRuns args
termination_by structural x => x

/-- What the blocks after a call do when the callee runs them. -/
def Node.blockRuns : List (List Node) → List (Option (Trace (List String) → Trace (List String)))
  | [] => []
  | body :: blocks => some (fun tr => Node.runAll body tr) :: Node.blockRuns blocks
termination_by structural x => x

end

/-- **The trace of a template.** -/
def Template.trace (t : Template) : Trace (List String) := Node.runAll O t.body []

end Templates

/-! ## Lines -/

/-- What a variable holds that the code made for itself. -/
inductive Slot (α : Type) where
  | item (v : α)
  | block (run : Trace Target → Option (Trace Target))

/-- How far the branches at this place are: there are none, no arm was taken, or one was. -/
inductive Arms where
  | none
  | untaken
  | taken
  deriving DecidableEq

/-- **The state of a running function.** -/
structure Machine (α : Type) where
  trace : Trace Target
  vars : String → Option (Slot α)
  arms : Arms

namespace Machine

/-- The state before the first line. -/
def start : Machine α := ⟨[], fun _ => none, .none⟩

/-- The state after events, which end the branches before them. -/
def emit (m : Machine α) (es : List (Event Target)) : Machine α :=
  { m with trace := m.trace ++ es, arms := .none }

/-- A variable gets a new content. -/
def set (m : Machine α) (name : String) (slot : Option (Slot α)) : Machine α :=
  { m with vars := fun n => if n = name then slot else m.vars n, arms := .none }

/-- What names are bound to by a pattern is not known. -/
def forget (m : Machine α) (names : List String) : Machine α :=
  names.foldl (fun m n => m.set n none) m

/-- An item is bound to the target of a loop. -/
def bind (m : Machine α) (v : α) : Pattern → Machine α
  | .binding _ n => m.set n (some (.item v))
  | target => m.forget target.names

/-- The state in which a body starts, and the one after it: branches do not reach across. -/
def fresh (m : Machine α) : Machine α := { m with arms := .none }

/-- The value that a selection is about; a name must hold an item. -/
def subject (O : Oracle α) (m : Machine α) : Operand → Option (α × Machine α)
  | .value e => some (O.value m.trace.length e.position, m.emit [.subject e])
  | .made name =>
    match m.vars name with
    | some (.item v) => some (v, m.fresh)
    | _ => none

/-- What an argument does when the callee runs it; a name must hold a block. -/
def content (vars : String → Option (Slot α)) :
    Option Operand → Trace Target → Option (Trace Target)
  | some (.made name), tr =>
    match vars name with
    | some (.block run) => run tr
    | _ => none
  | _, tr => some tr

/-- A call, and what the callee runs of its arguments. -/
def call (O : Oracle α) (m : Machine α) (target : Target) (args : List Operand) :
    Option (Machine α) := do
  let tr ← (O.uses m.trace.length).foldlM (fun tr i => content m.vars args[i]? tr)
    (m.trace ++ [.call target (args.map Operand.expr?)])
  return { m with trace := tr, arms := .none }

end Machine

/-- Deeper lines stand below this line. -/
def Head.opens : Head → Bool
  | .define .. | .branch .. | .otherwise | .loop .. | .select .. | .case .. => true
  | _ => false

section Lines

variable (O : Oracle α)

mutual

/-- **What a line does with the lines below it.** -/
def Tree.run : Tree → Machine α → Option (Machine α)
  | .node head below, m =>
    -- deeper lines stand below exactly those lines that open a block
    if head.opens = below.isEmpty then none
    else
      match head with
      | .write s => some (m.emit (s.toList.map .char))
      | .interpolate raw e => some (m.emit [.interpolated raw e])
      | .evaluate e => some (m.emit [.subject e])
      | .pass => some m.fresh
      | .call target args => m.call O target args
      | .define name params =>
        if params.isEmpty then
          some (m.set name (some (.block fun tr =>
            (Tree.runAll below ⟨tr, m.vars, .none⟩).map (·.trace))))
        else none
      | .branch first e =>
        if first || m.arms = .untaken then
          if O.holds m.trace.length e.position then
            (Tree.runAll below (m.emit [.condition e])).map ({ · with arms := .taken })
          else some { m.emit [.condition e] with arms := .untaken }
        else if m.arms = .taken then some m
        else none
      | .otherwise =>
        match m.arms with
        | .untaken => (Tree.runAll below m.fresh).map .fresh
        | .taken => some m.fresh
        | .none => none
      | .loop target iterable =>
        ((O.items m.trace.length iterable.position).foldlM
          (fun m v => if O.fits target v then Tree.runAll below (m.bind v target).fresh else none)
          (m.emit [.items iterable])).map .fresh
      | .select subject => do
        let (v, m) ← m.subject O subject
        (Tree.runCases v below m).map .fresh
      | .case .. => none
termination_by structural x => x

/-- **Lines at one level**, one after the other. -/
def Tree.runAll : List Tree → Machine α → Option (Machine α)
  | [], m => some m
  | t :: ts, m => do Tree.runAll ts (← t.run m)
termination_by structural x => x

/-- The cases of a selection: the first one that the value matches and whose guard holds. -/
def Tree.runCases (v : α) : List Tree → Machine α → Option (Machine α)
  | [], m => some m
  | .node (.case pattern guard) below :: ts, m =>
    if below.isEmpty then none
    else if O.fits pattern v then
      match guard with
      | none => Tree.runAll below (m.forget pattern.names)
      | some g =>
        if O.holds m.trace.length g.position then
          Tree.runAll below ((m.forget pattern.names).emit [.guard g])
        else Tree.runCases v ts ((m.forget pattern.names).emit [.guard g])
    else Tree.runCases v ts m
  | _, _ => none
termination_by structural x => x

end

/-- The trace of a function that is defined by the given lines. -/
def Tree.functionTrace : List Tree → Option (Trace Target)
  | [.node (.define _ _) below] =>
    if below.isEmpty then none else (Tree.runAll O below .start).map (·.trace)
  | _ => none

/-- **The trace of a function from its lines**, read by their indentation. -/
def Line.trace? (ls : List Line) : Option (Trace Target) := do
  Tree.functionTrace O (← Tree.forest? none ls)

end Lines

end Stencil
