import Stencil.Code.Scope

/-!
# Generating statements

Neighbouring texts become one write, comments vanish. A name that a pattern binds is visible in its
block only: if it hides a name that is visible already, it gets a fresh name in the code, so that
the outer value is left alone.

* `Gen`: generation counts the fresh names.
* `Gen.body`: the statements of a body.
* `Gen.chain`: the arms of a branch; an arm that matches a pattern becomes a selection, and the arms
  after it stand in its last case.
-/

namespace Stencil

/-- The deepest indentation of generated code. -/
def maxIndent : Nat := 90

/-- **A step of generation**: it may use fresh names, which it counts, and it may fail. -/
abbrev Gen := StateT Nat (Except Failure)

namespace Gen

/-- A failure that needs no fresh name. -/
def lift {α : Type} (r : Except Failure α) : Gen α := fun n => r.map (·, n)

/-- The name of a kind with a number. -/
def freshName (kind : String) (n : Nat) : String := "_tplc_" ++ kind ++ "_" ++ toString n

/-- **A fresh name** of the given kind. -/
def fresh (kind : String) : Gen String := fun n => .ok (freshName kind (n + 1), n + 1)

/-- One level of indentation more, for a construct at the given place. -/
def deeper (indent position : Nat) : Except Failure Nat :=
  if indent < maxIndent then .ok (indent + 1) else .error (.at .codeTooDeep position)

/-- Fresh names for those of the given names that are in scope already. -/
def renamings (s : Scope) : List String → Scope → Gen Scope
  | [], renamed => pure renamed
  | n :: ns, renamed =>
    if s.has n && !renamed.has n then do
      let name ← fresh n
      renamings s ns ((n, name) :: renamed)
    else renamings s ns renamed

/-- **The scope of a block below a pattern**, and the names that the pattern binds in the code. -/
def bind (s : Scope) (p : Pattern) : Gen (Scope × Scope) := do
  let renamed ← renamings s p.names []
  return (s.extend renamed p.names, renamed)

/-- The write of a text, if there is any. -/
def flush (position : Nat) (text : String) : List Stmt :=
  if text = "" then [] else [.write position text]

/-- The arms of a branch as one statement, or what is done in any case. -/
def branchOf (position : Nat) : List (Expr × List Stmt) × Option (List Stmt) → List Stmt
  | ([], otherwise) => otherwise.getD []
  | (arms, otherwise) => [.branch position arms otherwise]

mutual

/-- **The statements of a body**, in the construct at `position`; `pending` is text that is still to
be written. -/
def body (env : Env) (s : Scope) (indent position : Nat) (pending : String) :
    List Node → Gen (List Stmt)
  | [] => pure (flush position pending)
  | n :: ns => do
    match n.plain? with
    | some text => body env s indent position (pending ++ text) ns
    | none =>
      let stmts ← node env s indent n
      let rest ← body env s indent position "" ns
      return flush position pending ++ stmts ++ rest
termination_by structural x => x

/-- The statements of a node; texts and comments are left to the body they stand in. -/
def node (env : Env) (s : Scope) (indent : Nat) : Node → Gen (List Stmt)
  | .text _ _ => pure []
  | .comment _ _ => pure []
  | .value p e raw => do
    let e ← lift (e.resolve (env.resolution s))
    return [.interpolate p raw e]
  | .branch p arms otherwise => do
    let last := otherwise.isSome
    return branchOf p (← chain env s indent true p last (alternative env s · p otherwise) arms)
  | .loop p pattern iterable nodes => do
    let iterable ← lift (iterable.resolve (env.resolution s))
    let pattern := pattern.simplify
    let (inner, renamed) ← bind s pattern
    if pattern.isIrrefutable then
      let indent ← lift (deeper indent p)
      let target ← lift (pattern.resolve renamed.rename)
      let nodes ← body env inner indent p "" nodes
      return [.loop p target iterable nodes]
    else
      -- items that do not match the pattern are skipped
      let item ← fresh "item"
      let indent ← lift (deeper indent p)
      let indent ← lift (deeper indent p)
      let case ← lift (pattern.resolve renamed.rename)
      let indent ← lift (deeper indent p)
      let nodes ← body env inner indent p "" nodes
      return [.loop p (.binding p item) iterable [.select p (.made item) [(case, none, nodes)]]]
  | .cases p subject arms => do
    let subject ← lift (subject.resolve (env.resolution s))
    if arms.isEmpty then return [.evaluate p subject]
    else
      let indent ← lift (deeper indent p)
      return [.select p (.value subject) (← cases env s indent p arms)]
  | .call p path args blocks => do
    let target := env.context.target env.self s path
    let (defs, args) ← arguments env s indent p args
    let (defs', contents) ← contents env s indent p blocks
    return defs ++ defs' ++ [.call p target (args ++ contents)]
termination_by structural x => x

/-- The statements of what is done if no arm of a branch is taken. -/
def alternative (env : Env) (s : Scope) (indent position : Nat) :
    Option (List Node) → Gen (List Stmt)
  | none => pure []
  | some nodes => body env s indent position "" nodes
termination_by structural x => x

/-- **The arms of a branch** and what is done if none of them is taken. The first arm that matches a
pattern ends the arms: it is a selection among what is done otherwise, and what comes after it
stands in its last case. `first` tells that no arm comes before; `last` tells whether anything is
done if no arm is taken, and `otherwise` gives its statements at a level of indentation. -/
def chain (env : Env) (s : Scope) (indent : Nat) (first : Bool) (position : Nat) (last : Bool)
    (otherwise : Nat → Gen (List Stmt)) : List (Condition × List Node) →
    Gen (List (Expr × List Stmt) × Option (List Stmt))
  | [] =>
    if last then do
      let indent ← lift (if first then .ok indent else deeper indent position)
      let stmts ← otherwise indent
      return ([], some stmts)
    else pure ([], none)
  | (.holds cond, nodes) :: arms => do
    let cond ← lift (cond.resolve (env.resolution s))
    let indent' ← lift (deeper indent position)
    let nodes ← body env s indent' position "" nodes
    let (arms, stmts) ← chain env s indent false position last otherwise arms
    return ((cond, nodes) :: arms, stmts)
  | (.matches pattern value, nodes) :: arms => do
    let indent ← lift (if first then .ok indent else deeper indent position)
    let pattern := pattern.simplify
    let (inner, renamed) ← bind s pattern
    let value ← lift (value.resolve (env.resolution s))
    let indent' ← lift (deeper indent position)
    let case ← lift (pattern.resolve renamed.rename)
    let indent' ← lift (deeper indent' position)
    let nodes ← body env inner indent' position "" nodes
    if (arms.isEmpty && !last) || pattern.isCatchAll then
      return ([], some [.select position (.value value) [(case, none, nodes)]])
    else
      let more ← chain env s indent' true position last otherwise arms
      return ([], some [.select position (.value value)
        [(case, none, nodes), (.wildcard position, none, branchOf position more)]])
termination_by structural x => x

/-- The cases up to the first one that every value takes. -/
def cases (env : Env) (s : Scope) (indent position : Nat) :
    List (Pattern × Option Expr × List Node) → Gen (List (Pattern × Option Expr × List Stmt))
  | [] => pure []
  | (pattern, guard, nodes) :: arms => do
    let pattern := pattern.simplify
    let (inner, renamed) ← bind s pattern
    let case ← lift (pattern.resolve renamed.rename)
    let guard' ← lift (guard.mapM (·.resolve (env.resolution inner)))
    let indent' ← lift (deeper indent position)
    let nodes ← body env inner indent' position "" nodes
    if guard.isNone && pattern.isCatchAll then return [(case, guard', nodes)]
    else
      let rest ← cases env s indent position arms
      return (case, guard', nodes) :: rest
termination_by structural x => x

/-- The arguments of a call; a block becomes a function that is defined before the call. -/
def arguments (env : Env) (s : Scope) (indent position : Nat) :
    List (Expr ⊕ List Node) → Gen (List Stmt × List Operand)
  | [] => pure ([], [])
  | .inl e :: args => do
    let e ← lift (e.resolve (env.resolution s))
    let (defs, args) ← arguments env s indent position args
    return (defs, .value e :: args)
  | .inr nodes :: args => do
    let name ← fresh "content"
    let indent' ← lift (deeper indent position)
    let nodes ← body env s indent' position "" nodes
    let (defs, args) ← arguments env s indent position args
    return (.define position name nodes :: defs, .made name :: args)
termination_by structural x => x

/-- The blocks after a call, as functions that are defined before it. -/
def contents (env : Env) (s : Scope) (indent position : Nat) :
    List (List Node) → Gen (List Stmt × List Operand)
  | [] => pure ([], [])
  | nodes :: blocks => do
    let name ← fresh "content"
    let indent' ← lift (deeper indent position)
    let nodes ← body env s indent' position "" nodes
    let (defs, args) ← contents env s indent position blocks
    return (.define position name nodes :: defs, .made name :: args)
termination_by structural x => x

end

end Gen

/-- **The statements of a template's rendering function.** -/
def Template.stmts (context : Context) (t : Template) : Except Failure (List Stmt) := do
  let (stmts, _) ←
    (Gen.body ⟨t.toTemplateName, context⟩ (Scope.ofParams t.params) 1 0 "" t.body).run 0
  return stmts

end Stencil
