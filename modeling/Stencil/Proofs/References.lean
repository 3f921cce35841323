import Stencil.Code.Module
import Stencil.Proofs.Hygiene
import Stencil.Proofs.Statements

/-!
# References and their binders

A name is used in an expression, as the first part of a path, as the target of a call, or as the
first part of a path in a pattern. Its innermost binder decides what it is called in the code.

* `Binder`, `innermost?`: what binds names, and the name in the code that the nearest binder gives.
* `UsesBody`: nodes and their statements, with the binders around every use.
* `Uses.following`: uses have the names of their binders; how the first parts of the paths of calls
  and patterns are written is a parameter.
* **`uses_follow_binders`**: expressions and calls of a single name follow their binders, and so do
  the paths in expressions. The paths of calls and patterns are written as they stand.
-/

namespace Stencil

/-- **What binds names**: the parameters, or a pattern, which is `case` in the code. -/
inductive Binder where
  | params (names : List String)
  | pattern (p case : Pattern)

/-- The name that the code of a binder has for a name: the one at the same place. -/
def Binder.code? : Binder → String → Option String
  | params names, n => if n ∈ names then some n else none
  | pattern p case, n => (p.names.zip case.names).lookup n

/-- **The name in the code that the innermost binder gives**; binders are listed from the inside. -/
def innermost? (bs : List Binder) (n : String) : Option String := bs.findSome? (·.code? n)

/-- What is asked of the uses of names, below the binders around them: of expressions, of the paths
of calls, and of patterns. -/
structure Uses where
  value : List Binder → Expr → Expr → Prop
  call : List Binder → List String → Target → Prop
  pattern : List Binder → Pattern → Pattern → Prop

section Relation

variable (u : Uses)

mutual

/-- **Nodes and their statements, with the uses of names in them**, below the binders around. -/
inductive UsesBody : List Binder → List Node → List Stmt → Prop where
  | nil {bs : List Binder} : UsesBody bs [] []
  | plain {bs : List Binder} {n : Node} {ns : List Node} {stmts : List Stmt}
      (h : n.plain?.isSome) (hs : UsesBody bs ns stmts) : UsesBody bs (n :: ns) stmts
  | write {bs : List Binder} {p : Nat} {text : String} {ns : List Node} {stmts : List Stmt}
      (hs : UsesBody bs ns stmts) : UsesBody bs ns (.write p text :: stmts)
  | node {bs : List Binder} {n : Node} {ns : List Node} {a stmts : List Stmt}
      (hn : UsesNode bs n a) (hs : UsesBody bs ns stmts) : UsesBody bs (n :: ns) (a ++ stmts)

/-- A node and its statements. -/
inductive UsesNode : List Binder → Node → List Stmt → Prop where
  | value {bs : List Binder} {p : Nat} {e e' : Expr} {raw : Bool} (he : u.value bs e e') :
      UsesNode bs (.value p e raw) [.interpolate p raw e']
  | branch {bs : List Binder} {p : Nat} {arms : List (Condition × List Node)}
      {otherwise : Option (List Node)} {r : List (Expr × List Stmt) × Option (List Stmt)}
      (h : UsesArms bs p otherwise arms r) :
      UsesNode bs (.branch p arms otherwise) (Gen.branchOf p r)
  | loop {bs : List Binder} {p : Nat} {pattern target : Pattern} {e e' : Expr} {nodes : List Node}
      {body : List Stmt} (he : u.value bs e e') (ht : u.pattern bs pattern.simplify target)
      (hb : UsesBody (.pattern pattern.simplify target :: bs) nodes body) :
      UsesNode bs (.loop p pattern e nodes) [.loop p target e' body]
  /-- A loop through helper items. -/
  | skipping {bs : List Binder} {p : Nat} {pattern case : Pattern} {item : String} {e e' : Expr}
      {nodes : List Node} {body : List Stmt} (he : u.value bs e e')
      (hc : u.pattern bs pattern.simplify case)
      (hb : UsesBody (.pattern pattern.simplify case :: bs) nodes body) :
      UsesNode bs (.loop p pattern e nodes)
        [.loop p (.binding p item) e' [.select p (.made item) [(case, none, body)]]]
  | evaluate {bs : List Binder} {p : Nat} {e e' : Expr} (he : u.value bs e e') :
      UsesNode bs (.cases p e []) [.evaluate p e']
  | cases {bs : List Binder} {p : Nat} {e e' : Expr}
      {arms : List (Pattern × Option Expr × List Node)}
      {r : List (Pattern × Option Expr × List Stmt)} (he : u.value bs e e')
      (h : UsesCases bs arms r) : UsesNode bs (.cases p e arms) [.select p (.value e') r]
  | call {bs : List Binder} {p : Nat} {path : List String} {target : Target}
      {args : List (Expr ⊕ List Node)} {blocks : List (List Node)} {defs defs' : List Stmt}
      {ops ops' : List Operand} (ht : u.call bs path target) (ha : UsesArguments bs args defs ops)
      (hb : UsesContents bs blocks defs' ops') :
      UsesNode bs (.call p path args blocks) (defs ++ defs' ++ [.call p target (ops ++ ops')])

/-- The arms of a branch and their statements. -/
inductive UsesArms : List Binder → Nat → Option (List Node) → List (Condition × List Node) →
    List (Expr × List Stmt) × Option (List Stmt) → Prop where
  | nil {bs : List Binder} {p : Nat} : UsesArms bs p none [] ([], none)
  | otherwise {bs : List Binder} {p : Nat} {nodes : List Node} {body : List Stmt}
      (hb : UsesBody bs nodes body) : UsesArms bs p (some nodes) [] ([], some body)
  | holds {bs : List Binder} {p : Nat} {otherwise : Option (List Node)} {e e' : Expr}
      {nodes : List Node} {body : List Stmt} {arms : List (Condition × List Node)}
      {arms' : List (Expr × List Stmt)} {stmts : Option (List Stmt)} (he : u.value bs e e')
      (hb : UsesBody bs nodes body) (h : UsesArms bs p otherwise arms (arms', stmts)) :
      UsesArms bs p otherwise ((.holds e, nodes) :: arms) ((e', body) :: arms', stmts)
  /-- Nothing comes after an arm that every value matches, or after the last one. -/
  | last {bs : List Binder} {p : Nat} {otherwise : Option (List Node)} {pattern case : Pattern}
      {e e' : Expr} {nodes : List Node} {body : List Stmt} {arms : List (Condition × List Node)}
      (he : u.value bs e e') (hc : u.pattern bs pattern.simplify case)
      (hb : UsesBody (.pattern pattern.simplify case :: bs) nodes body)
      (hlast : arms = [] ∧ otherwise = none ∨ pattern.simplify.isCatchAll) :
      UsesArms bs p otherwise ((.matches pattern e, nodes) :: arms)
        ([], some [.select p (.value e') [(case, none, body)]])
  | matches {bs : List Binder} {p : Nat} {otherwise : Option (List Node)} {pattern case : Pattern}
      {e e' : Expr} {nodes : List Node} {body : List Stmt} {arms : List (Condition × List Node)}
      {r : List (Expr × List Stmt) × Option (List Stmt)} (he : u.value bs e e')
      (hc : u.pattern bs pattern.simplify case)
      (hb : UsesBody (.pattern pattern.simplify case :: bs) nodes body)
      (h : UsesArms bs p otherwise arms r) :
      UsesArms bs p otherwise ((.matches pattern e, nodes) :: arms)
        ([], some [.select p (.value e')
          [(case, none, body), (.wildcard p, none, Gen.branchOf p r)]])

/-- Cases and their statements, up to one that every value takes. -/
inductive UsesCases : List Binder → List (Pattern × Option Expr × List Node) →
    List (Pattern × Option Expr × List Stmt) → Prop where
  | nil {bs : List Binder} : UsesCases bs [] []
  | last {bs : List Binder} {pattern case : Pattern} {nodes : List Node} {body : List Stmt}
      {arms : List (Pattern × Option Expr × List Node)} (hc : u.pattern bs pattern.simplify case)
      (hb : UsesBody (.pattern pattern.simplify case :: bs) nodes body)
      (hlast : pattern.simplify.isCatchAll) :
      UsesCases bs ((pattern, none, nodes) :: arms) [(case, none, body)]
  | cons {bs : List Binder} {pattern case : Pattern} {guard guard' : Option Expr}
      {nodes : List Node} {body : List Stmt} {arms : List (Pattern × Option Expr × List Node)}
      {r : List (Pattern × Option Expr × List Stmt)} (hc : u.pattern bs pattern.simplify case)
      (hg : Option.Rel (u.value (.pattern pattern.simplify case :: bs)) guard guard')
      (hb : UsesBody (.pattern pattern.simplify case :: bs) nodes body)
      (h : UsesCases bs arms r) :
      UsesCases bs ((pattern, guard, nodes) :: arms) ((case, guard', body) :: r)

/-- The arguments of a call, the functions that are defined for its blocks, and what is passed. -/
inductive UsesArguments : List Binder → List (Expr ⊕ List Node) → List Stmt → List Operand →
    Prop where
  | nil {bs : List Binder} : UsesArguments bs [] [] []
  | value {bs : List Binder} {e e' : Expr} {args : List (Expr ⊕ List Node)} {defs : List Stmt}
      {ops : List Operand} (he : u.value bs e e') (h : UsesArguments bs args defs ops) :
      UsesArguments bs (.inl e :: args) defs (.value e' :: ops)
  | block {bs : List Binder} {p : Nat} {name : String} {nodes : List Node} {body : List Stmt}
      {args : List (Expr ⊕ List Node)} {defs : List Stmt} {ops : List Operand}
      (hb : UsesBody bs nodes body) (h : UsesArguments bs args defs ops) :
      UsesArguments bs (.inr nodes :: args) (.define p name body :: defs) (.made name :: ops)

/-- The blocks after a call, and the functions that are defined for them. -/
inductive UsesContents : List Binder → List (List Node) → List Stmt → List Operand → Prop where
  | nil {bs : List Binder} : UsesContents bs [] [] []
  | cons {bs : List Binder} {p : Nat} {name : String} {nodes : List Node} {body : List Stmt}
      {blocks : List (List Node)} {defs : List Stmt} {ops : List Operand}
      (hb : UsesBody bs nodes body) (h : UsesContents bs blocks defs ops) :
      UsesContents bs (nodes :: blocks) (.define p name body :: defs) (.made name :: ops)

end

end Relation

/-! ## Scopes hold the names of binders -/

/-- **A scope holds what the binders around give**, hidden names aside. -/
def Scope.Agrees (s : Scope) (bs : List Binder) : Prop := ∀ n, s.lookup n = innermost? bs n

/-- What a list of names is mapped to, looked up by place. -/
theorem lookup_zip_map (f : String → String) (n : String) (names : List String) :
    (names.zip (names.map f)).lookup n = if n ∈ names then some (f n) else none := by
  induction names with
  | nil => simp
  | cons m names ih =>
    rw [List.map_cons, List.zip_cons_cons, List.lookup_cons, ih]
    by_cases h : n = m
    · subst h
      simp
    · rw [beq_eq_false_iff_ne.mpr h]
      simp [h]

namespace Scope

theorem agrees_ofParams (params : List Param) :
    (ofParams params).Agrees [.params (params.map Param.name)] := by
  intro n
  have hlookup : ∀ ps : List Param,
      (ofParams ps).lookup n = if n ∈ ps.map Param.name then some n else none := fun ps => by
    have hzip : ofParams ps = (ps.map Param.name).zip ((ps.map Param.name).map id) := by
      simp [ofParams, List.zip_map']
    rw [hzip, lookup_zip_map, id]
  rw [hlookup, innermost?, List.findSome?_cons, List.findSome?_nil, Binder.code?]
  split <;> rfl

/-- **A pattern adds the names that it is emitted with.** -/
theorem agrees_extend {s renamed : Scope} {bs : List Binder} {p case : Pattern} (h : s.Agrees bs)
    (hc : p.resolve renamed.rename = .ok case) :
    (s.extend renamed p.names).Agrees (.pattern p case :: bs) := by
  intro n
  rw [lookup_extend, innermost?, List.findSome?_cons, Binder.code?, (Pattern.bound_resolve hc).2,
    lookup_zip_map]
  split
  · rfl
  · exact h n

end Scope

/-- **What generation does at every use**, in a scope that holds what the binders give. -/
structure Uses.Met (u : Uses) (env : Env) : Prop where
  value : ∀ {bs : List Binder} {s : Scope} {e e' : Expr}, s.Agrees bs →
    e.resolve (env.resolution s) = .ok e' → u.value bs e e'
  call : ∀ {bs : List Binder} {s : Scope} {path : List String}, s.Agrees bs →
    u.call bs path (env.context.target env.self s path)
  pattern : ∀ {bs : List Binder} {rename : String → String} {p case : Pattern},
    p.resolve rename = .ok case → u.pattern bs p case

section Induction

variable {P : List Frame → Frame → Prop} {env : Env} {u : Uses}

mutual

/-- **Generated statements use names as asked**, below the binders that their scopes stand for. -/
theorem ScopedBody.uses (hu : u.Met env) : ∀ {path : List Frame} {s : Scope} {bs : List Binder}
    {ns : List Node} {stmts : List Stmt}, s.Agrees bs → ScopedBody P env path s ns stmts →
    UsesBody u bs ns stmts
  | _, _, _, _, _, _, .nil => .nil
  | _, _, _, _, _, hs, .plain h hb => .plain h (hb.uses hu hs)
  | _, _, _, _, _, hs, .write hb => .write (hb.uses hu hs)
  | _, _, _, _, _, hs, .node hn hb => .node (hn.uses hu hs) (hb.uses hu hs)

theorem ScopedNode.uses (hu : u.Met env) : ∀ {path : List Frame} {s : Scope} {bs : List Binder}
    {n : Node} {stmts : List Stmt}, s.Agrees bs → ScopedNode P env path s n stmts →
    UsesNode u bs n stmts
  | _, _, _, _, _, hs, .value he => .value (hu.value hs he)
  | _, _, _, _, _, hs, .branch ha => .branch (ha.uses hu hs)
  | _, _, _, _, _, hs, .loop he ht _ hb =>
    .loop (hu.value hs he) (hu.pattern ht) (hb.uses hu (Scope.agrees_extend hs ht))
  | _, _, _, _, _, hs, .skipping he hc _ hb =>
    .skipping (hu.value hs he) (hu.pattern hc) (hb.uses hu (Scope.agrees_extend hs hc))
  | _, _, _, _, _, hs, .evaluate he => .evaluate (hu.value hs he)
  | _, _, _, _, _, hs, .cases he hc => .cases (hu.value hs he) (hc.uses hu hs)
  | _, _, _, _, _, hs, .call ha hb => .call (hu.call hs) (ha.uses hu hs) (hb.uses hu hs)

theorem ScopedArms.uses (hu : u.Met env) : ∀ {path : List Frame} {s : Scope} {bs : List Binder}
    {p : Nat} {o : Option (List Node)} {arms : List (Condition × List Node)}
    {r : List (Expr × List Stmt) × Option (List Stmt)}, s.Agrees bs →
    ScopedArms P env path s p o arms r → UsesArms u bs p o arms r
  | _, _, _, _, _, _, _, _, .nil => .nil
  | _, _, _, _, _, _, _, hs, .otherwise hb => .otherwise (hb.uses hu hs)
  | _, _, _, _, _, _, _, hs, .holds he hb ha =>
    .holds (hu.value hs he) (hb.uses hu hs) (ha.uses hu hs)
  | _, _, _, _, _, _, _, hs, .last he hc _ hb hlast =>
    .last (hu.value hs he) (hu.pattern hc) (hb.uses hu (Scope.agrees_extend hs hc)) hlast
  | _, _, _, _, _, _, _, hs, .matches he hc _ hb ha =>
    .matches (hu.value hs he) (hu.pattern hc) (hb.uses hu (Scope.agrees_extend hs hc))
      (ha.uses hu hs)

theorem ScopedCases.uses (hu : u.Met env) : ∀ {path : List Frame} {s : Scope} {bs : List Binder}
    {arms : List (Pattern × Option Expr × List Node)}
    {r : List (Pattern × Option Expr × List Stmt)}, s.Agrees bs → ScopedCases P env path s arms r →
    UsesCases u bs arms r
  | _, _, _, _, _, _, .nil => .nil
  | _, _, _, _, _, hs, .last hc _ hb hlast =>
    .last (hu.pattern hc) (hb.uses hu (Scope.agrees_extend hs hc)) hlast
  | _, _, _, _, _, hs, .cons hc hg _ hb hr => by
    have hin := Scope.agrees_extend hs hc
    refine .cons (hu.pattern hc) ?_ (hb.uses hu hin) (hr.uses hu hs)
    cases Except.option_mapM_ok.mp hg with
    | none => exact .none
    | some hguard => exact .some (hu.value hin hguard)

theorem ScopedArguments.uses (hu : u.Met env) : ∀ {path : List Frame} {s : Scope}
    {bs : List Binder} {args : List (Expr ⊕ List Node)} {defs : List Stmt} {ops : List Operand},
    s.Agrees bs → ScopedArguments P env path s args defs ops → UsesArguments u bs args defs ops
  | _, _, _, _, _, _, _, .nil => .nil
  | _, _, _, _, _, _, hs, .value he ha => .value (hu.value hs he) (ha.uses hu hs)
  | _, _, _, _, _, _, hs, .block _ hb ha => .block (hb.uses hu hs) (ha.uses hu hs)

theorem ScopedContents.uses (hu : u.Met env) : ∀ {path : List Frame} {s : Scope}
    {bs : List Binder} {blocks : List (List Node)} {defs : List Stmt} {ops : List Operand},
    s.Agrees bs → ScopedContents P env path s blocks defs ops → UsesContents u bs blocks defs ops
  | _, _, _, _, _, _, _, .nil => .nil
  | _, _, _, _, _, _, hs, .cons _ hb hc => .cons (hb.uses hu hs) (hc.uses hu hs)

end

end Induction

/-! ## Names, paths and what becomes of them -/

namespace Expr

mutual

/-- **The names and paths of an expression**, in order; a name is a path of one part. -/
def references : Expr → List (List String)
  | literal _ _ => []
  | name _ n => [[n]]
  | path _ parts => [parts]
  | field _ v _ => v.references
  | method _ r _ as => r.references ++ referencesAll as
  | call _ f as => f.references ++ referencesAll as
  | index _ v i => v.references ++ i.references
  | tuple _ is => referencesAll is
  | list _ is => referencesAll is
  | range _ s e _ => s.references ++ e.references
  | unary _ _ e => e.references
  | binary _ _ a b => a.references ++ b.references
  | group _ e => e.references

/-- The names and paths of expressions. -/
def referencesAll : List Expr → List (List String)
  | [] => []
  | e :: es => e.references ++ referencesAll es

end

/-- What a path becomes: a code of its own, if it has one, or the path with its first part renamed. -/
def codeOfPath (r : Resolution) (path : List String) : Option String → List String
  | some code => [code]
  | none => r.renameHead path

section Resolve

variable {r : Resolution} {R : List String → List String → Prop}

mutual

/-- **What holds of each name and path that is resolved** holds of those of a whole expression. -/
theorem references_resolve (hname : ∀ n, R [n] [r.rename n])
    (hpath : ∀ path p o, r.ofPath path p = .ok o → R path (codeOfPath r path o)) :
    ∀ {e e' : Expr}, e.resolve r = .ok e' → List.Forall₂ R e.references e'.references
  | literal _ v, _, he => by
    rw [resolve] at he
    split at he
    · cases he
      exact .nil
    · cases he
  | name _ n, _, he => by
    rw [resolve] at he
    cases he
    exact .cons (hname n) .nil
  | path p parts, _, he => by
    simp only [resolve, Except.bind_ok] at he
    obtain ⟨o, ho, he⟩ := he
    have hparts := hpath parts p o ho
    cases o <;> cases he <;> exact .cons hparts .nil
  | field _ v _, _, he | unary _ _ v, _, he | group _ v, _, he => by
    simp only [resolve, Except.bind_ok] at he
    obtain ⟨v', hv, he⟩ := he
    cases he
    rw [references, references]
    exact references_resolve hname hpath hv
  | method _ f _ as, _, he | call _ f as, _, he => by
    simp only [resolve, Except.bind_ok] at he
    obtain ⟨f', hf, as', has, he⟩ := he
    cases he
    exact List.rel_append (references_resolve hname hpath hf)
      (referencesAll_resolve hname hpath has)
  | index _ a b, _, he | binary _ _ a b, _, he => by
    simp only [resolve, Except.bind_ok] at he
    obtain ⟨a', ha, b', hb, he⟩ := he
    cases he
    exact List.rel_append (references_resolve hname hpath ha) (references_resolve hname hpath hb)
  | tuple _ is, _, he | list _ is, _, he => by
    simp only [resolve, Except.bind_ok] at he
    obtain ⟨is', his, he⟩ := he
    cases he
    exact referencesAll_resolve hname hpath his
  | range _ a b _, _, he => by
    simp only [resolve, Except.bind_ok] at he
    obtain ⟨b', hb, a', ha, he⟩ := he
    cases he
    exact List.rel_append (references_resolve hname hpath ha) (references_resolve hname hpath hb)

theorem referencesAll_resolve (hname : ∀ n, R [n] [r.rename n])
    (hpath : ∀ path p o, r.ofPath path p = .ok o → R path (codeOfPath r path o)) :
    ∀ {es es' : List Expr}, resolveAll r es = .ok es' →
      List.Forall₂ R (referencesAll es) (referencesAll es')
  | [], _, he => by
    rw [resolveAll] at he
    cases he
    exact .nil
  | e :: es, _, he => by
    simp only [resolveAll, Except.bind_ok] at he
    obtain ⟨e', hv, es', hes, he⟩ := he
    cases he
    exact List.rel_append (references_resolve hname hpath hv)
      (referencesAll_resolve hname hpath hes)

end

end Resolve

end Expr

namespace Pattern

mutual

/-- **The paths of a pattern**, in order. -/
def paths : Pattern → List (List String)
  | wildcard _ | binding _ _ | literal _ _ => []
  | value _ path => [path]
  | tuple _ items _ => pathsAll items
  | variant _ path items => path :: pathsAll items
  | struct _ path fields _ => path :: pathsFields fields
  | or _ alternatives => pathsAll alternatives

/-- The paths of patterns. -/
def pathsAll : List Pattern → List (List String)
  | [] => []
  | p :: ps => p.paths ++ pathsAll ps

/-- The paths of fields. -/
def pathsFields : List (String × Pattern) → List (List String)
  | [] => []
  | (_, p) :: fs => p.paths ++ pathsFields fs

end

variable {rename : String → String}

mutual

theorem paths_renamed : ∀ p : Pattern, (p.renamed rename).paths = p.paths
  | wildcard _ | binding _ _ | literal _ _ | value _ _ => rfl
  | tuple _ items _ | variant _ _ items | or _ items => by
    rw [renamed, paths, paths, pathsAll_renamed items]
  | struct _ _ fields _ => by rw [renamed, paths, paths, pathsFields_renamed fields]

theorem pathsAll_renamed : ∀ ps : List Pattern, pathsAll (renamedAll rename ps) = pathsAll ps
  | [] => rfl
  | p :: ps => by rw [renamedAll, pathsAll, pathsAll, paths_renamed p, pathsAll_renamed ps]

theorem pathsFields_renamed : ∀ fs : List (String × Pattern),
    pathsFields (renamedFields rename fs) = pathsFields fs
  | [] => rfl
  | (_, p) :: fs => by
    rw [renamedFields, pathsFields, pathsFields, paths_renamed p, pathsFields_renamed fs]

end

/-- **Renaming leaves the paths of a pattern alone.** -/
theorem paths_resolve {p case : Pattern} (h : p.resolve rename = .ok case) :
    case.paths = p.paths := by
  rw [resolve_ok h, paths_renamed]

end Pattern

/-- A path with another first part. -/
def withHead (head : String → String) : List String → List String
  | [] => []
  | n :: ns => head n :: ns

/-- **What a name or path of an expression becomes**: its first part gets the name of its innermost
binder. Without one the path stays as it is, if it does not lead to a static file. -/
def Becomes (bs : List Binder) (path code : List String) : Prop :=
  code = withHead (fun n => (innermost? bs n).getD n) path ∨
    innermost? bs Names.statics = none ∧
      ∃ file, path = [Names.statics, file] ∧ code = [Names.staticsAlias ++ "." ++ file]

/-- **Uses that follow their binders.** `head` tells how the first part of the path of a function or
of a path in a pattern is written. -/
def Uses.following (head : List Binder → String → String) : Uses where
  value bs e e' := List.Forall₂ (Becomes bs) e.references e'.references
  call
    | bs, [n], target => ∀ code, innermost? bs n = some code → target = .bound code
    | bs, path, target => ∀ code, target = .other code → code = withHead (head bs) path
  pattern bs p case := case.paths = p.paths.map (withHead (head bs))

/-- The name of the innermost binder, if there is one. -/
def asBound (bs : List Binder) (n : String) : String := (innermost? bs n).getD n

/-- The name in the template. -/
def asWritten (_ : List Binder) (n : String) : String := n

section Following

variable {env : Env} {s : Scope} {bs : List Binder}

theorem withHead_asWritten (bs : List Binder) (path : List String) :
    withHead (asWritten bs) path = path := by
  cases path <;> rfl

/-- The code of a path to a static file. -/
theorem Env.staticPath_some {path : List String} {p : Nat} {code : String}
    (h : env.staticPath s path p = .ok (some code)) : s.has Names.statics = false ∧
      ∃ file, path = [Names.statics, file] ∧ code = Names.staticsAlias ++ "." ++ file := by
  unfold staticPath at h
  split at h
  · cases h
  · split at h
    · rename_i hstatics
      rw [Bool.and_eq_true, Bool.not_eq_true', decide_eq_true_iff] at hstatics
      obtain ⟨hhead, hhas⟩ := hstatics
      split at h
      · rename_i first file
        split at h
        · cases h
          obtain rfl : first = Names.statics := Option.some.inj hhead
          exact ⟨hhas, file, rfl, rfl⟩
        · cases h
      · cases h
    · cases h

theorem Scope.Agrees.rename (h : s.Agrees bs) (n : String) :
    s.rename n = (innermost? bs n).getD n := by
  rw [Scope.rename, h n]

/-- What a path of an expression becomes. -/
theorem becomes_path (h : s.Agrees bs) {path : List String} {p : Nat} {o : Option String}
    (ho : env.staticPath s path p = .ok o) :
    Becomes bs path (Expr.codeOfPath (env.resolution s) path o) := by
  cases o with
  | none =>
    left
    cases path with
    | nil => rfl
    | cons n ns =>
      rw [withHead, ← h.rename n]
      rfl
  | some code =>
    obtain ⟨hhas, file, rfl, rfl⟩ := Env.staticPath_some ho
    refine .inr ⟨?_, file, rfl, rfl⟩
    rw [← h Names.statics]
    exact Option.not_isSome_iff_eq_none.mp (by rw [Bool.not_eq_true]; exact hhas)

/-- **The names and paths of an expression follow their binders.** -/
theorem Expr.follows (h : s.Agrees bs) {e e' : Expr}
    (he : e.resolve (env.resolution s) = .ok e') :
    List.Forall₂ (Becomes bs) e.references e'.references :=
  references_resolve (fun n => .inl (by rw [withHead, ← h.rename n]; rfl))
    (fun _ _ _ ho => becomes_path h ho) he

/-- The path of a function that is no template stays as it is. -/
theorem Context.eq_of_target_other {c : Context} {self : TemplateName} {path code : List String}
    (h : c.target self s path = .other code) : code = path := by
  unfold target at h
  split at h
  · cases h
  · split at h
    · split at h <;> cases h
    · cases h
      rfl

/-- Only a single name in scope is called as what it is bound to. -/
theorem Context.lookup_of_target_bound {c : Context} {self : TemplateName} {path : List String}
    {code : String} (h : c.target self s path = .bound code) :
    ∃ n, path = [n] ∧ s.lookup n = some code := by
  unfold target at h
  split at h
  · rename_i n code' hlookup
    cases h
    exact ⟨n, rfl, hlookup⟩
  · split at h
    · split at h <;> cases h
    · cases h

/-- **Calls of single names follow their binders**; the path of any other function stays. -/
theorem Context.target_follows {c : Context} {self : TemplateName} (h : s.Agrees bs)
    (path : List String) : (Uses.following asWritten).call bs path (c.target self s path) := by
  have hother : ∀ path code, c.target self s path = .other code →
      code = withHead (asWritten bs) path := fun path code ht =>
    (eq_of_target_other ht).trans (withHead_asWritten bs path).symm
  match path with
  | [n] =>
    intro code hn
    rw [← h n] at hn
    simp only [target, List.headD_cons, hn]
  | [] => exact hother []
  | n :: m :: ns => exact hother (n :: m :: ns)

theorem Uses.following_met : (following asWritten).Met env where
  value h he := Expr.follows h he
  call h := Context.target_follows h _
  pattern {bs _ p _} h := by
    have hpaths : p.paths.map (withHead (asWritten bs)) = p.paths :=
      List.map_id'' (withHead_asWritten bs) p.paths
    exact (Pattern.paths_resolve h).trans hpaths.symm

end Following

/-- **Uses follow their binders**, at every place of every template that generates: each name and
each path of an expression starts with the name that the innermost binder around it was emitted
with, and so does the call of a single name. The first parts of other calls and of the paths in
patterns are those of the template, whatever their binders are called in the code. -/
theorem uses_follow_binders {context : Context} {t : Template} {code : String}
    (h : t.module? context = .ok code) :
    ∃ stmts, t.stmts context = .ok stmts ∧ code = t.moduleText stmts ∧
      UsesBody (.following asWritten) [.params (t.params.map Param.name)] t.body stmts := by
  obtain ⟨stmts, hs, hc, hcode⟩ := Template.module_ok.mp h
  obtain ⟨k, hb⟩ := Template.stmts_ok.mp hs
  have hscoped : ScopedBody (fun _ _ => True) ⟨t.toTemplateName, context⟩ []
      (.ofParams t.params) t.body stmts :=
    Gen.body_scoped keeps_trivial (fun _ _ => trivial) trivial hb hc
  exact ⟨stmts, hs, hcode,
    hscoped.uses Uses.following_met (Scope.agrees_ofParams t.params)⟩

/-- A parameter that is hidden by the items it holds, which are used in all ways. -/
def hiddenUsesText : List Char :=
  "@(m: list)\n@for m in m {@m.x @m::y @:m() @:m::f() @match m {m::A => {a},}}".toList

theorem uses_follow_binders_hiddenUses : ∃ t code,
    Template.parse ⟨[], "page", "html"⟩ .here "" hiddenUsesText = .ok t ∧
      t.module? .empty = .ok code ∧ ∃ stmts, t.stmts .empty = .ok stmts ∧
        code = t.moduleText stmts ∧
        UsesBody (.following asWritten) [.params (t.params.map Param.name)] t.body stmts := by
  obtain ⟨t, stmts, hparse, -, hm, -⟩ := Template.exists_of_generates
    ⟨[], "page", "html"⟩ hiddenUsesText .empty (fun _ _ => true) (by decide +kernel)
  exact ⟨t, _, hparse, hm, uses_follow_binders hm⟩

/-! ## Paths of calls miss their binders -/

section Misses

variable {u : Uses} {bs : List Binder}

/-- The statements of a single node. -/
theorem UsesBody.single {n : Node} {st : Stmt} (h : UsesBody u bs [n] [st]) (hn : n.plain? = none)
    (hst : ∀ p text, st ≠ .write p text) : UsesNode u bs n [st] := by
  have hnil : ∀ {stmts : List Stmt}, stmts ⊆ [st] → UsesBody u bs [] stmts → stmts = []
    | _, _, .nil => rfl
    | _, hsub, .write _ => absurd (List.mem_singleton.mp (hsub List.mem_cons_self)).symm (hst _ _)
  generalize hss : [st] = ss at h
  cases h with
  | plain h _ =>
    rw [hn] at h
    cases h
  | write _ =>
    cases hss
    exact absurd rfl (hst _ _)
  | node hnode hrest =>
    have hr := hnil (by rw [hss]; exact List.subset_append_right _ _) hrest
    rw [hr, List.append_nil]
    exact hnode

/-- What a call of a path runs is asked of it. -/
theorem UsesNode.call_target {p p' : Nat} {path : List String} {args : List (Expr ⊕ List Node)}
    {blocks : List (List Node)} {target : Target} {ops : List Operand}
    (h : UsesNode u bs (.call p path args blocks) [.call p' target ops]) :
    u.call bs path target := by
  generalize hss : [Stmt.call p' target ops] = ss at h
  cases h with
  | call ht _ _ =>
    have hlast := congrArg List.getLast? hss
    rw [List.getLast?_singleton, List.getLast?_concat] at hlast
    cases hlast
    exact ht

/-- **The call of a path whose first part a loop gives another name** does not follow its binder. -/
theorem not_uses_hidden_call {p p₁ q q₁ c c₁ : Nat} {n m x y : String} {e e' : Expr}
    {path code : List String} (hxy : x ≠ y) :
    ¬ UsesBody (.following asBound) bs
      [.loop p (.binding q n) e [.call c (n :: m :: path) [] []]]
      [.loop p₁ (.binding q₁ x) e' [.call c₁ (.other (y :: code)) []]] := by
  intro h
  have hloop := h.single rfl (by simp)
  cases hloop with
  | loop _ _ hb =>
    have hcall := (hb.single rfl (by simp)).call_target _ rfl
    have hbound :
        asBound (.pattern (Pattern.binding q n).simplify (.binding q₁ x) :: bs) n = x := by
      simp [asBound, innermost?, Binder.code?, Pattern.simplify, Pattern.names]
    rw [withHead, hbound, List.cons.injEq] at hcall
    exact hxy hcall.1.symm

end Misses

/-- A parameter that is hidden by the items it holds, and a function of an item. -/
def hiddenCallText : List Char := "@(m: list)\n@for m in m {@:m::f()}".toList

/-- One loop that calls a function of its item, whose name the code writes otherwise. -/
def callsRenamedItem : List Node → List Stmt → Bool
  | [.loop _ (.binding _ n) _ [.call _ (n' :: _ :: _) [] []]],
    [.loop _ (.binding _ x) _ [.call _ (.other (y :: _)) []]] => decide (n = n' ∧ x ≠ y)
  | _, _ => false

theorem not_uses_of_callsRenamedItem {bs : List Binder} {nodes : List Node} {stmts : List Stmt}
    (h : callsRenamedItem nodes stmts = true) : ¬ UsesBody (.following asBound) bs nodes stmts := by
  unfold callsRenamedItem at h
  split at h
  · obtain ⟨rfl, hxy⟩ := of_decide_eq_true h
    exact not_uses_hidden_call hxy
  · cases h

/-- The function that is called belongs to the parameter, and not to the item. -/
theorem hidden_call_misses_binder : ∃ t stmts,
    Template.parse ⟨[], "page", "html"⟩ .here "" hiddenCallText = .ok t ∧
      t.stmts .empty = .ok stmts ∧ t.module? .empty = .ok (t.moduleText stmts) ∧
      ¬ UsesBody (.following asBound) [.params (t.params.map Param.name)] t.body stmts := by
  obtain ⟨t, stmts, hparse, hs, hm, hcheck⟩ := Template.exists_of_generates
    ⟨[], "page", "html"⟩ hiddenCallText .empty (fun t stmts => callsRenamedItem t.body stmts)
    (by decide +kernel)
  exact ⟨t, stmts, hparse, hs, hm, not_uses_of_callsRenamedItem hcheck⟩

end Stencil
