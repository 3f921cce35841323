import Stencil.Proofs.EnoughSteps
import Stencil.Proofs.Hygiene

/-!
# How generation fails

Generation fails where an expression cannot be resolved, at a number that cannot be written, where
the code gets too deep, or where it is refused.

* `Expr.placedPaths`: the paths of an expression, each with its place.
* `Node.boundExprs`: the expressions that the code is made of, each with the names bound around it.
* `Gen.body_failsOnly`, `Template.compile_failsOnly`: how bodies fail, and how code is refused.
* **`Template.module_failsOnly`**: what is known of the failures of the expressions is known of
  those of the module, its own failures aside.
-/

namespace Stencil

namespace Expr

mutual

/-- **The paths of an expression**, each with its place. -/
def placedPaths : Expr → List (Nat × List String)
  | literal _ _ | name _ _ => []
  | path p parts => [(p, parts)]
  | field _ v _ => v.placedPaths
  | method _ r _ as => r.placedPaths ++ placedPathsAll as
  | call _ f as => f.placedPaths ++ placedPathsAll as
  | index _ v i => v.placedPaths ++ i.placedPaths
  | tuple _ is => placedPathsAll is
  | list _ is => placedPathsAll is
  | range _ s e _ => s.placedPaths ++ e.placedPaths
  | unary _ _ e => e.placedPaths
  | binary _ _ a b => a.placedPaths ++ b.placedPaths
  | group _ e => e.placedPaths

/-- The paths of expressions, each with its place. -/
def placedPathsAll : List Expr → List (Nat × List String)
  | [] => []
  | e :: es => e.placedPaths ++ placedPathsAll es

end

section Failures

variable {r : Resolution} {P : Failure → Prop}

mutual

/-- **Resolving fails at a path**, or at a number that cannot be written. -/
theorem resolve_failsOnly (hnumber : P .unreadableNumber) : ∀ {e : Expr},
    (∀ x ∈ e.placedPaths, FailsOnly P (r.ofPath x.2 x.1)) → FailsOnly P (e.resolve r)
  | literal _ v, _ => by
    rw [resolve]
    split
    · trivial
    · exact hnumber
  | name _ n, _ => by
    rw [resolve]
    trivial
  | path p parts, h => by
    rw [resolve]
    refine (h (p, parts) List.mem_cons_self).bind fun o _ => ?_
    cases o <;> trivial
  | field _ v _, h | unary _ _ v, h | group _ v, h => by
    rw [resolve]
    rw [placedPaths] at h
    exact (resolve_failsOnly hnumber h).bind fun _ _ => trivial
  | method _ f _ as, h | call _ f as, h => by
    rw [resolve]
    simp only [placedPaths, List.mem_append] at h
    exact (resolve_failsOnly hnumber fun x hx => h x (.inl hx)).bind fun _ _ =>
      (resolveAll_failsOnly hnumber fun x hx => h x (.inr hx)).bind fun _ _ => trivial
  | index _ a b, h | binary _ _ a b, h => by
    rw [resolve]
    simp only [placedPaths, List.mem_append] at h
    exact (resolve_failsOnly hnumber fun x hx => h x (.inl hx)).bind fun _ _ =>
      (resolve_failsOnly hnumber fun x hx => h x (.inr hx)).bind fun _ _ => trivial
  | tuple _ is, h | list _ is, h => by
    rw [resolve]
    rw [placedPaths] at h
    exact (resolveAll_failsOnly hnumber h).bind fun _ _ => trivial
  | range _ a b _, h => by
    rw [resolve]
    simp only [placedPaths, List.mem_append] at h
    exact (resolve_failsOnly hnumber fun x hx => h x (.inr hx)).bind fun _ _ =>
      (resolve_failsOnly hnumber fun x hx => h x (.inl hx)).bind fun _ _ => trivial

theorem resolveAll_failsOnly (hnumber : P .unreadableNumber) : ∀ {es : List Expr},
    (∀ x ∈ placedPathsAll es, FailsOnly P (r.ofPath x.2 x.1)) → FailsOnly P (resolveAll r es)
  | [], _ => by
    rw [resolveAll]
    trivial
  | e :: es, h => by
    rw [resolveAll]
    simp only [placedPathsAll, List.mem_append] at h
    exact (resolve_failsOnly hnumber fun x hx => h x (.inl hx)).bind fun _ _ =>
      (resolveAll_failsOnly hnumber fun x hx => h x (.inr hx)).bind fun _ _ => trivial

end

end Failures

end Expr

namespace Pattern

variable {rename : String → String} {P : Failure → Prop}

mutual

/-- Resolving a pattern fails at a number that cannot be written. -/
theorem resolve_failsOnly (hnumber : P .unreadableNumber) : ∀ p : Pattern,
    FailsOnly P (p.resolve rename)
  | wildcard _ | binding _ _ | value _ _ => by
    rw [resolve]
    trivial
  | literal _ v => by
    rw [resolve]
    split
    · trivial
    · exact hnumber
  | tuple _ ps _ | variant _ _ ps | or _ ps => by
    rw [resolve]
    exact (resolveAll_failsOnly hnumber ps).bind fun _ _ => trivial
  | struct _ _ fs _ => by
    rw [resolve]
    exact (resolveFields_failsOnly hnumber fs).bind fun _ _ => trivial

theorem resolveAll_failsOnly (hnumber : P .unreadableNumber) : ∀ ps : List Pattern,
    FailsOnly P (resolveAll rename ps)
  | [] => by
    rw [resolveAll]
    trivial
  | p :: ps => by
    rw [resolveAll]
    exact (resolve_failsOnly hnumber p).bind fun _ _ =>
      (resolveAll_failsOnly hnumber ps).bind fun _ _ => trivial

theorem resolveFields_failsOnly (hnumber : P .unreadableNumber) :
    ∀ fs : List (String × Pattern), FailsOnly P (resolveFields rename fs)
  | [] => by
    rw [resolveFields]
    trivial
  | (_, p) :: fs => by
    rw [resolveFields]
    exact (resolve_failsOnly hnumber p).bind fun _ _ =>
      (resolveFields_failsOnly hnumber fs).bind fun _ _ => trivial

end

end Pattern

namespace Node

mutual

/-- **The expressions that the code of a node is made of**, each with the names that are bound
around it. Arms and cases after one that every value takes are left out. -/
def boundExprs (bound : List String) : Node → List (List String × Expr)
  | .text _ _ | .comment _ _ => []
  | .value _ e _ => [(bound, e)]
  | .branch _ arms otherwise => armBoundExprs bound (otherwiseBoundExprs bound otherwise) arms
  | .loop _ pattern e body =>
    (bound, e) :: boundExprsAll (pattern.simplify.names ++ bound) body
  | .cases _ e arms => (bound, e) :: caseBoundExprs bound arms
  | .call _ _ args blocks => argumentBoundExprs bound args ++ blockBoundExprs bound blocks

/-- The expressions of a body. -/
def boundExprsAll (bound : List String) : List Node → List (List String × Expr)
  | [] => []
  | n :: ns => n.boundExprs bound ++ boundExprsAll bound ns

/-- The expressions of arms; `rest` are those of what is done if no arm is taken. -/
def armBoundExprs (bound : List String) (rest : List (List String × Expr)) :
    List (Condition × List Node) → List (List String × Expr)
  | [] => rest
  | (.holds e, body) :: arms =>
    (bound, e) :: (boundExprsAll bound body ++ armBoundExprs bound rest arms)
  | (.matches pattern e, body) :: arms =>
    (bound, e) :: (boundExprsAll (pattern.simplify.names ++ bound) body ++
      if pattern.simplify.isCatchAll then [] else armBoundExprs bound rest arms)

/-- The expressions of what is done if no arm is taken. -/
def otherwiseBoundExprs (bound : List String) : Option (List Node) → List (List String × Expr)
  | none => []
  | some body => boundExprsAll bound body

/-- The guards of cases and the expressions inside them. -/
def caseBoundExprs (bound : List String) :
    List (Pattern × Option Expr × List Node) → List (List String × Expr)
  | [] => []
  | (pattern, guard, body) :: arms =>
    guard.toList.map (pattern.simplify.names ++ bound, ·) ++
      (boundExprsAll (pattern.simplify.names ++ bound) body ++
        if guard.isNone && pattern.simplify.isCatchAll then [] else caseBoundExprs bound arms)

/-- The expressions of arguments. -/
def argumentBoundExprs (bound : List String) :
    List (Expr ⊕ List Node) → List (List String × Expr)
  | [] => []
  | .inl e :: args => (bound, e) :: argumentBoundExprs bound args
  | .inr body :: args => boundExprsAll bound body ++ argumentBoundExprs bound args

/-- The expressions of blocks. -/
def blockBoundExprs (bound : List String) : List (List Node) → List (List String × Expr)
  | [] => []
  | body :: blocks => boundExprsAll bound body ++ blockBoundExprs bound blocks

end

end Node

/-- The names in scope are the given ones. -/
def Scope.Holds (s : Scope) (bound : List String) : Prop := ∀ n, s.has n = true ↔ n ∈ bound

theorem Scope.Holds.extend {s : Scope} {bound : List String} (h : s.Holds bound) (renamed : Scope)
    (names : List String) : (s.extend renamed names).Holds (names ++ bound) := by
  intro n
  rw [List.mem_append, ← h n, has_extend]

theorem Scope.holds_ofParams (params : List Param) :
    (ofParams params).Holds (params.map Param.name) := fun _ => has_ofParams

/-- **Expressions that fail in the given ways only**, in scopes of the names bound around them. -/
def Env.FailOnly (env : Env) (P : Failure → Prop) (exprs : List (List String × Expr)) : Prop :=
  ∀ x ∈ exprs, ∀ s : Scope, s.Holds x.1 → FailsOnly P (x.2.resolve (env.resolution s))

namespace Gen

section Steps

variable {α β : Type} {P : Failure → Prop} {k : Nat}

theorem failsOnly_bind {x : Gen α} {f : α → Gen β} (hx : FailsOnly P (x k))
    (hf : ∀ a k₁, x k = .ok (a, k₁) → FailsOnly P (f a k₁)) : FailsOnly P ((x >>= f) k) :=
  FailsOnly.bind hx fun ⟨a, k₁⟩ h => hf a k₁ h

theorem failsOnly_lift {x : Except Failure α} (h : FailsOnly P x) : FailsOnly P (lift x k) := by
  unfold lift
  cases x with
  | ok a => trivial
  | error f => exact h

theorem failsOnly_deeper (hdeep : ∀ p, P (.at .codeTooDeep p)) (i p : Nat) :
    FailsOnly P (deeper i p) := by
  unfold deeper
  split
  · trivial
  · exact hdeep p

theorem renamings_failsOnly (s : Scope) : ∀ (names : List String) (renamed : Scope) (k : Nat),
    FailsOnly P (renamings s names renamed k)
  | [], _, _ => trivial
  | n :: names, renamed, k => by
    rw [renamings]
    split
    · exact failsOnly_bind trivial fun _ _ _ => renamings_failsOnly s names _ _
    · exact renamings_failsOnly s names _ _

theorem failsOnly_bind_pattern (s : Scope) (p : Pattern) : FailsOnly P (bind s p k) :=
  failsOnly_bind (renamings_failsOnly s _ _ _) fun _ _ _ => trivial

end Steps

section Failures

variable {env : Env} {P : Failure → Prop}

mutual

/-- **Generation fails where an expression does**, at a number that cannot be written in a pattern,
or where it gets too deep. -/
theorem body_failsOnly (hdeep : ∀ p, P (.at .codeTooDeep p)) (hnumber : P .unreadableNumber) :
    ∀ {ns : List Node} {s : Scope} {bound : List String} {i p k : Nat} {pending : String},
      s.Holds bound → env.FailOnly P (Node.boundExprsAll bound ns) →
      FailsOnly P (body env s i p pending ns k)
  | [], _, _, _, _, _, _, _, _ => trivial
  | n :: ns, s, bound, i, p, k, pending, hs, he => by
    simp only [Env.FailOnly, Node.boundExprsAll, List.mem_append] at he
    have hrest : ∀ k pending, FailsOnly P (body env s i p pending ns k) := fun k pending =>
      body_failsOnly hdeep hnumber hs fun x hx => he x (.inr hx)
    cases hp : n.plain? with
    | some text =>
      rw [body_cons_plain hp]
      exact hrest k _
    | none =>
      simp only [body, hp]
      exact failsOnly_bind (node_failsOnly hdeep hnumber hs fun x hx => he x (.inl hx))
        fun _ k₁ _ => failsOnly_bind (hrest k₁ _) fun _ _ _ => trivial

theorem node_failsOnly (hdeep : ∀ p, P (.at .codeTooDeep p)) (hnumber : P .unreadableNumber) :
    ∀ {n : Node} {s : Scope} {bound : List String} {i k : Nat},
      s.Holds bound → env.FailOnly P (n.boundExprs bound) → FailsOnly P (node env s i n k)
  | .text _ _, _, _, _, _, _, _ | .comment _ _, _, _, _, _, _, _ => trivial
  | .value _ e _, s, _, _, _, hs, he => by
    rw [node]
    exact failsOnly_bind (failsOnly_lift (he _ List.mem_cons_self s hs)) fun _ _ _ => trivial
  | .branch p arms otherwise, s, bound, i, k, hs, he => by
    rw [node]
    exact failsOnly_bind (chain_failsOnly hdeep hnumber hs (fun ho _ _ =>
      alternative_failsOnly hdeep hnumber hs ho) he) fun _ _ _ => trivial
  | .loop p pattern e body, s, bound, i, k, hs, he => by
    simp only [Env.FailOnly, Node.boundExprs, List.mem_cons] at he
    have hdeeper : ∀ i k, FailsOnly P (lift (deeper i p) k) := fun i k =>
      failsOnly_lift (failsOnly_deeper hdeep i p)
    have hcase : ∀ renamed k, FailsOnly P (lift (pattern.simplify.resolve renamed) k) :=
      fun renamed k => failsOnly_lift (Pattern.resolve_failsOnly hnumber _)
    have hbody : ∀ renamed i k,
        FailsOnly P (Gen.body env (s.extend renamed pattern.simplify.names) i p "" body k) :=
      fun renamed i k => body_failsOnly hdeep hnumber (hs.extend renamed _)
        fun x hx => he x (.inr hx)
    rw [node]
    refine failsOnly_bind (failsOnly_lift (he _ (.inl rfl) s hs)) fun _ _ _ => ?_
    refine failsOnly_bind (failsOnly_bind_pattern _ _) fun r _ hb => ?_
    obtain ⟨inner, renamed⟩ := r
    obtain ⟨-, rfl⟩ := bind_ok_eq hb
    dsimp only
    split
    · exact failsOnly_bind (hdeeper _ _) fun _ _ _ => failsOnly_bind (hcase _ _) fun _ _ _ =>
        failsOnly_bind (hbody _ _ _) fun _ _ _ => trivial
    · exact failsOnly_bind trivial fun _ _ _ => failsOnly_bind (hdeeper _ _) fun _ _ _ =>
        failsOnly_bind (hdeeper _ _) fun _ _ _ => failsOnly_bind (hcase _ _) fun _ _ _ =>
        failsOnly_bind (hdeeper _ _) fun _ _ _ =>
        failsOnly_bind (hbody _ _ _) fun _ _ _ => trivial
  | .cases p e arms, s, bound, i, k, hs, he => by
    simp only [Env.FailOnly, Node.boundExprs, List.mem_cons] at he
    rw [node]
    refine failsOnly_bind (failsOnly_lift (he _ (.inl rfl) s hs)) fun _ _ _ => ?_
    split
    · trivial
    · exact failsOnly_bind (failsOnly_lift (failsOnly_deeper hdeep _ _)) fun _ _ _ =>
        failsOnly_bind (cases_failsOnly hdeep hnumber hs fun x hx => he x (.inr hx))
          fun _ _ _ => trivial
  | .call p path args blocks, s, bound, i, k, hs, he => by
    simp only [Env.FailOnly, Node.boundExprs, List.mem_append] at he
    rw [node]
    exact failsOnly_bind (arguments_failsOnly hdeep hnumber hs fun x hx => he x (.inl hx))
      fun _ _ _ => failsOnly_bind
        (contents_failsOnly hdeep hnumber hs fun x hx => he x (.inr hx)) fun _ _ _ => trivial

theorem alternative_failsOnly (hdeep : ∀ p, P (.at .codeTooDeep p))
    (hnumber : P .unreadableNumber) :
    ∀ {o : Option (List Node)} {s : Scope} {bound : List String} {i p k : Nat},
      s.Holds bound → env.FailOnly P (Node.otherwiseBoundExprs bound o) →
      FailsOnly P (alternative env s i p o k)
  | none, _, _, _, _, _, _, _ => trivial
  | some nodes, _, _, _, _, _, hs, he => by
    rw [alternative_some]
    exact body_failsOnly hdeep hnumber hs he

theorem chain_failsOnly (hdeep : ∀ p, P (.at .codeTooDeep p)) (hnumber : P .unreadableNumber)
    {s : Scope} {bound : List String} {p : Nat} {last : Bool} {rest : List (List String × Expr)}
    {otherwise : Nat → Gen (List Stmt)} (hs : s.Holds bound)
    (ho : env.FailOnly P rest → ∀ i k, FailsOnly P (otherwise i k)) :
    ∀ {arms : List (Condition × List Node)} {i k : Nat} {first : Bool},
      env.FailOnly P (Node.armBoundExprs bound rest arms) →
      FailsOnly P (chain env s i first p last otherwise arms k)
  | [], i, k, first, he => by
    rw [chain]
    split
    · refine failsOnly_bind (failsOnly_lift ?_) fun _ _ _ =>
        failsOnly_bind (ho he _ _) fun _ _ _ => trivial
      split
      · trivial
      · exact failsOnly_deeper hdeep _ _
    · trivial
  | (.holds e, nodes) :: arms, i, k, first, he => by
    simp only [Env.FailOnly, Node.armBoundExprs, List.mem_cons, List.mem_append] at he
    rw [chain]
    exact failsOnly_bind (failsOnly_lift (he _ (.inl rfl) s hs)) fun _ _ _ =>
      failsOnly_bind (failsOnly_lift (failsOnly_deeper hdeep _ _)) fun _ _ _ =>
      failsOnly_bind (body_failsOnly hdeep hnumber hs fun x hx => he x (.inr (.inl hx)))
        fun _ _ _ => failsOnly_bind
          (chain_failsOnly hdeep hnumber hs ho fun x hx => he x (.inr (.inr hx)))
          fun _ _ _ => trivial
  | (.matches pattern e, nodes) :: arms, i, k, first, he => by
    simp only [Env.FailOnly, Node.armBoundExprs, List.mem_cons, List.mem_append] at he
    have hdeeper : ∀ i k, FailsOnly P (lift (deeper i p) k) := fun i k =>
      failsOnly_lift (failsOnly_deeper hdeep i p)
    rw [chain]
    refine failsOnly_bind (failsOnly_lift ?_) fun _ _ _ => ?_
    · split
      · trivial
      · exact failsOnly_deeper hdeep _ _
    refine failsOnly_bind (failsOnly_bind_pattern _ _) fun r _ hb => ?_
    obtain ⟨inner, renamed⟩ := r
    obtain ⟨-, rfl⟩ := bind_ok_eq hb
    refine failsOnly_bind (failsOnly_lift (he _ (.inl rfl) s hs)) fun _ _ _ =>
      failsOnly_bind (hdeeper _ _) fun _ _ _ =>
      failsOnly_bind (failsOnly_lift (Pattern.resolve_failsOnly hnumber _)) fun _ _ _ =>
      failsOnly_bind (hdeeper _ _) fun _ _ _ =>
      failsOnly_bind (body_failsOnly hdeep hnumber (hs.extend renamed _)
        fun x hx => he x (.inr (.inl hx))) fun _ _ _ => ?_
    split
    · trivial
    · rename_i hmore
      rw [Bool.or_eq_true, not_or] at hmore
      refine failsOnly_bind (chain_failsOnly hdeep hnumber hs ho fun x hx => ?_)
        fun _ _ _ => trivial
      exact he x (.inr (.inr (by rwa [if_neg hmore.2])))

theorem cases_failsOnly (hdeep : ∀ p, P (.at .codeTooDeep p)) (hnumber : P .unreadableNumber) :
    ∀ {arms : List (Pattern × Option Expr × List Node)} {s : Scope} {bound : List String}
      {i p k : Nat}, s.Holds bound → env.FailOnly P (Node.caseBoundExprs bound arms) →
      FailsOnly P (cases env s i p arms k)
  | [], _, _, _, _, _, _, _ => trivial
  | (pattern, guard, nodes) :: arms, s, bound, i, p, k, hs, he => by
    simp only [Env.FailOnly, Node.caseBoundExprs, List.mem_append] at he
    rw [cases]
    refine failsOnly_bind (failsOnly_bind_pattern _ _) fun r _ hb => ?_
    obtain ⟨inner, renamed⟩ := r
    obtain ⟨-, rfl⟩ := bind_ok_eq hb
    have hin := hs.extend renamed pattern.simplify.names
    have hguard : FailsOnly P (guard.mapM (·.resolve (env.resolution
        (s.extend renamed pattern.simplify.names)))) := by
      cases guard with
      | none => trivial
      | some g =>
        rw [Option.mapM_some, map_eq_pure_bind]
        exact (he (_, g) (.inl (by simp)) _ hin).bind fun _ _ => trivial
    refine failsOnly_bind (failsOnly_lift (Pattern.resolve_failsOnly hnumber _)) fun _ _ _ =>
      failsOnly_bind (failsOnly_lift hguard) fun _ _ _ =>
      failsOnly_bind (failsOnly_lift (failsOnly_deeper hdeep _ _)) fun _ _ _ =>
      failsOnly_bind (body_failsOnly hdeep hnumber hin fun x hx => he x (.inr (.inl hx)))
        fun _ _ _ => ?_
    split
    · trivial
    · rename_i hmore
      refine failsOnly_bind (cases_failsOnly hdeep hnumber hs fun x hx => ?_) fun _ _ _ => trivial
      exact he x (.inr (.inr (by rwa [if_neg hmore])))

theorem arguments_failsOnly (hdeep : ∀ p, P (.at .codeTooDeep p)) (hnumber : P .unreadableNumber) :
    ∀ {args : List (Expr ⊕ List Node)} {s : Scope} {bound : List String} {i p k : Nat},
      s.Holds bound → env.FailOnly P (Node.argumentBoundExprs bound args) →
      FailsOnly P (arguments env s i p args k)
  | [], _, _, _, _, _, _, _ => trivial
  | .inl e :: args, s, bound, i, p, k, hs, he => by
    simp only [Env.FailOnly, Node.argumentBoundExprs, List.mem_cons] at he
    rw [arguments]
    exact failsOnly_bind (failsOnly_lift (he _ (.inl rfl) s hs)) fun _ _ _ => failsOnly_bind
      (arguments_failsOnly hdeep hnumber hs fun x hx => he x (.inr hx)) fun _ _ _ => trivial
  | .inr nodes :: args, s, bound, i, p, k, hs, he => by
    simp only [Env.FailOnly, Node.argumentBoundExprs, List.mem_append] at he
    rw [arguments]
    exact failsOnly_bind trivial fun _ _ _ =>
      failsOnly_bind (failsOnly_lift (failsOnly_deeper hdeep _ _)) fun _ _ _ =>
      failsOnly_bind (body_failsOnly hdeep hnumber hs fun x hx => he x (.inl hx)) fun _ _ _ =>
      failsOnly_bind (arguments_failsOnly hdeep hnumber hs fun x hx => he x (.inr hx))
        fun _ _ _ => trivial

theorem contents_failsOnly (hdeep : ∀ p, P (.at .codeTooDeep p)) (hnumber : P .unreadableNumber) :
    ∀ {blocks : List (List Node)} {s : Scope} {bound : List String} {i p k : Nat},
      s.Holds bound → env.FailOnly P (Node.blockBoundExprs bound blocks) →
      FailsOnly P (contents env s i p blocks k)
  | [], _, _, _, _, _, _, _ => trivial
  | nodes :: blocks, s, bound, i, p, k, hs, he => by
    simp only [Env.FailOnly, Node.blockBoundExprs, List.mem_append] at he
    rw [contents]
    exact failsOnly_bind trivial fun _ _ _ =>
      failsOnly_bind (failsOnly_lift (failsOnly_deeper hdeep _ _)) fun _ _ _ =>
      failsOnly_bind (body_failsOnly hdeep hnumber hs fun x hx => he x (.inl hx)) fun _ _ _ =>
      failsOnly_bind (contents_failsOnly hdeep hnumber hs fun x hx => he x (.inr hx))
        fun _ _ _ => trivial

end

end Failures

end Gen

/-! ## Refused code -/

/-- **Code is refused as such**: its refusals name what the generated language does not take. -/
theorem Template.compile_failsOnly {P : Failure → Prop} (h : ∀ c p, P (.at (.invalidCode c) p))
    (t : Template) (stmts : List Stmt) : FailsOnly P (t.compile stmts) := by
  unfold compile
  cases Stmt.checkAll 0 stmts with
  | ok u => trivial
  | error r => exact h _ _

/-- **A module fails where an expression does**, at a number that cannot be written, where the code
gets too deep, or where it is refused. -/
theorem Template.module_failsOnly {context : Context} {t : Template} {P : Failure → Prop}
    (hdeep : ∀ p, P (.at .codeTooDeep p)) (hnumber : P .unreadableNumber)
    (hrefused : ∀ c p, P (.at (.invalidCode c) p))
    (h : (⟨t.toTemplateName, context⟩ : Env).FailOnly P
      (Node.boundExprsAll (t.params.map Param.name) t.body)) :
    FailsOnly P (t.module? context) := by
  have hbody : FailsOnly P (t.stmts context) :=
    FailsOnly.bind (Gen.body_failsOnly hdeep hnumber (Scope.holds_ofParams t.params) h)
      fun _ _ => trivial
  exact hbody.bind fun stmts _ =>
    (t.compile_failsOnly hrefused stmts).bind fun _ _ => trivial

end Stencil
