import Stencil.Proofs.FormedStatements

/-!
# Selections that the generated language accepts

The generated language refuses a selection with cases after one that every value takes, and a choice
with an alternative after one that everything matches.

* `reachable`: the arms up to the first one that every value takes.
* `reachable_reachable`, `exists_eq_reachable_append`: what is left out comes after such an arm.
* `Gen.cases_eq`: each of these arms becomes one case.
* **`accepted_selections`**: no generated selection is refused, whatever it was made from.
-/

namespace Stencil

section Arms

variable {β : Type} {arms : List (Pattern × Option Expr × β)}

/-- An arm with its pattern simplified. -/
def simplifyArm (arm : Pattern × Option Expr × β) : Pattern × Option Expr × β :=
  (arm.1.simplify, arm.2)

/-- **The arms that a value can reach**: with simplified patterns, up to the first final one. -/
def reachable : List (Pattern × Option Expr × β) → List (Pattern × Option Expr × β)
  | [] => []
  | arm :: arms =>
    if arm.2.1.isNone && arm.1.simplify.isCatchAll then [simplifyArm arm]
    else simplifyArm arm :: reachable arms

theorem isFinal_simplifyArm {arm : Pattern × Option Expr × β} :
    IsFinal (simplifyArm arm) ↔ (arm.2.1.isNone && arm.1.simplify.isCatchAll) = true := by
  rw [IsFinal, simplifyArm, Bool.and_eq_true, Option.isNone_iff_eq_none]

theorem simplifyArm_simplifyArm (arm : Pattern × Option Expr × β) :
    simplifyArm (simplifyArm arm) = simplifyArm arm := by
  rw [simplifyArm, simplifyArm, Pattern.simplify_simplify]

theorem reachable_cons_of_isFinal {arm : Pattern × Option Expr × β}
    (h : IsFinal (simplifyArm arm)) : reachable (arm :: arms) = [simplifyArm arm] := by
  rw [reachable, if_pos (isFinal_simplifyArm.mp h)]

theorem reachable_cons_of_not_isFinal {arm : Pattern × Option Expr × β}
    (h : ¬ IsFinal (simplifyArm arm)) :
    reachable (arm :: arms) = simplifyArm arm :: reachable arms := by
  rw [reachable, if_neg fun hf => h (isFinal_simplifyArm.mpr hf)]

/-- **No value reaches fewer arms** if those that are left out are not there at all. -/
theorem reachable_reachable (arms : List (Pattern × Option Expr × β)) :
    reachable (reachable arms) = reachable arms := by
  induction arms with
  | nil => rfl
  | cons arm arms ih =>
    by_cases h : IsFinal (simplifyArm arm)
    · have h' : IsFinal (simplifyArm (simplifyArm arm)) := by rwa [simplifyArm_simplifyArm]
      rw [reachable_cons_of_isFinal h, reachable_cons_of_isFinal h', simplifyArm_simplifyArm]
    · have h' : ¬ IsFinal (simplifyArm (simplifyArm arm)) := by rwa [simplifyArm_simplifyArm]
      rw [reachable_cons_of_not_isFinal h, reachable_cons_of_not_isFinal h',
        simplifyArm_simplifyArm, ih]

/-- **The arms that are left out** come after all others, the last of which is final. -/
theorem exists_eq_reachable_append (arms : List (Pattern × Option Expr × β)) :
    ∃ rest, arms.map simplifyArm = reachable arms ++ rest ∧
      (rest ≠ [] → ∃ last ∈ (reachable arms).getLast?, IsFinal last) := by
  induction arms with
  | nil => exact ⟨[], rfl, fun h => absurd rfl h⟩
  | cons arm arms ih =>
    by_cases h : IsFinal (simplifyArm arm)
    · rw [reachable_cons_of_isFinal h, List.map_cons]
      exact ⟨arms.map simplifyArm, rfl, fun _ => ⟨_, rfl, h⟩⟩
    · obtain ⟨rest, hrest, hlast⟩ := ih
      rw [reachable_cons_of_not_isFinal h, List.map_cons, hrest]
      refine ⟨rest, rfl, fun hne => ?_⟩
      obtain ⟨last, hmem, hfinal⟩ := hlast hne
      refine ⟨last, ?_, hfinal⟩
      rw [List.getLast?_cons, hmem, Option.getD_some]
      rfl

end Arms

namespace Gen

/-- **The case of an arm** whose pattern is simplified. -/
def caseOf (env : Env) (s : Scope) (indent position : Nat)
    (arm : Pattern × Option Expr × List Node) : Gen (Pattern × Option Expr × List Stmt) := do
  let (inner, renamed) ← bind s arm.1
  let case ← lift (arm.1.resolve renamed.rename)
  let guard ← lift (arm.2.1.mapM (·.resolve (env.resolution inner)))
  let indent ← lift (deeper indent position)
  let nodes ← body env inner indent position "" arm.2.2
  return (case, guard, nodes)

/-- **The cases of a selection are those of the arms that a value can reach**, in order. -/
theorem cases_eq (env : Env) (s : Scope) (i p : Nat) :
    ∀ arms : List (Pattern × Option Expr × List Node),
      cases env s i p arms = (reachable arms).mapM (caseOf env s i p)
  | [] => by rw [cases, reachable, List.mapM_nil]
  | (pattern, guard, nodes) :: arms => by
    rw [cases, reachable]
    cases hfinal : guard.isNone && pattern.simplify.isCatchAll with
    | true => simp [caseOf, simplifyArm]
    | false =>
      rw [cases_eq env s i p arms]
      simp [caseOf, simplifyArm]

end Gen

/-! ## Generated selections -/

/-- **Nothing in a selection stands after what takes every value**: no choice in its patterns has a
catch-all among its alternatives, and only the last case may be final. -/
structure IsAccepted (cases : List (Pattern × Option Expr × List Stmt)) : Prop where
  simple : ∀ c ∈ cases, c.1.IsSimple
  last : ∀ c ∈ cases.dropLast, ¬ IsFinal c

/-- The code of a pattern is simple. -/
theorem Pattern.IsCodeOf.isSimple {p case : Pattern} (h : p.IsCodeOf case) : case.IsSimple := by
  obtain ⟨s, k, renamed, k', -, hc⟩ := h
  rw [resolve_ok hc]
  exact isSimple_renamed p.isSimple_simplify

theorem Stmt.FormedCases.isAccepted {Q : Pattern → Prop} {p : Nat}
    {cases : List (Pattern × Option Expr × List Stmt)} (h : Stmt.FormedCases Q p cases) :
    IsAccepted cases where
  simple c hc := by
    obtain ⟨q, -, hcode⟩ | hwild := h.pattern c hc
    · exact hcode.isSimple
    · rw [hwild, Pattern.IsSimple]
      trivial
  last := h.last

/-- **Generated selections are accepted**, those of arms, conditions and loops, in every template
that generates. Patterns are simplified once, and the arms of a selection are reduced once to those
that a value can reach; what is left out of them comes after an arm that every value takes. -/
theorem accepted_selections {context : Context} {t : Template} {code : String}
    (h : t.module? context = .ok code) :
    (∃ stmts, t.stmts context = .ok stmts ∧ code = t.moduleText stmts ∧
      ∀ p subject cases, Stmt.select p subject cases ∈ Stmt.withinAll stmts →
        IsAccepted cases) ∧
    (∀ p : Pattern, p.simplify.simplify = p.simplify) ∧
    ∀ arms : List (Pattern × Option Expr × List Node),
      reachable (reachable arms) = reachable arms ∧
      (∃ rest, arms.map simplifyArm = reachable arms ++ rest ∧
        (rest ≠ [] → ∃ last ∈ (reachable arms).getLast?, IsFinal last)) ∧
      ∀ env s i p, Gen.cases env s i p arms = (reachable arms).mapM (Gen.caseOf env s i p) := by
  refine ⟨?_, Pattern.simplify_simplify, fun arms => ⟨reachable_reachable arms,
    exists_eq_reachable_append arms, fun env s i p => Gen.cases_eq env s i p arms⟩⟩
  obtain ⟨stmts, hs, -, hcode⟩ := Template.module_ok.mp h
  refine ⟨stmts, hs, hcode, fun p subject cases hmem => ?_⟩
  have hformed := Template.formed hs (fun _ _ => trivial) _ hmem
  cases hformed with
  | select hcases => exact hcases.isAccepted

/-- Arms after one that every value takes, and choices with catch-alls at any depth, in a selection,
a condition and a loop. -/
def selectingText : List Char :=
  ("@(xs: list)\n@match xs " ++
    "{(1 | _, y) if y => {a}, Some(2 | (3 | z)) => {@z}, 4 | w => {@w}, 5 => {b},}" ++
    "@if let 6 | _ = xs {c} else {d}@for Some(7 | _) in xs {e}").toList

theorem accepted_selections_page : ∃ t stmts,
    Template.parse ⟨[], "page", "html"⟩ .here "" selectingText = .ok t ∧
      t.module? .empty = .ok (t.moduleText stmts) ∧
      ∃ p subject cases, Stmt.select p subject cases ∈ Stmt.withinAll stmts ∧
        cases.length = 3 ∧ IsAccepted cases := by
  obtain ⟨t, stmts, hparse, hs, hm, hcheck⟩ := Template.exists_of_generates
    ⟨[], "page", "html"⟩ selectingText .empty
    (fun _ stmts => (Stmt.withinAll stmts).any fun
      | .select _ _ cases => cases.length == 3
      | _ => false) (by decide +kernel)
  obtain ⟨⟨stmts', hs', -, haccepted⟩, -⟩ := accepted_selections hm
  obtain rfl := Except.ok.inj (hs.symm.trans hs')
  obtain ⟨st, hst, hlength⟩ := List.any_eq_true.mp hcheck
  split at hlength
  · exact ⟨t, stmts, hparse, hm, _, _, _, hst, beq_iff_eq.mp hlength, haccepted _ _ _ hst⟩
  · cases hlength

end Stencil
