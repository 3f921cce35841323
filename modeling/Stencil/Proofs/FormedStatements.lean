import Stencil.Proofs.Depth
import Stencil.Proofs.Scoped
import Stencil.Proofs.SimplePatterns
import Stencil.Proofs.Statements

/-!
# The form of generated statements

What the head of a generated statement can be: the targets of loops and the patterns of cases are
those of the template, simplified and renamed, or helpers of the generator, and a case that every
value takes is the last one.

* `Pattern.IsCodeOf`: a pattern of the code stands for a pattern of the template.
* `Stmt.Formed`: the forms of a generated statement.
* **`Gen.body_formed`**: all statements that are generated for a body have one of these forms.
-/

namespace Stencil

/-- **A pattern of the code that stands for a pattern of the template**: the simplified pattern, with
fresh names for what it hides in some scope. -/
def Pattern.IsCodeOf (p case : Pattern) : Prop :=
  ∃ s k renamed k', Gen.renamings s p.simplify.names [] k = .ok (renamed, k') ∧
    p.simplify.resolve renamed.rename = .ok case

/-- Every value takes a case: it has no guard, and its pattern is a bare name or `_`. -/
def IsFinal {β : Type} (case : Pattern × Option Expr × β) : Prop :=
  case.2.1 = none ∧ case.1.isCatchAll

namespace Stmt

/-- **The forms of cases**, at a place: each stands for a pattern of the template for which `Q` holds
or is what is done otherwise, and only the last one may be final. -/
structure FormedCases (Q : Pattern → Prop) (p : Nat)
    (cases : List (Pattern × Option Expr × List Stmt)) : Prop where
  pattern : ∀ c ∈ cases, (∃ q, Q q ∧ q.IsCodeOf c.1) ∨ c.1 = .wildcard p
  last : ∀ c ∈ cases.dropLast, ¬ IsFinal c

/-- **The forms of a generated statement**, if `Q` holds for the patterns of the template. -/
inductive Formed (Q : Pattern → Prop) : Stmt → Prop where
  | write {p : Nat} {text : String} : Formed Q (.write p text)
  | interpolate {p : Nat} {raw : Bool} {e : Expr} : Formed Q (.interpolate p raw e)
  | evaluate {p : Nat} {e : Expr} : Formed Q (.evaluate p e)
  | call {p : Nat} {target : Target} {args : List Operand} : Formed Q (.call p target args)
  | define {p k : Nat} {body : List Stmt} :
      Formed Q (.define p (Gen.freshName "content" k) body)
  | branch {p : Nat} {arms : List (Expr × List Stmt)} {otherwise : Option (List Stmt)} :
      Formed Q (.branch p arms otherwise)
  | loop {p : Nat} {q target : Pattern} {e : Expr} {body : List Stmt} (hq : Q q)
      (hplain : q.simplify.isIrrefutable) (ht : q.IsCodeOf target) :
      Formed Q (.loop p target e body)
  /-- A loop through helper items. -/
  | items {p k : Nat} {e : Expr} {body : List Stmt} :
      Formed Q (.loop p (.binding p (Gen.freshName "item" k)) e body)
  | select {p : Nat} {subject : Operand} {cases : List (Pattern × Option Expr × List Stmt)}
      (h : FormedCases Q p cases) : Formed Q (.select p subject cases)

variable {Q : Pattern → Prop} {p : Nat}

/-- One case is the last one. -/
theorem formedCases_single {q case : Pattern} {guard : Option Expr} {body : List Stmt} (hq : Q q)
    (hc : q.IsCodeOf case) : FormedCases Q p [(case, guard, body)] where
  pattern c hmem := by
    obtain rfl := List.mem_singleton.mp hmem
    exact .inl ⟨q, hq, hc⟩
  last c hmem := by cases hmem

/-- A case that is not final may stand before others. -/
theorem FormedCases.cons {q case : Pattern} {guard : Option Expr} {body : List Stmt}
    {cases : List (Pattern × Option Expr × List Stmt)} (hq : Q q) (hc : q.IsCodeOf case)
    (hmore : ¬ IsFinal (case, guard, body)) (h : FormedCases Q p cases) :
    FormedCases Q p ((case, guard, body) :: cases) where
  pattern c hmem := by
    rcases List.mem_cons.mp hmem with rfl | hmem
    · exact .inl ⟨q, hq, hc⟩
    · exact h.pattern c hmem
  last c hmem := by
    cases cases with
    | nil => cases hmem
    | cons d cases =>
      rw [List.dropLast_cons_of_ne_nil (List.cons_ne_nil _ _), List.mem_cons] at hmem
      rcases hmem with rfl | hmem
      · exact hmore
      · exact h.last c hmem

end Stmt

namespace Gen

open Stmt

variable {env : Env} {Q : Pattern → Prop} {st : Stmt}

/-- Text that is written has a form, whatever stands after it. -/
theorem formed_flush {p : Nat} {text : String} {stmts : List Stmt}
    (h : ∀ st ∈ withinAll stmts, st.Formed Q) :
    ∀ st ∈ withinAll (flush p text ++ stmts), st.Formed Q := by
  intro st hst
  unfold flush at hst
  split at hst
  · exact h st hst
  · rw [List.singleton_append, withinAll, within, List.singleton_append, List.mem_cons] at hst
    rcases hst with rfl | hst
    · exact .write
    · exact h st hst

/-- The pattern that was bound is the code of the one of the template. -/
theorem isCodeOf_of_bind {q case : Pattern} {s inner renamed : Scope} {k k' : Nat}
    (hb : bind s q.simplify k = .ok ((inner, renamed), k'))
    (hc : q.simplify.resolve renamed.rename = .ok case) : q.IsCodeOf case :=
  ⟨s, k, renamed, k', (bind_ok_eq hb).1, hc⟩

mutual

/-- **All statements that are generated for a body are formed.** -/
theorem body_formed : ∀ {ns : List Node} {s : Scope} {i p k k' : Nat} {pending : String}
    {r : List Stmt}, (∀ q ∈ Node.patternsAll ns, Q q) →
    body env s i p pending ns k = .ok (r, k') → ∀ st ∈ withinAll r, st.Formed Q
  | [], _, _, _, _, _, _, _, _, h => by
    obtain ⟨rfl, -⟩ := body_nil_ok.mp h
    rw [← List.append_nil (flush _ _)]
    exact formed_flush fun st hst => by cases hst
  | n :: ns, _, _, _, _, _, _, _, hq, h => by
    simp only [Node.patternsAll, List.mem_append] at hq
    cases hp : n.plain? with
    | some text =>
      rw [body_cons_plain hp] at h
      exact body_formed (fun q hm => hq q (.inr hm)) h
    | none =>
      obtain ⟨a, k₁, b, ha, hb, rfl⟩ := (body_cons_ok hp).mp h
      rw [List.append_assoc]
      refine formed_flush fun st hst => ?_
      rw [withinAll_append, List.mem_append] at hst
      exact hst.elim (node_formed (fun q hm => hq q (.inl hm)) hp ha st)
        (body_formed (fun q hm => hq q (.inr hm)) hb st)

theorem node_formed : ∀ {n : Node} {s : Scope} {i k k' : Nat} {r : List Stmt},
    (∀ q ∈ n.patterns, Q q) → n.plain? = none → node env s i n k = .ok (r, k') →
    ∀ st ∈ withinAll r, st.Formed Q
  | .text _ _, _, _, _, _, _, _, hp, _, _, _ | .comment _ _, _, _, _, _, _, _, hp, _, _, _ => by
    cases hp
  | .value p e raw, _, _, _, _, _, _, _, h, st, hst => by
    obtain ⟨e', -, rfl, -⟩ := node_value_ok.mp h
    rw [withinAll_single, within, List.mem_singleton] at hst
    exact hst ▸ .interpolate
  | .branch p arms otherwise, _, _, _, _, _, hq, _, h, st, hst => by
    obtain ⟨r, hr, rfl⟩ := node_branch_ok.mp h
    simp only [Node.patterns, List.mem_append] at hq
    rcases mem_withinAll_branchOf hst with rfl | hst
    · exact .branch
    · exact chain_formed
        (fun h st hst => alternative_formed (fun q hm => hq q (.inr hm)) h st hst)
        (fun q hm => hq q (.inl hm)) hr st hst
  | .loop p pattern e nodes, _, _, _, _, _, hq, _, h, st, hst => by
    rw [Node.patterns, List.forall_mem_cons] at hq
    by_cases hp : pattern.simplify.isIrrefutable
    · obtain ⟨e', inner, renamed, k₁, target, body', -, hb, ht, -, hbody, rfl⟩ :=
        (node_loop_plain_ok hp).mp h
      rw [withinAll_single, within, List.mem_cons] at hst
      rcases hst with rfl | hst
      · exact .loop hq.1 hp (isCodeOf_of_bind hb ht)
      · exact body_formed hq.2 hbody st hst
    · obtain ⟨e', inner, renamed, k₁, case, body', -, hb, hcase, -, hbody, rfl⟩ :=
        (node_loop_skipping_ok hp).mp h
      simp only [withinAll, within, withinCases, List.append_nil, List.mem_cons] at hst
      rcases hst with rfl | rfl | hst
      · exact .items
      · exact .select (formedCases_single hq.1 (isCodeOf_of_bind hb hcase))
      · exact body_formed hq.2 hbody st hst
  | .cases p e [], _, _, _, _, _, _, _, h, st, hst => by
    obtain ⟨e', -, rfl, -⟩ := node_cases_nil_ok.mp h
    rw [withinAll_single, within, List.mem_singleton] at hst
    exact hst ▸ .evaluate
  | .cases p e (arm :: arms), _, _, _, _, _, hq, _, h, st, hst => by
    obtain ⟨e', cases', -, -, hr, rfl⟩ := (node_cases_ok (List.cons_ne_nil _ _)).mp h
    rw [Node.patterns] at hq
    rw [withinAll_single, within, List.mem_cons] at hst
    rcases hst with rfl | hst
    · exact .select (cases_formed hq hr).1
    · exact (cases_formed hq hr).2 st hst
  | .call p path args blocks, _, _, _, _, _, hq, _, h, st, hst => by
    obtain ⟨defs, args', k₁, defs', contents', ha, hb, rfl⟩ := node_call_ok.mp h
    simp only [Node.patterns, List.mem_append] at hq
    rw [withinAll_append, withinAll_append, withinAll_single, within, List.mem_append,
      List.mem_append, List.mem_singleton] at hst
    rcases hst with (hst | hst) | rfl
    · exact arguments_formed (fun q hm => hq q (.inl hm)) ha st hst
    · exact contents_formed (fun q hm => hq q (.inr hm)) hb st hst
    · exact .call

theorem alternative_formed : ∀ {o : Option (List Node)} {s : Scope} {i p k k' : Nat}
    {r : List Stmt}, (∀ q ∈ Node.otherwisePatterns o, Q q) →
    alternative env s i p o k = .ok (r, k') → ∀ st ∈ withinAll r, st.Formed Q
  | none, _, _, _, _, _, _, _, h, st, hst => by
    obtain ⟨rfl, -⟩ := alternative_none_ok.mp h
    cases hst
  | some nodes, _, _, _, _, _, _, hq, h, st, hst => by
    rw [Node.otherwisePatterns] at hq
    rw [alternative_some] at h
    exact body_formed hq h st hst

theorem chain_formed {s : Scope} {p : Nat} {last : Bool} {otherwise : Nat → Gen (List Stmt)}
    (ho : ∀ {i k k' r}, otherwise i k = .ok (r, k') → ∀ st ∈ withinAll r, st.Formed Q) :
    ∀ {arms : List (Condition × List Node)} {i k k' : Nat} {first : Bool}
      {r : List (Expr × List Stmt) × Option (List Stmt)},
    (∀ q ∈ Node.armPatterns arms, Q q) →
    chain env s i first p last otherwise arms k = .ok (r, k') →
    ∀ st, st ∈ withinArms r.1 ∨ st ∈ withinOtherwise r.2 → st.Formed Q
  | [], _, _, _, _, _, _, h, st, hst => by
    obtain ⟨-, -, stmts, hs, rfl⟩ | ⟨-, rfl, -⟩ := chain_nil_ok.mp h
    · exact ho hs st (hst.resolve_left (by simp [withinArms]))
    · simp [withinArms, withinOtherwise] at hst
  | (.holds e, nodes) :: arms, _, _, _, _, _, hq, h, st, hst => by
    obtain ⟨e', body', k₁, arms', stmts, -, -, hb, hr, rfl⟩ := chain_holds_ok.mp h
    simp only [Node.armPatterns, List.mem_append] at hq
    rw [withinArms, List.mem_append, or_assoc] at hst
    exact hst.elim (body_formed (fun q hm => hq q (.inl hm)) hb st)
      (chain_formed ho (fun q hm => hq q (.inr hm)) hr st)
  | (.matches pattern e, nodes) :: arms, _, _, _, _, _, hq, h, st, hst => by
    obtain ⟨i', e', inner, renamed, k₁, case, body', k₂, -, -, hbind, -, hcase, -, hb, h⟩ :=
      chain_matches_ok.mp h
    simp only [Node.armPatterns, List.mem_cons, List.mem_append] at hq
    have hcode := isCodeOf_of_bind hbind hcase
    have hbody := body_formed (fun q hm => hq q (.inr (.inl hm))) hb
    obtain ⟨-, rfl, -⟩ | ⟨hmore, arms', stmts, hrest, rfl⟩ := h
    · simp only [withinArms, withinOtherwise, withinAll, within, withinCases, List.append_nil,
        List.mem_cons, List.not_mem_nil, false_or] at hst
      rcases hst with rfl | hst
      · exact .select (formedCases_single (hq _ (.inl rfl)) hcode)
      · exact hbody st hst
    · simp only [withinArms, withinOtherwise, withinAll, within, withinCases, List.append_nil,
        List.mem_cons, List.mem_append, List.not_mem_nil, false_or] at hst
      rcases hst with rfl | hst | hst
      · have hnot : ¬ IsFinal (case, (none : Option Expr), body') := fun hfinal =>
          hmore (.inr (by rw [← Pattern.isCatchAll_resolve hcase]; exact hfinal.2))
        refine .select (.cons (hq _ (.inl rfl)) hcode hnot ⟨fun c hc => ?_, fun c hc => ?_⟩)
        · obtain rfl := List.mem_singleton.mp hc
          exact .inr rfl
        · cases hc
      · exact hbody st hst
      · rcases mem_withinAll_branchOf hst with rfl | hst
        · exact .branch
        · exact chain_formed ho (fun q hm => hq q (.inr (.inr hm))) hrest st hst

theorem cases_formed : ∀ {arms : List (Pattern × Option Expr × List Node)} {s : Scope}
    {i p k k' : Nat} {r : List (Pattern × Option Expr × List Stmt)},
    (∀ q ∈ Node.casePatterns arms, Q q) → cases env s i p arms k = .ok (r, k') →
    FormedCases Q p r ∧ ∀ st ∈ withinCases r, st.Formed Q
  | [], _, _, _, _, _, _, _, h => by
    obtain ⟨rfl, -⟩ := cases_nil_ok.mp h
    exact ⟨⟨by simp, by simp⟩, by simp [withinCases]⟩
  | (pattern, guard, nodes) :: arms, _, _, _, _, _, _, hq, h => by
    obtain ⟨inner, renamed, k₁, case, guard', body', k₂, hbind, hcase, hg, -, hb, h⟩ :=
      cases_cons_ok.mp h
    simp only [Node.casePatterns, List.mem_cons, List.mem_append] at hq
    have hcode := isCodeOf_of_bind hbind hcase
    have hbody := body_formed (fun q hm => hq q (.inr (.inl hm))) hb
    obtain ⟨-, rfl, -⟩ | ⟨hmore, rest, hrest, rfl⟩ := h
    · refine ⟨formedCases_single (hq _ (.inl rfl)) hcode, ?_⟩
      rwa [withinCases, withinCases, List.append_nil]
    · obtain ⟨hcases, hwithin⟩ := cases_formed (fun q hm => hq q (.inr (.inr hm))) hrest
      have hnot : ¬ IsFinal (case, guard', body') := by
        rintro ⟨rfl, hcatch⟩
        refine hmore ⟨?_, by rw [← Pattern.isCatchAll_resolve hcase]; exact hcatch⟩
        cases Except.option_mapM_ok.mp hg
        rfl
      refine ⟨hcases.cons (hq _ (.inl rfl)) hcode hnot, fun st hst => ?_⟩
      rw [withinCases, List.mem_append] at hst
      exact hst.elim (hbody st) (hwithin st)

theorem arguments_formed : ∀ {args : List (Expr ⊕ List Node)} {s : Scope} {i p k k' : Nat}
    {defs : List Stmt} {ops : List Operand}, (∀ q ∈ Node.argumentPatterns args, Q q) →
    arguments env s i p args k = .ok ((defs, ops), k') → ∀ st ∈ withinAll defs, st.Formed Q
  | [], _, _, _, _, _, _, _, _, h, st, hst => by
    obtain ⟨hr, -⟩ := arguments_nil_ok.mp h
    cases hr
    cases hst
  | .inl e :: args, _, _, _, _, _, _, _, hq, h, st, hst => by
    obtain ⟨e', defs', args', -, ha, hr⟩ := arguments_value_ok.mp h
    cases hr
    rw [Node.argumentPatterns] at hq
    exact arguments_formed hq ha st hst
  | .inr nodes :: args, _, _, _, _, _, _, _, hq, h, st, hst => by
    obtain ⟨body', k₁, defs', args', -, hb, ha, hr⟩ := arguments_block_ok.mp h
    cases hr
    simp only [Node.argumentPatterns, List.mem_append] at hq
    rw [withinAll, within, List.cons_append, List.mem_cons, List.mem_append] at hst
    rcases hst with rfl | hst | hst
    · exact .define
    · exact body_formed (fun q hm => hq q (.inl hm)) hb st hst
    · exact arguments_formed (fun q hm => hq q (.inr hm)) ha st hst

theorem contents_formed : ∀ {blocks : List (List Node)} {s : Scope} {i p k k' : Nat}
    {defs : List Stmt} {ops : List Operand}, (∀ q ∈ Node.blockPatterns blocks, Q q) →
    contents env s i p blocks k = .ok ((defs, ops), k') → ∀ st ∈ withinAll defs, st.Formed Q
  | [], _, _, _, _, _, _, _, _, h, st, hst => by
    obtain ⟨hr, -⟩ := contents_nil_ok.mp h
    cases hr
    cases hst
  | nodes :: blocks, _, _, _, _, _, _, _, hq, h, st, hst => by
    obtain ⟨body', k₁, defs', args', -, hb, hd, hr⟩ := contents_cons_ok.mp h
    cases hr
    simp only [Node.blockPatterns, List.mem_append] at hq
    rw [withinAll, within, List.cons_append, List.mem_cons, List.mem_append] at hst
    rcases hst with rfl | hst | hst
    · exact .define
    · exact body_formed (fun q hm => hq q (.inl hm)) hb st hst
    · exact contents_formed (fun q hm => hq q (.inr hm)) hd st hst

end

end Gen

/-- **The statements of a template are formed**, from the patterns of its body. -/
theorem Template.formed {context : Context} {t : Template} {stmts : List Stmt}
    {Q : Pattern → Prop} (h : t.stmts context = .ok stmts)
    (hq : ∀ q ∈ Node.patternsAll t.body, Q q) : ∀ st ∈ Stmt.withinAll stmts, st.Formed Q := by
  obtain ⟨k, hb⟩ := Template.stmts_ok.mp h
  exact Gen.body_formed hq hb

end Stencil
