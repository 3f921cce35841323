import Mathlib.Order.Nat
import Stencil.Code.Module
import Stencil.Proofs.Result
import Stencil.Template.Parser

/-!
# What a successful generation has done

Each function of `Gen` gets one lemma for each form of its input. The lemmas say which parts were
generated, with which number of fresh names before and after, and what was put together from them.

* `Gen.bind_ok`, `Gen.lift_ok`, `Gen.fresh_ok`: steps of generation.
* `Gen.body_cons_ok`, `Gen.node_loop_ok`, `Gen.chain_matches_ok`, ...: the constructs.
* `Template.parse_ok`, `Template.stmts_ok`, `Template.module_ok`: whole templates.
* `Template.generates`: a given text is a template that generates.
-/

namespace Stencil

namespace Gen

/-! ## Steps -/

section Steps

variable {α β : Type} {k k' : Nat}

@[simp] theorem bind_ok {x : Gen α} {f : α → Gen β} {r : β × Nat} :
    (x >>= f) k = .ok r ↔ ∃ a k₁, x k = .ok (a, k₁) ∧ f a k₁ = .ok r := by
  simp only [Bind.bind, StateT.bind, Except.bind]
  constructor
  · intro h
    split at h
    · cases h
    · exact ⟨_, _, ‹_›, h⟩
  · rintro ⟨a, k₁, hx, hf⟩
    rw [hx]
    exact hf

@[simp] theorem pure_ok {a : α} {r : α × Nat} : (pure a : Gen α) k = .ok r ↔ r = (a, k) := by
  show (Except.ok (a, k) : Except Failure (α × Nat)) = .ok r ↔ _
  rw [Except.ok.injEq]
  exact eq_comm

@[simp] theorem lift_ok {x : Except Failure α} {a : α} :
    lift x k = .ok (a, k') ↔ x = .ok a ∧ k = k' := by
  unfold lift
  cases x <;> simp [Except.map]

@[simp] theorem fresh_ok {kind : String} {r : String × Nat} :
    fresh kind k = .ok r ↔ r = (freshName kind (k + 1), k + 1) := by
  unfold fresh
  simp [eq_comm]

@[simp] theorem deeper_ok {indent p i : Nat} :
    deeper indent p = .ok i ↔ indent < maxIndent ∧ i = indent + 1 := by
  unfold deeper
  split
  · simp_all [eq_comm]
  · simp only [reduceCtorEq, false_iff]
    omega

/-- A pattern is bound after fresh names were given to what it hides. -/
theorem bind_pattern_ok {s : Scope} {p : Pattern} {r : (Scope × Scope) × Nat} :
    bind s p k = .ok r ↔
      ∃ renamed, renamings s p.names [] k = .ok (renamed, r.2) ∧
        r.1 = (s.extend renamed p.names, renamed) := by
  unfold bind
  obtain ⟨⟨inner, renamed⟩, k'⟩ := r
  simp only [bind_ok, pure_ok, Prod.mk.injEq]
  constructor
  · rintro ⟨renamed, _, h, ⟨rfl, rfl⟩, rfl⟩
    exact ⟨_, h, rfl, rfl⟩
  · rintro ⟨_, h, rfl, rfl⟩
    exact ⟨_, _, h, ⟨rfl, rfl⟩, rfl⟩

end Steps

/-! ## Fresh names -/

/-- The part of a text after the last `_` is not changed by what stands before it. -/
theorem eq_of_append_underscore {a a' d d' : List Char} (hd : '_' ∉ d) (hd' : '_' ∉ d')
    (h : a ++ '_' :: d = a' ++ '_' :: d') : d = d' := by
  have hr : ∀ {b e : List Char}, '_' ∉ e →
      ((b ++ '_' :: e).reverse.takeWhile (· != '_')).reverse = e := by
    intro b e he
    have hp : ∀ c ∈ e.reverse, (c != '_') = true := by
      intro c hc
      rw [bne_iff_ne]
      rintro rfl
      exact he (List.mem_reverse.mp hc)
    rw [List.reverse_append, List.reverse_cons, List.append_assoc,
      List.takeWhile_append_of_pos hp]
    simp
  rw [← hr hd, h, hr hd']

theorem toList_freshName (kind : String) (n : Nat) :
    (freshName kind n).toList = ("_tplc_" ++ kind).toList ++ '_' :: Nat.toDigits 10 n := by
  unfold freshName
  rw [String.toList_append, String.toList_append]
  simp

/-- **Fresh names with different numbers are different**, whatever their kinds. -/
theorem freshName_inj {kind kind' : String} {n n' : Nat}
    (h : freshName kind n = freshName kind' n') : n = n' := by
  have h := congrArg String.toList h
  rw [toList_freshName, toList_freshName] at h
  have hd := eq_of_append_underscore Nat.underscore_not_in_toDigits
    Nat.underscore_not_in_toDigits h
  rw [← Nat.ofDigitChars_ten_toDigits (n := n), hd, Nat.ofDigitChars_ten_toDigits]

section Constructs

variable {env : Env} {s : Scope} {indent position p k k' : Nat} {pending : String}
variable {n : Node} {ns nodes : List Node} {stmts : List Stmt}

-- the equations of the constructs are made here, once for all the lemmas below
attribute [local simp] alternative body node chain cases arguments contents

/-! ## Bodies -/

theorem alternative_none_ok :
    alternative env s indent p none k = .ok (stmts, k') ↔ stmts = [] ∧ k' = k := by
  simp

theorem alternative_some :
    alternative env s indent p (some nodes) = body env s indent p "" nodes := by
  simp

theorem body_nil_ok : body env s indent position pending [] k = .ok (stmts, k') ↔
    stmts = flush position pending ∧ k' = k := by
  simp

theorem body_cons_plain {text : String} (h : n.plain? = some text) :
    body env s indent position pending (n :: ns) =
      body env s indent position (pending ++ text) ns := by
  simp [h]

theorem body_cons_ok (h : n.plain? = none) :
    body env s indent position pending (n :: ns) k = .ok (stmts, k') ↔
      ∃ a k₁ b, node env s indent n k = .ok (a, k₁) ∧
        body env s indent position "" ns k₁ = .ok (b, k') ∧
        stmts = flush position pending ++ a ++ b := by
  simp only [body, h, bind_ok, pure_ok, Prod.mk.injEq]
  grind

/-! ## Nodes -/

theorem node_value_ok {e : Expr} {raw : Bool} :
    node env s indent (.value p e raw) k = .ok (stmts, k') ↔
      ∃ e', e.resolve (env.resolution s) = .ok e' ∧ stmts = [.interpolate p raw e'] ∧ k' = k := by
  simp only [node, bind_ok, lift_ok, pure_ok, Prod.mk.injEq]
  grind

theorem node_branch_ok {arms : List (Condition × List Node)} {otherwise : Option (List Node)} :
    node env s indent (.branch p arms otherwise) k = .ok (stmts, k') ↔
      ∃ r, chain env s indent true p otherwise.isSome (alternative env s · p otherwise) arms k =
        .ok (r, k') ∧ stmts = branchOf p r := by
  simp only [node, bind_ok, pure_ok, Prod.mk.injEq]
  grind

/-- A loop whose pattern every fitting item matches is a plain loop. -/
theorem node_loop_plain_ok {pattern : Pattern} {iterable : Expr}
    (h : pattern.simplify.isIrrefutable) :
    node env s indent (.loop p pattern iterable nodes) k = .ok (stmts, k') ↔
      ∃ iterable' inner renamed k₁ target body',
        iterable.resolve (env.resolution s) = .ok iterable' ∧
        bind s pattern.simplify k = .ok ((inner, renamed), k₁) ∧
        pattern.simplify.resolve renamed.rename = .ok target ∧
        indent < maxIndent ∧
        body env inner (indent + 1) p "" nodes k₁ = .ok (body', k') ∧
        stmts = [.loop p target iterable' body'] := by
  simp only [node, bind_ok, lift_ok, pure_ok, deeper_ok, h, if_true, Prod.mk.injEq, Prod.exists]
  grind

/-- Any other loop goes through helper items and skips those that do not match. -/
theorem node_loop_skipping_ok {pattern : Pattern} {iterable : Expr}
    (h : ¬ pattern.simplify.isIrrefutable) :
    node env s indent (.loop p pattern iterable nodes) k = .ok (stmts, k') ↔
      ∃ iterable' inner renamed k₁ case body',
        iterable.resolve (env.resolution s) = .ok iterable' ∧
        bind s pattern.simplify k = .ok ((inner, renamed), k₁) ∧
        pattern.simplify.resolve renamed.rename = .ok case ∧
        indent + 2 < maxIndent ∧
        body env inner (indent + 3) p "" nodes (k₁ + 1) = .ok (body', k') ∧
        stmts = [.loop p (.binding p (freshName "item" (k₁ + 1))) iterable'
          [.select p (.made (freshName "item" (k₁ + 1))) [(case, none, body')]]] := by
  simp only [node, bind_ok, lift_ok, pure_ok, deeper_ok, fresh_ok, h, if_false, Prod.mk.injEq,
    Prod.exists, Bool.false_eq_true]
  constructor
  · rintro ⟨e, _, ⟨he, rfl⟩, inner, renamed, k₁, hb, _, _, ⟨rfl, rfl⟩, _, _, ⟨⟨_, rfl⟩, rfl⟩, _, _,
      ⟨⟨_, rfl⟩, rfl⟩, case, _, ⟨hc, rfl⟩, _, _, ⟨⟨hi, rfl⟩, rfl⟩, body', _, hbody, rfl, rfl⟩
    exact ⟨e, inner, renamed, k₁, case, body', he, hb, hc, hi, hbody, rfl⟩
  · rintro ⟨e, inner, renamed, k₁, case, body', he, hb, hc, hi, hbody, rfl⟩
    exact ⟨e, _, ⟨he, rfl⟩, inner, renamed, k₁, hb, _, _, ⟨rfl, rfl⟩, _, _, ⟨⟨by omega, rfl⟩, rfl⟩,
      _, _, ⟨⟨by omega, rfl⟩, rfl⟩, case, _, ⟨hc, rfl⟩, _, _, ⟨⟨hi, rfl⟩, rfl⟩, body', _, hbody,
      rfl, rfl⟩

theorem node_cases_nil_ok {subject : Expr} :
    node env s indent (.cases p subject []) k = .ok (stmts, k') ↔
      ∃ subject', subject.resolve (env.resolution s) = .ok subject' ∧
        stmts = [.evaluate p subject'] ∧ k' = k := by
  simp only [node, bind_ok, lift_ok, pure_ok, List.isEmpty_nil, if_true, Prod.mk.injEq]
  grind

theorem node_cases_ok {subject : Expr} {arms : List (Pattern × Option Expr × List Node)}
    (h : arms ≠ []) :
    node env s indent (.cases p subject arms) k = .ok (stmts, k') ↔
      ∃ subject' cases', subject.resolve (env.resolution s) = .ok subject' ∧
        indent < maxIndent ∧ cases env s (indent + 1) p arms k = .ok (cases', k') ∧
        stmts = [.select p (.value subject') cases'] := by
  have he : ¬ arms.isEmpty := by simpa using h
  simp only [node, bind_ok, lift_ok, pure_ok, deeper_ok, he, if_false, Prod.mk.injEq,
    Bool.false_eq_true]
  grind

theorem node_call_ok {path : List String} {args : List (Expr ⊕ List Node)}
    {blocks : List (List Node)} :
    node env s indent (.call p path args blocks) k = .ok (stmts, k') ↔
      ∃ defs args' k₁ defs' contents',
        arguments env s indent p args k = .ok ((defs, args'), k₁) ∧
        contents env s indent p blocks k₁ = .ok ((defs', contents'), k') ∧
        stmts = defs ++ defs' ++
          [.call p (env.context.target env.self s path) (args' ++ contents')] := by
  simp only [node, bind_ok, pure_ok, Prod.mk.injEq, Prod.exists]
  grind

/-! ## Branches -/

section Branches

variable {first last : Bool} {otherwise : Nat → Gen (List Stmt)}
variable {arms : List (Condition × List Node)} {r : List (Expr × List Stmt) × Option (List Stmt)}

theorem chain_nil_ok : chain env s indent first p last otherwise [] k = .ok (r, k') ↔
    (last = true ∧ (first = true ∨ indent < maxIndent) ∧
      ∃ stmts, otherwise (if first then indent else indent + 1) k = .ok (stmts, k') ∧
        r = ([], some stmts)) ∨
    (last = false ∧ r = ([], none) ∧ k' = k) := by
  cases last with
  | false => simp [chain]
  | true =>
    cases first with
    | true =>
      simp only [chain, if_true, bind_ok, lift_ok, pure_ok, Except.ok.injEq, Prod.mk.injEq]
      grind
    | false =>
      simp only [chain, if_true, bind_ok, lift_ok, pure_ok, deeper_ok, Prod.mk.injEq,
        Bool.false_eq_true, if_false]
      grind

theorem chain_holds_ok {e : Expr} :
    chain env s indent first p last otherwise ((.holds e, nodes) :: arms) k = .ok (r, k') ↔
      ∃ e' body' k₁ arms' stmts, e.resolve (env.resolution s) = .ok e' ∧ indent < maxIndent ∧
        body env s (indent + 1) p "" nodes k = .ok (body', k₁) ∧
        chain env s indent false p last otherwise arms k₁ = .ok ((arms', stmts), k') ∧
        r = ((e', body') :: arms', stmts) := by
  simp only [chain, bind_ok, lift_ok, pure_ok, deeper_ok, Prod.mk.injEq, Prod.exists]
  grind

/-- An arm with a pattern ends the arms: what comes after it stands in its last case, unless there
is nothing or every value matches. -/
theorem chain_matches_ok {pattern : Pattern} {e : Expr} :
    chain env s indent first p last otherwise ((.matches pattern e, nodes) :: arms) k =
        .ok (r, k') ↔
      ∃ i e' inner renamed k₁ case body' k₂, i = (if first then indent else indent + 1) ∧
        (first = true ∨ indent < maxIndent) ∧
        bind s pattern.simplify k = .ok ((inner, renamed), k₁) ∧
        e.resolve (env.resolution s) = .ok e' ∧
        pattern.simplify.resolve renamed.rename = .ok case ∧ i + 1 < maxIndent ∧
        body env inner (i + 2) p "" nodes k₁ = .ok (body', k₂) ∧
        (((arms = [] ∧ last = false) ∨ pattern.simplify.isCatchAll) ∧
            r = ([], some [.select p (.value e') [(case, none, body')]]) ∧ k' = k₂ ∨
          ¬ ((arms = [] ∧ last = false) ∨ pattern.simplify.isCatchAll) ∧
            ∃ arms' stmts', chain env s (i + 2) true p last otherwise arms k₂ =
                .ok ((arms', stmts'), k') ∧
              r = ([], some [.select p (.value e')
                [(case, none, body'), (.wildcard p, none, branchOf p (arms', stmts'))]])) := by
  have hd : ∀ i k', lift (if first then .ok indent else deeper indent p) k = .ok (i, k') ↔
      (first = true ∨ indent < maxIndent) ∧ (if first then indent else indent + 1) = i ∧ k = k' := by
    intro i k'
    cases first with
    | true => simp only [if_true, lift_ok, Except.ok.injEq, true_or, true_and]
    | false =>
      simp only [Bool.false_eq_true, if_false, lift_ok, deeper_ok]
      grind
  have hc : ((arms.isEmpty && !last) || pattern.simplify.isCatchAll) = true ↔
      (arms = [] ∧ last = false) ∨ pattern.simplify.isCatchAll = true := by
    simp
  simp only [chain, bind_ok, hd, lift_ok, deeper_ok, Prod.exists]
  constructor
  · rintro ⟨i, _, ⟨hi, rfl, rfl⟩, inner, renamed, k₁, hb, e', _, ⟨he, rfl⟩, _, _, ⟨⟨_, rfl⟩, rfl⟩,
      case, _, ⟨hcase, rfl⟩, _, _, ⟨⟨hi', rfl⟩, rfl⟩, body', k₂, hbody, h⟩
    refine ⟨_, e', inner, renamed, k₁, case, body', k₂, rfl, hi, hb, he, hcase, hi', hbody, ?_⟩
    split at h
    · simp only [pure_ok, Prod.mk.injEq] at h
      exact .inl ⟨hc.mp ‹_›, h⟩
    · simp only [bind_ok, pure_ok, Prod.mk.injEq] at h
      obtain ⟨⟨arms', stmts'⟩, _, hmore, rfl, rfl⟩ := h
      exact .inr ⟨fun hn => ‹¬ _› (hc.mpr hn), arms', stmts', hmore, rfl⟩
  · rintro ⟨i, e', inner, renamed, k₁, case, body', k₂, rfl, hi, hb, he, hcase, hi', hbody, h⟩
    refine ⟨_, _, ⟨hi, rfl, rfl⟩, inner, renamed, k₁, hb, e', _, ⟨he, rfl⟩, _, _,
      ⟨⟨by omega, rfl⟩, rfl⟩, case, _, ⟨hcase, rfl⟩, _, _, ⟨⟨hi', rfl⟩, rfl⟩, body', k₂, hbody, ?_⟩
    obtain ⟨hn, rfl, rfl⟩ | ⟨hn, arms', stmts', hmore, rfl⟩ := h
    · rw [if_pos (hc.mpr hn)]
      simp
    · rw [if_neg (fun h => hn (hc.mp h))]
      simp only [bind_ok, pure_ok, Prod.mk.injEq]
      exact ⟨(arms', stmts'), _, hmore, ⟨trivial, rfl⟩, rfl⟩

end Branches

/-! ## Cases and arguments -/

theorem cases_nil_ok {r : List (Pattern × Option Expr × List Stmt)} :
    cases env s indent p [] k = .ok (r, k') ↔ r = [] ∧ k' = k := by
  simp [cases]

/-- The cases after one that every value takes are left out. -/
theorem cases_cons_ok {pattern : Pattern} {guard : Option Expr}
    {arms : List (Pattern × Option Expr × List Node)}
    {r : List (Pattern × Option Expr × List Stmt)} :
    cases env s indent p ((pattern, guard, nodes) :: arms) k = .ok (r, k') ↔
      ∃ inner renamed k₁ case guard' body' k₂,
        bind s pattern.simplify k = .ok ((inner, renamed), k₁) ∧
        pattern.simplify.resolve renamed.rename = .ok case ∧
        guard.mapM (·.resolve (env.resolution inner)) = .ok guard' ∧ indent < maxIndent ∧
        body env inner (indent + 1) p "" nodes k₁ = .ok (body', k₂) ∧
        ((guard = none ∧ pattern.simplify.isCatchAll) ∧ r = [(case, guard', body')] ∧ k' = k₂ ∨
          ¬ (guard = none ∧ pattern.simplify.isCatchAll) ∧
            ∃ rest, cases env s indent p arms k₂ = .ok (rest, k') ∧
              r = (case, guard', body') :: rest) := by
  have hc : (guard.isNone && pattern.simplify.isCatchAll) = true ↔
      guard = none ∧ pattern.simplify.isCatchAll = true := by
    simp
  simp only [cases, bind_ok, lift_ok, deeper_ok, Prod.exists]
  constructor
  · rintro ⟨inner, renamed, k₁, hb, case, _, ⟨hcase, rfl⟩, guard', _, ⟨hg, rfl⟩, _, _,
      ⟨⟨hi, rfl⟩, rfl⟩, body', k₂, hbody, h⟩
    refine ⟨inner, renamed, k₁, case, guard', body', k₂, hb, hcase, hg, hi, hbody, ?_⟩
    split at h
    · simp only [pure_ok, Prod.mk.injEq] at h
      exact .inl ⟨hc.mp ‹_›, h⟩
    · simp only [bind_ok, pure_ok, Prod.mk.injEq] at h
      obtain ⟨rest, _, hrest, rfl, rfl⟩ := h
      exact .inr ⟨fun hn => ‹¬ _› (hc.mpr hn), rest, hrest, rfl⟩
  · rintro ⟨inner, renamed, k₁, case, guard', body', k₂, hb, hcase, hg, hi, hbody, h⟩
    refine ⟨inner, renamed, k₁, hb, case, _, ⟨hcase, rfl⟩, guard', _, ⟨hg, rfl⟩, _, _,
      ⟨⟨hi, rfl⟩, rfl⟩, body', k₂, hbody, ?_⟩
    obtain ⟨hn, rfl, rfl⟩ | ⟨hn, rest, hrest, rfl⟩ := h
    · rw [if_pos (hc.mpr hn)]
      simp
    · rw [if_neg (fun h => hn (hc.mp h))]
      simp only [bind_ok, pure_ok, Prod.mk.injEq]
      exact ⟨rest, _, hrest, rfl, rfl⟩

section Arguments

variable {args : List (Expr ⊕ List Node)} {blocks : List (List Node)}
variable {r : List Stmt × List Operand}

theorem arguments_nil_ok :
    arguments env s indent p [] k = .ok (r, k') ↔ r = ([], []) ∧ k' = k := by
  simp [arguments]

theorem arguments_value_ok {e : Expr} :
    arguments env s indent p (.inl e :: args) k = .ok (r, k') ↔
      ∃ e' defs args', e.resolve (env.resolution s) = .ok e' ∧
        arguments env s indent p args k = .ok ((defs, args'), k') ∧
        r = (defs, .value e' :: args') := by
  simp only [arguments, bind_ok, lift_ok, pure_ok, Prod.mk.injEq, Prod.exists]
  grind

theorem arguments_block_ok :
    arguments env s indent p (.inr nodes :: args) k = .ok (r, k') ↔
      ∃ body' k₁ defs args', indent < maxIndent ∧
        body env s (indent + 1) p "" nodes (k + 1) = .ok (body', k₁) ∧
        arguments env s indent p args k₁ = .ok ((defs, args'), k') ∧
        r = (.define p (freshName "content" (k + 1)) body' :: defs,
          .made (freshName "content" (k + 1)) :: args') := by
  simp only [arguments, bind_ok, fresh_ok, lift_ok, pure_ok, deeper_ok, Prod.mk.injEq,
    Prod.exists]
  grind

theorem contents_nil_ok :
    contents env s indent p [] k = .ok (r, k') ↔ r = ([], []) ∧ k' = k := by
  simp [contents]

theorem contents_cons_ok :
    contents env s indent p (nodes :: blocks) k = .ok (r, k') ↔
      ∃ body' k₁ defs args', indent < maxIndent ∧
        body env s (indent + 1) p "" nodes (k + 1) = .ok (body', k₁) ∧
        contents env s indent p blocks k₁ = .ok ((defs, args'), k') ∧
        r = (.define p (freshName "content" (k + 1)) body' :: defs,
          .made (freshName "content" (k + 1)) :: args') := by
  simp only [contents, bind_ok, fresh_ok, lift_ok, pure_ok, deeper_ok, Prod.mk.injEq,
    Prod.exists]
  grind

end Arguments

end Constructs

/-! ## The number of fresh names grows -/

theorem renamings_le {s : Scope} : ∀ {ns : List String} {renamed r : Scope} {k k' : Nat},
    renamings s ns renamed k = .ok (r, k') → k ≤ k'
  | [], _, _, _, _, h => by
    simp only [renamings, pure_ok, Prod.mk.injEq] at h
    omega
  | n :: ns, renamed, r, k, k', h => by
    rw [renamings] at h
    split at h
    · simp only [bind_ok, fresh_ok, Prod.mk.injEq] at h
      obtain ⟨_, _, ⟨rfl, rfl⟩, h⟩ := h
      exact Nat.le_of_succ_le (renamings_le h)
    · exact renamings_le h

theorem bind_le {s : Scope} {p : Pattern} {r : Scope × Scope} {k k' : Nat}
    (h : bind s p k = .ok (r, k')) : k ≤ k' := by
  obtain ⟨renamed, h, -⟩ := bind_pattern_ok.mp h
  exact renamings_le h

section Counter

variable {env : Env}

mutual

/-- **Generation never takes a number back.** -/
theorem body_le : ∀ {ns : List Node} {s : Scope} {i p k k' : Nat} {pending : String}
    {r : List Stmt}, body env s i p pending ns k = .ok (r, k') → k ≤ k'
  | [], _, _, _, _, _, _, _, h => (body_nil_ok.mp h).2.ge
  | n :: ns, _, _, _, _, _, _, _, h => by
    cases hp : n.plain? with
    | some text =>
      rw [body_cons_plain hp] at h
      exact body_le h
    | none =>
      obtain ⟨a, k₁, b, ha, hb, -⟩ := (body_cons_ok hp).mp h
      exact (node_le ha).trans (body_le hb)

theorem node_le : ∀ {n : Node} {s : Scope} {i k k' : Nat} {r : List Stmt},
    node env s i n k = .ok (r, k') → k ≤ k'
  | .text _ _, _, _, _, _, _, h => by
    simp only [node, pure_ok, Prod.mk.injEq] at h
    omega
  | .comment _ _, _, _, _, _, _, h => by
    simp only [node, pure_ok, Prod.mk.injEq] at h
    omega
  | .value p e raw, _, _, _, _, _, h => by
    obtain ⟨_, -, -, rfl⟩ := node_value_ok.mp h
    exact le_rfl
  | .branch p arms otherwise, _, _, _, _, _, h => by
    obtain ⟨_, hc, -⟩ := node_branch_ok.mp h
    exact chain_le (fun h => alternative_le h) hc
  | .loop p pattern iterable nodes, _, _, _, _, _, h => by
    by_cases hp : pattern.simplify.isIrrefutable
    · obtain ⟨_, _, _, k₁, _, _, -, hb, -, -, hn, -⟩ := (node_loop_plain_ok hp).mp h
      exact (bind_le hb).trans (body_le hn)
    · obtain ⟨_, _, _, k₁, _, _, -, hb, -, -, hn, -⟩ := (node_loop_skipping_ok hp).mp h
      exact (bind_le hb).trans (Nat.le_of_succ_le (body_le hn))
  | .cases p subject [], _, _, _, _, _, h => by
    obtain ⟨_, -, -, rfl⟩ := node_cases_nil_ok.mp h
    exact le_rfl
  | .cases p subject (arm :: arms), _, _, _, _, _, h => by
    obtain ⟨_, _, -, -, hc, -⟩ := (node_cases_ok (List.cons_ne_nil _ _)).mp h
    exact cases_le hc
  | .call p path args blocks, _, _, _, _, _, h => by
    obtain ⟨_, _, k₁, _, _, ha, hc, -⟩ := node_call_ok.mp h
    exact (arguments_le ha).trans (contents_le hc)

theorem alternative_le : ∀ {o : Option (List Node)} {s : Scope} {i p k k' : Nat} {r : List Stmt},
    alternative env s i p o k = .ok (r, k') → k ≤ k'
  | none, _, _, _, _, _, _, h => (alternative_none_ok.mp h).2.ge
  | some _, _, _, _, _, _, _, h => by
    rw [alternative_some] at h
    exact body_le h

theorem chain_le {p : Nat} {last : Bool} {otherwise : Nat → Gen (List Stmt)}
    (ho : ∀ {i k k' r}, otherwise i k = .ok (r, k') → k ≤ k') :
    ∀ {arms : List (Condition × List Node)} {s : Scope} {i k k' : Nat} {first : Bool}
      {r : List (Expr × List Stmt) × Option (List Stmt)},
    chain env s i first p last otherwise arms k = .ok (r, k') → k ≤ k'
  | [], _, _, _, _, _, _, h => by
    obtain ⟨-, -, _, h, -⟩ | ⟨-, -, rfl⟩ := chain_nil_ok.mp h
    · exact ho h
    · exact le_rfl
  | (.holds e, nodes) :: arms, _, _, _, _, _, _, h => by
    obtain ⟨_, _, k₁, _, _, -, -, hb, hc, -⟩ := chain_holds_ok.mp h
    exact (body_le hb).trans (chain_le ho hc)
  | (.matches pattern e, nodes) :: arms, _, _, _, _, _, _, h => by
    obtain ⟨_, _, _, _, k₁, _, _, k₂, -, -, hb, -, -, -, hn, h⟩ := chain_matches_ok.mp h
    have hle := (bind_le hb).trans (body_le hn)
    obtain ⟨-, -, rfl⟩ | ⟨-, _, _, hc, -⟩ := h
    · exact hle
    · exact hle.trans (chain_le ho hc)

theorem cases_le : ∀ {arms : List (Pattern × Option Expr × List Node)} {s : Scope}
    {i p k k' : Nat} {r : List (Pattern × Option Expr × List Stmt)},
    cases env s i p arms k = .ok (r, k') → k ≤ k'
  | [], _, _, _, _, _, _, h => (cases_nil_ok.mp h).2.ge
  | (pattern, guard, nodes) :: arms, _, _, _, _, _, _, h => by
    obtain ⟨_, _, k₁, _, _, _, k₂, hb, -, -, -, hn, h⟩ := cases_cons_ok.mp h
    have hle := (bind_le hb).trans (body_le hn)
    obtain ⟨-, -, rfl⟩ | ⟨-, _, hc, -⟩ := h
    · exact hle
    · exact hle.trans (cases_le hc)

theorem arguments_le : ∀ {args : List (Expr ⊕ List Node)} {s : Scope} {i p k k' : Nat}
    {r : List Stmt × List Operand}, arguments env s i p args k = .ok (r, k') → k ≤ k'
  | [], _, _, _, _, _, _, h => (arguments_nil_ok.mp h).2.ge
  | .inl e :: args, _, _, _, _, _, _, h => by
    obtain ⟨_, _, _, -, ha, -⟩ := arguments_value_ok.mp h
    exact arguments_le ha
  | .inr nodes :: args, _, _, _, _, _, _, h => by
    obtain ⟨_, k₁, _, _, -, hn, ha, -⟩ := arguments_block_ok.mp h
    exact (Nat.le_of_succ_le (body_le hn)).trans (arguments_le ha)

theorem contents_le : ∀ {blocks : List (List Node)} {s : Scope} {i p k k' : Nat}
    {r : List Stmt × List Operand}, contents env s i p blocks k = .ok (r, k') → k ≤ k'
  | [], _, _, _, _, _, _, h => (contents_nil_ok.mp h).2.ge
  | nodes :: blocks, _, _, _, _, _, _, h => by
    obtain ⟨_, k₁, _, _, -, hn, hc, -⟩ := contents_cons_ok.mp h
    exact (Nat.le_of_succ_le (body_le hn)).trans (contents_le hc)

end

end Counter

end Gen

/-! ## Modules -/

namespace Template

variable {context : Context} {t : Template} {stmts : List Stmt}

/-- What a template is read from. -/
theorem parse_ok {name : TemplateName} {path : Path} {file : String} {text : List Char}
    (h : Template.parse name path file text = .ok t) :
    Outline.parse text = .ok t.toOutline ∧ t.toTemplateName = name := by
  rw [Template.parse, Except.bind_ok] at h
  obtain ⟨outline, ho, h⟩ := h
  cases h
  cases hparse : Outline.parse text with
  | error f => rw [hparse] at ho; cases ho
  | ok o =>
    rw [hparse] at ho
    cases ho
    exact ⟨rfl, rfl⟩

theorem stmts_ok : t.stmts context = .ok stmts ↔
    ∃ k, Gen.body ⟨t.toTemplateName, context⟩ (.ofParams t.params) 1 0 "" t.body 0 =
      .ok (stmts, k) := by
  rw [Template.stmts, Except.bind_ok]
  constructor
  · rintro ⟨⟨stmts', k⟩, hb, hs⟩
    cases Except.pure_ok.mp hs
    exact ⟨k, hb⟩
  · rintro ⟨k, hb⟩
    exact ⟨_, hb, rfl⟩

theorem compile_ok : t.compile stmts = .ok () ↔ Stmt.checkAll 0 stmts = .ok () :=
  Except.mapError_ok

theorem module_ok {code : String} : t.module? context = .ok code ↔
    ∃ stmts, t.stmts context = .ok stmts ∧ Stmt.checkAll 0 stmts = .ok () ∧
      code = t.moduleText stmts := by
  rw [module?, Except.bind_ok]
  simp only [Except.seq_ok, Except.pure_ok, compile_ok, @eq_comm _ _ code]

/-- Errors of a module are placed, and nothing else is changed. -/
theorem render_ok {code : String} :
    t.render context = .ok code ↔ t.module? context = .ok code := by
  unfold render
  cases t.module? context with
  | error f => simp [Source.lift]
  | ok c => simp [Source.lift]

/-- A text is a template that generates, and a check of it and its statements holds. -/
def generates (name : TemplateName) (text : List Char) (context : Context)
    (check : Template → List Stmt → Bool) : Bool :=
  (parse name .here "" text).toOption.any fun t => (t.stmts context).toOption.any fun stmts =>
    (Stmt.checkAll 0 stmts).toBool && check t stmts

theorem exists_of_generates (name : TemplateName) (text : List Char) (context : Context)
    (check : Template → List Stmt → Bool) (h : generates name text context check = true) :
    ∃ t stmts, parse name .here "" text = .ok t ∧ t.stmts context = .ok stmts ∧
      t.module? context = .ok (t.moduleText stmts) ∧ check t stmts = true := by
  unfold generates at h
  obtain ⟨t, hparse, h⟩ := Except.exists_of_any h
  obtain ⟨stmts, hstmts, h⟩ := Except.exists_of_any h
  rw [Bool.and_eq_true] at h
  obtain ⟨u, hc⟩ := Except.exists_ok h.1
  exact ⟨t, stmts, hparse, hstmts, module_ok.mpr ⟨stmts, hstmts, hc, rfl⟩, h.2⟩

end Template

end Stencil
