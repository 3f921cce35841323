import Stencil.Proofs.Depth
import Stencil.Proofs.Generation
import Stencil.Proofs.Run

/-!
# Generated lines do what the template says

Traces of the template and of its code are compared event by event: an expression in the code is
that of the template with its names resolved in some scope.

* `Simulates`: lines that do to a trace of the code what a function does to one of the template.
* `Continues`: lines that go on with branches of which none was taken, and do nothing if one was.
* `Gen.body_simulates`: the statements of a body do what the body does, by induction on the body.
* **`follows_trace_functionLines`**: the rendering function of a template has the trace of the template.
-/

namespace Stencil

/-! ## Events in template and code -/

/-- An argument of a call and what it is in the code: blocks are expressions on neither side. -/
def ResolvesTo (env : Env) (s : Scope) : Option Expr → Option Expr → Prop :=
  Option.Rel fun e e' => e.resolve (env.resolution s) = .ok e'

/-- **An event of the template and one of its code are the same** but for resolved names. -/
inductive Emits (env : Env) : Event (List String) → Event Target → Prop where
  | char (c : Char) : Emits env (.char c) (.char c)
  | interpolated {s : Scope} {e e' : Expr} (raw : Bool)
      (h : e.resolve (env.resolution s) = .ok e') :
      Emits env (.interpolated raw e) (.interpolated raw e')
  | condition {s : Scope} {e e' : Expr} (h : e.resolve (env.resolution s) = .ok e') :
      Emits env (.condition e) (.condition e')
  | guard {s : Scope} {e e' : Expr} (h : e.resolve (env.resolution s) = .ok e') :
      Emits env (.guard e) (.guard e')
  | subject {s : Scope} {e e' : Expr} (h : e.resolve (env.resolution s) = .ok e') :
      Emits env (.subject e) (.subject e')
  | items {s : Scope} {e e' : Expr} (h : e.resolve (env.resolution s) = .ok e') :
      Emits env (.items e) (.items e')
  | call {s : Scope} {path : List String} {args args' : List (Option Expr)}
      (h : List.Forall₂ (ResolvesTo env s) args args') :
      Emits env (.call path args) (.call (env.context.target env.self s path) args')

/-- The traces of a template and of its code are the same but for resolved names. -/
abbrev Follows (env : Env) : Trace (List String) → Trace Target → Prop :=
  List.Forall₂ (Emits env)

theorem Expr.position_resolve {r : Resolution} {e e' : Expr} (h : e.resolve r = .ok e') :
    e'.position = e.position := by
  cases e with
  | literal p v =>
    rw [Expr.resolve] at h
    split at h
    · cases h
      rfl
    · cases h
  | name p n =>
    rw [Expr.resolve] at h
    cases h
    rfl
  | path p parts =>
    simp only [Expr.resolve, Except.bind_ok] at h
    obtain ⟨code, -, h⟩ := h
    cases code <;> cases h <;> rfl
  | _ =>
    simp only [Expr.resolve, Except.bind_ok] at h
    grind [Expr.position, Except.pure_ok]

section Simulation

variable {α : Type} (O : Oracle α) (env : Env)

variable {env} in
theorem Follows.snoc {tr : Trace (List String)} {tr' : Trace Target} {ev : Event (List String)}
    {ev' : Event Target} (h : Follows env tr tr') (hev : Emits env ev ev') :
    Follows env (tr ++ [ev]) (tr' ++ [ev']) :=
  List.rel_append h (.cons hev .nil)

variable {env} in
theorem Follows.chars {tr : Trace (List String)} {tr' : Trace Target} (h : Follows env tr tr')
    (s : String) : Follows env (tr ++ s.toList.map .char) (tr' ++ s.toList.map .char) := by
  refine List.rel_append h ?_
  induction s.toList with
  | nil => exact .nil
  | cons c cs ih => exact .cons (.char c) ih

/-- **Lines do to a trace of the code what `f` does to one of the template.** -/
def Simulates (ts : List Tree) (f : Trace (List String) → Trace (List String)) : Prop :=
  ∀ (tr : Trace (List String)) (m : Machine α), Follows env tr m.trace →
    ∃ m', Tree.runAll O ts m = some m' ∧ Follows env (f tr) m'.trace

/-- **Lines go on with branches**: they do what `f` does if no arm was taken, and nothing else. -/
structure Continues (ts : List Tree) (f : Trace (List String) → Trace (List String)) : Prop where
  untaken : ∀ (tr : Trace (List String)) (m : Machine α), m.arms = .untaken →
    Follows env tr m.trace →
    ∃ m', Tree.runAll O ts m = some m' ∧ Follows env (f tr) m'.trace
  taken : ∀ m : Machine α, m.arms = .taken →
    ∃ m', Tree.runAll O ts m = some m' ∧ m'.trace = m.trace

/-- The cases of a selection do to a trace of the code what `f` does to one of the template. -/
def SimulatesCases (v : α) (ts : List Tree) (f : Trace (List String) → Trace (List String)) :
    Prop :=
  ∀ (tr : Trace (List String)) (m : Machine α), Follows env tr m.trace →
    ∃ m', Tree.runCases O v ts m = some m' ∧ Follows env (f tr) m'.trace

variable {O env}

theorem runAll_append (a b : List Tree) (m : Machine α) :
    Tree.runAll O (a ++ b) m = (Tree.runAll O a m).bind (Tree.runAll O b) := by
  induction a generalizing m with
  | nil => simp [Tree.runAll]
  | cons t a ih =>
    rw [List.cons_append, Tree.runAll, Tree.runAll]
    cases t.run O m with
    | none => rfl
    | some m' => exact ih m'

namespace Simulates

variable {ts ts' : List Tree} {f f' : Trace (List String) → Trace (List String)}

theorem nil : Simulates O env [] id := fun _ m h => ⟨m, by rw [Tree.runAll], h⟩

theorem append (h : Simulates O env ts f) (h' : Simulates O env ts' f') :
    Simulates O env (ts ++ ts') (f' ∘ f) := by
  intro tr m hm
  obtain ⟨m₁, hr, hm₁⟩ := h tr m hm
  obtain ⟨m₂, hr', hm₂⟩ := h' (f tr) m₁ hm₁
  exact ⟨m₂, by rw [runAll_append, hr, Option.bind_some, hr'], hm₂⟩

/-- A line by itself. -/
theorem single {t : Tree} (h : ∀ (tr : Trace (List String)) (m : Machine α),
    Follows env tr m.trace → ∃ m', t.run O m = some m' ∧ Follows env (f tr) m'.trace) :
    Simulates O env [t] f := by
  intro tr m hm
  obtain ⟨m', hr, hm'⟩ := h tr m hm
  refine ⟨m', ?_, hm'⟩
  rw [Tree.runAll, hr]
  simp [Tree.runAll]

/-- No text was pending. -/
theorem of_no_pending (h : Simulates O env ts fun tr => f (tr ++ "".toList.map .char)) :
    Simulates O env ts f := by
  simpa only [String.toList_empty, List.map_nil, List.append_nil] using h

theorem orPass (h : Simulates O env ts f) : Simulates O env (Stmt.orPassTrees ts) f := by
  unfold Stmt.orPassTrees
  split
  · rename_i he
    rw [List.isEmpty_iff] at he
    subst he
    refine single fun tr m hm => ⟨m.fresh, ?_, ?_⟩
    · simp [Tree.run, Head.opens]
    · obtain ⟨m', hr, hm'⟩ := h tr m hm
      rw [Tree.runAll] at hr
      cases hr
      exact hm'
  · exact h

end Simulates

@[simp] theorem isEmpty_orPassTrees (ts : List Tree) :
    (Stmt.orPassTrees ts).isEmpty = false := by
  unfold Stmt.orPassTrees
  split <;> simp_all

theorem orPassTrees_ne_nil (ts : List Tree) : Stmt.orPassTrees ts ≠ [] := by
  simp [← List.isEmpty_eq_false_iff]

@[simp] theorem Machine.trace_forget (m : Machine α) (names : List String) :
    (m.forget names).trace = m.trace := by
  unfold Machine.forget
  induction names generalizing m with
  | nil => rfl
  | cons n names ih => rw [List.foldl_cons, ih]; rfl

@[simp] theorem Machine.trace_bind (m : Machine α) (v : α) (target : Pattern) :
    (m.bind v target).trace = m.trace := by
  unfold Machine.bind
  split
  · rfl
  · exact m.trace_forget _

/-- Two folds keep a relation that each step keeps. -/
theorem foldlM_related {σ τ β : Type} {R : σ → τ → Prop} {f : σ → β → σ} {g : τ → β → Option τ} :
    ∀ {l : List β}, (∀ b ∈ l, ∀ s t, R s t → ∃ t', g t b = some t' ∧ R (f s b) t') →
      ∀ {s : σ} {t : τ}, R s t → ∃ t', l.foldlM g t = some t' ∧ R (l.foldl f s) t'
  | [], _, _, t, h => ⟨t, rfl, h⟩
  | b :: l, step, s, t, h => by
    obtain ⟨t₁, hg, h₁⟩ := step b List.mem_cons_self s t h
    obtain ⟨t₂, hr, h₂⟩ := foldlM_related (l := l)
      (fun c hc => step c (List.mem_cons_of_mem _ hc)) h₁
    exact ⟨t₂, by rw [List.foldlM_cons, hg]; exact hr, h₂⟩

/-! ## Single constructs -/

section Constructs

variable {s : Scope} {e e' : Expr} {ts rest : List Tree}
variable {f g : Trace (List String) → Trace (List String)}

theorem simulates_flush (p : Nat) (text : String) :
    Simulates O env (Stmt.treesAll (Gen.flush p text)) (· ++ text.toList.map .char) := by
  unfold Gen.flush
  split
  · subst text
    intro tr m hm
    exact ⟨m, by simp [Tree.runAll], by simpa using hm⟩
  · rw [Stmt.treesAll_cons, Stmt.treesAll_nil, List.append_nil, Stmt.trees]
    exact .single fun tr m hm => ⟨_, by simp [Tree.run, Head.opens]; rfl, hm.chars text⟩

theorem simulates_interpolate (raw : Bool) (h : e.resolve (env.resolution s) = .ok e') :
    Simulates O env [.node (.interpolate raw e') []] (· ++ [.interpolated raw e]) :=
  .single fun tr m hm =>
    ⟨_, by simp [Tree.run, Head.opens]; rfl, hm.snoc (.interpolated raw h)⟩

theorem simulates_evaluate (h : e.resolve (env.resolution s) = .ok e') :
    Simulates O env [.node (.evaluate e') []] (· ++ [.subject e]) :=
  .single fun tr m hm => ⟨_, by simp [Tree.run, Head.opens]; rfl, hm.snoc (.subject h)⟩

/-- A condition that is evaluated: the arm runs if it holds, and what goes on with the branches
runs if not. -/
theorem run_branch {first : Bool} (h : e.resolve (env.resolution s) = .ok e')
    (hf : Simulates O env ts f) (hg : Continues O env rest g) {tr : Trace (List String)}
    {m : Machine α} (hm : Follows env tr m.trace) (hfirst : first = true ∨ m.arms = .untaken) :
    ∃ m', Tree.runAll O (.node (.branch first e') (Stmt.orPassTrees ts) :: rest) m = some m' ∧
      Follows env (if O.holds tr.length e.position then f (tr ++ [.condition e])
        else g (tr ++ [.condition e])) m'.trace := by
  have hfirst : (first || m.arms = .untaken) = true := by simpa using hfirst
  have hcond : O.holds m.trace.length e'.position = O.holds tr.length e.position := by
    rw [Expr.position_resolve h, hm.length_eq]
  have hm₁ : Follows env (tr ++ [.condition e]) (m.emit [.condition e']).trace :=
    hm.snoc (.condition h)
  rw [Tree.runAll, Tree.run]
  simp only [Head.opens, isEmpty_orPassTrees, Bool.true_eq_false, if_false, hfirst, if_true, hcond]
  by_cases hc : O.holds tr.length e.position
  · obtain ⟨m₂, hr, hm₂⟩ := hf.orPass _ _ hm₁
    obtain ⟨m₃, hr', hm₃⟩ := hg.taken { m₂ with arms := .taken } rfl
    rw [if_pos hc, if_pos hc, hr]
    exact ⟨m₃, hr', hm₃ ▸ hm₂⟩
  · obtain ⟨m₂, hr, hm₂⟩ := hg.untaken _ { m.emit [.condition e'] with arms := .untaken } rfl hm₁
    rw [if_neg hc, if_neg hc]
    exact ⟨m₂, hr, hm₂⟩

namespace Continues

/-- Nothing is done if no arm is taken. -/
theorem nil : Continues O env [] id where
  untaken tr m _ hm := ⟨m, by rw [Tree.runAll], hm⟩
  taken m _ := ⟨m, by rw [Tree.runAll], rfl⟩

/-- What is done if no arm is taken. -/
theorem otherwise (h : Simulates O env ts f) :
    Continues O env [.node .otherwise (Stmt.orPassTrees ts)] f where
  untaken tr m ha hm := by
    obtain ⟨m', hr, hm'⟩ := h.orPass tr m.fresh hm
    refine ⟨m'.fresh, ?_, hm'⟩
    simp [Tree.runAll, Tree.run, Head.opens, ha, hr]
  taken m ha := ⟨m.fresh, by simp [Tree.runAll, Tree.run, Head.opens, ha], rfl⟩

/-- One arm more. -/
theorem branch (h : e.resolve (env.resolution s) = .ok e') (hf : Simulates O env ts f)
    (hg : Continues O env rest g) :
    Continues O env (.node (.branch false e') (Stmt.orPassTrees ts) :: rest) (fun tr =>
      if O.holds tr.length e.position then f (tr ++ [.condition e])
      else g (tr ++ [.condition e])) where
  untaken tr m ha hm := run_branch h hf hg hm (.inr ha)
  taken m ha := by
    obtain ⟨m', hr, hm'⟩ := hg.taken m ha
    refine ⟨m', ?_, hm'⟩
    simp [Tree.runAll, Tree.run, Head.opens, ha, hr]

end Continues

/-- The first arm. -/
theorem simulates_branch (h : e.resolve (env.resolution s) = .ok e') (hf : Simulates O env ts f)
    (hg : Continues O env rest g) :
    Simulates O env (.node (.branch true e') (Stmt.orPassTrees ts) :: rest) (fun tr =>
      if O.holds tr.length e.position then f (tr ++ [.condition e])
      else g (tr ++ [.condition e])) :=
  fun _ _ hm => run_branch h hf hg hm (.inl rfl)

/-! ### Selections -/

namespace SimulatesCases

variable {v : α} {pattern case : Pattern}

theorem nil : SimulatesCases O env v [] id := fun _ m h => ⟨m, by rw [Tree.runCases], h⟩

/-- A case without a guard. -/
theorem cons (hp : O.fits case = O.fits pattern) (hf : Simulates O env ts f)
    (hg : O.fits pattern v = false → SimulatesCases O env v rest g) :
    SimulatesCases O env v (.node (.case case none) (Stmt.orPassTrees ts) :: rest) (fun tr =>
      if O.fits pattern v then f tr else g tr) := by
  intro tr m hm
  rw [Tree.runCases]
  simp only [isEmpty_orPassTrees, Bool.false_eq_true, if_false, hp]
  by_cases hv : O.fits pattern v
  · rw [if_pos hv, if_pos hv]
    exact hf.orPass tr _ (by simpa using hm)
  · rw [if_neg hv, if_neg hv]
    exact hg (by simpa using hv) tr m hm

/-- The last case that every value takes. -/
theorem wildcard {p : Nat} (hf : Simulates O env ts f) :
    SimulatesCases O env v [.node (.case (.wildcard p) none) (Stmt.orPassTrees ts)] f := by
  intro tr m hm
  rw [Tree.runCases]
  simp only [isEmpty_orPassTrees, Bool.false_eq_true, if_false, O.fits_wildcard, if_true]
  exact hf.orPass tr _ (by simpa using hm)

/-- A case with a guard. -/
theorem cons_guard (hp : O.fits case = O.fits pattern)
    (h : e.resolve (env.resolution s) = .ok e') (hf : Simulates O env ts f)
    (hg : SimulatesCases O env v rest g) :
    SimulatesCases O env v (.node (.case case (some e')) (Stmt.orPassTrees ts) :: rest) (fun tr =>
      if O.fits pattern v then
        if O.holds tr.length e.position then f (tr ++ [.guard e]) else g (tr ++ [.guard e])
      else g tr) := by
  intro tr m hm
  have hcond : O.holds m.trace.length e'.position = O.holds tr.length e.position := by
    rw [Expr.position_resolve h, hm.length_eq]
  have hm₁ : Follows env (tr ++ [.guard e]) ((m.forget case.names).emit [.guard e']).trace := by
    refine Follows.snoc ?_ (.guard h)
    simpa using hm
  rw [Tree.runCases]
  simp only [isEmpty_orPassTrees, Bool.false_eq_true, if_false, hp, hcond]
  by_cases hv : O.fits pattern v
  · rw [if_pos hv, if_pos hv]
    by_cases hc : O.holds tr.length e.position
    · rw [if_pos hc, if_pos hc]
      exact hf.orPass _ _ hm₁
    · rw [if_neg hc, if_neg hc]
      exact hg _ _ hm₁
  · rw [if_neg hv, if_neg hv]
    exact hg tr m hm

end SimulatesCases

/-- A selection among the values of an expression. -/
theorem simulates_select {f : α → Trace (List String) → Trace (List String)}
    (h : e.resolve (env.resolution s) = .ok e') (hne : ts ≠ [])
    (hf : ∀ v, SimulatesCases O env v ts (f v)) :
    Simulates O env [.node (.select (.value e')) ts] (fun tr =>
      f (O.value tr.length e.position) (tr ++ [.subject e])) := by
  refine .single fun tr m hm => ?_
  have hm₁ : Follows env (tr ++ [.subject e]) (m.emit [.subject e']).trace := hm.snoc (.subject h)
  obtain ⟨m', hr, hm'⟩ := hf (O.value tr.length e.position) _ _ hm₁
  refine ⟨m'.fresh, ?_, hm'⟩
  have hv : O.value m.trace.length e'.position = O.value tr.length e.position := by
    rw [Expr.position_resolve h, hm.length_eq]
  rw [Tree.run]
  simp [Head.opens, hne, Machine.subject, hv, hr]

/-! ### Loops -/

/-- A loop does what its lines do for each item. -/
theorem simulates_loop {target : Pattern} {step : Trace (List String) → α → Trace (List String)}
    (h : e.resolve (env.resolution s) = .ok e') (hne : ts ≠ [])
    (hstep : ∀ tr (m : Machine α), Follows env tr m.trace → ∀ point,
      ∀ v ∈ O.items point e.position, O.fits target v = true ∧
        ∃ m', Tree.runAll O ts (m.bind v target).fresh = some m' ∧
          Follows env (step tr v) m'.trace) :
    Simulates O env [.node (.loop target e') ts] (fun tr =>
      (O.items tr.length e.position).foldl step (tr ++ [.items e])) := by
  refine .single fun tr m hm => ?_
  have hi : O.items m.trace.length e'.position = O.items tr.length e.position := by
    rw [Expr.position_resolve h, hm.length_eq]
  have hm₁ : Follows env (tr ++ [.items e]) (m.emit [.items e']).trace := hm.snoc (.items h)
  obtain ⟨m', hr, hm'⟩ := foldlM_related
    (R := fun tr (m : Machine α) => Follows env tr m.trace) (f := step)
    (g := fun m v =>
      if O.fits target v then Tree.runAll O ts (m.bind v target).fresh else none)
    (l := O.items tr.length e.position)
    (fun v hv tr m hm => by
      obtain ⟨hfit, hr⟩ := hstep tr m hm _ v hv
      simpa [hfit] using hr) hm₁
  refine ⟨m'.fresh, ?_, hm'⟩
  rw [Tree.run]
  simp [Head.opens, hne, hi, hr]

/-- A plain loop: every item fits its target. -/
theorem simulates_loop_plain {pattern target : Pattern} (h : e.resolve (env.resolution s) = .ok e')
    (hp : O.fits target = O.fits pattern)
    (hfit : ∀ point, ∀ v ∈ O.items point e.position, O.fits pattern v = true)
    (hf : Simulates O env ts f) :
    Simulates O env [.node (.loop target e') (Stmt.orPassTrees ts)] (fun tr =>
      (O.items tr.length e.position).foldl (fun tr v => if O.fits pattern v then f tr else tr)
        (tr ++ [.items e])) := by
  refine simulates_loop h (orPassTrees_ne_nil ts) fun tr m hm point v hv => ?_
  have hv := hfit point v hv
  rw [hp, if_pos hv]
  exact ⟨hv, hf.orPass tr (m.bind v target).fresh (by rwa [Machine.fresh, Machine.trace_bind])⟩

/-- A loop through helper items: an item that does not match runs no line. -/
theorem simulates_loop_skipping {pattern case : Pattern} {p : Nat} {item : String}
    (h : e.resolve (env.resolution s) = .ok e') (hp : O.fits case = O.fits pattern)
    (hf : Simulates O env ts f) :
    Simulates O env [.node (.loop (.binding p item) e') (Stmt.orPassTrees
      [.node (.select (.made item)) [.node (.case case none) (Stmt.orPassTrees ts)]])] (fun tr =>
      (O.items tr.length e.position).foldl (fun tr v => if O.fits pattern v then f tr else tr)
        (tr ++ [.items e])) := by
  refine simulates_loop h (orPassTrees_ne_nil _) fun tr m hm point v _ => ?_
  refine ⟨O.fits_binding p item v, ?_⟩
  have hcases : SimulatesCases O env v [.node (.case case none) (Stmt.orPassTrees ts)] fun tr =>
      if O.fits pattern v then f tr else tr :=
    .cons hp hf fun _ => .nil
  obtain ⟨m', hr, hm'⟩ := hcases tr (m.bind v (.binding p item)).fresh
    (by rwa [Machine.fresh, Machine.trace_bind])
  refine ⟨m'.fresh, ?_, hm'⟩
  have hvar : (m.bind v (.binding p item)).fresh.vars item = some (.item v) := if_pos rfl
  have hsubject : (m.bind v (.binding p item)).fresh.subject O (.made item) =
      some (v, (m.bind v (.binding p item)).fresh) := by
    rw [Machine.subject, hvar]
    rfl
  simp [Stmt.orPassTrees, Tree.runAll, Tree.run, Head.opens, hsubject] at hr ⊢
  exact ⟨m', hr, rfl⟩

/-! ### Calls -/

variable (env) in
/-- A variable holds what the callee may run of an argument. -/
inductive Provides (vars : String → Option (Slot α)) :
    Option (Trace (List String) → Trace (List String)) → Operand → Prop where
  | value (e : Expr) : Provides vars none (.value e)
  | block {f : Trace (List String) → Trace (List String)} {name : String}
      {g : Trace Target → Option (Trace Target)} (hv : vars name = some (.block g))
      (h : ∀ tr tr', Follows env tr tr' → ∃ tr'', g tr' = some tr'' ∧ Follows env (f tr) tr'') :
      Provides vars (some f) (.made name)

/-- The callee runs an argument. -/
theorem Provides.content {vars : String → Option (Slot α)}
    {runs : List (Option (Trace (List String) → Trace (List String)))} {ops : List Operand}
    (h : List.Forall₂ (Provides env vars) runs ops) (i : Nat) {tr : Trace (List String)}
    {tr' : Trace Target} (hf : Follows env tr tr') :
    ∃ tr'', Machine.content vars ops[i]? tr' = some tr'' ∧
      Follows env (runContent runs tr i) tr'' := by
  induction h generalizing i with
  | nil => exact ⟨tr', rfl, hf⟩
  | cons h _ ih =>
    cases i with
    | succ i => exact ih i
    | zero =>
      cases h with
      | value e => exact ⟨tr', rfl, hf⟩
      | block hv h =>
        obtain ⟨tr'', hr, hf'⟩ := h tr tr' hf
        exact ⟨tr'', by simp [Machine.content, hv, hr], hf'⟩

variable (O env) in
/-- **Lines define the blocks of a call** under the fresh names with numbers above `k` up to `k'`:
they show nothing and leave all other variables alone. -/
def Defines (k k' : Nat) (ts : List Tree)
    (runs : List (Option (Trace (List String) → Trace (List String)))) (ops : List Operand) : Prop :=
  ∀ m : Machine α, ∃ m', Tree.runAll O ts m = some m' ∧ m'.trace = m.trace ∧
    (∀ n, (∀ j, k < j → j ≤ k' → n ≠ Gen.freshName "content" j) → m'.vars n = m.vars n) ∧
    ∀ vars : String → Option (Slot α),
      (∀ j, k < j → j ≤ k' →
        vars (Gen.freshName "content" j) = m'.vars (Gen.freshName "content" j)) →
      List.Forall₂ (Provides env vars) runs ops

namespace Defines

variable {k k₁ k' : Nat} {runs runs' : List (Option (Trace (List String) → Trace (List String)))}
variable {ops ops' : List Operand} {ts' : List Tree}

theorem nil : Defines O env k k [] [] [] :=
  fun m => ⟨m, by rw [Tree.runAll], rfl, fun _ _ => rfl, fun _ _ => .nil⟩

theorem value (e : Expr) : Defines O env k k [] [none] [.value e] :=
  fun m => ⟨m, by rw [Tree.runAll], rfl, fun _ _ => rfl, fun _ _ => .cons (.value e) .nil⟩

theorem block (hf : Simulates O env ts f) (hk : k + 1 ≤ k') :
    Defines O env k k' [.node (.define (Gen.freshName "content" (k + 1)) [])
      (Stmt.orPassTrees ts)] [some f] [.made (Gen.freshName "content" (k + 1))] := by
  intro m
  refine ⟨m.set (Gen.freshName "content" (k + 1)) (some (.block fun tr =>
    (Tree.runAll O (Stmt.orPassTrees ts) ⟨tr, m.vars, .none⟩).map (·.trace))),
    by simp [Tree.runAll, Tree.run, Head.opens], rfl, fun n hn => ?_,
    fun vars hv => .cons (.block (g := fun tr =>
      (Tree.runAll O (Stmt.orPassTrees ts) ⟨tr, m.vars, .none⟩).map (·.trace)) ?_ ?_) .nil⟩
  · exact if_neg (hn (k + 1) (Nat.lt_succ_self k) hk)
  · rw [hv (k + 1) (Nat.lt_succ_self k) hk]
    exact if_pos rfl
  · intro tr tr' hfollows
    obtain ⟨m', hr, hm'⟩ := hf.orPass tr ⟨tr', m.vars, .none⟩ hfollows
    exact ⟨m'.trace, by rw [hr]; rfl, hm'⟩

theorem append (h : Defines O env k k₁ ts runs ops) (h' : Defines O env k₁ k' ts' runs' ops')
    (hk : k ≤ k₁) (hk' : k₁ ≤ k') :
    Defines O env k k' (ts ++ ts') (runs ++ runs') (ops ++ ops') := by
  intro m
  obtain ⟨m₁, hr, ht, hkeep, hops⟩ := h m
  obtain ⟨m₂, hr', ht', hkeep', hops'⟩ := h' m₁
  refine ⟨m₂, by rw [runAll_append, hr, Option.bind_some, hr'], ht'.trans ht, ?_, ?_⟩
  · intro n hn
    rw [hkeep' n fun j hj hj' => hn j (by omega) hj', hkeep n fun j hj hj' => hn j hj (by omega)]
  · intro vars hv
    refine List.rel_append (hops vars fun j hj hj' => ?_)
      (hops' vars fun j hj hj' => hv j (by omega) hj')
    -- the later blocks have numbers of their own
    rw [hv j hj (by omega), hkeep' _ fun i hi _ he => ?_]
    have := Gen.freshName_inj he
    omega

end Defines

/-- A call shows itself and what the callee runs of its arguments. -/
theorem simulates_call {k k' : Nat} {runs : List (Option (Trace (List String) → Trace (List String)))}
    {ops : List Operand} {path : List String} {args : List (Option Expr)}
    (hd : Defines O env k k' ts runs ops)
    (ha : List.Forall₂ (ResolvesTo env s) args (ops.map Operand.expr?)) :
    Simulates O env (ts ++ [.node (.call (env.context.target env.self s path) ops) []]) (fun tr =>
      (O.uses tr.length).foldl (runContent runs) (tr ++ [.call path args])) := by
  intro tr m hm
  obtain ⟨m₁, hr, ht, -, hops⟩ := hd m
  have hops := hops m₁.vars fun _ _ _ => rfl
  have hm₁ : Follows env (tr ++ [.call path args])
      (m₁.trace ++ [.call (env.context.target env.self s path) (ops.map Operand.expr?)]) := by
    rw [ht]
    exact hm.snoc (.call ha)
  obtain ⟨tr', hr', hm'⟩ := foldlM_related (R := Follows env) (f := runContent runs)
    (g := fun tr i => Machine.content m₁.vars ops[i]? tr) (l := O.uses tr.length)
    (fun i _ tr tr' hf => Provides.content hops i hf) hm₁
  refine ⟨{ m₁ with trace := tr', arms := .none }, ?_, hm'⟩
  rw [runAll_append, hr, Option.bind_some, Tree.runAll, Tree.run]
  rw [ht] at hr'
  simp [Head.opens, Machine.call, ht, ← hm.length_eq, hr', Tree.runAll]

end Constructs

/-! ## Whole bodies -/

/-- **Items fit an irrefutable target**: what a plain loop over one of the nodes runs through. -/
def Oracle.FitsLoops (O : Oracle α) (nodes : List Node) : Prop :=
  ∀ p pattern iterable body, Node.loop p pattern iterable body ∈ nodes →
    pattern.simplify.isIrrefutable → ∀ point, ∀ v ∈ O.items point iterable.position,
      O.fits pattern v = true

namespace Oracle.FitsLoops

theorem mono {a b : List Node} (h : O.FitsLoops b) (hab : ∀ n ∈ a, n ∈ b) : O.FitsLoops a :=
  fun p pattern iterable body hn => h p pattern iterable body (hab _ hn)

theorem left {a b : List Node} (h : O.FitsLoops (a ++ b)) : O.FitsLoops a :=
  h.mono fun _ => List.mem_append_left b

theorem right {a b : List Node} (h : O.FitsLoops (a ++ b)) : O.FitsLoops b :=
  h.mono fun _ => List.mem_append_right a

theorem tail {n : Node} {b : List Node} (h : O.FitsLoops (n :: b)) : O.FitsLoops b :=
  h.mono fun _ => List.mem_cons_of_mem n

end Oracle.FitsLoops

section Unfold

variable {v : α} {pattern : Pattern} {e : Expr} {nodes : List Node}
variable {arms : List (Condition × List Node)} {cases : List (Pattern × Option Expr × List Node)}
variable {f : Trace (List String) → Trace (List String)}

theorem Node.runOtherwise_none : Node.runOtherwise O none = id := by
  funext tr
  rw [Node.runOtherwise]
  rfl

theorem Node.runArms_nil : Node.runArms O f [] = f := by
  funext tr
  rw [Node.runArms]

theorem Node.runArms_holds : Node.runArms O f ((.holds e, nodes) :: arms) = fun tr =>
    if O.holds tr.length e.position then Node.runAll O nodes (tr ++ [.condition e])
    else Node.runArms O f arms (tr ++ [.condition e]) := by
  funext tr
  rw [Node.runArms]

theorem Node.runArms_matches : Node.runArms O f ((.matches pattern e, nodes) :: arms) = fun tr =>
    (fun v tr => if O.fits pattern v then Node.runAll O nodes tr else Node.runArms O f arms tr)
      (O.value tr.length e.position) (tr ++ [.subject e]) := by
  funext tr
  rw [Node.runArms]

theorem Node.runCases_nil : Node.runCases O v [] = id := by
  funext tr
  rw [Node.runCases]
  rfl

theorem Node.runCases_cons : Node.runCases O v ((pattern, none, nodes) :: cases) = fun tr =>
    if O.fits pattern v then Node.runAll O nodes tr else Node.runCases O v cases tr := by
  funext tr
  rw [Node.runCases]

theorem Node.runCases_guard : Node.runCases O v ((pattern, some e, nodes) :: cases) = fun tr =>
    if O.fits pattern v then
      if O.holds tr.length e.position then Node.runAll O nodes (tr ++ [.guard e])
      else Node.runCases O v cases (tr ++ [.guard e])
    else Node.runCases O v cases tr := by
  funext tr
  rw [Node.runCases]

end Unfold

/-- A node that is text shows its characters. -/
theorem run_of_plain {n : Node} {text : String} (h : n.plain? = some text)
    (tr : Trace (List String)) : n.run O tr = tr ++ text.toList.map .char := by
  cases n <;> cases h <;> simp [Node.run]

theorem Gen.treesAll_branchOf (p : Nat) (arms : List (Expr × List Stmt))
    (otherwise : Option (List Stmt)) (h : arms ≠ []) :
    Stmt.treesAll (Gen.branchOf p (arms, otherwise)) =
      Stmt.armTrees true arms ++ Stmt.otherwiseTrees otherwise := by
  cases arms with
  | nil => exact absurd rfl h
  | cons arm arms => simp [Gen.branchOf, Stmt.trees]

variable (O env) in
/-- What the arms of a branch come to: a statement of its own, or what goes on with arms before. -/
def RunsBranches (first : Bool) (p : Nat) (r : List (Expr × List Stmt) × Option (List Stmt))
    (f : Trace (List String) → Trace (List String)) : Prop :=
  if first then Simulates O env (Stmt.treesAll (Gen.branchOf p r)) f
  else Continues O env (Stmt.armTrees false r.1 ++ Stmt.otherwiseTrees r.2) f

namespace RunsBranches

variable {first : Bool} {p : Nat} {f g : Trace (List String) → Trace (List String)}

theorem nil : RunsBranches O env first p ([], none) id := by
  cases first with
  | true => simpa [RunsBranches, Gen.branchOf] using Simulates.nil
  | false => simpa [RunsBranches, Stmt.armTrees, Stmt.otherwiseTrees] using Continues.nil

/-- No arm is left but what is done in any case. -/
theorem of_stmts {stmts : List Stmt} (h : Simulates O env (Stmt.treesAll stmts) f) :
    RunsBranches O env first p ([], some stmts) f := by
  cases first with
  | true => simpa [RunsBranches, Gen.branchOf] using h
  | false => simpa [RunsBranches, Stmt.armTrees, Stmt.otherwiseTrees] using Continues.otherwise h

theorem branch {s : Scope} {e e' : Expr} {body : List Stmt} {arms : List (Expr × List Stmt)}
    {stmts : Option (List Stmt)} (h : e.resolve (env.resolution s) = .ok e')
    (hf : Simulates O env (Stmt.treesAll body) f)
    (hg : RunsBranches O env false p (arms, stmts) g) :
    RunsBranches O env first p ((e', body) :: arms, stmts) (fun tr =>
      if O.holds tr.length e.position then f (tr ++ [.condition e])
      else g (tr ++ [.condition e])) := by
  have hg : Continues O env (Stmt.armTrees false arms ++ Stmt.otherwiseTrees stmts) g := hg
  cases first with
  | true =>
    simp only [RunsBranches, if_true]
    rw [Gen.treesAll_branchOf _ _ _ (List.cons_ne_nil _ _), Stmt.armTrees, List.cons_append]
    exact simulates_branch h hf hg
  | false =>
    simp only [RunsBranches, Bool.false_eq_true, if_false]
    rw [Stmt.armTrees, List.cons_append]
    exact hg.branch h hf

end RunsBranches

namespace Gen

mutual

/-- **The statements of a body do what the body does**, after the text that is pending. -/
theorem body_simulates : ∀ {ns : List Node} {s : Scope} {i p k k' : Nat} {pending : String}
    {r : List Stmt}, O.FitsLoops (Node.nodesAll ns) →
    body env s i p pending ns k = .ok (r, k') →
    Simulates O env (Stmt.treesAll r) fun tr =>
      Node.runAll O ns (tr ++ pending.toList.map .char)
  | [], _, _, p, _, _, pending, _, _, h => by
    obtain ⟨rfl, -⟩ := body_nil_ok.mp h
    simpa only [Node.runAll] using simulates_flush p pending
  | n :: ns, _, _, p, _, _, pending, _, hfit, h => by
    rw [Node.nodesAll] at hfit
    cases hp : n.plain? with
    | some text =>
      rw [body_cons_plain hp] at h
      have := body_simulates hfit.right h
      simpa only [Node.runAll, run_of_plain hp, String.toList_append, List.map_append,
        List.append_assoc] using this
    | none =>
      obtain ⟨a, k₁, b, ha, hb, rfl⟩ := (body_cons_ok hp).mp h
      have := ((simulates_flush p pending).append (node_simulates hfit.left hp ha)).append
        (body_simulates hfit.right hb)
      simpa only [Node.runAll, Stmt.treesAll_append, Function.comp_def, String.toList_empty,
        List.map_nil, List.append_nil] using this

theorem node_simulates : ∀ {n : Node} {s : Scope} {i k k' : Nat} {r : List Stmt},
    O.FitsLoops n.nodes → n.plain? = none → node env s i n k = .ok (r, k') →
    Simulates O env (Stmt.treesAll r) (n.run O)
  | .text _ _, _, _, _, _, _, _, hp, _ => by cases hp
  | .comment _ _, _, _, _, _, _, _, hp, _ => by cases hp
  | .value p e raw, _, _, _, _, _, _, _, h => by
    obtain ⟨e', he, rfl, -⟩ := node_value_ok.mp h
    simpa only [Stmt.treesAll, Stmt.trees, List.append_nil, Node.run] using
      simulates_interpolate raw he
  | .branch p arms otherwise, _, _, _, _, _, hfit, _, h => by
    obtain ⟨r, hc, rfl⟩ := node_branch_ok.mp h
    rw [Node.nodes] at hfit
    obtain ⟨ho, hlast⟩ := alternative_simulates hfit.tail.right
    have : Simulates O env _ _ := chain_simulates (fun h => ho h) hlast hfit.tail.left hc
    simpa only [Node.run] using this
  | .loop p pattern iterable nodes, _, _, _, _, _, hfit, _, h => by
    rw [Node.nodes] at hfit
    simp only [Node.run]
    by_cases hp : pattern.simplify.isIrrefutable
    · obtain ⟨e', _, _, _, target, body', he, -, ht, -, hb, rfl⟩ := (node_loop_plain_ok hp).mp h
      have hbody := (body_simulates hfit.tail hb).of_no_pending
      simp only [Stmt.treesAll, Stmt.trees, List.append_nil]
      exact simulates_loop_plain he (O.fits_case ht)
        (hfit p pattern iterable nodes List.mem_cons_self hp) hbody
    · obtain ⟨e', _, _, _, case, body', he, -, hcase, -, hb, rfl⟩ :=
        (node_loop_skipping_ok hp).mp h
      have hbody := (body_simulates hfit.tail hb).of_no_pending
      simp only [Stmt.treesAll, Stmt.trees, Stmt.caseTrees, List.append_nil]
      exact simulates_loop_skipping he (O.fits_case hcase) hbody
  | .cases p subject [], _, _, _, _, _, _, _, h => by
    obtain ⟨e', he, rfl, -⟩ := node_cases_nil_ok.mp h
    simpa only [Stmt.treesAll, Stmt.trees, List.append_nil, Node.run, Node.runCases] using
      simulates_evaluate he
  | .cases p subject (arm :: arms), _, _, _, _, _, hfit, _, h => by
    obtain ⟨e', cases', he, -, hc, rfl⟩ := (node_cases_ok (List.cons_ne_nil _ _)).mp h
    rw [Node.nodes] at hfit
    have hcases := cases_simulates hfit.tail hc
    simp only [Stmt.treesAll, Stmt.trees, List.append_nil, Node.run]
    exact simulates_select he (hcases.1 (List.cons_ne_nil _ _)) hcases.2
  | .call p path args blocks, _, _, _, _, _, hfit, _, h => by
    obtain ⟨defs, args', k₁, defs', contents', ha, hc, rfl⟩ := node_call_ok.mp h
    rw [Node.nodes] at hfit
    obtain ⟨hd, hargs⟩ := arguments_defines hfit.tail.left ha
    obtain ⟨hd', hblocks⟩ := contents_defines hfit.tail.right hc
    simp only [Stmt.treesAll_append, Stmt.treesAll, Stmt.trees, List.append_nil, Node.run]
    refine simulates_call (hd.append hd' (arguments_le ha) (contents_le hc)) ?_
    rw [List.map_append]
    exact List.rel_append hargs hblocks

theorem alternative_simulates : ∀ {o : Option (List Node)} {s : Scope} {p : Nat},
    O.FitsLoops (Node.otherwiseNodes o) →
    (∀ {i k k' r}, alternative env s i p o k = .ok (r, k') →
      Simulates O env (Stmt.treesAll r) (Node.runOtherwise O o)) ∧
    (o.isSome = false → Node.runOtherwise O o = id)
  | none, _, _, _ => by
    refine ⟨fun h => ?_, fun _ => ?_⟩
    · obtain ⟨rfl, -⟩ := alternative_none_ok.mp h
      rw [Node.runOtherwise_none]
      simpa only [Stmt.treesAll] using Simulates.nil
    · exact Node.runOtherwise_none
  | some nodes, _, _, hfit => by
    rw [Node.otherwiseNodes] at hfit
    refine ⟨fun h => ?_, fun h => by cases h⟩
    rw [alternative_some] at h
    simpa [Node.runOtherwise] using body_simulates hfit h

theorem chain_simulates {p : Nat} {last : Bool} {otherwise : Nat → Gen (List Stmt)}
    {f : Trace (List String) → Trace (List String)}
    (ho : ∀ {i k k' r}, otherwise i k = .ok (r, k') → Simulates O env (Stmt.treesAll r) f)
    (hlast : last = false → f = id) :
    ∀ {arms : List (Condition × List Node)} {s : Scope} {i k k' : Nat} {first : Bool}
      {r : List (Expr × List Stmt) × Option (List Stmt)}, O.FitsLoops (Node.armNodes arms) →
    chain env s i first p last otherwise arms k = .ok (r, k') →
    RunsBranches O env first p r (Node.runArms O f arms)
  | [], _, _, _, _, first, _, _, h => by
    rw [Node.runArms_nil]
    obtain ⟨-, -, stmts, hs, rfl⟩ | ⟨hl, rfl, -⟩ := chain_nil_ok.mp h
    · exact .of_stmts (ho hs)
    · rw [hlast hl]
      exact .nil
  | (.holds e, nodes) :: arms, _, _, _, _, first, _, hfit, h => by
    rw [Node.armNodes] at hfit
    obtain ⟨e', body', k₁, arms', stmts, he, -, hb, hc, rfl⟩ := chain_holds_ok.mp h
    have hbody := (body_simulates hfit.left hb).of_no_pending
    rw [Node.runArms_holds]
    exact .branch he hbody (chain_simulates ho hlast hfit.right hc)
  | (.matches pattern e, nodes) :: arms, _, _, _, _, first, _, hfit, h => by
    rw [Node.armNodes] at hfit
    obtain ⟨i', e', inner, renamed, k₁, case, body', k₂, -, -, -, he, hcase, -, hb, h⟩ :=
      chain_matches_ok.mp h
    have hbody := (body_simulates hfit.left hb).of_no_pending
    have hp := O.fits_case hcase
    rw [Node.runArms_matches]
    obtain ⟨hn, rfl, -⟩ | ⟨-, arms', stmts, hc, rfl⟩ := h
    · refine .of_stmts ?_
      simp only [Stmt.treesAll, Stmt.trees, Stmt.caseTrees, List.append_nil]
      refine simulates_select he (List.cons_ne_nil _ _) fun v => .cons hp hbody fun hv => ?_
      obtain ⟨rfl, hl⟩ | hcatch := hn
      · rw [Node.runArms_nil, hlast hl]
        exact .nil
      · rw [← O.fits_simplify, O.fits_of_isCatchAll hcatch] at hv
        cases hv
    · refine .of_stmts ?_
      have hrest : Simulates O env _ _ := chain_simulates ho hlast hfit.right hc
      simp only [Stmt.treesAll, Stmt.trees, Stmt.caseTrees, List.append_nil]
      exact simulates_select he (List.cons_ne_nil _ _) fun v =>
        .cons hp hbody fun _ => .wildcard hrest

theorem cases_simulates : ∀ {arms : List (Pattern × Option Expr × List Node)} {s : Scope}
    {i p k k' : Nat} {r : List (Pattern × Option Expr × List Stmt)},
    O.FitsLoops (Node.caseNodes arms) → cases env s i p arms k = .ok (r, k') →
    (arms ≠ [] → Stmt.caseTrees r ≠ []) ∧
      ∀ v, SimulatesCases O env v (Stmt.caseTrees r) (Node.runCases O v arms)
  | [], _, _, _, _, _, _, _, h => by
    obtain ⟨rfl, -⟩ := cases_nil_ok.mp h
    refine ⟨fun h => absurd rfl h, fun v => ?_⟩
    rw [Node.runCases_nil, Stmt.caseTrees]
    exact .nil
  | (pattern, guard, nodes) :: arms, _, _, _, _, _, _, hfit, h => by
    rw [Node.caseNodes] at hfit
    obtain ⟨inner, renamed, k₁, case, guard', body', k₂, -, hcase, hg, -, hb, h⟩ :=
      cases_cons_ok.mp h
    have hbody := (body_simulates hfit.left hb).of_no_pending
    have hp := O.fits_case hcase
    obtain ⟨⟨rfl, hcatch⟩, rfl, -⟩ | ⟨-, rest, hc, rfl⟩ := h
    · cases hg
      refine ⟨fun _ => List.cons_ne_nil _ _, fun v => ?_⟩
      rw [Stmt.caseTrees, Stmt.caseTrees, Node.runCases_cons]
      refine .cons hp hbody fun hv => ?_
      rw [← O.fits_simplify, O.fits_of_isCatchAll hcatch] at hv
      cases hv
    · have hrest := (cases_simulates hfit.right hc).2
      refine ⟨fun _ => List.cons_ne_nil _ _, fun v => ?_⟩
      rw [Stmt.caseTrees]
      cases Except.option_mapM_ok.mp hg with
      | none =>
        rw [Node.runCases_cons]
        exact .cons hp hbody fun _ => hrest v
      | some hg' =>
        rw [Node.runCases_guard]
        exact .cons_guard hp hg' hbody (hrest v)

theorem arguments_defines : ∀ {args : List (Expr ⊕ List Node)} {s : Scope} {i p k k' : Nat}
    {defs : List Stmt} {ops : List Operand}, O.FitsLoops (Node.argumentNodes args) →
    arguments env s i p args k = .ok ((defs, ops), k') →
    Defines O env k k' (Stmt.treesAll defs) (Node.argumentRuns O args) ops ∧
      List.Forall₂ (ResolvesTo env s) (args.map argument?) (ops.map Operand.expr?)
  | [], _, _, _, _, _, _, _, _, h => by
    obtain ⟨hr, rfl⟩ := arguments_nil_ok.mp h
    cases hr
    rw [Stmt.treesAll, Node.argumentRuns]
    exact ⟨.nil, .nil⟩
  | .inl e :: args, _, _, _, _, _, _, _, hfit, h => by
    rw [Node.argumentNodes] at hfit
    obtain ⟨e', defs', args', he, ha, hr⟩ := arguments_value_ok.mp h
    cases hr
    obtain ⟨hd, hargs⟩ := arguments_defines hfit ha
    rw [Node.argumentRuns]
    exact ⟨(Defines.value e').append hd le_rfl (arguments_le ha), .cons (.some he) hargs⟩
  | .inr nodes :: args, _, _, _, _, _, _, _, hfit, h => by
    rw [Node.argumentNodes] at hfit
    obtain ⟨body', k₁, defs', args', -, hb, ha, hr⟩ := arguments_block_ok.mp h
    cases hr
    have hbody := (body_simulates hfit.left hb).of_no_pending
    obtain ⟨hd, hargs⟩ := arguments_defines hfit.right ha
    rw [Stmt.treesAll, Stmt.trees, Node.argumentRuns]
    exact ⟨(Defines.block hbody (body_le hb)).append hd (Nat.le_of_succ_le (body_le hb))
      (arguments_le ha), .cons .none hargs⟩

theorem contents_defines : ∀ {blocks : List (List Node)} {s : Scope} {i p k k' : Nat}
    {defs : List Stmt} {ops : List Operand}, O.FitsLoops (Node.blockNodes blocks) →
    contents env s i p blocks k = .ok ((defs, ops), k') →
    Defines O env k k' (Stmt.treesAll defs) (Node.blockRuns O blocks) ops ∧
      List.Forall₂ (ResolvesTo env s) (blocks.map fun _ => none) (ops.map Operand.expr?)
  | [], _, _, _, _, _, _, _, _, h => by
    obtain ⟨hr, rfl⟩ := contents_nil_ok.mp h
    cases hr
    rw [Stmt.treesAll, Node.blockRuns]
    exact ⟨.nil, .nil⟩
  | nodes :: blocks, _, _, _, _, _, _, _, hfit, h => by
    rw [Node.blockNodes] at hfit
    obtain ⟨body', k₁, defs', args', -, hb, hc, hr⟩ := contents_cons_ok.mp h
    cases hr
    have hbody := (body_simulates hfit.left hb).of_no_pending
    obtain ⟨hd, hblocks⟩ := contents_defines hfit.right hc
    rw [Stmt.treesAll, Stmt.trees, Node.blockRuns]
    exact ⟨(Defines.block hbody (body_le hb)).append hd (Nat.le_of_succ_le (body_le hb))
      (contents_le hc), .cons .none hblocks⟩

end

end Gen

/-! ## Rendering functions -/

/-- **A rendering function has the trace of its template**: whatever the oracle says, its lines run
to their end, and the events are those of the template in the same order. -/
theorem follows_trace_functionLines {context : Context} {t : Template} {stmts : List Stmt}
    (hfit : O.FitsLoops (Node.nodesAll t.body)) (h : t.stmts context = .ok stmts) :
    ∃ tr, Line.trace? O (t.functionLines stmts) = some tr ∧
      Follows ⟨t.toTemplateName, context⟩ (t.trace O) tr := by
  unfold Template.stmts at h
  simp only [Except.bind_ok] at h
  obtain ⟨⟨stmts', k⟩, hb, hs⟩ := h
  obtain rfl : stmts = stmts' := (Except.pure_ok.mp hs).symm
  have hbody := (Gen.body_simulates hfit hb).of_no_pending
  obtain ⟨m, hr, hm⟩ := hbody.orPass [] .start .nil
  refine ⟨m.trace, ?_, hm⟩
  have hread := (Stmt.reads_linesAll 1 stmts).block (p := 0) (q := 0)
    (h := .define t.function t.params) (Stmt.le_indent_all 1 stmts)
  rw [Line.trace?, Template.functionLines, hread.forest_none]
  simp [Tree.functionTrace, hr, orPassTrees_ne_nil]

end Simulation

/-- A page that goes through a list and hands a block to a callee. -/
def listing : Template where
  namespaces := []
  stem := "listing"
  format := "html"
  imports := []
  params := [⟨"xs", "list"⟩, ⟨"frame", "Content"⟩]
  body := [.text 0 "a", .loop 1 (.binding 2 "x") (.name 3 "xs") [
      .branch 4 [(.holds (.name 5 "x"), [.text 6 "b"]),
        (.matches (.literal 7 (.bool true)) (.name 8 "x"), [])] (some [.text 9 "c"])],
    .call 10 ["frame"] [] [[.loop 11 (.literal 12 .null) (.name 13 "xs") [.text 14 "d"]]]]
  path := .here
  text := []

/-- Lists hold nothing and truth, every second condition holds, callees run their first argument. -/
def Oracle.steady : Oracle Literal where
  toMatching := .literals
  holds point _ := point % 2 = 0
  value _ _ := .bool true
  items _ _ := [.null, .bool true]
  uses _ := [0]

theorem follows_trace_listing : ∃ stmts,
    Oracle.steady.FitsLoops (Node.nodesAll listing.body) ∧ listing.stmts .empty = .ok stmts ∧
      ∃ tr, Line.trace? .steady (listing.functionLines stmts) = some tr ∧
        Follows ⟨listing.toTemplateName, .empty⟩ (listing.trace .steady) tr := by
  have hfit : Oracle.steady.FitsLoops (Node.nodesAll listing.body) := by
    intro p pattern iterable body hn hirr point v _
    simp only [listing, Node.nodesAll, Node.nodes, Node.armNodes, Node.otherwiseNodes,
      Node.argumentNodes, Node.blockNodes, List.append_nil, List.nil_append, List.cons_append,
      List.mem_cons, reduceCtorEq, false_or, Node.loop.injEq, List.not_mem_nil, or_false] at hn
    obtain ⟨-, rfl, -⟩ | ⟨-, rfl, -⟩ := hn
    · exact Oracle.steady.fits_binding _ _ _
    · cases hirr
  exact ⟨_, hfit, rfl, follows_trace_functionLines hfit rfl⟩

end Stencil
