import Stencil.Proofs.Bound
import Stencil.Proofs.Depth
import Stencil.Proofs.Generation

/-!
# Scopes of generated blocks

The code of a body is followed together with the scopes it was generated in: every block of a loop,
a case, an arm or an argument is entered with a frame, which holds the names in scope inside and the
names that the code assigns on the way in.

* `Frame`, `ScopedBody`: nodes, their statements, and the frames of the blocks around them. `P` is
  what is known of each frame and those around it.
* `Keeps`: an invariant of generation from which `P` follows at each block.
* **`Gen.body_scoped`**: generated statements are scoped, by induction on the body.
-/

namespace Stencil

/-- **A block of the code**: the names in scope in it, and the names that the code assigns where the
block is entered. -/
structure Frame where
  scope : Scope
  assigned : List String

/-- The frame of a block below a pattern, which is `case` in the code; `helpers` are assigned too. -/
def Frame.ofPattern (s renamed : Scope) (p case : Pattern) (helpers : List String) : Frame :=
  ⟨s.extend renamed p.names, helpers ++ case.bound⟩

section Relation

variable (P : List Frame → Frame → Prop) (env : Env)

mutual

/-- **Nodes and their statements** in a scope, with the frames of the blocks around them. -/
inductive ScopedBody : List Frame → Scope → List Node → List Stmt → Prop where
  | nil {path : List Frame} {s : Scope} : ScopedBody path s [] []
  | plain {path : List Frame} {s : Scope} {n : Node} {ns : List Node} {stmts : List Stmt}
      (h : n.plain?.isSome) (hs : ScopedBody path s ns stmts) : ScopedBody path s (n :: ns) stmts
  | write {path : List Frame} {s : Scope} {p : Nat} {text : String} {ns : List Node}
      {stmts : List Stmt} (hs : ScopedBody path s ns stmts) :
      ScopedBody path s ns (.write p text :: stmts)
  | node {path : List Frame} {s : Scope} {n : Node} {ns : List Node} {a stmts : List Stmt}
      (hn : ScopedNode path s n a) (hs : ScopedBody path s ns stmts) :
      ScopedBody path s (n :: ns) (a ++ stmts)

/-- A node and its statements. -/
inductive ScopedNode : List Frame → Scope → Node → List Stmt → Prop where
  | value {path : List Frame} {s : Scope} {p : Nat} {e e' : Expr} {raw : Bool}
      (he : e.resolve (env.resolution s) = .ok e') :
      ScopedNode path s (.value p e raw) [.interpolate p raw e']
  | branch {path : List Frame} {s : Scope} {p : Nat} {arms : List (Condition × List Node)}
      {otherwise : Option (List Node)} {r : List (Expr × List Stmt) × Option (List Stmt)}
      (h : ScopedArms path s p otherwise arms r) :
      ScopedNode path s (.branch p arms otherwise) (Gen.branchOf p r)
  | loop {path : List Frame} {s renamed : Scope} {p : Nat} {pattern target : Pattern}
      {e e' : Expr} {nodes : List Node} {body : List Stmt}
      (he : e.resolve (env.resolution s) = .ok e')
      (ht : pattern.simplify.resolve renamed.rename = .ok target)
      (hf : P path (.ofPattern s renamed pattern.simplify target []))
      (hb : ScopedBody (.ofPattern s renamed pattern.simplify target [] :: path)
        (s.extend renamed pattern.simplify.names) nodes body) :
      ScopedNode path s (.loop p pattern e nodes) [.loop p target e' body]
  /-- A loop through helper items. -/
  | skipping {path : List Frame} {s renamed : Scope} {p : Nat} {pattern case : Pattern}
      {item : String} {e e' : Expr} {nodes : List Node} {body : List Stmt}
      (he : e.resolve (env.resolution s) = .ok e')
      (hc : pattern.simplify.resolve renamed.rename = .ok case)
      (hf : P path (.ofPattern s renamed pattern.simplify case [item]))
      (hb : ScopedBody (.ofPattern s renamed pattern.simplify case [item] :: path)
        (s.extend renamed pattern.simplify.names) nodes body) :
      ScopedNode path s (.loop p pattern e nodes)
        [.loop p (.binding p item) e' [.select p (.made item) [(case, none, body)]]]
  | evaluate {path : List Frame} {s : Scope} {p : Nat} {e e' : Expr}
      (he : e.resolve (env.resolution s) = .ok e') :
      ScopedNode path s (.cases p e []) [.evaluate p e']
  | cases {path : List Frame} {s : Scope} {p : Nat} {e e' : Expr}
      {arms : List (Pattern × Option Expr × List Node)}
      {r : List (Pattern × Option Expr × List Stmt)}
      (he : e.resolve (env.resolution s) = .ok e') (h : ScopedCases path s arms r) :
      ScopedNode path s (.cases p e arms) [.select p (.value e') r]
  | call {path : List Frame} {s : Scope} {p : Nat} {name : List String}
      {args : List (Expr ⊕ List Node)} {blocks : List (List Node)} {defs defs' : List Stmt}
      {ops ops' : List Operand} (ha : ScopedArguments path s args defs ops)
      (hb : ScopedContents path s blocks defs' ops') :
      ScopedNode path s (.call p name args blocks)
        (defs ++ defs' ++ [.call p (env.context.target env.self s name) (ops ++ ops')])

/-- The arms of a branch and their statements. -/
inductive ScopedArms : List Frame → Scope → Nat → Option (List Node) →
    List (Condition × List Node) → List (Expr × List Stmt) × Option (List Stmt) → Prop where
  | nil {path : List Frame} {s : Scope} {p : Nat} : ScopedArms path s p none [] ([], none)
  | otherwise {path : List Frame} {s : Scope} {p : Nat} {nodes : List Node} {body : List Stmt}
      (hb : ScopedBody path s nodes body) :
      ScopedArms path s p (some nodes) [] ([], some body)
  | holds {path : List Frame} {s : Scope} {p : Nat} {otherwise : Option (List Node)} {e e' : Expr}
      {nodes : List Node} {body : List Stmt} {arms : List (Condition × List Node)}
      {arms' : List (Expr × List Stmt)} {stmts : Option (List Stmt)}
      (he : e.resolve (env.resolution s) = .ok e') (hb : ScopedBody path s nodes body)
      (h : ScopedArms path s p otherwise arms (arms', stmts)) :
      ScopedArms path s p otherwise ((.holds e, nodes) :: arms) ((e', body) :: arms', stmts)
  /-- Nothing comes after an arm that every value matches, or after the last one. -/
  | last {path : List Frame} {s renamed : Scope} {p : Nat} {otherwise : Option (List Node)}
      {pattern case : Pattern} {e e' : Expr} {nodes : List Node} {body : List Stmt}
      {arms : List (Condition × List Node)} (he : e.resolve (env.resolution s) = .ok e')
      (hc : pattern.simplify.resolve renamed.rename = .ok case)
      (hf : P path (.ofPattern s renamed pattern.simplify case []))
      (hb : ScopedBody (.ofPattern s renamed pattern.simplify case [] :: path)
        (s.extend renamed pattern.simplify.names) nodes body)
      (hlast : arms = [] ∧ otherwise = none ∨ pattern.simplify.isCatchAll) :
      ScopedArms path s p otherwise ((.matches pattern e, nodes) :: arms)
        ([], some [.select p (.value e') [(case, none, body)]])
  | matches {path : List Frame} {s renamed : Scope} {p : Nat} {otherwise : Option (List Node)}
      {pattern case : Pattern} {e e' : Expr} {nodes : List Node} {body : List Stmt}
      {arms : List (Condition × List Node)}
      {r : List (Expr × List Stmt) × Option (List Stmt)}
      (he : e.resolve (env.resolution s) = .ok e')
      (hc : pattern.simplify.resolve renamed.rename = .ok case)
      (hf : P path (.ofPattern s renamed pattern.simplify case []))
      (hb : ScopedBody (.ofPattern s renamed pattern.simplify case [] :: path)
        (s.extend renamed pattern.simplify.names) nodes body)
      (h : ScopedArms path s p otherwise arms r) :
      ScopedArms path s p otherwise ((.matches pattern e, nodes) :: arms)
        ([], some [.select p (.value e')
          [(case, none, body), (.wildcard p, none, Gen.branchOf p r)]])

/-- Cases and their statements, up to one that every value takes. -/
inductive ScopedCases : List Frame → Scope → List (Pattern × Option Expr × List Node) →
    List (Pattern × Option Expr × List Stmt) → Prop where
  | nil {path : List Frame} {s : Scope} : ScopedCases path s [] []
  | last {path : List Frame} {s renamed : Scope} {pattern case : Pattern}
      {nodes : List Node} {body : List Stmt} {arms : List (Pattern × Option Expr × List Node)}
      (hc : pattern.simplify.resolve renamed.rename = .ok case)
      (hf : P path (.ofPattern s renamed pattern.simplify case []))
      (hb : ScopedBody (.ofPattern s renamed pattern.simplify case [] :: path)
        (s.extend renamed pattern.simplify.names) nodes body)
      (hlast : pattern.simplify.isCatchAll) :
      ScopedCases path s ((pattern, none, nodes) :: arms) [(case, none, body)]
  | cons {path : List Frame} {s renamed : Scope} {pattern case : Pattern}
      {guard guard' : Option Expr} {nodes : List Node} {body : List Stmt}
      {arms : List (Pattern × Option Expr × List Node)}
      {r : List (Pattern × Option Expr × List Stmt)}
      (hc : pattern.simplify.resolve renamed.rename = .ok case)
      (hg : guard.mapM
        (·.resolve (env.resolution (s.extend renamed pattern.simplify.names))) = .ok guard')
      (hf : P path (.ofPattern s renamed pattern.simplify case []))
      (hb : ScopedBody (.ofPattern s renamed pattern.simplify case [] :: path)
        (s.extend renamed pattern.simplify.names) nodes body)
      (h : ScopedCases path s arms r) :
      ScopedCases path s ((pattern, guard, nodes) :: arms) ((case, guard', body) :: r)

/-- The arguments of a call, the functions that are defined for its blocks, and what is passed. -/
inductive ScopedArguments : List Frame → Scope → List (Expr ⊕ List Node) → List Stmt →
    List Operand → Prop where
  | nil {path : List Frame} {s : Scope} : ScopedArguments path s [] [] []
  | value {path : List Frame} {s : Scope} {e e' : Expr} {args : List (Expr ⊕ List Node)}
      {defs : List Stmt} {ops : List Operand} (he : e.resolve (env.resolution s) = .ok e')
      (h : ScopedArguments path s args defs ops) :
      ScopedArguments path s (.inl e :: args) defs (.value e' :: ops)
  | block {path : List Frame} {s : Scope} {p : Nat} {name : String} {nodes : List Node}
      {body : List Stmt} {args : List (Expr ⊕ List Node)} {defs : List Stmt} {ops : List Operand}
      (hf : P path ⟨s, [name]⟩) (hb : ScopedBody (⟨s, [name]⟩ :: path) s nodes body)
      (h : ScopedArguments path s args defs ops) :
      ScopedArguments path s (.inr nodes :: args) (.define p name body :: defs) (.made name :: ops)

/-- The blocks after a call, and the functions that are defined for them. -/
inductive ScopedContents : List Frame → Scope → List (List Node) → List Stmt → List Operand →
    Prop where
  | nil {path : List Frame} {s : Scope} : ScopedContents path s [] [] []
  | cons {path : List Frame} {s : Scope} {p : Nat} {name : String} {nodes : List Node}
      {body : List Stmt} {blocks : List (List Node)} {defs : List Stmt} {ops : List Operand}
      (hf : P path ⟨s, [name]⟩) (hb : ScopedBody (⟨s, [name]⟩ :: path) s nodes body)
      (h : ScopedContents path s blocks defs ops) :
      ScopedContents path s (nodes :: blocks) (.define p name body :: defs) (.made name :: ops)

end

end Relation

/-! ## Accepted statements -/

namespace Stmt

variable {loops : Nat} {a b : List Stmt}

@[simp] theorem after_ok {n : Nat} {r : Except Refusal Unit} : after n r = .ok () ↔ r = .ok () :=
  Except.mapError_ok

-- the equations of the checks are made here, once for all the lemmas below
attribute [local simp] check checkAll checkArms checkOtherwise checkCases

theorem checkAll_append_ok : checkAll loops (a ++ b) = .ok () ↔
    checkAll loops a = .ok () ∧ checkAll loops b = .ok () := by
  induction a with
  | nil => simp
  | cons s a ih =>
    rw [List.cons_append, checkAll, checkAll, Except.seq_ok, Except.seq_ok, after_ok, after_ok, ih,
      and_assoc]

theorem checkAll_cons_ok {s : Stmt} : checkAll loops (s :: a) = .ok () ↔
    s.check loops = .ok () ∧ checkAll loops a = .ok () := by
  rw [checkAll, Except.seq_ok, after_ok]

theorem checkAll_single_ok {s : Stmt} : checkAll loops [s] = .ok () ↔ s.check loops = .ok () := by
  rw [checkAll_cons_ok, checkAll, and_iff_left rfl]

theorem check_branchOf_ok {p : Nat} {r : List (Expr × List Stmt) × Option (List Stmt)} :
    checkAll loops (Gen.branchOf p r) = .ok () ↔
      checkArms loops r.1 = .ok () ∧ checkOtherwise loops r.2 = .ok () := by
  obtain ⟨arms, otherwise⟩ := r
  cases arms with
  | nil => cases otherwise <;> simp [Gen.branchOf]
  | cons arm arms =>
    have : Gen.branchOf p (arm :: arms, otherwise) = [.branch p (arm :: arms) otherwise] := rfl
    rw [this, checkAll_single_ok, check, Except.seq_ok, after_ok]

theorem checkArms_cons_ok {e : Expr} {arms : List (Expr × List Stmt)} :
    checkArms loops ((e, a) :: arms) = .ok () ↔
      checkAll loops a = .ok () ∧ checkArms loops arms = .ok () := by
  rw [checkArms, Except.seq_ok, after_ok, after_ok]

theorem check_select_ok {p : Nat} {subject : Operand}
    {cases : List (Pattern × Option Expr × List Stmt)} :
    (select p subject cases).check loops = .ok () ↔ checkCases loops cases = .ok () := by
  rw [check, after_ok]

theorem checkCases_cons_ok {pattern : Pattern} {guard : Option Expr}
    {cases : List (Pattern × Option Expr × List Stmt)} :
    checkCases loops ((pattern, guard, a) :: cases) = .ok () ↔
      checkPattern pattern = .ok () ∧ checkAll loops a = .ok () ∧
        checkCases loops cases = .ok () := by
  rw [checkCases, Except.seq_ok, Except.seq_ok, after_ok, after_ok]

theorem check_loop_ok {p : Nat} {target : Pattern} {e : Expr}
    (h : (loop p target e a).check loops = .ok ()) : checkAll (loops + 1) a = .ok () := by
  rw [check] at h
  split at h
  · exact after_ok.mp h
  · cases h

/-- An accepted case binds the same names in all alternatives, `_` aside. -/
theorem mem_names_of_checkPattern {pattern : Pattern} (h : checkPattern pattern = .ok ()) :
    ∀ n ∈ pattern.bound, n ≠ "_" → n ∈ pattern.names := by
  unfold checkPattern at h
  split at h
  · exact (Pattern.captures_ok ‹_›).2
  · cases h

end Stmt

/-! ## Invariants of generation -/

/-- **An invariant of generation** below patterns for which `Q` holds: `I` relates the frames around
a place, the scope there and the number of fresh names, and it gives `P` for each block that is
entered. -/
structure Keeps (P : List Frame → Frame → Prop) (I : List Frame → Scope → Nat → Prop)
    (Q : Pattern → Prop) : Prop where
  mono : ∀ {path s k k'}, I path s k → k ≤ k' → I path s k'
  pattern : ∀ {path s k p k₁ renamed case}, I path s k → Q p →
    Gen.renamings s p.names [] k = .ok (renamed, k₁) →
    p.resolve renamed.rename = .ok case → (∀ n ∈ case.bound, n ≠ "_" → n ∈ case.names) →
    P path (.ofPattern s renamed p case []) ∧
      I (.ofPattern s renamed p case [] :: path) (s.extend renamed p.names) k₁
  item : ∀ {path s k p k₁ renamed case}, I path s k → Q p →
    Gen.renamings s p.names [] k = .ok (renamed, k₁) →
    p.resolve renamed.rename = .ok case → (∀ n ∈ case.bound, n ≠ "_" → n ∈ case.names) →
    P path (.ofPattern s renamed p case [Gen.freshName "item" (k₁ + 1)]) ∧
      I (.ofPattern s renamed p case [Gen.freshName "item" (k₁ + 1)] :: path)
        (s.extend renamed p.names) (k₁ + 1)
  content : ∀ {path s k}, I path s k →
    P path ⟨s, [Gen.freshName "content" (k + 1)]⟩ ∧
      I (⟨s, [Gen.freshName "content" (k + 1)]⟩ :: path) s (k + 1)

namespace Gen

variable {P : List Frame → Frame → Prop} {I : List Frame → Scope → Nat → Prop}
variable {Q : Pattern → Prop} {env : Env}

theorem bind_ok_eq {s inner renamed : Scope} {p : Pattern} {k k' : Nat}
    (h : bind s p k = .ok ((inner, renamed), k')) :
    renamings s p.names [] k = .ok (renamed, k') ∧ inner = s.extend renamed p.names := by
  obtain ⟨renamed', h, he⟩ := bind_pattern_ok.mp h
  cases he
  exact ⟨h, rfl⟩

/-- No text is pending at the end of the text that is written. -/
theorem scoped_flush {path : List Frame} {s : Scope} {p : Nat} {text : String} {ns : List Node}
    {stmts : List Stmt} (h : ScopedBody P env path s ns stmts) :
    ScopedBody P env path s ns (flush p text ++ stmts) := by
  unfold flush
  split
  · exact h
  · exact .write h

mutual

/-- **The statements of a body are scoped**: what an invariant gives holds at every block. -/
theorem body_scoped (hkeep : Keeps P I Q) : ∀ {ns : List Node} {path : List Frame} {s : Scope}
    {i p k k' loops : Nat} {pending : String} {r : List Stmt},
    (∀ q ∈ Node.patternsAll ns, Q q.simplify) → I path s k →
    body env s i p pending ns k = .ok (r, k') → Stmt.checkAll loops r = .ok () →
    ScopedBody P env path s ns r
  | [], _, _, _, _, _, _, _, _, _, _, _, h, _ => by
    obtain ⟨rfl, -⟩ := body_nil_ok.mp h
    simpa using scoped_flush ScopedBody.nil
  | n :: ns, _, _, _, _, _, _, _, _, _, hq, hi, h, hc => by
    simp only [Node.patternsAll, List.mem_append] at hq
    cases hp : n.plain? with
    | some text =>
      rw [body_cons_plain hp] at h
      exact .plain (by rw [hp]; rfl) (body_scoped hkeep (fun q hm => hq q (.inr hm)) hi h hc)
    | none =>
      obtain ⟨a, k₁, b, ha, hb, rfl⟩ := (body_cons_ok hp).mp h
      rw [List.append_assoc, Stmt.checkAll_append_ok, Stmt.checkAll_append_ok] at hc
      rw [List.append_assoc]
      exact scoped_flush (.node
        (node_scoped hkeep (fun q hm => hq q (.inl hm)) hi hp ha hc.2.1)
        (body_scoped hkeep (fun q hm => hq q (.inr hm)) (hkeep.mono hi (node_le ha)) hb hc.2.2))

theorem node_scoped (hkeep : Keeps P I Q) : ∀ {n : Node} {path : List Frame} {s : Scope}
    {i k k' loops : Nat} {r : List Stmt}, (∀ q ∈ n.patterns, Q q.simplify) → I path s k →
    n.plain? = none → node env s i n k = .ok (r, k') → Stmt.checkAll loops r = .ok () →
    ScopedNode P env path s n r
  | .text _ _, _, _, _, _, _, _, _, _, _, hp, _, _ => by cases hp
  | .comment _ _, _, _, _, _, _, _, _, _, _, hp, _, _ => by cases hp
  | .value p e raw, _, _, _, _, _, _, _, _, _, _, h, _ => by
    obtain ⟨e', he, rfl, -⟩ := node_value_ok.mp h
    exact .value he
  | .branch p arms otherwise, _, _, _, _, _, _, _, hq, hi, _, h, hc => by
    obtain ⟨r, hr, rfl⟩ := node_branch_ok.mp h
    rw [Stmt.check_branchOf_ok] at hc
    simp only [Node.patterns, List.mem_append] at hq
    exact .branch (arms_scoped hkeep rfl
      (fun ho hi h hc => alternative_scoped hkeep (fun q hm => hq q (.inr hm)) ho hi h hc)
      (fun q hm => hq q (.inl hm)) hi hr hc.1 hc.2)
  | .loop p pattern iterable nodes, _, _, _, _, _, _, _, hq, hi, _, h, hc => by
    simp only [Node.patterns, List.mem_cons] at hq
    have hpattern := hq pattern (.inl rfl)
    by_cases hp : pattern.simplify.isIrrefutable
    · obtain ⟨e', inner, renamed, k₁, target, body', he, hb, ht, -, hn, rfl⟩ :=
        (node_loop_plain_ok hp).mp h
      rw [Stmt.checkAll_single_ok] at hc
      obtain ⟨hr, rfl⟩ := bind_ok_eq hb
      have hsame : ∀ n ∈ target.bound, n ≠ "_" → n ∈ target.names := by
        intro n hn _
        rw [(Pattern.bound_resolve ht).1, Pattern.bound_of_isIrrefutable hp] at hn
        rwa [(Pattern.bound_resolve ht).2]
      obtain ⟨hP, hI⟩ := hkeep.pattern hi hpattern hr ht hsame
      exact .loop he ht hP
        (body_scoped hkeep (fun q hm => hq q (.inr hm)) hI hn (Stmt.check_loop_ok hc))
    · obtain ⟨e', inner, renamed, k₁, case, body', he, hb, hcase, -, hn, rfl⟩ :=
        (node_loop_skipping_ok hp).mp h
      rw [Stmt.checkAll_single_ok] at hc
      obtain ⟨hr, rfl⟩ := bind_ok_eq hb
      have hc := Stmt.check_loop_ok hc
      rw [Stmt.checkAll_single_ok, Stmt.check_select_ok, Stmt.checkCases_cons_ok] at hc
      obtain ⟨hP, hI⟩ := hkeep.item hi hpattern hr hcase (Stmt.mem_names_of_checkPattern hc.1)
      exact .skipping he hcase hP (body_scoped hkeep (fun q hm => hq q (.inr hm)) hI hn hc.2.1)
  | .cases p subject [], _, _, _, _, _, _, _, _, _, _, h, _ => by
    obtain ⟨e', he, rfl, -⟩ := node_cases_nil_ok.mp h
    exact .evaluate he
  | .cases p subject (arm :: arms), _, _, _, _, _, _, _, hq, hi, _, h, hc => by
    obtain ⟨e', cases', he, -, hr, rfl⟩ := (node_cases_ok (List.cons_ne_nil _ _)).mp h
    rw [Stmt.checkAll_single_ok, Stmt.check_select_ok] at hc
    rw [Node.patterns] at hq
    exact .cases he (cases_scoped hkeep hq hi hr hc)
  | .call p path args blocks, _, _, _, _, _, _, _, hq, hi, _, h, hc => by
    obtain ⟨defs, args', k₁, defs', contents', ha, hb, rfl⟩ := node_call_ok.mp h
    rw [Stmt.checkAll_append_ok, Stmt.checkAll_append_ok] at hc
    simp only [Node.patterns, List.mem_append] at hq
    exact .call (arguments_scoped hkeep (fun q hm => hq q (.inl hm)) hi ha hc.1.1)
      (contents_scoped hkeep (fun q hm => hq q (.inr hm)) (hkeep.mono hi (arguments_le ha)) hb
        hc.1.2)

theorem alternative_scoped (hkeep : Keeps P I Q) : ∀ {o : Option (List Node)}
    {path : List Frame} {s : Scope} {i p k k' loops : Nat} {nodes : List Node} {r : List Stmt},
    (∀ q ∈ Node.otherwisePatterns o, Q q.simplify) → o = some nodes → I path s k →
    alternative env s i p o k = .ok (r, k') → Stmt.checkAll loops r = .ok () →
    ScopedBody P env path s nodes r
  | none, _, _, _, _, _, _, _, _, _, _, ho, _, _, _ => by cases ho
  | some nodes, _, _, _, _, _, _, _, _, _, hq, ho, hi, h, hc => by
    cases ho
    rw [Node.otherwisePatterns] at hq
    rw [alternative_some] at h
    exact body_scoped hkeep hq hi h hc

theorem arms_scoped (hkeep : Keeps P I Q) {path : List Frame} {s : Scope} {p loops : Nat}
    {last : Bool} {o : Option (List Node)} {otherwise : Nat → Gen (List Stmt)}
    (hlast : last = o.isSome)
    (ho : ∀ {nodes i k k' r}, o = some nodes → I path s k → otherwise i k = .ok (r, k') →
      Stmt.checkAll loops r = .ok () → ScopedBody P env path s nodes r) :
    ∀ {arms : List (Condition × List Node)} {i k k' : Nat} {first : Bool}
      {r : List (Expr × List Stmt) × Option (List Stmt)},
    (∀ q ∈ Node.armPatterns arms, Q q.simplify) → I path s k →
    chain env s i first p last otherwise arms k = .ok (r, k') →
    Stmt.checkArms loops r.1 = .ok () → Stmt.checkOtherwise loops r.2 = .ok () →
    ScopedArms P env path s p o arms r
  | [], _, _, _, _, _, _, hi, h, hc, hc' => by
    obtain ⟨hl, -, stmts, hs, rfl⟩ | ⟨hl, rfl, -⟩ := chain_nil_ok.mp h
    · rw [hlast, Option.isSome_iff_exists] at hl
      obtain ⟨nodes, rfl⟩ := hl
      rw [Stmt.checkOtherwise] at hc'
      exact .otherwise (ho rfl hi hs hc')
    · rw [hlast, Option.isSome_eq_false_iff, Option.isNone_iff_eq_none] at hl
      subst hl
      exact .nil
  | (.holds e, nodes) :: arms, _, _, _, _, _, hq, hi, h, hc, hc' => by
    obtain ⟨e', body', k₁, arms', stmts, he, -, hb, hr, rfl⟩ := chain_holds_ok.mp h
    simp only [Node.armPatterns, List.mem_append] at hq
    rw [Stmt.checkArms_cons_ok] at hc
    exact .holds he (body_scoped hkeep (fun q hm => hq q (.inl hm)) hi hb hc.1)
      (arms_scoped hkeep hlast ho (fun q hm => hq q (.inr hm)) (hkeep.mono hi (body_le hb)) hr
        hc.2 hc')
  | (.matches pattern e, nodes) :: arms, _, _, _, _, _, hq, hi, h, hc, hc' => by
    obtain ⟨i', e', inner, renamed, k₁, case, body', k₂, -, -, hbind, he, hcase, -, hb, h⟩ :=
      chain_matches_ok.mp h
    obtain ⟨hr, rfl⟩ := bind_ok_eq hbind
    simp only [Node.armPatterns, List.mem_cons, List.mem_append] at hq
    have hpattern := hq pattern (.inl rfl)
    have hbody := fun q hm => hq q (.inr (.inl hm))
    obtain ⟨hn, rfl, -⟩ | ⟨-, arms', stmts, hmore, rfl⟩ := h
    · rw [Stmt.checkOtherwise, Stmt.checkAll_single_ok, Stmt.check_select_ok,
        Stmt.checkCases_cons_ok] at hc'
      obtain ⟨hP, hI⟩ := hkeep.pattern hi hpattern hr hcase (Stmt.mem_names_of_checkPattern hc'.1)
      refine .last he hcase hP (body_scoped hkeep hbody hI hb hc'.2.1) ?_
      rwa [hlast, Option.isSome_eq_false_iff, Option.isNone_iff_eq_none] at hn
    · rw [Stmt.checkOtherwise, Stmt.checkAll_single_ok, Stmt.check_select_ok,
        Stmt.checkCases_cons_ok, Stmt.checkCases_cons_ok, Stmt.check_branchOf_ok] at hc'
      obtain ⟨hP, hI⟩ := hkeep.pattern hi hpattern hr hcase (Stmt.mem_names_of_checkPattern hc'.1)
      have hle := (bind_le hbind).trans (body_le hb)
      exact .matches he hcase hP (body_scoped hkeep hbody hI hb hc'.2.1)
        (arms_scoped hkeep hlast ho (fun q hm => hq q (.inr (.inr hm))) (hkeep.mono hi hle) hmore
          hc'.2.2.2.1.1 hc'.2.2.2.1.2)

theorem cases_scoped (hkeep : Keeps P I Q) :
    ∀ {arms : List (Pattern × Option Expr × List Node)} {path : List Frame} {s : Scope}
      {i p k k' loops : Nat} {r : List (Pattern × Option Expr × List Stmt)},
    (∀ q ∈ Node.casePatterns arms, Q q.simplify) → I path s k →
    cases env s i p arms k = .ok (r, k') → Stmt.checkCases loops r = .ok () →
    ScopedCases P env path s arms r
  | [], _, _, _, _, _, _, _, _, _, _, h, _ => by
    obtain ⟨rfl, -⟩ := cases_nil_ok.mp h
    exact .nil
  | (pattern, guard, nodes) :: arms, _, _, _, _, _, _, _, _, hq, hi, h, hc => by
    obtain ⟨inner, renamed, k₁, case, guard', body', k₂, hbind, hcase, hg, -, hb, h⟩ :=
      cases_cons_ok.mp h
    obtain ⟨hr, rfl⟩ := bind_ok_eq hbind
    simp only [Node.casePatterns, List.mem_cons, List.mem_append] at hq
    have hpattern := hq pattern (.inl rfl)
    have hbody := fun q hm => hq q (.inr (.inl hm))
    obtain ⟨⟨rfl, hcatch⟩, rfl, -⟩ | ⟨-, rest, hrest, rfl⟩ := h
    · rw [Stmt.checkCases_cons_ok] at hc
      obtain ⟨hP, hI⟩ := hkeep.pattern hi hpattern hr hcase (Stmt.mem_names_of_checkPattern hc.1)
      cases hg
      exact .last hcase hP (body_scoped hkeep hbody hI hb hc.2.1) hcatch
    · rw [Stmt.checkCases_cons_ok] at hc
      obtain ⟨hP, hI⟩ := hkeep.pattern hi hpattern hr hcase (Stmt.mem_names_of_checkPattern hc.1)
      have hle := (bind_le hbind).trans (body_le hb)
      exact .cons hcase hg hP (body_scoped hkeep hbody hI hb hc.2.1)
        (cases_scoped hkeep (fun q hm => hq q (.inr (.inr hm))) (hkeep.mono hi hle) hrest hc.2.2)

theorem arguments_scoped (hkeep : Keeps P I Q) : ∀ {args : List (Expr ⊕ List Node)}
    {path : List Frame} {s : Scope} {i p k k' loops : Nat} {defs : List Stmt}
    {ops : List Operand}, (∀ q ∈ Node.argumentPatterns args, Q q.simplify) → I path s k →
    arguments env s i p args k = .ok ((defs, ops), k') → Stmt.checkAll loops defs = .ok () →
    ScopedArguments P env path s args defs ops
  | [], _, _, _, _, _, _, _, _, _, _, _, h, _ => by
    obtain ⟨hr, -⟩ := arguments_nil_ok.mp h
    cases hr
    exact .nil
  | .inl e :: args, _, _, _, _, _, _, _, _, _, hq, hi, h, hc => by
    obtain ⟨e', defs', args', he, ha, hr⟩ := arguments_value_ok.mp h
    cases hr
    rw [Node.argumentPatterns] at hq
    exact .value he (arguments_scoped hkeep hq hi ha hc)
  | .inr nodes :: args, _, _, _, _, _, _, _, _, _, hq, hi, h, hc => by
    obtain ⟨body', k₁, defs', args', -, hb, ha, hr⟩ := arguments_block_ok.mp h
    cases hr
    simp only [Node.argumentPatterns, List.mem_append] at hq
    obtain ⟨hP, hI⟩ := hkeep.content hi
    rw [Stmt.checkAll_cons_ok, Stmt.check, Stmt.after_ok] at hc
    have hle := Nat.le_of_succ_le (body_le hb)
    exact .block hP (body_scoped hkeep (fun q hm => hq q (.inl hm)) hI hb hc.1)
      (arguments_scoped hkeep (fun q hm => hq q (.inr hm)) (hkeep.mono hi hle) ha hc.2)

theorem contents_scoped (hkeep : Keeps P I Q) : ∀ {blocks : List (List Node)}
    {path : List Frame} {s : Scope} {i p k k' loops : Nat} {defs : List Stmt}
    {ops : List Operand}, (∀ q ∈ Node.blockPatterns blocks, Q q.simplify) → I path s k →
    contents env s i p blocks k = .ok ((defs, ops), k') → Stmt.checkAll loops defs = .ok () →
    ScopedContents P env path s blocks defs ops
  | [], _, _, _, _, _, _, _, _, _, _, _, h, _ => by
    obtain ⟨hr, -⟩ := contents_nil_ok.mp h
    cases hr
    exact .nil
  | nodes :: blocks, _, _, _, _, _, _, _, _, _, hq, hi, h, hc => by
    obtain ⟨body', k₁, defs', args', -, hb, hd, hr⟩ := contents_cons_ok.mp h
    cases hr
    simp only [Node.blockPatterns, List.mem_append] at hq
    obtain ⟨hP, hI⟩ := hkeep.content hi
    rw [Stmt.checkAll_cons_ok, Stmt.check, Stmt.after_ok] at hc
    have hle := Nat.le_of_succ_le (body_le hb)
    exact .cons hP (body_scoped hkeep (fun q hm => hq q (.inl hm)) hI hb hc.1)
      (contents_scoped hkeep (fun q hm => hq q (.inr hm)) (hkeep.mono hi hle) hd hc.2)

end

end Gen

end Stencil
