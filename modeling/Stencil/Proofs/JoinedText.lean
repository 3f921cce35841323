import Mathlib.Data.List.Chain
import Stencil.Proofs.BlockStructure
import Stencil.Proofs.BranchChains
import Stencil.Proofs.UnplacedCode

/-!
# Texts and comments in generated code

How the text of a body is cut into pieces, and where comments stand between them, leaves no trace in
generated code.

* `Node.joinedAll`: a body without its comments and with its neighbouring texts joined, at every
  depth.
* `Gen.body_joinedAll`: the statements of a body are those of the joined body.
* `Stmt.JoinedAll`: no two writes stand next to each other in a body, and none writes an empty text.
* `Gen.joinedAll_of_body`: generated statements are so.
* **`Template.render_joined`**: what is generated depends on the joined body alone, and no write
  follows a write of the same block.
-/

namespace Stencil

/-! ## Joined bodies -/

namespace Node

/-- **A node put before a body**: a comment is dropped, and a text is joined with one that the body
starts with. -/
def before : Node → List Node → List Node
  | comment _ _, ns => ns
  | text p t, text _ t' :: ns => text p (t ++ t') :: ns
  | n, ns => n :: ns

mutual

/-- A node with the bodies inside it joined. -/
def joined : Node → Node
  | text p t => .text p t
  | value p e raw => .value p e raw
  | comment p t => .comment p t
  | branch p arms otherwise => .branch p (joinedArms arms) (joinedOtherwise otherwise)
  | loop p pattern e body => .loop p pattern e (joinedAll body)
  | cases p e arms => .cases p e (joinedCases arms)
  | call p path args blocks => .call p path (joinedArguments args) (joinedBlocks blocks)

/-- **A body without its comments and with its neighbouring texts joined**, at every depth. -/
def joinedAll : List Node → List Node
  | [] => []
  | n :: ns => n.joined.before (joinedAll ns)

/-- Arms with their bodies joined. -/
def joinedArms : List (Condition × List Node) → List (Condition × List Node)
  | [] => []
  | (c, body) :: arms => (c, joinedAll body) :: joinedArms arms

/-- What is done if no arm is taken, joined. -/
def joinedOtherwise : Option (List Node) → Option (List Node)
  | none => none
  | some body => some (joinedAll body)

/-- Cases with their bodies joined. -/
def joinedCases : List (Pattern × Option Expr × List Node) →
    List (Pattern × Option Expr × List Node)
  | [] => []
  | (pattern, guard, body) :: arms => (pattern, guard, joinedAll body) :: joinedCases arms

/-- Arguments with their bodies joined. -/
def joinedArguments : List (Expr ⊕ List Node) → List (Expr ⊕ List Node)
  | [] => []
  | .inl e :: args => .inl e :: joinedArguments args
  | .inr body :: args => .inr (joinedAll body) :: joinedArguments args

/-- Blocks, joined. -/
def joinedBlocks : List (List Node) → List (List Node)
  | [] => []
  | body :: blocks => joinedAll body :: joinedBlocks blocks

end

theorem plain?_joined (n : Node) : n.joined.plain? = n.plain? := by
  cases n <;> rfl

end Node

/-! ## Generation from joined bodies -/

namespace Gen

variable (env : Env)

/-- Where neighbouring texts are joined does not show. -/
theorem body_before (n : Node) (ns : List Node) (s : Scope) (i p : Nat) (pending : String) :
    body env s i p pending (n.before ns) = body env s i p pending (n :: ns) := by
  cases n with
  | comment q t => simp only [Node.before, body, Node.plain?, String.append_empty]
  | text q t =>
    cases ns with
    | nil => rfl
    | cons m ns =>
      cases m with
      | text q' t' => simp only [Node.before, body, Node.plain?, String.append_assoc]
      | _ => rfl
  | _ => rfl

mutual

/-- **A body has the statements of the joined body.** -/
theorem body_joinedAll : ∀ (ns : List Node) (s : Scope) (i p : Nat) (pending : String),
    body env s i p pending (Node.joinedAll ns) = body env s i p pending ns
  | [], _, _, _, _ => rfl
  | n :: ns, s, i, p, pending => by
    simp only [Node.joinedAll, body_before, body, Node.plain?_joined, node_joined n,
      body_joinedAll ns]

theorem node_joined : ∀ (n : Node) (s : Scope) (i : Nat),
    node env s i n.joined = node env s i n
  | .text _ _, _, _ => rfl
  | .comment _ _, _, _ => rfl
  | .value _ _ _, _, _ => rfl
  | .branch p arms otherwise, s, i => by
    have ho : (alternative env s · p (Node.joinedOtherwise otherwise)) =
        (alternative env s · p otherwise) := funext fun i => alternative_joined otherwise s i p
    have hsome : (Node.joinedOtherwise otherwise).isSome = otherwise.isSome := by
      cases otherwise <;> rfl
    simp only [Node.joined, node, ho, hsome, chain_joined arms]
  | .loop p pattern iterable nodes, s, i => by simp only [Node.joined, node, body_joinedAll nodes]
  | .cases p subject arms, s, i => by
    have hempty : (Node.joinedCases arms).isEmpty = arms.isEmpty := by
      cases arms <;> rfl
    simp only [Node.joined, node, hempty, cases_joined arms]
  | .call p path args blocks, s, i => by
    simp only [Node.joined, node, arguments_joined args, contents_joined blocks]

theorem alternative_joined : ∀ (o : Option (List Node)) (s : Scope) (i p : Nat),
    alternative env s i p (Node.joinedOtherwise o) = alternative env s i p o
  | none, _, _, _ => rfl
  | some nodes, s, i, p => body_joinedAll nodes s i p ""

theorem chain_joined : ∀ (arms : List (Condition × List Node)) (s : Scope) (i : Nat)
    (first : Bool) (p : Nat) (last : Bool) (otherwise : Nat → Gen (List Stmt)),
    chain env s i first p last otherwise (Node.joinedArms arms) =
      chain env s i first p last otherwise arms
  | [], _, _, _, _, _, _ => rfl
  | (.holds e, nodes) :: arms, s, i, first, p, last, otherwise => by
    simp only [Node.joinedArms, chain, body_joinedAll nodes, chain_joined arms]
  | (.matches pattern e, nodes) :: arms, s, i, first, p, last, otherwise => by
    have hempty : (Node.joinedArms arms).isEmpty = arms.isEmpty := by
      cases arms <;> rfl
    simp only [Node.joinedArms, chain, hempty, body_joinedAll nodes, chain_joined arms]

theorem cases_joined : ∀ (arms : List (Pattern × Option Expr × List Node)) (s : Scope)
    (i p : Nat), cases env s i p (Node.joinedCases arms) = cases env s i p arms
  | [], _, _, _ => rfl
  | (pattern, guard, nodes) :: arms, s, i, p => by
    simp only [Node.joinedCases, cases, body_joinedAll nodes, cases_joined arms]

theorem arguments_joined : ∀ (args : List (Expr ⊕ List Node)) (s : Scope) (i p : Nat),
    arguments env s i p (Node.joinedArguments args) = arguments env s i p args
  | [], _, _, _ => rfl
  | .inl e :: args, s, i, p => by
    simp only [Node.joinedArguments, arguments, arguments_joined args]
  | .inr nodes :: args, s, i, p => by
    simp only [Node.joinedArguments, arguments, body_joinedAll nodes, arguments_joined args]

theorem contents_joined : ∀ (blocks : List (List Node)) (s : Scope) (i p : Nat),
    contents env s i p (Node.joinedBlocks blocks) = contents env s i p blocks
  | [], _, _, _ => rfl
  | nodes :: blocks, s, i, p => by
    simp only [Node.joinedBlocks, contents, body_joinedAll nodes, contents_joined blocks]

end

end Gen

/-! ## Joined statements -/

namespace Stmt

def isWrite : Stmt → Bool
  | write _ _ => true
  | _ => false

mutual

/-- **A statement is joined**: its bodies are, its branches have an arm, and a write has a text. -/
def Joined : Stmt → Prop
  | write _ t => t ≠ ""
  | interpolate .. | evaluate .. | call .. => True
  | define _ _ body => JoinedAll body
  | branch _ arms otherwise => arms ≠ [] ∧ JoinedArms arms ∧ JoinedOtherwise otherwise
  | loop _ _ _ body => JoinedAll body
  | select _ _ cases => JoinedCases cases

/-- **The statements of a body are joined**: no two writes stand next to each other. -/
def JoinedAll : List Stmt → Prop
  | [] => True
  | s :: ss => s.Joined ∧ JoinedAll ss ∧ (s.isWrite → ∀ s' ∈ ss.head?, ¬ s'.isWrite)

/-- The arms of a branch are joined. -/
def JoinedArms : List (Expr × List Stmt) → Prop
  | [] => True
  | (_, body) :: arms => JoinedAll body ∧ JoinedArms arms

/-- What is done if no arm is taken is joined. -/
def JoinedOtherwise : Option (List Stmt) → Prop
  | none => True
  | some body => JoinedAll body

/-- Cases are joined. -/
def JoinedCases : List (Pattern × Option Expr × List Stmt) → Prop
  | [] => True
  | (_, _, body) :: cases => JoinedAll body ∧ JoinedCases cases

end

/-- Statements that can stand between writes. -/
def NoWrites (ss : List Stmt) : Prop := ∀ s ∈ ss, ¬ s.isWrite

theorem noWrites_cons {s : Stmt} {ss : List Stmt} (hs : s.isWrite = false) (h : NoWrites ss) :
    NoWrites (s :: ss) :=
  List.forall_mem_cons.mpr ⟨by rw [hs]; exact Bool.false_ne_true, h⟩

theorem NoWrites.append {ss ss' : List Stmt} (h : NoWrites ss) (h' : NoWrites ss') :
    NoWrites (ss ++ ss') := List.forall_mem_append.mpr ⟨h, h'⟩

theorem joinedAll_single {s : Stmt} (h : s.Joined) : JoinedAll [s] := by
  rw [JoinedAll, JoinedAll]
  exact ⟨h, trivial, fun _ _ hs' => by cases hs'⟩

/-- Statements can be put before others if there is no write where they meet. -/
theorem JoinedAll.append {ss ss' : List Stmt} (h : JoinedAll ss) (h' : JoinedAll ss')
    (hmeet : NoWrites ss ∨ ∀ s ∈ ss'.head?, ¬ s.isWrite) : JoinedAll (ss ++ ss') := by
  induction ss with
  | nil => exact h'
  | cons s ss ih =>
    rw [JoinedAll] at h
    obtain ⟨hs, hss, hnext⟩ := h
    rw [List.cons_append, JoinedAll]
    refine ⟨hs, ih hss (hmeet.imp_left fun hno s' hs' => hno s' (.tail s hs')), fun hw s' hs' => ?_⟩
    cases ss with
    | nil =>
      rcases hmeet with hno | hmeet
      · exact absurd hw (hno s List.mem_cons_self)
      · exact hmeet s' hs'
    | cons t ss => exact hnext hw s' hs'

end Stmt

namespace Node

/-- A branch without an arm; no text of a template has one. -/
def isArmless : Node → Bool
  | branch _ [] _ => true
  | _ => false

end Node

namespace Gen

open Stmt Node

variable {env : Env}

theorem joinedAll_flush (p : Nat) (text : String) : JoinedAll (flush p text) := by
  unfold flush
  split
  · rw [JoinedAll]; trivial
  · rename_i htext
    exact joinedAll_single (by rw [Stmt.Joined]; exact htext)

/-- What comes between two texts keeps their writes apart. -/
theorem joinedAll_between {p : Nat} {text : String} {ss ss' : List Stmt} (h : JoinedAll ss)
    (hne : ss ≠ []) (hno : NoWrites ss) (h' : JoinedAll ss') :
    JoinedAll (flush p text ++ ss ++ ss') := by
  have hfirst : ∀ s ∈ ss.head?, ¬ s.isWrite := fun s hs => hno s (List.mem_of_mem_head? hs)
  rw [List.append_assoc]
  refine (joinedAll_flush p text).append (h.append h' (.inl hno)) (.inr fun s hs => ?_)
  rw [List.head?_append_of_ne_nil _ hne] at hs
  exact hfirst s hs

/-- One statement that is no write. -/
theorem joined_one {s : Stmt} (h : s.Joined) (hno : s.isWrite = false) :
    JoinedAll [s] ∧ [s] ≠ [] ∧ NoWrites [s] :=
  ⟨joinedAll_single h, List.cons_ne_nil _ _, noWrites_cons hno nofun⟩

theorem joinedAll_branchOf {p : Nat} {r : List (Expr × List Stmt) × Option (List Stmt)}
    (harms : JoinedArms r.1) (hotherwise : JoinedOtherwise r.2) : JoinedAll (branchOf p r) := by
  obtain ⟨arms, otherwise⟩ := r
  cases arms with
  | nil =>
    cases otherwise with
    | none => trivial
    | some body => exact hotherwise
  | cons arm arms =>
    refine joinedAll_single ?_
    rw [Stmt.Joined]
    exact ⟨List.cons_ne_nil _ _, harms, hotherwise⟩

theorem joined_define {p : Nat} {name : String} {body defs : List Stmt} (hbody : JoinedAll body)
    (hdefs : JoinedAll defs) (hno : NoWrites defs) :
    JoinedAll (.define p name body :: defs) ∧ NoWrites (.define p name body :: defs) := by
  rw [JoinedAll, Stmt.Joined]
  exact ⟨⟨hbody, hdefs, nofun⟩, noWrites_cons rfl hno⟩

mutual

/-- **Generated statements are joined.** -/
theorem joinedAll_of_body : ∀ {ns : List Node} {s : Scope} {i p k k' : Nat} {pending : String}
    {r : List Stmt}, (∀ n ∈ nodesAll ns, ¬ n.isArmless) →
    body env s i p pending ns k = .ok (r, k') → JoinedAll r
  | [], _, _, _, _, _, _, _, _, h => by
    obtain ⟨rfl, -⟩ := body_nil_ok.mp h
    exact joinedAll_flush _ _
  | n :: ns, _, _, _, _, _, _, _, harms, h => by
    have hn : ∀ m ∈ n.nodes, ¬ m.isArmless := fun m hm => harms m (List.mem_append_left _ hm)
    have hns : ∀ m ∈ nodesAll ns, ¬ m.isArmless := fun m hm => harms m (List.mem_append_right _ hm)
    cases hp : n.plain? with
    | some text =>
      rw [body_cons_plain hp] at h
      exact joinedAll_of_body hns h
    | none =>
      obtain ⟨a, k₁, b, ha, hb, rfl⟩ := (body_cons_ok hp).mp h
      obtain ⟨hjoined, hne, hno⟩ := joinedAll_of_node hn hp ha
      exact joinedAll_between hjoined hne hno (joinedAll_of_body hns hb)

theorem joinedAll_of_node : ∀ {n : Node} {s : Scope} {i k k' : Nat} {r : List Stmt},
    (∀ m ∈ n.nodes, ¬ m.isArmless) → n.plain? = none → node env s i n k = .ok (r, k') →
    JoinedAll r ∧ r ≠ [] ∧ NoWrites r
  | .text _ _, _, _, _, _, _, _, hp, _ | .comment _ _, _, _, _, _, _, _, hp, _ => by cases hp
  | .value p e raw, _, _, _, _, _, _, _, h => by
    obtain ⟨e', -, rfl, -⟩ := node_value_ok.mp h
    exact joined_one (by rw [Stmt.Joined]; trivial) rfl
  | .branch p arms otherwise, _, i, _, _, _, harms, _, h => by
    obtain ⟨r, hr, rfl⟩ := node_branch_ok.mp h
    rw [Node.nodes, List.forall_mem_cons, List.forall_mem_append] at harms
    obtain ⟨hself, hinside, hlast⟩ := harms
    have hne : arms ≠ [] := by
      rintro rfl
      exact hself rfl
    obtain ⟨hjoined, hno⟩ := joined_of_chain (fun h => joinedAll_of_alternative hlast h) hinside hr
    exact ⟨joinedAll_branchOf hjoined.1 hjoined.2, hno hne⟩
  | .loop p pattern e nodes, _, _, _, _, _, harms, _, h => by
    rw [Node.nodes, List.forall_mem_cons] at harms
    by_cases hp : pattern.simplify.isIrrefutable
    · obtain ⟨e', inner, renamed, k₁, target, body', -, -, -, -, hbody, rfl⟩ :=
        (node_loop_plain_ok hp).mp h
      refine joined_one ?_ rfl
      rw [Stmt.Joined]
      exact joinedAll_of_body harms.2 hbody
    · obtain ⟨e', inner, renamed, k₁, case, body', -, -, -, -, hbody, rfl⟩ :=
        (node_loop_skipping_ok hp).mp h
      refine joined_one ?_ rfl
      rw [Stmt.Joined]
      refine joinedAll_single ?_
      rw [Stmt.Joined, JoinedCases, JoinedCases]
      exact ⟨joinedAll_of_body harms.2 hbody, trivial⟩
  | .cases p e [], _, _, _, _, _, _, _, h => by
    obtain ⟨e', -, rfl, -⟩ := node_cases_nil_ok.mp h
    exact joined_one (by rw [Stmt.Joined]; trivial) rfl
  | .cases p e (arm :: arms), _, _, _, _, _, harms, _, h => by
    obtain ⟨e', cases', -, -, hr, rfl⟩ := (node_cases_ok (List.cons_ne_nil _ _)).mp h
    rw [Node.nodes, List.forall_mem_cons] at harms
    refine joined_one ?_ rfl
    rw [Stmt.Joined]
    exact joined_of_cases harms.2 hr
  | .call p path args blocks, s, _, _, _, _, harms, _, h => by
    obtain ⟨defs, args', k₁, defs', contents', ha, hb, rfl⟩ := node_call_ok.mp h
    rw [Node.nodes, List.forall_mem_cons, List.forall_mem_append] at harms
    obtain ⟨hdefs, hno⟩ := joined_of_arguments harms.2.1 ha
    obtain ⟨hdefs', hno'⟩ := joined_of_contents harms.2.2 hb
    obtain ⟨hcall, -, hcallno⟩ := joined_one
      (s := .call p (env.context.target env.self s path) (args' ++ contents'))
      (by rw [Stmt.Joined]; trivial) rfl
    refine ⟨(hdefs.append hdefs' (.inl hno)).append hcall (.inl (hno.append hno')), by simp,
      (hno.append hno').append hcallno⟩

theorem joinedAll_of_alternative : ∀ {o : Option (List Node)} {s : Scope} {i p k k' : Nat}
    {r : List Stmt}, (∀ n ∈ otherwiseNodes o, ¬ n.isArmless) →
    alternative env s i p o k = .ok (r, k') → JoinedAll r
  | none, _, _, _, _, _, _, _, h => by
    obtain ⟨rfl, -⟩ := alternative_none_ok.mp h
    rw [JoinedAll]
    trivial
  | some nodes, _, _, _, _, _, _, harms, h => by
    rw [alternative_some] at h
    exact joinedAll_of_body harms h

theorem joined_of_chain {s : Scope} {p : Nat} {last : Bool} {otherwise : Nat → Gen (List Stmt)}
    (ho : ∀ {i k k' r}, otherwise i k = .ok (r, k') → JoinedAll r) :
    ∀ {arms : List (Condition × List Node)} {i k k' : Nat} {first : Bool}
      {r : List (Expr × List Stmt) × Option (List Stmt)},
    (∀ n ∈ armNodes arms, ¬ n.isArmless) →
    chain env s i first p last otherwise arms k = .ok (r, k') →
    (JoinedArms r.1 ∧ JoinedOtherwise r.2) ∧
      (arms ≠ [] → branchOf p r ≠ [] ∧ NoWrites (branchOf p r))
  | [], _, _, _, _, _, _, h => by
    obtain ⟨-, -, stmts, hs, rfl⟩ | ⟨-, rfl, -⟩ := chain_nil_ok.mp h
    · rw [JoinedArms, JoinedOtherwise]
      exact ⟨⟨trivial, ho hs⟩, absurd rfl⟩
    · rw [JoinedArms, JoinedOtherwise]
      exact ⟨⟨trivial, trivial⟩, absurd rfl⟩
  | (.holds e, nodes) :: arms, _, _, _, _, _, harms, h => by
    obtain ⟨e', body', k₁, arms', stmts, -, -, hb, hr, rfl⟩ := chain_holds_ok.mp h
    rw [armNodes, List.forall_mem_append] at harms
    obtain ⟨hrest, -⟩ := joined_of_chain ho harms.2 hr
    rw [JoinedArms]
    exact ⟨⟨⟨joinedAll_of_body harms.1 hb, hrest.1⟩, hrest.2⟩, fun _ =>
      ⟨List.cons_ne_nil _ _, noWrites_cons rfl nofun⟩⟩
  | (.matches pattern e, nodes) :: arms, _, _, _, _, r, harms, h => by
    obtain ⟨i', e', inner, renamed, k₁, case, body', k₂, -, -, -, -, -, -, hb, h⟩ :=
      chain_matches_ok.mp h
    rw [armNodes, List.forall_mem_append] at harms
    have hbody := joinedAll_of_body harms.1 hb
    suffices hs : ∃ cases, r = ([], some [.select p (.value e') cases]) ∧ JoinedCases cases by
      obtain ⟨cases, rfl, hcases⟩ := hs
      rw [JoinedArms, JoinedOtherwise]
      exact ⟨⟨trivial, joinedAll_single (by rw [Stmt.Joined]; exact hcases)⟩, fun _ =>
        ⟨List.cons_ne_nil _ _, noWrites_cons rfl nofun⟩⟩
    obtain ⟨-, rfl, -⟩ | ⟨-, arms', stmts, hrest, rfl⟩ := h
    · refine ⟨_, rfl, ?_⟩
      rw [JoinedCases, JoinedCases]
      exact ⟨hbody, trivial⟩
    · obtain ⟨hjoined, -⟩ := joined_of_chain ho harms.2 hrest
      refine ⟨_, rfl, ?_⟩
      rw [JoinedCases, JoinedCases, JoinedCases]
      exact ⟨hbody, joinedAll_branchOf hjoined.1 hjoined.2, trivial⟩

theorem joined_of_cases : ∀ {arms : List (Pattern × Option Expr × List Node)} {s : Scope}
    {i p k k' : Nat} {r : List (Pattern × Option Expr × List Stmt)},
    (∀ n ∈ caseNodes arms, ¬ n.isArmless) → cases env s i p arms k = .ok (r, k') → JoinedCases r
  | [], _, _, _, _, _, _, _, h => by
    obtain ⟨rfl, -⟩ := cases_nil_ok.mp h
    rw [JoinedCases]
    trivial
  | (pattern, guard, nodes) :: arms, _, _, _, _, _, _, harms, h => by
    obtain ⟨inner, renamed, k₁, case, guard', body', k₂, -, -, -, -, hb, h⟩ :=
      cases_cons_ok.mp h
    rw [caseNodes, List.forall_mem_append] at harms
    have hbody := joinedAll_of_body harms.1 hb
    obtain ⟨-, rfl, -⟩ | ⟨-, rest, hrest, rfl⟩ := h
    · rw [JoinedCases, JoinedCases]
      exact ⟨hbody, trivial⟩
    · rw [JoinedCases]
      exact ⟨hbody, joined_of_cases harms.2 hrest⟩

theorem joined_of_arguments : ∀ {args : List (Expr ⊕ List Node)} {s : Scope} {i p k k' : Nat}
    {defs : List Stmt} {ops : List Operand}, (∀ n ∈ argumentNodes args, ¬ n.isArmless) →
    arguments env s i p args k = .ok ((defs, ops), k') → JoinedAll defs ∧ NoWrites defs
  | [], _, _, _, _, _, _, _, _, h => by
    obtain ⟨hr, -⟩ := arguments_nil_ok.mp h
    cases hr
    rw [JoinedAll]
    exact ⟨trivial, nofun⟩
  | .inl e :: args, _, _, _, _, _, _, _, harms, h => by
    obtain ⟨e', defs', args', -, ha, hr⟩ := arguments_value_ok.mp h
    cases hr
    rw [argumentNodes] at harms
    exact joined_of_arguments harms ha
  | .inr nodes :: args, _, _, _, _, _, _, _, harms, h => by
    obtain ⟨body', k₁, defs', args', -, hb, ha, hr⟩ := arguments_block_ok.mp h
    cases hr
    rw [argumentNodes, List.forall_mem_append] at harms
    obtain ⟨hdefs, hno⟩ := joined_of_arguments harms.2 ha
    exact joined_define (joinedAll_of_body harms.1 hb) hdefs hno

theorem joined_of_contents : ∀ {blocks : List (List Node)} {s : Scope} {i p k k' : Nat}
    {defs : List Stmt} {ops : List Operand}, (∀ n ∈ blockNodes blocks, ¬ n.isArmless) →
    contents env s i p blocks k = .ok ((defs, ops), k') → JoinedAll defs ∧ NoWrites defs
  | [], _, _, _, _, _, _, _, _, h => by
    obtain ⟨hr, -⟩ := contents_nil_ok.mp h
    cases hr
    rw [JoinedAll]
    exact ⟨trivial, nofun⟩
  | nodes :: blocks, _, _, _, _, _, _, _, harms, h => by
    obtain ⟨body', k₁, defs', args', -, hb, hd, hr⟩ := contents_cons_ok.mp h
    cases hr
    rw [blockNodes, List.forall_mem_append] at harms
    obtain ⟨hdefs, hno⟩ := joined_of_contents harms.2 hd
    exact joined_define (joinedAll_of_body harms.1 hb) hdefs hno

end

end Gen

/-! ## Lines of joined statements -/

namespace Line

def isWrite (l : Line) : Bool :=
  match l.head with
  | .write _ => true
  | _ => false

/-- **Lines without a write that follows a write of the same block**, and without an empty write.
Lines next to each other stand in the same block if their levels are the same. -/
structure Joined (ls : List Line) : Prop where
  apart : ls.IsChain fun l l' => ¬ (l.isWrite ∧ l'.isWrite ∧ l.indent = l'.indent)
  nonempty : ∀ l ∈ ls, l.head ≠ .write ""

variable {l : Line} {ls ls' : List Line}

theorem joined_nil : Joined [] := ⟨.nil, nofun⟩

theorem joined_cons (hl : l.isWrite = false) (h : Joined ls) : Joined (l :: ls) where
  apart := List.isChain_cons.mpr ⟨fun l' _ hw => absurd hw.1 (by simp [hl]), h.apart⟩
  nonempty := List.forall_mem_cons.mpr ⟨fun hw => by simp [isWrite, hw] at hl, h.nonempty⟩

theorem Joined.append (h : Joined ls) (h' : Joined ls')
    (hmeet : ∀ l ∈ ls, ∀ l' ∈ ls'.head?, ¬ (l.isWrite ∧ l'.isWrite ∧ l.indent = l'.indent)) :
    Joined (ls ++ ls') where
  apart := List.isChain_append.mpr
    ⟨h.apart, h'.apart, fun l hl l' hl' => hmeet l (List.mem_of_getLast? hl) l' hl'⟩
  nonempty := List.forall_mem_append.mpr ⟨h.nonempty, h'.nonempty⟩

theorem Joined.append_of_head (h : Joined ls) (h' : Joined ls')
    (hhead : ∀ l' ∈ ls'.head?, l'.isWrite = false) : Joined (ls ++ ls') :=
  h.append h' fun _ _ l' hl' hw => by
    rw [hhead l' hl'] at hw
    cases hw.2.1

/-- The lines of a body, or the one that does nothing, below a head. -/
theorem Joined.block {i j p q : Nat} {head : Head} (h : Joined ls)
    (hhead : (Line.mk i head p).isWrite = false) :
    Joined (⟨i, head, p⟩ :: Stmt.orPass j q ls) := by
  refine joined_cons hhead ?_
  unfold Stmt.orPass
  split
  · exact joined_cons rfl joined_nil
  · exact h

end Line

namespace Stmt

open Line

theorem exists_lines_eq {s : Stmt} (i : Nat) (h : s.Joined) :
    ∃ l ls, s.lines i = l :: ls ∧ l.indent = i := by
  cases s with
  | branch p arms otherwise =>
    rw [Stmt.Joined] at h
    obtain ⟨⟨e, body⟩, arms, rfl⟩ := List.exists_cons_of_ne_nil h.1
    exact ⟨_, _, rfl, rfl⟩
  | _ => exact ⟨_, _, rfl, rfl⟩

/-- In a block there is no write at the level of its head. -/
theorem not_isWrite_block {i p q : Nat} {head : Head} {body : List Stmt} {l : Line}
    (hl : l ∈ ⟨i, head, p⟩ :: orPass (i + 1) q (linesAll (i + 1) body)) (hi : l.indent = i)
    (hhead : (Line.mk i head p).isWrite = false) : l.isWrite = false := by
  rcases List.mem_cons.mp hl with rfl | hl
  · exact hhead
  · have := lt_indent_body body l hl
    omega

theorem not_isWrite_armLines {i p : Nat} {l : Line} (hi : l.indent = i) :
    ∀ {arms : List (Expr × List Stmt)} {first : Bool}, l ∈ armLines i p first arms →
      l.isWrite = false
  | [], _, hl => by cases hl
  | (e, body) :: arms, first, hl => by
    rw [armLines, List.mem_append] at hl
    rcases hl with hl | hl
    · exact not_isWrite_block hl hi rfl
    · exact not_isWrite_armLines hi hl

/-- A write at the level of a statement is that statement. -/
theorem isWrite_of_mem_lines {s : Stmt} {i : Nat} {l : Line} (hl : l ∈ s.lines i)
    (hi : l.indent = i) (hw : l.isWrite) : s.isWrite := by
  by_contra hno
  suffices h : l.isWrite = false by
    rw [h] at hw
    cases hw
  cases s with
  | write p t => exact absurd rfl hno
  | interpolate p raw e => rw [List.mem_singleton.mp hl]; rfl
  | evaluate p e => rw [List.mem_singleton.mp hl]; rfl
  | call p target args => rw [List.mem_singleton.mp hl]; rfl
  | define p name body => exact not_isWrite_block hl hi rfl
  | branch p arms otherwise =>
    rw [lines, List.mem_append] at hl
    rcases hl with hl | hl
    · exact not_isWrite_armLines hi hl
    · cases otherwise with
      | none => cases hl
      | some body => exact not_isWrite_block hl hi rfl
  | loop p target e body => exact not_isWrite_block hl hi rfl
  | select p subject cases =>
    rcases List.mem_cons.mp hl with rfl | hl
    · rfl
    · have := le_indent_cases (i + 1) p cases l hl
      omega

/-- The first line of a body belongs to its first statement. -/
theorem isWrite_of_head? {ss : List Stmt} {i : Nat} {l : Line} (h : JoinedAll ss)
    (hl : l ∈ (linesAll i ss).head?) : l.indent = i ∧ (l.isWrite → ∃ s ∈ ss.head?, s.isWrite) := by
  cases ss with
  | nil => cases hl
  | cons s ss =>
    rw [JoinedAll] at h
    obtain ⟨k, ls, hlines, hi⟩ := exists_lines_eq i h.1
    rw [linesAll, hlines] at hl
    cases hl
    have hmem : l ∈ s.lines i := hlines ▸ List.mem_cons_self
    exact ⟨hi, fun hw => ⟨s, rfl, isWrite_of_mem_lines hmem hi hw⟩⟩

mutual

/-- **The lines of a joined statement are joined.** -/
theorem joined_lines : ∀ {s : Stmt} (i : Nat), s.Joined → Line.Joined (s.lines i)
  | write p t, i, h => by
    rw [Stmt.Joined] at h
    exact ⟨.singleton _, List.forall_mem_singleton.mpr (by simpa using h)⟩
  | interpolate _ _ _, _, _ | evaluate _ _, _, _ | call _ _ _, _, _ =>
    joined_cons rfl joined_nil
  | define _ _ _, i, h => (joined_linesAll (i + 1) h).block rfl
  | branch p arms otherwise, i, h => by
    rw [Stmt.Joined] at h
    rw [lines]
    refine (joined_armLines i p true h.2.1).append_of_head (joined_otherwiseLines i p h.2.2) ?_
    cases otherwise with
    | none => exact nofun
    | some body => exact fun l hl => by cases hl; rfl
  | loop _ _ _ _, i, h => (joined_linesAll (i + 1) h).block rfl
  | select p subject cases, i, h => joined_cons rfl (joined_caseLines (i + 1) p h)

theorem joined_linesAll : ∀ {ss : List Stmt} (i : Nat), JoinedAll ss → Line.Joined (linesAll i ss)
  | [], _, _ => joined_nil
  | s :: ss, i, h => by
    rw [JoinedAll] at h
    obtain ⟨hs, hss, hnext⟩ := h
    rw [linesAll]
    refine (joined_lines i hs).append (joined_linesAll i hss) fun l hl l' hl' ⟨hw, hw', hi⟩ => ?_
    obtain ⟨hi', hwrite⟩ := isWrite_of_head? hss hl'
    obtain ⟨s', hs', hw'⟩ := hwrite hw'
    exact hnext (isWrite_of_mem_lines hl (hi.trans hi') hw) s' hs' hw'

theorem joined_armLines : ∀ {arms : List (Expr × List Stmt)} (i p : Nat) (first : Bool),
    JoinedArms arms → Line.Joined (armLines i p first arms)
  | [], _, _, _, _ => joined_nil
  | (e, body) :: arms, i, p, first, h => by
    rw [JoinedArms] at h
    rw [armLines]
    refine ((joined_linesAll (i + 1) h.1).block rfl).append_of_head
      (joined_armLines i p false h.2) ?_
    cases arms with
    | nil => exact nofun
    | cons arm arms => exact fun l hl => by cases hl; rfl

theorem joined_otherwiseLines : ∀ {o : Option (List Stmt)} (i p : Nat), JoinedOtherwise o →
    Line.Joined (otherwiseLines i p o)
  | none, _, _, _ => joined_nil
  | some _, i, _, h => (joined_linesAll (i + 1) h).block rfl

theorem joined_caseLines : ∀ {cases : List (Pattern × Option Expr × List Stmt)} (i p : Nat),
    JoinedCases cases → Line.Joined (caseLines i p cases)
  | [], _, _, _ => joined_nil
  | (pattern, guard, body) :: cases, i, p, h => by
    rw [JoinedCases] at h
    rw [caseLines]
    refine ((joined_linesAll (i + 1) h.1).block rfl).append_of_head (joined_caseLines i p h.2) ?_
    cases cases with
    | nil => exact nofun
    | cons case cases => exact fun l hl => by cases hl; rfl

end

end Stmt

/-! ## Templates -/

/-- **Every branch of a text has an arm.** -/
theorem Outline.not_isArmless {text : List Char} {o : Outline} (h : parse text = .ok o) :
    ∀ n ∈ Node.nodesAll o.body, ¬ n.isArmless := by
  intro n hn harmless
  unfold Node.isArmless at harmless
  split at harmless
  · obtain ⟨s, d, c, e, hleads, hc⟩ := exists_construct h hn (fun _ _ h => by cases h)
    obtain ⟨-, hat⟩ := in_of_leadsTo hleads
    cases s with
    | zero => cases hc
    | succ s =>
      obtain ⟨-, b, a, e', -, -, hbranches⟩ := Template.Read.branches_of_construct hat hc
      obtain ⟨fs, hchain⟩ := Template.Read.chain_of_branches hbranches
      have := hchain.length_arms
      rw [List.length_nil] at this
      omega
  · cases harmless

namespace Template

variable {context : Context} {t u : Template}

/-- What is generated depends on the joined body alone. -/
theorem render_joinedAll (t : Template) :
    { t with body := Node.joinedAll t.body }.render context = t.render context := by
  simp only [render, module?, stmts, Gen.body_joinedAll]
  rfl

/-- **No write of a generated function follows a write of the same block, and none is empty.** -/
theorem joined_functionLines {stmts : List Stmt} (harms : ∀ n ∈ Node.nodesAll t.body, ¬ n.isArmless)
    (h : t.stmts context = .ok stmts) : Line.Joined (t.functionLines stmts) := by
  obtain ⟨k, hb⟩ := Template.stmts_ok.mp h
  exact (Stmt.joined_linesAll 1 (Gen.joinedAll_of_body harms hb)).block rfl

/-- Every branch of a template that is read from a text has an arm. -/
theorem not_isArmless_of_parse {name : TemplateName} {path : Path} {file : String}
    {text : List Char} (h : Template.parse name path file text = .ok t) :
    ∀ n ∈ Node.nodesAll t.body, ¬ n.isArmless := Outline.not_isArmless (parse_ok h).1

/-- **How a text is cut and where comments stand does not show.** Templates with the same names,
imports and parameters, whose bodies are the same without comments, with neighbouring texts joined
and positions aside, have the same module, or none of them has one. In a generated function no write
follows a write of the same block, and none is empty. A branch without an arm means nothing; no text
has one. -/
theorem render_joined (hname : t.toTemplateName = u.toTemplateName)
    (himports : t.imports = u.imports) (hparams : t.params = u.params)
    (hbody : Node.unplacedAll (Node.joinedAll t.body) = Node.unplacedAll (Node.joinedAll u.body))
    (context : Context) :
    (t.render context).toOption = (u.render context).toOption ∧
      ((∀ n ∈ Node.nodesAll t.body, ¬ n.isArmless) → ∀ stmts, t.stmts context = .ok stmts →
        Line.Joined (t.functionLines stmts)) ∧
      ∀ name path file text, Template.parse name path file text = .ok t →
        ∀ n ∈ Node.nodesAll t.body, ¬ n.isArmless := by
  refine ⟨?_, fun harms stmts => joined_functionLines harms,
    fun name path file text => not_isArmless_of_parse⟩
  rw [← render_joinedAll t, ← render_joinedAll u]
  exact toOption_render_eq (t := { t with body := Node.joinedAll t.body })
    (u := { u with body := Node.joinedAll u.body }) hname himports hparams hbody context

/-- A text in two pieces with a comment between them, and a loop that holds a comment only. -/
def cutTemplate : Template where
  namespaces := []
  stem := "page"
  format := "html"
  imports := []
  params := [⟨"xs", "list"⟩]
  body := [.text 12 "a", .comment 13 "c", .text 18 "b",
    .loop 19 (.binding 24 "x") (.name 29 "xs") [.comment 33 "c"], .text 39 "d"]
  path := .here
  text := []

/-- The same text in one piece, and a loop that holds nothing. -/
def wholeTemplate : Template :=
  { cutTemplate with
    body := [.text 12 "ab", .loop 14 (.binding 19 "x") (.name 24 "xs") [], .text 29 "d"] }

theorem render_joined_cut :
    (cutTemplate.render .empty).toOption = (wholeTemplate.render .empty).toOption ∧
      (cutTemplate.render .empty).toBool = true ∧
      ∃ stmts, cutTemplate.stmts .empty = .ok stmts ∧
        Line.Joined (cutTemplate.functionLines stmts) := by
  have h := render_joined (t := cutTemplate) (u := wholeTemplate) rfl rfl rfl rfl .empty
  have harms : ∀ n ∈ Node.nodesAll cutTemplate.body, ¬ n.isArmless := by decide
  exact ⟨h.1, by decide +kernel, _, rfl, h.2.1 harms _ rfl⟩

end Template

end Stencil
