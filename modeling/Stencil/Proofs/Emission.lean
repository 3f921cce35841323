import Stencil.Proofs.Depth
import Stencil.Proofs.Generation

/-!
# Emission line by line

The statements of a rendering function can also be written as they are generated: a builder commits
one line after the other, with the position that it holds at that time. The position is that of the
construct being emitted; it is set where the construct is entered and put back where it is left, and
in between the lines of all that stands inside are committed.

* `Builder`: the committed lines, their positions, and the constructs that are being emitted.
* `Emit`, `Emit.block`, `Emit.construct`: steps that commit lines.
* `Emit.body`: the emission of a body; `Template.emit`: that of a rendering function.
* `Emit.Commits`: a step commits given lines, and leaves the builder where it found it.
* **`Emit.body_commits`**: emission commits the lines of the statements that are generated.
* **`Template.exists_emit`**: the lines of the rendering function are those that are committed, each
  from the innermost construct that was being emitted.
-/

namespace Stencil

/-- **What lines are committed to.** -/
structure Builder where
  lines : List String
  /-- The position held when each line was committed. -/
  positions : List Nat
  /-- The innermost construct that was being emitted when each line was committed, if any was. -/
  origins : List (Option Node)
  position : Nat
  indent : Nat
  /-- The constructs that are being emitted, from the innermost one on. -/
  within : List Node

namespace Builder

/-- Nothing has been committed. -/
def start : Builder := ⟨[], [], [], 0, 0, []⟩

/-- **One more line**, at the level of indentation and with the position that are held. -/
def commit (b : Builder) (h : Head) : Builder :=
  { b with
    lines := b.lines ++ [Line.text ⟨b.indent, h, b.position⟩]
    positions := b.positions ++ [b.position]
    origins := b.origins ++ [b.within.head?] }

/-- The place of a construct, which is the start of the template for its top level. -/
def placeOf : Option Node → Nat
  | none => 0
  | some n => n.position

/-- **The positions are those of the innermost constructs**, for each of which `Q` holds. -/
structure Tracks (Q : Node → Prop) (b : Builder) : Prop where
  position : b.position = placeOf b.within.head?
  positions : b.positions = b.origins.map placeOf
  within : ∀ n ∈ b.within, Q n ∧ n.plain? = none
  origins : ∀ n, some n ∈ b.origins → Q n ∧ n.plain? = none

theorem tracks_start (Q : Node → Prop) : start.Tracks Q :=
  ⟨rfl, rfl, by simp [start], by simp [start]⟩

theorem Tracks.commit {Q : Node → Prop} {b : Builder} (hb : b.Tracks Q) (h : Head) :
    (b.commit h).Tracks Q where
  position := hb.position
  positions := by
    rw [Builder.commit, List.map_append, ← hb.positions, List.map_singleton, ← hb.position]
  within := hb.within
  origins n hn := by
    rcases List.mem_append.mp hn with hn | hn
    · exact hb.origins n hn
    · exact hb.within n (List.mem_of_head? (List.mem_singleton.mp hn).symm)

/-- **The builder has grown by some lines** and is back where it was. -/
structure Grown (Q : Node → Prop) (b : Builder) (ls : List Line) (b' : Builder) : Prop where
  lines : b'.lines = b.lines ++ ls.map Line.text
  positions : b'.positions = b.positions ++ ls.map Line.position
  position : b'.position = b.position
  indent : b'.indent = b.indent
  within : b'.within = b.within
  tracks : b.Tracks Q → b'.Tracks Q

variable {Q : Node → Prop} {b b' b'' : Builder} {ls ls' : List Line}

theorem grown_nil (b : Builder) : b.Grown Q [] b :=
  ⟨by simp, by simp, rfl, rfl, rfl, id⟩

theorem Grown.trans (h : b.Grown Q ls b') (h' : b'.Grown Q ls' b'') :
    b.Grown Q (ls ++ ls') b'' where
  lines := by rw [h'.lines, h.lines, List.map_append, List.append_assoc]
  positions := by rw [h'.positions, h.positions, List.map_append, List.append_assoc]
  position := h'.position.trans h.position
  indent := h'.indent.trans h.indent
  within := h'.within.trans h.within
  tracks hb := h'.tracks (h.tracks hb)

theorem grown_commit (b : Builder) (h : Head) :
    b.Grown Q [⟨b.indent, h, b.position⟩] (b.commit h) :=
  ⟨rfl, rfl, rfl, rfl, rfl, fun hb => hb.commit h⟩

end Builder

/-- **A step of emission**: it may commit lines, use fresh names and fail. -/
abbrev Emit := StateT Builder Gen

namespace Emit

open Gen (lift fresh bind deeper)

/-- A step that commits nothing. -/
def gen {α : Type} (x : Gen α) : Emit α := fun b => do return (← x, b)

/-- A line is committed. -/
def commit (h : Head) : Emit Unit := fun b => pure ((), b.commit h)

/-- **Steps one level deeper**; a line that does nothing is committed if they commit none. -/
def block (x : Emit Unit) : Emit Unit := fun b => do
  let indent ← lift (deeper b.indent b.position)
  let ((), b') ← x { b with indent }
  let b' := if b'.lines.length = b.lines.length then b'.commit .pass else b'
  return ((), { b' with indent := b.indent })

/-- **Steps that emit a construct**: its position is held while they run. -/
def construct (n : Node) (x : Emit Unit) : Emit Unit := fun b => do
  let ((), b') ← x { b with position := n.position, within := n :: b.within }
  return ((), { b' with position := b.position, within := b.within })

/-- The write of a text, if there is any. -/
def flush (text : String) : Emit Unit := if text = "" then pure () else commit (.write text)

/-- Steps that stand in an `else`, unless they come first. -/
def otherwise (first : Bool) (x : Emit Unit) : Emit Unit :=
  if first then x
  else do
    commit .otherwise
    block x

mutual

/-- **The emission of a body**; `pending` is text that is still to be written. -/
def body (env : Env) (s : Scope) (pending : String) : List Node → Emit Unit
  | [] => flush pending
  | n :: ns => do
    match n.plain? with
    | some text => body env s (pending ++ text) ns
    | none =>
      flush pending
      construct n (node env s n)
      body env s "" ns
termination_by structural x => x

/-- The emission of a node; texts and comments are left to the body they stand in. -/
def node (env : Env) (s : Scope) : Node → Emit Unit
  | .text _ _ => pure ()
  | .comment _ _ => pure ()
  | .value _ e raw => do
    let e ← gen (lift (e.resolve (env.resolution s)))
    commit (.interpolate raw e)
  | .branch p arms last =>
    chain env s p true last.isSome (alternative env s last) arms
  | .loop p pattern iterable nodes => do
    let iterable ← gen (lift (iterable.resolve (env.resolution s)))
    let (inner, renamed) ← gen (bind s pattern.simplify)
    if pattern.simplify.isIrrefutable then
      let target ← gen (lift (pattern.simplify.resolve renamed.rename))
      commit (.loop target iterable)
      block (body env inner "" nodes)
    else
      let item ← gen (fresh "item")
      commit (.loop (.binding p item) iterable)
      block do
        commit (.select (.made item))
        block do
          let case ← gen (lift (pattern.simplify.resolve renamed.rename))
          commit (.case case none)
          block (body env inner "" nodes)
  | .cases _ subject arms => do
    let subject ← gen (lift (subject.resolve (env.resolution s)))
    if arms.isEmpty then commit (.evaluate subject)
    else
      commit (.select (.value subject))
      block (cases env s arms)
  | .call _ path args blocks => do
    let args ← arguments env s args
    let contents ← contents env s blocks
    commit (.call (env.context.target env.self s path) (args ++ contents))
termination_by structural x => x

/-- The emission of what is done if no arm of a branch is taken. -/
def alternative (env : Env) (s : Scope) : Option (List Node) → Emit Unit
  | none => pure ()
  | some nodes => body env s "" nodes
termination_by structural x => x

/-- **The emission of the arms of a branch** and of what is done if none of them is taken. `first`
tells that no arm comes before; `last` tells whether anything is done if no arm is taken. -/
def chain (env : Env) (s : Scope) (p : Nat) (first last : Bool) (rest : Emit Unit) :
    List (Condition × List Node) → Emit Unit
  | [] => if last then otherwise first rest else pure ()
  | (.holds cond, nodes) :: arms => do
    let cond ← gen (lift (cond.resolve (env.resolution s)))
    commit (.branch first cond)
    block (body env s "" nodes)
    chain env s p false last rest arms
  | (.matches pattern value, nodes) :: arms => otherwise first do
    let (inner, renamed) ← gen (bind s pattern.simplify)
    let value ← gen (lift (value.resolve (env.resolution s)))
    commit (.select (.value value))
    block do
      let case ← gen (lift (pattern.simplify.resolve renamed.rename))
      commit (.case case none)
      block (body env inner "" nodes)
      if (arms.isEmpty && !last) || pattern.simplify.isCatchAll then pure ()
      else
        commit (.case (.wildcard p) none)
        block (chain env s p true last rest arms)
termination_by structural x => x

/-- The emission of cases up to the first one that every value takes. -/
def cases (env : Env) (s : Scope) : List (Pattern × Option Expr × List Node) → Emit Unit
  | [] => pure ()
  | (pattern, guard, nodes) :: arms => do
    let (inner, renamed) ← gen (bind s pattern.simplify)
    let case ← gen (lift (pattern.simplify.resolve renamed.rename))
    let guard' ← gen (lift (guard.mapM (·.resolve (env.resolution inner))))
    commit (.case case guard')
    block (body env inner "" nodes)
    if guard.isNone && pattern.simplify.isCatchAll then pure () else cases env s arms
termination_by structural x => x

/-- The emission of the arguments of a call; a block becomes a function that is defined before. -/
def arguments (env : Env) (s : Scope) : List (Expr ⊕ List Node) → Emit (List Operand)
  | [] => pure []
  | .inl e :: args => do
    let e ← gen (lift (e.resolve (env.resolution s)))
    let args ← arguments env s args
    return .value e :: args
  | .inr nodes :: args => do
    let name ← gen (fresh "content")
    commit (.define name [])
    block (body env s "" nodes)
    let args ← arguments env s args
    return .made name :: args
termination_by structural x => x

/-- The emission of the blocks after a call, as functions that are defined before it. -/
def contents (env : Env) (s : Scope) : List (List Node) → Emit (List Operand)
  | [] => pure []
  | nodes :: blocks => do
    let name ← gen (fresh "content")
    commit (.define name [])
    block (body env s "" nodes)
    let args ← contents env s blocks
    return .made name :: args
termination_by structural x => x

end

end Emit

namespace Stmt

theorem linesAll_append (i : Nat) (ss ss' : List Stmt) :
    linesAll i (ss ++ ss') = linesAll i ss ++ linesAll i ss' := by
  induction ss with
  | nil => rw [linesAll, List.nil_append, List.nil_append]
  | cons s ss ih => rw [List.cons_append, linesAll, linesAll, ih, List.append_assoc]

theorem linesAll_single (i : Nat) (s : Stmt) : linesAll i [s] = s.lines i := by
  rw [linesAll, linesAll, List.append_nil]

end Stmt

namespace Emit

open Gen (lift fresh bind deeper branchOf freshName)

/-! ## Steps that commit given lines -/

/-- **A step commits lines** at a level and a position, and uses fresh names up to `k'`. -/
def Commits {α : Type} (Q : Node → Prop) (x : Emit α) (i p k : Nat) (a : α) (k' : Nat)
    (ls : List Line) : Prop :=
  ∀ b : Builder, b.indent = i → b.position = p →
    ∃ b', x b k = .ok ((a, b'), k') ∧ b.Grown Q ls b'

section Steps

variable {α β : Type} {Q : Node → Prop} {x : Emit α} {f : α → Emit β} {i p k k' k'' : Nat}
variable {a : α} {c : β} {ls ls' : List Line}

theorem commits_pure : Commits Q (pure a : Emit α) i p k a k [] :=
  fun b _ _ => ⟨b, rfl, b.grown_nil⟩

theorem Commits.bind (h : Commits Q x i p k a k' ls) (h' : Commits Q (f a) i p k' c k'' ls') :
    Commits Q (x >>= f) i p k c k'' (ls ++ ls') := by
  intro b hi hp
  obtain ⟨b₁, h₁, hg₁⟩ := h b hi hp
  obtain ⟨b₂, h₂, hg₂⟩ := h' b₁ (hg₁.indent.trans hi) (hg₁.position.trans hp)
  refine ⟨b₂, ?_, hg₁.trans hg₂⟩
  show (x b >>= fun r : α × Builder => f r.1 r.2) k = _
  exact Gen.bind_ok.mpr ⟨_, _, h₁, h₂⟩

/-- What a step gives is put together with something else. -/
theorem Commits.map {g : α → β} (h : Commits Q x i p k a k' ls) :
    Commits Q (x >>= fun a => pure (g a)) i p k (g a) k' ls := by
  rw [← List.append_nil ls]
  exact h.bind commits_pure

/-- A step of generation commits nothing. -/
theorem Commits.gen {x : Gen α} (hx : x k = .ok (a, k')) (h : Commits Q (f a) i p k' c k'' ls) :
    Commits Q (Emit.gen x >>= f) i p k c k'' ls := by
  have hgen : Commits Q (Emit.gen x) i p k a k' [] := fun b _ _ =>
    ⟨b, Gen.bind_ok.mpr ⟨_, _, hx, rfl⟩, b.grown_nil⟩
  exact hgen.bind h

theorem commits_commit (h : Head) : Commits Q (commit h) i p k () k [⟨i, h, p⟩] := by
  rintro b rfl rfl
  exact ⟨_, rfl, b.grown_commit h⟩

/-- A line before other steps. -/
theorem Commits.line {f : Unit → Emit β} {h : Head} (hf : Commits Q (f ()) i p k c k' ls) :
    Commits Q (commit h >>= f) i p k c k' (⟨i, h, p⟩ :: ls) :=
  (commits_commit h).bind hf

theorem commits_flush (text : String) :
    Commits Q (flush text) i p k () k (Stmt.linesAll i (Gen.flush p text)) := by
  unfold flush Gen.flush
  split
  · exact commits_pure
  · exact commits_commit _

/-- **A block is filled with a line that does nothing** if its steps commit none. -/
theorem Commits.block {x : Emit Unit} (hi : i < maxIndent)
    (h : Commits Q x (i + 1) p k () k' ls) :
    Commits Q (block x) i p k () k' (Stmt.orPass (i + 1) p ls) := by
  rintro b rfl rfl
  have hdeeper : lift (deeper b.indent b.position) k = .ok (b.indent + 1, k) := by
    rw [Gen.lift_ok, Gen.deeper_ok]
    exact ⟨⟨hi, rfl⟩, rfl⟩
  obtain ⟨b₁, hx, hg⟩ := h { b with indent := b.indent + 1 } rfl rfl
  have hlines : b₁.lines = b.lines ++ ls.map Line.text := hg.lines
  have hlength : b₁.lines.length = b.lines.length ↔ ls.isEmpty = true := by
    rw [hlines, List.length_append, List.length_map, List.isEmpty_iff, ← List.length_eq_zero_iff]
    omega
  have hindent : b₁.indent = b.indent + 1 := hg.indent
  have hposition : b₁.position = b.position := hg.position
  refine ⟨_, Gen.bind_ok.mpr ⟨_, _, hdeeper, Gen.bind_ok.mpr ⟨_, _, hx, rfl⟩⟩, ?_⟩
  have htracks {b' : Builder} {j : Nat} (hb : b'.Tracks Q) :
      ({ b' with indent := j } : Builder).Tracks Q :=
    ⟨hb.position, hb.positions, hb.within, hb.origins⟩
  unfold Stmt.orPass
  split
  · rename_i hempty
    obtain rfl := List.isEmpty_iff.mp hempty
    have hpass := hg.trans (b₁.grown_commit .pass)
    simp only [if_pos (hlength.mpr hempty)]
    rw [hindent, hposition] at hpass
    exact ⟨hpass.lines, hpass.positions, hpass.position, rfl, hpass.within,
      fun hb => htracks (hpass.tracks (htracks hb))⟩
  · rename_i hempty
    simp only [if_neg fun he => hempty (hlength.mp he)]
    exact ⟨hg.lines, hg.positions, hg.position, rfl, hg.within,
      fun hb => htracks (hg.tracks (htracks hb))⟩

/-- A block whose steps commit a line is left as it is. -/
theorem Commits.filledBlock {x : Emit Unit} {l : Line} (hi : i < maxIndent)
    (h : Commits Q x (i + 1) p k () k' (l :: ls)) :
    Commits Q (Emit.block x) i p k () k' (l :: ls) :=
  h.block hi

/-- **A construct is emitted at its own position**, and the position that was held is held again. -/
theorem Commits.construct {x : Emit Unit} {n : Node} (hn : Q n) (hplain : n.plain? = none)
    (h : Commits Q x i n.position k () k' ls) : Commits Q (construct n x) i p k () k' ls := by
  rintro b rfl rfl
  obtain ⟨b₁, hx, hg⟩ := h { b with position := n.position, within := n :: b.within } rfl rfl
  refine ⟨_, Gen.bind_ok.mpr ⟨_, _, hx, rfl⟩, ⟨hg.lines, hg.positions, rfl, hg.indent, rfl, ?_⟩⟩
  intro hb
  have hinside : ({ b with position := n.position, within := n :: b.within } : Builder).Tracks Q :=
    ⟨rfl, hb.positions, List.forall_mem_cons.mpr ⟨⟨hn, hplain⟩, hb.within⟩, hb.origins⟩
  have hafter := hg.tracks hinside
  exact ⟨hb.position, hafter.positions, hb.within, hafter.origins⟩

/-- Steps that stand in an `else`, unless they come first. -/
theorem Commits.otherwise {x : Emit Unit} {first : Bool} (hfirst : first = true ∨ i < maxIndent)
    (h : Commits Q x (if first then i else i + 1) p k () k' ls) :
    Commits Q (otherwise first x) i p k () k'
      (if first then ls else ⟨i, .otherwise, p⟩ :: Stmt.orPass (i + 1) p ls) := by
  cases first with
  | true => exact h
  | false => exact .line (.block (hfirst.resolve_left (by simp)) h)

end Steps

/-! ## Emission and generated statements -/

/-- The lines of the arms of a branch, which starts there or is gone on with. -/
def chainLines (first : Bool) (i p : Nat) (r : List (Expr × List Stmt) × Option (List Stmt)) :
    List Line :=
  if first then Stmt.linesAll i (branchOf p r)
  else Stmt.armLines i p false r.1 ++ Stmt.otherwiseLines i p r.2

/-- What is done without arms. -/
theorem chainLines_otherwise (first : Bool) (i p : Nat) (stmts : List Stmt) :
    chainLines first i p ([], some stmts) =
      if first then Stmt.linesAll (if first then i else i + 1) stmts
      else ⟨i, .otherwise, p⟩ ::
        Stmt.orPass (i + 1) p (Stmt.linesAll (if first then i else i + 1) stmts) := by
  cases first with
  | true => rfl
  | false => simp [chainLines, Stmt.armLines, Stmt.otherwiseLines]

/-- An arm before others. -/
theorem chainLines_cons (first : Bool) (i p : Nat) (e : Expr) (body : List Stmt)
    (arms : List (Expr × List Stmt)) (stmts : Option (List Stmt)) :
    chainLines first i p ((e, body) :: arms, stmts) =
      ⟨i, .branch first e, p⟩ :: (Stmt.orPass (i + 1) p (Stmt.linesAll (i + 1) body) ++
        chainLines false i p (arms, stmts)) := by
  cases first with
  | true => simp [chainLines, branchOf, Stmt.linesAll_single, Stmt.lines, Stmt.armLines]
  | false => simp [chainLines, Stmt.armLines]

/-- Cases give at least one case. -/
theorem exists_cons_of_cases {env : Env} {s : Scope} {i p k k' : Nat}
    {arm : Pattern × Option Expr × List Node} {arms : List (Pattern × Option Expr × List Node)}
    {r : List (Pattern × Option Expr × List Stmt)}
    (h : Gen.cases env s i p (arm :: arms) k = .ok (r, k')) : ∃ c cs, r = c :: cs := by
  obtain ⟨_, _, _, _, _, _, _, -, -, -, -, -, ⟨-, rfl, -⟩ | ⟨-, _, -, rfl⟩⟩ :=
    Gen.cases_cons_ok.mp h
  · exact ⟨_, _, rfl⟩
  · exact ⟨_, _, rfl⟩

variable {env : Env} {Q : Node → Prop}

mutual

/-- **The emission of a body commits the lines of its statements**, each from the innermost
construct around it. -/
theorem body_commits : ∀ {ns : List Node} {s : Scope} {i p k k' : Nat} {pending : String}
    {r : List Stmt}, (∀ n ∈ Node.nodesAll ns, Q n) → Gen.body env s i p pending ns k = .ok (r, k') →
    Commits Q (body env s pending ns) i p k () k' (Stmt.linesAll i r)
  | [], _, _, _, _, _, _, _, _, h => by
    obtain ⟨rfl, rfl⟩ := Gen.body_nil_ok.mp h
    rw [body]
    exact commits_flush _
  | n :: ns, s, i, p, k, k', pending, _, hq, h => by
    rw [Node.nodesAll] at hq
    cases hp : n.plain? with
    | some text =>
      rw [Gen.body_cons_plain hp] at h
      rw [body]
      simp only [hp]
      exact body_commits (fun m hm => hq m (List.mem_append_right _ hm)) h
    | none =>
      obtain ⟨a, k₁, b, ha, hb, rfl⟩ := (Gen.body_cons_ok hp).mp h
      have hnode : Commits Q (construct n (node env s n)) i p k () k₁ (Stmt.linesAll i a) :=
        node_commits (fun m hm => hq m (List.mem_append_left _ hm)) hp ha
      have hrest := body_commits (fun m hm => hq m (List.mem_append_right _ hm)) hb
      rw [body]
      simp only [hp]
      rw [Stmt.linesAll_append, Stmt.linesAll_append, List.append_assoc]
      exact (commits_flush pending).bind (hnode.bind hrest)

/-- The emission of a construct commits the lines of its statements, at its own position. -/
theorem node_commits : ∀ {n : Node} {s : Scope} {i p k k' : Nat} {r : List Stmt},
    (∀ m ∈ n.nodes, Q m) → n.plain? = none → Gen.node env s i n k = .ok (r, k') →
    Commits Q (construct n (node env s n)) i p k () k' (Stmt.linesAll i r)
  | .text _ _, _, _, _, _, _, _, _, hp, _ | .comment _ _, _, _, _, _, _, _, _, hp, _ => by cases hp
  | .value q e raw, s, i, _, k, k', _, hq, hp, h => by
    obtain ⟨e', he, rfl, rfl⟩ := Gen.node_value_ok.mp h
    refine .construct (hq _ (List.Mem.head _)) hp ?_
    rw [node, Stmt.linesAll_single, Stmt.lines]
    exact .gen (Gen.lift_ok.mpr ⟨he, rfl⟩) (commits_commit _)
  | .branch q arms last, s, i, _, k, k', _, hq, hp, h => by
    obtain ⟨r, hr, rfl⟩ := Gen.node_branch_ok.mp h
    refine .construct (hq _ (List.Mem.head _)) hp ?_
    simp only [Node.nodes, List.mem_cons, List.mem_append] at hq
    rw [node]
    exact chain_commits (fun h => alternative_commits (fun m hm => hq m (.inr (.inr hm))) h)
      (fun m hm => hq m (.inr (.inl hm))) hr
  | .loop q pattern e nodes, s, i, _, k, k', _, hq, hn, h => by
    refine .construct (hq _ (List.Mem.head _)) hn ?_
    have hinside : ∀ m ∈ Node.nodesAll nodes, Q m := fun m hm => hq m (List.Mem.tail _ hm)
    rw [node]
    by_cases hp : pattern.simplify.isIrrefutable
    · obtain ⟨e', inner, renamed, k₁, target, body', he, hb, ht, hdeep, hbody, rfl⟩ :=
        (Gen.node_loop_plain_ok hp).mp h
      simp only [hp, if_true]
      rw [Stmt.linesAll_single, Stmt.lines]
      exact .gen (Gen.lift_ok.mpr ⟨he, rfl⟩) <| .gen hb <| .gen (Gen.lift_ok.mpr ⟨ht, rfl⟩) <|
        .line <| .block hdeep <| body_commits hinside hbody
    · obtain ⟨e', inner, renamed, k₁, case, body', he, hb, hcase, hdeep, hbody, rfl⟩ :=
        (Gen.node_loop_skipping_ok hp).mp h
      simp only [hp, Bool.false_eq_true, if_false]
      have hinner : Commits Q (do
          let case ← Emit.gen (lift (pattern.simplify.resolve renamed.rename))
          commit (.case case none)
          block (body env inner "" nodes)) (i + 2) q (k₁ + 1) () k'
          (Stmt.caseLines (i + 2) q [(case, none, body')]) := by
        rw [Stmt.caseLines, Stmt.caseLines, List.append_nil]
        exact .gen (Gen.lift_ok.mpr ⟨hcase, rfl⟩) <| .line <| .block hdeep <|
          body_commits hinside hbody
      rw [Stmt.linesAll_single, Stmt.lines, Stmt.linesAll_single, Stmt.lines]
      refine .gen (Gen.lift_ok.mpr ⟨he, rfl⟩) <| .gen hb <| .gen (Gen.fresh_ok.mpr rfl) <| .line ?_
      exact .block (by omega) <| .line <| .block (by omega) hinner
  | .cases q e [], s, i, _, k, k', _, hq, hp, h => by
    obtain ⟨e', he, rfl, rfl⟩ := Gen.node_cases_nil_ok.mp h
    refine .construct (hq _ (List.Mem.head _)) hp ?_
    rw [node, Stmt.linesAll_single, Stmt.lines]
    exact .gen (Gen.lift_ok.mpr ⟨he, rfl⟩) (commits_commit _)
  | .cases q e (arm :: arms), s, i, _, k, k', _, hq, hp, h => by
    obtain ⟨e', cases', he, hdeep, hr, rfl⟩ := (Gen.node_cases_ok (List.cons_ne_nil _ _)).mp h
    refine .construct (hq _ (List.Mem.head _)) hp ?_
    have hcases := cases_commits (fun m hm => hq m (List.Mem.tail _ hm)) hr
    obtain ⟨c, cs, rfl⟩ := exists_cons_of_cases hr
    rw [node, Stmt.linesAll_single, Stmt.lines]
    exact .gen (Gen.lift_ok.mpr ⟨he, rfl⟩) <| .line <| .block hdeep hcases
  | .call q path args blocks, s, i, _, k, k', _, hq, hp, h => by
    obtain ⟨defs, args', k₁, defs', contents', ha, hb, rfl⟩ := Gen.node_call_ok.mp h
    refine .construct (hq _ (List.Mem.head _)) hp ?_
    simp only [Node.nodes, List.mem_cons, List.mem_append] at hq
    rw [node, Stmt.linesAll_append, Stmt.linesAll_append, Stmt.linesAll_single, Stmt.lines,
      List.append_assoc]
    exact (arguments_commits (fun m hm => hq m (.inr (.inl hm))) ha).bind <|
      (contents_commits (fun m hm => hq m (.inr (.inr hm))) hb).bind <| commits_commit _

theorem alternative_commits : ∀ {o : Option (List Node)} {s : Scope} {i p k k' : Nat}
    {r : List Stmt}, (∀ m ∈ Node.otherwiseNodes o, Q m) →
    Gen.alternative env s i p o k = .ok (r, k') →
    Commits Q (alternative env s o) i p k () k' (Stmt.linesAll i r)
  | none, _, _, _, _, _, _, _, h => by
    obtain ⟨rfl, rfl⟩ := Gen.alternative_none_ok.mp h
    rw [alternative]
    exact commits_pure
  | some nodes, _, _, _, _, _, _, hq, h => by
    rw [Gen.alternative_some] at h
    rw [alternative]
    exact body_commits hq h

/-- The emission of the arms of a branch commits their lines. -/
theorem chain_commits {s : Scope} {p : Nat} {last : Bool} {otherwise : Nat → Gen (List Stmt)}
    {rest : Emit Unit}
    (ho : ∀ {i k k' r}, otherwise i k = .ok (r, k') →
      Commits Q rest i p k () k' (Stmt.linesAll i r)) :
    ∀ {arms : List (Condition × List Node)} {i k k' : Nat} {first : Bool}
      {r : List (Expr × List Stmt) × Option (List Stmt)},
    (∀ m ∈ Node.armNodes arms, Q m) →
    Gen.chain env s i first p last otherwise arms k = .ok (r, k') →
    Commits Q (chain env s p first last rest arms) i p k () k' (chainLines first i p r)
  | [], i, _, _, first, _, _, h => by
    rw [chain]
    obtain ⟨rfl, hfirst, stmts, hs, rfl⟩ | ⟨rfl, rfl, rfl⟩ := Gen.chain_nil_ok.mp h
    · rw [if_pos rfl, chainLines_otherwise]
      exact .otherwise hfirst (ho hs)
    · rw [if_neg (by simp)]
      cases first with
      | true | false => exact commits_pure
  | (.holds e, nodes) :: arms, i, _, _, first, _, hq, h => by
    obtain ⟨e', body', k₁, arms', stmts, he, hdeep, hb, hr, rfl⟩ := Gen.chain_holds_ok.mp h
    simp only [Node.armNodes, List.mem_append] at hq
    rw [chain, chainLines_cons]
    exact .gen (Gen.lift_ok.mpr ⟨he, rfl⟩) <| .line <|
      ((body_commits (fun m hm => hq m (.inl hm)) hb).block hdeep).bind <|
        chain_commits ho (fun m hm => hq m (.inr hm)) hr
  | (.matches pattern e, nodes) :: arms, i, k, k', first, r, hq, h => by
    obtain ⟨i', e', inner, renamed, k₁, case, body', k₂, rfl, hfirst, hbind, he, hcase, hdeep, hb,
      h⟩ := Gen.chain_matches_ok.mp h
    simp only [Node.armNodes, List.mem_append] at hq
    have hbody := (body_commits (fun m hm => hq m (.inl hm)) hb).block hdeep
    -- the selection stands at the level of the branch or, after an arm, one level deeper
    have hsteps {ls : List Line} {c : List (Pattern × Option Expr × List Stmt)}
        (hc : Stmt.caseLines ((if first then i else i + 1) + 1) p c = ls)
        (hmore : Commits Q (if (arms.isEmpty && !last) || pattern.simplify.isCatchAll then pure ()
          else do
            commit (.case (.wildcard p) none)
            block (chain env s p true last rest arms))
          ((if first then i else i + 1) + 1) p k₂ () k' ls) :
        Commits Q (chain env s p first last rest ((.matches pattern e, nodes) :: arms)) i p k () k'
          (chainLines first i p ([], some [.select p (.value e') ((case, none, body') :: c)])) := by
      rw [chain, chainLines_otherwise, Stmt.linesAll_single, Stmt.lines, Stmt.caseLines, hc,
        List.cons_append]
      refine .otherwise hfirst <| .gen hbind <| .gen (Gen.lift_ok.mpr ⟨he, rfl⟩) <| .line <|
        .filledBlock (by omega) ?_
      exact .gen (Gen.lift_ok.mpr ⟨hcase, rfl⟩) <| .line <| hbody.bind hmore
    obtain ⟨hlast, rfl, rfl⟩ | ⟨hmore, arms', stmts, hrest, rfl⟩ := h
    · refine hsteps (by rw [Stmt.caseLines]) ?_
      rw [if_pos (by simpa using hlast)]
      exact commits_pure
    · have hchain := (chain_commits ho (fun m hm => hq m (.inr hm)) hrest).block hdeep
      refine hsteps (by rw [Stmt.caseLines, Stmt.caseLines, List.append_nil]) ?_
      rw [if_neg (by simpa using hmore)]
      exact .line hchain

theorem cases_commits : ∀ {arms : List (Pattern × Option Expr × List Node)} {s : Scope}
    {i p k k' : Nat} {r : List (Pattern × Option Expr × List Stmt)},
    (∀ m ∈ Node.caseNodes arms, Q m) → Gen.cases env s i p arms k = .ok (r, k') →
    Commits Q (cases env s arms) i p k () k' (Stmt.caseLines i p r)
  | [], _, _, _, _, _, _, _, h => by
    obtain ⟨rfl, rfl⟩ := Gen.cases_nil_ok.mp h
    rw [cases, Stmt.caseLines]
    exact commits_pure
  | (pattern, guard, nodes) :: arms, s, i, p, k, k', _, hq, h => by
    obtain ⟨inner, renamed, k₁, case, guard', body', k₂, hbind, hcase, hg, hdeep, hb, h⟩ :=
      Gen.cases_cons_ok.mp h
    simp only [Node.caseNodes, List.mem_append] at hq
    have hbody := (body_commits (fun m hm => hq m (.inl hm)) hb).block hdeep
    have hsteps {ls : List Line} {c : List (Pattern × Option Expr × List Stmt)}
        (hc : Stmt.caseLines i p c = ls)
        (hrest : Commits Q (if guard.isNone && pattern.simplify.isCatchAll then pure ()
          else cases env s arms) i p k₂ () k' ls) :
        Commits Q (cases env s ((pattern, guard, nodes) :: arms)) i p k () k'
          (Stmt.caseLines i p ((case, guard', body') :: c)) := by
      rw [cases, Stmt.caseLines, hc]
      exact .gen hbind <| .gen (Gen.lift_ok.mpr ⟨hcase, rfl⟩) <|
        .gen (Gen.lift_ok.mpr ⟨hg, rfl⟩) <| .line <| hbody.bind hrest
    obtain ⟨hlast, rfl, rfl⟩ | ⟨hmore, rest, hrest, rfl⟩ := h
    · refine hsteps (by rw [Stmt.caseLines]) ?_
      rw [if_pos (by simpa using hlast)]
      exact commits_pure
    · refine hsteps rfl ?_
      rw [if_neg (by simpa using hmore)]
      exact cases_commits (fun m hm => hq m (.inr hm)) hrest

theorem arguments_commits : ∀ {args : List (Expr ⊕ List Node)} {s : Scope} {i p k k' : Nat}
    {defs : List Stmt} {ops : List Operand}, (∀ m ∈ Node.argumentNodes args, Q m) →
    Gen.arguments env s i p args k = .ok ((defs, ops), k') →
    Commits Q (arguments env s args) i p k ops k' (Stmt.linesAll i defs)
  | [], _, _, _, _, _, _, _, _, h => by
    obtain ⟨hr, rfl⟩ := Gen.arguments_nil_ok.mp h
    cases hr
    rw [arguments]
    exact commits_pure
  | .inl e :: args, _, _, _, _, _, _, _, hq, h => by
    obtain ⟨e', defs', args', he, ha, hr⟩ := Gen.arguments_value_ok.mp h
    cases hr
    rw [Node.argumentNodes] at hq
    rw [arguments]
    exact .gen (Gen.lift_ok.mpr ⟨he, rfl⟩) (arguments_commits hq ha).map
  | .inr nodes :: args, _, _, _, _, _, _, _, hq, h => by
    obtain ⟨body', k₁, defs', args', hdeep, hb, ha, hr⟩ := Gen.arguments_block_ok.mp h
    cases hr
    simp only [Node.argumentNodes, List.mem_append] at hq
    have hbody := (body_commits (fun m hm => hq m (.inl hm)) hb).block hdeep
    have hrest := arguments_commits (fun m hm => hq m (.inr hm)) ha
    rw [arguments, Stmt.linesAll, Stmt.lines]
    exact .gen (Gen.fresh_ok.mpr rfl) <| .line <| hbody.bind hrest.map

theorem contents_commits : ∀ {blocks : List (List Node)} {s : Scope} {i p k k' : Nat}
    {defs : List Stmt} {ops : List Operand}, (∀ m ∈ Node.blockNodes blocks, Q m) →
    Gen.contents env s i p blocks k = .ok ((defs, ops), k') →
    Commits Q (contents env s blocks) i p k ops k' (Stmt.linesAll i defs)
  | [], _, _, _, _, _, _, _, _, h => by
    obtain ⟨hr, rfl⟩ := Gen.contents_nil_ok.mp h
    cases hr
    rw [contents]
    exact commits_pure
  | nodes :: blocks, _, _, _, _, _, _, _, hq, h => by
    obtain ⟨body', k₁, defs', args', hdeep, hb, hd, hr⟩ := Gen.contents_cons_ok.mp h
    cases hr
    simp only [Node.blockNodes, List.mem_append] at hq
    have hbody := (body_commits (fun m hm => hq m (.inl hm)) hb).block hdeep
    have hrest := contents_commits (fun m hm => hq m (.inr hm)) hd
    rw [contents, Stmt.linesAll, Stmt.lines]
    exact .gen (Gen.fresh_ok.mpr rfl) <| .line <| hbody.bind hrest.map

end

end Emit

/-- **The emission of a template's rendering function.** -/
def Template.emit (context : Context) (t : Template) : Except Failure Builder := do
  let ((_, b), _) ← (do
    Emit.commit (.define t.function t.params)
    Emit.block (Emit.body ⟨t.toTemplateName, context⟩ (.ofParams t.params) "" t.body) : Emit Unit)
    .start 0
  return b

/-- **The lines of the rendering function are those that its emission commits**, with the positions
that are held. Each position is that of the innermost construct that was being emitted when the line
was committed, or the start of the template if there was none; texts and comments are none. -/
theorem Template.exists_emit {context : Context} {t : Template} {stmts : List Stmt}
    (h : t.stmts context = .ok stmts) : ∃ b, t.emit context = .ok b ∧
      b.lines = (t.functionLines stmts).map Line.text ∧
      b.positions = (t.functionLines stmts).map Line.position ∧
      b.positions = b.origins.map Builder.placeOf ∧
      ∀ n, some n ∈ b.origins → n ∈ Node.nodesAll t.body ∧ n.plain? = none := by
  obtain ⟨k, hb⟩ := Template.stmts_ok.mp h
  have hbody : Emit.Commits (· ∈ Node.nodesAll t.body)
      (Emit.body ⟨t.toTemplateName, context⟩ (.ofParams t.params) "" t.body) 1 0 0 () k
      (Stmt.linesAll 1 stmts) := Emit.body_commits (fun _ hn => hn) hb
  have hrender : Emit.Commits (· ∈ Node.nodesAll t.body) (do
      Emit.commit (.define t.function t.params)
      Emit.block (Emit.body ⟨t.toTemplateName, context⟩ (.ofParams t.params) "" t.body)) 0 0 0 () k
      (t.functionLines stmts) :=
    .line (hbody.block (by decide))
  obtain ⟨b, hrun, hgrown⟩ := hrender .start rfl rfl
  refine ⟨b, ?_, hgrown.lines, hgrown.positions, ?_, ?_⟩
  · rw [emit]
    exact Except.bind_ok.mpr ⟨_, hrun, rfl⟩
  · exact (hgrown.tracks (Builder.tracks_start _)).positions
  · exact (hgrown.tracks (Builder.tracks_start _)).origins

end Stencil
