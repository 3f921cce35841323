import Stencil.Proofs.Hygiene

/-!
# Variables of generated functions

A name that is assigned anywhere in a function of the code is a variable of the whole function, and
not only of the block where it is assigned.

* `Pattern.mem_targetNames_iff`: a plain loop assigns the names of its target, and `_` for wildcards.
* `Stmt.stores`: the names that a statement assigns in the function that it stands in.
* `Node.binds`: the names that the patterns of a node bind, the blocks that become functions of
  their own aside.
* **`Gen.mem_stores_iff`**: a function assigns the names of its patterns that are not in scope where
  it starts, and names that generation makes.
-/

namespace Stencil

/-! ## What is assigned in a function -/

namespace Pattern

mutual

/-- **The names that a plain loop assigns**: those in the text of its target. -/
def targetNames : Pattern → List String
  | binding _ n => [n]
  | tuple _ items _ => targetNamesAll items
  | _ => ["_"]

/-- The names that the items of a target assign. -/
def targetNamesAll : List Pattern → List String
  | [] => []
  | p :: ps => p.targetNames ++ targetNamesAll ps

end

mutual

/-- **A pattern has a part that is `_`**, at any depth. -/
def hasWildcard : Pattern → Bool
  | wildcard _ => true
  | binding _ _ | literal _ _ | value _ _ => false
  | tuple _ items _ => anyWildcard items
  | variant _ _ items => anyWildcard items
  | struct _ _ fields _ => fieldsWildcard fields
  | or _ alternatives => anyWildcard alternatives

/-- One pattern of a list has a part that is `_`. -/
def anyWildcard : List Pattern → Bool
  | [] => false
  | p :: ps => p.hasWildcard || anyWildcard ps

/-- The pattern of a field has a part that is `_`. -/
def fieldsWildcard : List (String × Pattern) → Bool
  | [] => false
  | (_, p) :: fs => p.hasWildcard || fieldsWildcard fs

end

mutual

/-- **The names in a target** are those that it binds, and `_` if it has a wildcard. -/
theorem mem_targetNames_iff {n : String} : ∀ {p : Pattern}, p.isIrrefutable →
    (n ∈ p.targetNames ↔ n ∈ p.bound ∨ n = "_" ∧ p.hasWildcard)
  | wildcard _, _ => by simp [targetNames, bound, hasWildcard]
  | binding _ _, _ => by simp [targetNames, bound, hasWildcard]
  | tuple _ items none, h => by
    rw [isIrrefutable] at h
    rw [targetNames, bound, hasWildcard]
    exact mem_targetNamesAll_iff h
  | tuple _ _ (some _), h | literal _ _, h | value _ _, h | variant _ _ _, h | struct _ _ _ _, h
  | or _ _, h => by
    simp [isIrrefutable] at h

theorem mem_targetNamesAll_iff {n : String} : ∀ {ps : List Pattern}, allIrrefutable ps →
    (n ∈ targetNamesAll ps ↔ n ∈ boundAll ps ∨ n = "_" ∧ anyWildcard ps)
  | [], _ => by simp [targetNamesAll, boundAll, anyWildcard]
  | p :: ps, h => by
    rw [allIrrefutable, Bool.and_eq_true] at h
    rw [targetNamesAll, boundAll, anyWildcard, List.mem_append, List.mem_append,
      mem_targetNames_iff h.1, mem_targetNamesAll_iff h.2, Bool.or_eq_true]
    tauto

end

/-- A plain loop assigns the names of its target, and maybe `_`. -/
theorem mem_targetNames {n : String} {rename : String → String} {p target : Pattern}
    (hn : n ≠ "_") (hp : p.isIrrefutable) (h : p.resolve rename = .ok target) :
    n ∈ target.targetNames ↔ n ∈ target.names := by
  have ht : target.isIrrefutable := by rwa [resolve_ok h, isIrrefutable_renamed]
  rw [mem_targetNames_iff ht, bound_of_isIrrefutable ht, or_iff_left fun he => hn he.1]

end Pattern

namespace Stmt

mutual

/-- **The names that a statement assigns in its function.** What stands in a function that is
defined is assigned there; a case assigns the names in any of its alternatives, `_` aside. -/
def stores : Stmt → List String
  | write .. | interpolate .. | evaluate .. | call .. => []
  | define _ name _ => [name]
  | branch _ arms otherwise => armStores arms ++ otherwiseStores otherwise
  | loop _ target _ body => target.targetNames ++ storesAll body
  | select _ _ cases => caseStores cases

/-- The names that statements assign. -/
def storesAll : List Stmt → List String
  | [] => []
  | s :: ss => s.stores ++ storesAll ss

/-- The names that the arms of a branch assign. -/
def armStores : List (Expr × List Stmt) → List String
  | [] => []
  | (_, body) :: arms => storesAll body ++ armStores arms

/-- The names that are assigned if no arm is taken. -/
def otherwiseStores : Option (List Stmt) → List String
  | none => []
  | some body => storesAll body

/-- The names that cases assign. -/
def caseStores : List (Pattern × Option Expr × List Stmt) → List String
  | [] => []
  | (pattern, _, body) :: cases => pattern.bound ++ (storesAll body ++ caseStores cases)

end

variable {n : String}

theorem storesAll_append (a b : List Stmt) : storesAll (a ++ b) = storesAll a ++ storesAll b := by
  induction a with
  | nil => rfl
  | cons s a ih => rw [List.cons_append, storesAll, storesAll, ih, List.append_assoc]

theorem storesAll_single (s : Stmt) : storesAll [s] = s.stores := by
  rw [storesAll, storesAll, List.append_nil]

theorem storesAll_branchOf (p : Nat) (r : List (Expr × List Stmt) × Option (List Stmt)) :
    storesAll (Gen.branchOf p r) = armStores r.1 ++ otherwiseStores r.2 := by
  match r with
  | ([], none) | ([], some _) => simp [Gen.branchOf, armStores, otherwiseStores, storesAll]
  | (_ :: _, _) => rw [Gen.branchOf, storesAll_single, stores]; simp

end Stmt

namespace Node

mutual

/-- **The names that the patterns of a node bind in the function it stands in.** The blocks of calls
are functions of their own; arms and cases after one that every value takes are left out. -/
def binds : Node → List String
  | .text _ _ | .comment _ _ | .value _ _ _ | .call _ _ _ _ => []
  | .branch _ arms otherwise => armBinds (otherwiseBinds otherwise) arms
  | .loop _ pattern _ body => pattern.simplify.names ++ bindsAll body
  | .cases _ _ arms => caseBinds arms

/-- The names that the patterns of a body bind. -/
def bindsAll : List Node → List String
  | [] => []
  | n :: ns => n.binds ++ bindsAll ns

/-- The names that the patterns of arms bind; `rest` are those of what is done if no arm is taken.
-/
def armBinds (rest : List String) : List (Condition × List Node) → List String
  | [] => rest
  | (.holds _, body) :: arms => bindsAll body ++ armBinds rest arms
  | (.matches pattern _, body) :: arms =>
    pattern.simplify.names ++ (bindsAll body ++
      if pattern.simplify.isCatchAll then [] else armBinds rest arms)

/-- The names that are bound if no arm is taken. -/
def otherwiseBinds : Option (List Node) → List String
  | none => []
  | some body => bindsAll body

/-- The names that the patterns of cases bind. -/
def caseBinds : List (Pattern × Option Expr × List Node) → List String
  | [] => []
  | (pattern, guard, body) :: arms =>
    pattern.simplify.names ++ (bindsAll body ++
      if guard.isNone && pattern.simplify.isCatchAll then [] else caseBinds arms)

end

end Node

/-! ## Names that generation makes -/

/-- **A name that generation makes**: that of the output, of what is not used, or a fresh one. -/
def IsMade (n : String) : Prop := n = Names.out ∨ n = "_" ∨ ∃ kind j, n = Gen.freshName kind j

theorem IsMade.of_fresh (kind : String) (j : Nat) : IsMade (Gen.freshName kind j) :=
  .inr (.inr ⟨kind, j, rfl⟩)

/-- No name that generation makes can be a parameter, `_` aside. -/
theorem IsMade.ownName {n : String} (h : IsMade n) (hne : n ≠ "_") : OwnName n := by
  rcases h with rfl | rfl | ⟨kind, j, rfl⟩
  · decide
  · exact absurd rfl hne
  · exact ownName_freshName kind j

namespace Gen

variable {s renamed : Scope} {n : String}

/-- Only names in scope are renamed. -/
theorem has_of_renamings : ∀ {names : List String} {before renamed : Scope} {k k' : Nat},
    renamings s names before k = .ok (renamed, k') → (∀ n, before.has n → s.has n) →
    ∀ n, renamed.has n → s.has n
  | [], before, renamed, k, k', h, hb, n, hn => by
    rw [renamings, pure_ok] at h
    cases h
    exact hb n hn
  | m :: names, before, renamed, k, k', h, hb, n, hn => by
    rw [renamings] at h
    split at h
    · rename_i hm
      simp only [bind_ok, fresh_ok, Prod.mk.injEq] at h
      obtain ⟨_, _, ⟨rfl, rfl⟩, h⟩ := h
      refine has_of_renamings h (fun x hx => ?_) n hn
      obtain ⟨c, hc⟩ := Scope.has_iff.mp hx
      rcases List.mem_cons.mp hc with he | hc
      · cases he
        rw [Bool.and_eq_true] at hm
        exact hm.1
      · exact hb x (Scope.has_iff.mpr ⟨c, hc⟩)
    · exact has_of_renamings h hb n hn

/-- **A name that generation does not make is in the code of a pattern if the pattern binds it and
it is not in scope.** -/
theorem mem_names_resolve {p case : Pattern} {k k' : Nat} (hn : ¬ IsMade n)
    (hr : renamings s p.names [] k = .ok (renamed, k')) (hc : p.resolve renamed.rename = .ok case) :
    n ∈ case.names ↔ n ∈ p.names ∧ s.has n = false := by
  have hrenames := renames_of_renamings hr
  rw [(Pattern.bound_resolve hc).2, List.mem_map]
  constructor
  · rintro ⟨m, hm, rfl⟩
    rcases renamed.rename_eq m with hmem | ⟨hhas, he⟩
    · obtain ⟨j, -, -, he⟩ := hrenames.fresh _ hmem
      have he : renamed.rename m = freshName m j := he
      exact absurd (he ▸ IsMade.of_fresh m j) hn
    · rw [he]
      refine ⟨hm, Bool.eq_false_iff.mpr fun hs => ?_⟩
      rw [hrenames.covers m hm hs] at hhas
      cases hhas
  · rintro ⟨hm, hs⟩
    refine ⟨n, hm, ?_⟩
    rcases renamed.rename_eq n with hmem | ⟨-, he⟩
    · have := has_of_renamings hr (by simp [Scope.has]) n (Scope.has_iff.mpr ⟨_, hmem⟩)
      rw [hs] at this
      cases this
    · exact he

end Gen

/-! ## What the functions of generated code assign -/

namespace Gen

variable {env : Env} {n : String}

/-- The functions of blocks have names that generation makes. -/
theorem isMade_of_arguments {s : Scope} {i p : Nat} : ∀ {args : List (Expr ⊕ List Node)}
    {k k' : Nat} {defs : List Stmt} {ops : List Operand},
    arguments env s i p args k = .ok ((defs, ops), k') → n ∈ Stmt.storesAll defs → IsMade n
  | [], _, _, _, _, h, hn => by
    obtain ⟨hr, -⟩ := arguments_nil_ok.mp h
    cases hr
    simp [Stmt.storesAll] at hn
  | .inl e :: args, _, _, _, _, h, hn => by
    obtain ⟨e', defs', args', -, ha, hr⟩ := arguments_value_ok.mp h
    cases hr
    exact isMade_of_arguments ha hn
  | .inr nodes :: args, _, _, _, _, h, hn => by
    obtain ⟨body', k₁, defs', args', -, -, ha, hr⟩ := arguments_block_ok.mp h
    cases hr
    rw [Stmt.storesAll, Stmt.stores, List.singleton_append, List.mem_cons] at hn
    rcases hn with rfl | hn
    · exact .of_fresh _ _
    · exact isMade_of_arguments ha hn

theorem isMade_of_contents {s : Scope} {i p : Nat} : ∀ {blocks : List (List Node)} {k k' : Nat}
    {defs : List Stmt} {ops : List Operand},
    contents env s i p blocks k = .ok ((defs, ops), k') → n ∈ Stmt.storesAll defs → IsMade n
  | [], _, _, _, _, h, hn => by
    obtain ⟨hr, -⟩ := contents_nil_ok.mp h
    cases hr
    simp [Stmt.storesAll] at hn
  | nodes :: blocks, _, _, _, _, h, hn => by
    obtain ⟨body', k₁, defs', args', -, -, hd, hr⟩ := contents_cons_ok.mp h
    cases hr
    rw [Stmt.storesAll, Stmt.stores, List.singleton_append, List.mem_cons] at hn
    rcases hn with rfl | hn
    · exact .of_fresh _ _
    · exact isMade_of_contents hd hn

theorem storesAll_flush (p : Nat) (text : String) : Stmt.storesAll (flush p text) = [] := by
  unfold flush
  split <;> rfl

/-- What the block below a pattern assigns, with the names of the pattern. -/
theorem mem_stores_below {s renamed : Scope} {p case : Pattern} {k k' : Nat} {nodes : List Node}
    {body : List Stmt} {assigned : List String} (hn : ¬ IsMade n)
    (hr : renamings s p.names [] k = .ok (renamed, k')) (hc : p.resolve renamed.rename = .ok case)
    (hassigned : n ∈ assigned ↔ n ∈ case.names)
    (hbody : n ∈ Stmt.storesAll body ↔
      n ∈ Node.bindsAll nodes ∧ (s.extend renamed p.names).has n = false) :
    n ∈ assigned ∨ n ∈ Stmt.storesAll body ↔
      (n ∈ p.names ∨ n ∈ Node.bindsAll nodes) ∧ s.has n = false := by
  have hhas : (s.extend renamed p.names).has n = false ↔ n ∉ p.names ∧ s.has n = false := by
    rw [Bool.eq_false_iff, Bool.eq_false_iff, ne_eq, Scope.has_extend, not_or]
  rw [hassigned, mem_names_resolve hn hr hc, hbody, hhas]
  tauto

/-- An accepted case assigns its names. -/
theorem mem_bound_of_check {case : Pattern} (hn : ¬ IsMade n)
    (h : Stmt.checkPattern case = .ok ()) : n ∈ case.bound ↔ n ∈ case.names :=
  ⟨fun hb => Stmt.mem_names_of_checkPattern h n hb fun he => hn (.inr (.inl he)),
    fun hm => case.names_subset_bound hm⟩

mutual

/-- **What a function assigns**, names that generation makes aside: the names that the patterns in
it bind, if they are not in scope already where the function starts. -/
theorem mem_stores_iff (hn : ¬ IsMade n) : ∀ {ns : List Node} {s : Scope} {i p k k' loops : Nat}
    {pending : String} {r : List Stmt}, body env s i p pending ns k = .ok (r, k') →
    Stmt.checkAll loops r = .ok () →
    (n ∈ Stmt.storesAll r ↔ n ∈ Node.bindsAll ns ∧ s.has n = false)
  | [], _, _, _, _, _, _, _, _, h, _ => by
    obtain ⟨rfl, -⟩ := body_nil_ok.mp h
    simp [storesAll_flush, Node.bindsAll]
  | m :: ns, _, _, _, _, _, _, _, _, h, hc => by
    rw [Node.bindsAll, List.mem_append]
    cases hp : m.plain? with
    | some text =>
      rw [body_cons_plain hp] at h
      have hm : n ∉ m.binds := by cases m <;> first | cases hp; done | simp [Node.binds]
      rw [mem_stores_iff hn h hc, or_iff_right hm]
    | none =>
      obtain ⟨a, k₁, b, ha, hb, rfl⟩ := (body_cons_ok hp).mp h
      rw [Stmt.checkAll_append_ok, Stmt.checkAll_append_ok] at hc
      rw [Stmt.storesAll_append, Stmt.storesAll_append, storesAll_flush, List.nil_append,
        List.mem_append, mem_stores_node hn hp ha hc.1.2, mem_stores_iff hn hb hc.2, or_and_right]

theorem mem_stores_node (hn : ¬ IsMade n) : ∀ {m : Node} {s : Scope} {i k k' loops : Nat}
    {r : List Stmt}, m.plain? = none → node env s i m k = .ok (r, k') →
    Stmt.checkAll loops r = .ok () →
    (n ∈ Stmt.storesAll r ↔ n ∈ m.binds ∧ s.has n = false)
  | .text _ _, _, _, _, _, _, _, hp, _, _ | .comment _ _, _, _, _, _, _, _, hp, _, _ => by cases hp
  | .value p e raw, _, _, _, _, _, _, _, h, _ => by
    obtain ⟨e', -, rfl, -⟩ := node_value_ok.mp h
    simp [Stmt.storesAll, Stmt.stores, Node.binds]
  | .branch p arms otherwise, _, _, _, _, _, _, _, h, hc => by
    obtain ⟨r, hr, rfl⟩ := node_branch_ok.mp h
    rw [Stmt.check_branchOf_ok] at hc
    rw [Stmt.storesAll_branchOf, List.mem_append, Node.binds]
    exact mem_stores_chain hn (fun hl => by cases otherwise <;> simp_all [Node.otherwiseBinds])
      (fun h hc => mem_stores_alternative hn h hc) hr hc.1 hc.2
  | .loop p pattern e nodes, s, _, _, _, _, _, _, h, hc => by
    rw [Node.binds, List.mem_append]
    by_cases hp : pattern.simplify.isIrrefutable
    · obtain ⟨e', inner, renamed, k₁, target, body', -, hb, ht, -, hbody, rfl⟩ :=
        (node_loop_plain_ok hp).mp h
      rw [Stmt.checkAll_single_ok] at hc
      obtain ⟨hr, rfl⟩ := bind_ok_eq hb
      rw [Stmt.storesAll_single, Stmt.stores, List.mem_append]
      exact mem_stores_below hn hr ht
        (Pattern.mem_targetNames (fun he => hn (.inr (.inl he))) hp ht)
        (mem_stores_iff hn hbody (Stmt.check_loop_ok hc))
    · obtain ⟨e', inner, renamed, k₁, case, body', -, hb, hcase, -, hbody, rfl⟩ :=
        (node_loop_skipping_ok hp).mp h
      rw [Stmt.checkAll_single_ok] at hc
      obtain ⟨hr, rfl⟩ := bind_ok_eq hb
      have hc := Stmt.check_loop_ok hc
      rw [Stmt.checkAll_single_ok, Stmt.check_select_ok, Stmt.checkCases_cons_ok] at hc
      have hitem : n ≠ freshName "item" (k₁ + 1) := fun he => hn (he ▸ .of_fresh _ _)
      simp only [Stmt.storesAll_single, Stmt.stores, Pattern.targetNames, Stmt.caseStores,
        List.append_nil, List.mem_append, List.mem_singleton, hitem, false_or]
      exact mem_stores_below hn hr hcase (mem_bound_of_check hn hc.1)
        (mem_stores_iff hn hbody hc.2.1)
  | .cases p e [], _, _, _, _, _, _, _, h, _ => by
    obtain ⟨e', -, rfl, -⟩ := node_cases_nil_ok.mp h
    simp [Stmt.storesAll, Stmt.stores, Node.binds, Node.caseBinds]
  | .cases p e (arm :: arms), _, _, _, _, _, _, _, h, hc => by
    obtain ⟨e', cases', -, -, hr, rfl⟩ := (node_cases_ok (List.cons_ne_nil _ _)).mp h
    rw [Stmt.checkAll_single_ok, Stmt.check_select_ok] at hc
    rw [Stmt.storesAll_single, Stmt.stores, Node.binds]
    exact mem_stores_cases hn hr hc
  | .call p path args blocks, _, _, _, _, _, _, _, h, _ => by
    obtain ⟨defs, args', k₁, defs', contents', ha, hb, rfl⟩ := node_call_ok.mp h
    rw [Stmt.storesAll_append, Stmt.storesAll_append, Stmt.storesAll_single, Stmt.stores,
      Node.binds]
    simp only [List.append_nil, List.mem_append, List.not_mem_nil, false_and, iff_false, not_or]
    exact ⟨fun hm => hn (isMade_of_arguments ha hm), fun hm => hn (isMade_of_contents hb hm)⟩

theorem mem_stores_alternative (hn : ¬ IsMade n) : ∀ {o : Option (List Node)} {s : Scope}
    {i p k k' loops : Nat} {r : List Stmt}, alternative env s i p o k = .ok (r, k') →
    Stmt.checkAll loops r = .ok () →
    (n ∈ Stmt.storesAll r ↔ n ∈ Node.otherwiseBinds o ∧ s.has n = false)
  | none, _, _, _, _, _, _, _, h, _ => by
    obtain ⟨rfl, -⟩ := alternative_none_ok.mp h
    simp [Stmt.storesAll, Node.otherwiseBinds]
  | some nodes, _, _, _, _, _, _, _, h, hc => by
    rw [alternative_some] at h
    exact mem_stores_iff hn h hc

theorem mem_stores_chain (hn : ¬ IsMade n) {s : Scope} {p loops : Nat} {last : Bool}
    {rest : List String} {otherwise : Nat → Gen (List Stmt)} (hlast : last = false → rest = [])
    (ho : ∀ {i k k' r}, otherwise i k = .ok (r, k') → Stmt.checkAll loops r = .ok () →
      (n ∈ Stmt.storesAll r ↔ n ∈ rest ∧ s.has n = false)) :
    ∀ {arms : List (Condition × List Node)} {i k k' : Nat} {first : Bool}
      {r : List (Expr × List Stmt) × Option (List Stmt)},
    chain env s i first p last otherwise arms k = .ok (r, k') →
    Stmt.checkArms loops r.1 = .ok () → Stmt.checkOtherwise loops r.2 = .ok () →
    (n ∈ Stmt.armStores r.1 ∨ n ∈ Stmt.otherwiseStores r.2 ↔
      n ∈ Node.armBinds rest arms ∧ s.has n = false)
  | [], _, _, _, _, _, h, _, hc' => by
    rw [Node.armBinds]
    obtain ⟨-, -, stmts, hs, rfl⟩ | ⟨hl, rfl, -⟩ := chain_nil_ok.mp h
    · rw [Stmt.checkOtherwise] at hc'
      simpa only [Stmt.armStores, Stmt.otherwiseStores, List.not_mem_nil, false_or] using ho hs hc'
    · simp [Stmt.armStores, Stmt.otherwiseStores, hlast hl]
  | (.holds e, nodes) :: arms, _, _, _, _, _, h, hc, hc' => by
    obtain ⟨e', body', k₁, arms', stmts, -, -, hb, hr, rfl⟩ := chain_holds_ok.mp h
    rw [Stmt.checkArms_cons_ok] at hc
    rw [Node.armBinds, Stmt.armStores, List.mem_append, List.mem_append, or_assoc,
      mem_stores_chain hn hlast ho hr hc.2 hc', mem_stores_iff hn hb hc.1, or_and_right]
  | (.matches pattern e, nodes) :: arms, _, _, _, _, _, h, hc, hc' => by
    obtain ⟨i', e', inner, renamed, k₁, case, body', k₂, -, -, hbind, -, hcase, -, hb, h⟩ :=
      chain_matches_ok.mp h
    obtain ⟨hr, rfl⟩ := bind_ok_eq hbind
    rw [Node.armBinds, List.mem_append, List.mem_append, ← or_assoc, or_and_right]
    obtain ⟨hend, rfl, -⟩ | ⟨hmore, arms', stmts, hmore', rfl⟩ := h
    · rw [Stmt.checkOtherwise, Stmt.checkAll_single_ok, Stmt.check_select_ok,
        Stmt.checkCases_cons_ok] at hc'
      have hnone : n ∉ if pattern.simplify.isCatchAll then [] else Node.armBinds rest arms := by
        split
        · exact List.not_mem_nil
        · obtain ⟨rfl, hl⟩ := hend.resolve_right ‹_›
          rw [Node.armBinds, hlast hl]
          exact List.not_mem_nil
      simp only [Stmt.armStores, Stmt.otherwiseStores, Stmt.storesAll_single, Stmt.stores,
        Stmt.caseStores, List.append_nil, List.mem_append, List.not_mem_nil, false_or, hnone,
        false_and, or_false]
      exact mem_stores_below hn hr hcase (mem_bound_of_check hn hc'.1)
        (mem_stores_iff hn hb hc'.2.1)
    · rw [Stmt.checkOtherwise, Stmt.checkAll_single_ok, Stmt.check_select_ok,
        Stmt.checkCases_cons_ok, Stmt.checkCases_cons_ok, Stmt.check_branchOf_ok] at hc'
      rw [if_neg fun hcatch => hmore (.inr hcatch),
        ← mem_stores_below hn hr hcase (mem_bound_of_check hn hc'.1)
          (mem_stores_iff hn hb hc'.2.1),
        ← mem_stores_chain hn hlast ho hmore' hc'.2.2.2.1.1 hc'.2.2.2.1.2]
      simp only [Stmt.armStores, Stmt.otherwiseStores, Stmt.storesAll_single, Stmt.stores,
        Stmt.caseStores, Stmt.storesAll_branchOf, Pattern.bound, List.append_nil, List.nil_append,
        List.mem_append, List.not_mem_nil, false_or, or_assoc]

theorem mem_stores_cases (hn : ¬ IsMade n) :
    ∀ {arms : List (Pattern × Option Expr × List Node)} {s : Scope} {i p k k' loops : Nat}
      {r : List (Pattern × Option Expr × List Stmt)},
    cases env s i p arms k = .ok (r, k') → Stmt.checkCases loops r = .ok () →
    (n ∈ Stmt.caseStores r ↔ n ∈ Node.caseBinds arms ∧ s.has n = false)
  | [], _, _, _, _, _, _, _, h, _ => by
    obtain ⟨rfl, -⟩ := cases_nil_ok.mp h
    simp [Stmt.caseStores, Node.caseBinds]
  | (pattern, guard, nodes) :: arms, _, _, _, _, _, _, _, h, hc => by
    obtain ⟨inner, renamed, k₁, case, guard', body', k₂, hbind, hcase, -, -, hb, h⟩ :=
      cases_cons_ok.mp h
    obtain ⟨hr, rfl⟩ := bind_ok_eq hbind
    rw [Node.caseBinds, List.mem_append, List.mem_append, ← or_assoc, or_and_right]
    obtain ⟨⟨rfl, hcatch⟩, rfl, -⟩ | ⟨hmore, rest, hrest, rfl⟩ := h
    · rw [Stmt.checkCases_cons_ok] at hc
      simp only [Stmt.caseStores, List.append_nil, List.mem_append, hcatch, Option.isNone_none,
        Bool.and_self, if_true, List.not_mem_nil, false_and, or_false]
      exact mem_stores_below hn hr hcase (mem_bound_of_check hn hc.1) (mem_stores_iff hn hb hc.2.1)
    · rw [Stmt.checkCases_cons_ok] at hc
      have hgoes : ¬ (guard.isNone && pattern.simplify.isCatchAll) = true := by
        rw [Bool.and_eq_true, Option.isNone_iff_eq_none]
        exact hmore
      rw [if_neg hgoes, Stmt.caseStores, List.mem_append, List.mem_append, ← or_assoc,
        mem_stores_below hn hr hcase (mem_bound_of_check hn hc.1) (mem_stores_iff hn hb hc.2.1),
        mem_stores_cases hn hrest hc.2.2]

end

end Gen

end Stencil
