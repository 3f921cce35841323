import Stencil.Proofs.Scoped

/-!
# Generated statements at any depth

* `Stmt.within`, `Stmt.withinAll`: statements with all that stand inside them.
* `Stmt.assigned`: the names that a statement assigns itself.
* `Stmt.Made`: what is known of a generated statement by itself.
* **`ScopedBody.made`**: it is known of all statements of a body, at any depth.
* `Env.Targets`: a template that some call in the code of another one runs.
* **`Gen.refs_targets`**: generated statements call no other templates.
* **`Context.mem_of_target`**: the templates of a context are the only ones that calls run.
-/

namespace Stencil

namespace Stmt

mutual

/-- **A statement and the statements inside it**, at any depth. -/
def within : Stmt → List Stmt
  | write p s => [write p s]
  | interpolate p raw e => [interpolate p raw e]
  | evaluate p e => [evaluate p e]
  | call p target args => [call p target args]
  | define p name body => define p name body :: withinAll body
  | branch p arms otherwise =>
    branch p arms otherwise :: (withinArms arms ++ withinOtherwise otherwise)
  | loop p target iterable body => loop p target iterable body :: withinAll body
  | select p subject cases => select p subject cases :: withinCases cases

/-- The statements of a body, at any depth. -/
def withinAll : List Stmt → List Stmt
  | [] => []
  | s :: ss => s.within ++ withinAll ss

/-- The statements inside the arms of a branch. -/
def withinArms : List (Expr × List Stmt) → List Stmt
  | [] => []
  | (_, body) :: arms => withinAll body ++ withinArms arms

/-- The statements inside what is done if no arm is taken. -/
def withinOtherwise : Option (List Stmt) → List Stmt
  | none => []
  | some body => withinAll body

/-- The statements inside cases. -/
def withinCases : List (Pattern × Option Expr × List Stmt) → List Stmt
  | [] => []
  | (_, _, body) :: cases => withinAll body ++ withinCases cases

end

/-- **The names that a statement assigns** itself, by its head or the heads of its cases. -/
def assigned : Stmt → List String
  | define _ name _ => [name]
  | loop _ target _ _ => target.bound
  | select _ _ cases => cases.flatMap fun c => c.1.bound
  | _ => []

variable {st : Stmt}

theorem withinAll_append (a b : List Stmt) : withinAll (a ++ b) = withinAll a ++ withinAll b := by
  induction a with
  | nil => rfl
  | cons s a ih => rw [List.cons_append, withinAll, withinAll, ih, List.append_assoc]

theorem withinAll_single (s : Stmt) : withinAll [s] = s.within := by
  rw [withinAll, withinAll, List.append_nil]

/-- What stands inside the statements of a branch: the branch, if there is one, and what its arms and
the last body hold. -/
theorem mem_withinAll_branchOf {p : Nat} {r : List (Expr × List Stmt) × Option (List Stmt)}
    (h : st ∈ withinAll (Gen.branchOf p r)) :
    st = branch p r.1 r.2 ∨ st ∈ withinArms r.1 ∨ st ∈ withinOtherwise r.2 := by
  obtain ⟨arms, otherwise⟩ := r
  cases arms with
  | nil =>
    cases otherwise with
    | none => cases h
    | some body => exact .inr (.inr h)
  | cons arm arms =>
    have hbranch : Gen.branchOf p (arm :: arms, otherwise) = [.branch p (arm :: arms) otherwise] :=
      rfl
    rw [hbranch, withinAll_single, within, List.mem_cons, List.mem_append] at h
    exact h

mutual

/-- **The templates that statements call are the targets of the calls among them.** -/
theorem mem_refs_iff {r : TemplateRef} : ∀ s : Stmt,
    r ∈ s.refs ↔ ∃ p args, call p (.template r) args ∈ s.within
  | write _ _ => by simp [refs, within]
  | interpolate _ _ _ => by simp [refs, within]
  | evaluate _ _ => by simp [refs, within]
  | call p target args => by cases target <;> simp [refs, within, eq_comm]
  | define p name body => by simp [refs, within, mem_refsAll_iff body]
  | branch p arms otherwise => by
    simp only [refs, within, List.mem_append, List.mem_cons, mem_armRefs_iff arms,
      mem_otherwiseRefs_iff otherwise, reduceCtorEq, false_or, exists_or]
  | loop p target iterable body => by simp [refs, within, mem_refsAll_iff body]
  | select p subject cases => by simp [refs, within, mem_caseRefs_iff cases]

theorem mem_refsAll_iff {r : TemplateRef} : ∀ ss : List Stmt,
    r ∈ refsAll ss ↔ ∃ p args, call p (.template r) args ∈ withinAll ss
  | [] => by simp [refsAll, withinAll]
  | s :: ss => by
    simp only [refsAll, withinAll, List.mem_append, mem_refs_iff s, mem_refsAll_iff ss, exists_or]

theorem mem_armRefs_iff {r : TemplateRef} : ∀ arms : List (Expr × List Stmt),
    r ∈ armRefs arms ↔ ∃ p args, call p (.template r) args ∈ withinArms arms
  | [] => by simp [armRefs, withinArms]
  | (_, body) :: arms => by
    simp only [armRefs, withinArms, List.mem_append, mem_refsAll_iff body, mem_armRefs_iff arms,
      exists_or]

theorem mem_otherwiseRefs_iff {r : TemplateRef} : ∀ otherwise : Option (List Stmt),
    r ∈ otherwiseRefs otherwise ↔ ∃ p args, call p (.template r) args ∈ withinOtherwise otherwise
  | none => by simp [otherwiseRefs, withinOtherwise]
  | some body => by rw [otherwiseRefs, withinOtherwise, mem_refsAll_iff body]

theorem mem_caseRefs_iff {r : TemplateRef} : ∀ cases : List (Pattern × Option Expr × List Stmt),
    r ∈ caseRefs cases ↔ ∃ p args, call p (.template r) args ∈ withinCases cases
  | [] => by simp [caseRefs, withinCases]
  | (_, _, body) :: cases => by
    simp only [caseRefs, withinCases, List.mem_append, mem_refsAll_iff body, mem_caseRefs_iff cases,
      exists_or]

end

/-- **What is known of a generated statement**: a call runs what its path leads to in some scope, and
the names that the statement assigns are those of a block. -/
structure Made (P : List Frame → Frame → Prop) (env : Env) (st : Stmt) : Prop where
  target : ∀ p t args, st = call p t args → ∃ s path, t = env.context.target env.self s path
  assigned : ∀ n ∈ st.assigned, ∃ path f, P path f ∧ n ∈ f.assigned

end Stmt

section Made

open Stmt

variable {P : List Frame → Frame → Prop} {env : Env} {st : Stmt}

/-- A statement that neither calls nor assigns. -/
theorem Stmt.made_of_plain (hcall : ∀ p t args, st ≠ call p t args) (h : st.assigned = []) :
    st.Made P env :=
  ⟨fun p t args he => absurd he (hcall p t args), fun n hn => by rw [h] at hn; cases hn⟩

/-- A statement that assigns names of one block. -/
theorem Stmt.made_of_frame {path : List Frame} {f : Frame} (hf : P path f)
    (hcall : ∀ p t args, st ≠ call p t args) (h : st.assigned ⊆ f.assigned) : st.Made P env :=
  ⟨fun p t args he => absurd he (hcall p t args), fun _ hn => ⟨path, f, hf, h hn⟩⟩

mutual

/-- **All that is generated for a body is made** of its calls and blocks. -/
theorem ScopedBody.made : ∀ {path : List Frame} {s : Scope} {ns : List Node} {stmts : List Stmt},
    ScopedBody P env path s ns stmts → st ∈ withinAll stmts → st.Made P env
  | _, _, _, _, .nil, h => by cases h
  | _, _, _, _, .plain _ hs, h => hs.made h
  | _, _, _, _, .write hs, h => by
    rw [withinAll, within, List.singleton_append, List.mem_cons] at h
    rcases h with rfl | h
    · exact made_of_plain (by simp) rfl
    · exact hs.made h
  | _, _, _, _, .node hn hs, h => by
    rw [withinAll_append, List.mem_append] at h
    exact h.elim hn.made hs.made

theorem ScopedNode.made : ∀ {path : List Frame} {s : Scope} {n : Node} {stmts : List Stmt},
    ScopedNode P env path s n stmts → st ∈ withinAll stmts → st.Made P env
  | _, _, _, _, .value _, h => by
    rw [withinAll_single, within, List.mem_singleton] at h
    subst h
    exact made_of_plain (by simp) rfl
  | _, _, _, _, .branch ha, h => by
    rcases mem_withinAll_branchOf h with rfl | h | h
    · exact made_of_plain (by simp) rfl
    · exact ha.made (.inl h)
    · exact ha.made (.inr h)
  | _, _, _, _, .loop _ _ hf hb, h => by
    rw [withinAll_single, within, List.mem_cons] at h
    rcases h with rfl | h
    · exact made_of_frame hf (by simp) (List.subset_append_right _ _)
    · exact hb.made h
  | _, _, _, _, .skipping _ _ hf hb, h => by
    simp only [withinAll, within, withinCases, List.append_nil, List.mem_cons] at h
    rcases h with rfl | rfl | h
    · exact made_of_frame hf (by simp) (List.subset_append_left _ _)
    · exact made_of_frame hf (by simp) (by simp [Stmt.assigned, Frame.ofPattern])
    · exact hb.made h
  | _, _, _, _, .evaluate _, h => by
    rw [withinAll_single, within, List.mem_singleton] at h
    subst h
    exact made_of_plain (by simp) rfl
  | _, _, _, _, .cases _ hc, h => by
    obtain ⟨hbound, hin⟩ := hc.made
    rw [withinAll_single, within, List.mem_cons] at h
    rcases h with rfl | h
    · refine ⟨by simp, fun n hn => ?_⟩
      obtain ⟨c, hmem, hn⟩ := List.mem_flatMap.mp hn
      exact hbound c hmem n hn
    · exact hin h
  | _, s, .call _ name _ _, _, .call ha hb, h => by
    simp only [withinAll_append, withinAll_single, within, List.mem_append,
      List.mem_singleton] at h
    rcases h with (h | h) | rfl
    · exact ha.made h
    · exact hb.made h
    · refine ⟨fun p t args he => ?_, fun n hn => by cases hn⟩
      cases he
      exact ⟨s, name, rfl⟩

theorem ScopedArms.made : ∀ {path : List Frame} {s : Scope} {p : Nat} {o : Option (List Node)}
    {arms : List (Condition × List Node)} {a : List (Expr × List Stmt) × Option (List Stmt)},
    ScopedArms P env path s p o arms a → st ∈ withinArms a.1 ∨ st ∈ withinOtherwise a.2 →
    st.Made P env
  | _, _, _, _, _, _, .nil, h => by simp [withinArms, withinOtherwise] at h
  | _, _, _, _, _, _, .otherwise hb, h => by
    rw [withinArms, withinOtherwise] at h
    exact hb.made (h.resolve_left List.not_mem_nil)
  | _, _, _, _, _, _, .holds _ hb ha, h => by
    rw [withinArms, List.mem_append, or_assoc] at h
    exact h.elim hb.made ha.made
  | _, _, _, _, _, _, .last _ _ hf hb _, h => by
    simp only [withinArms, withinOtherwise, withinAll, within, withinCases, List.append_nil,
      List.mem_cons, List.not_mem_nil, false_or] at h
    rcases h with rfl | h
    · exact made_of_frame hf (by simp) (by simp [Stmt.assigned, Frame.ofPattern])
    · exact hb.made h
  | _, _, _, _, _, _, .matches _ _ hf hb ha, h => by
    simp only [withinArms, withinOtherwise, withinAll, within, withinCases, List.append_nil,
      List.mem_cons, List.mem_append, List.not_mem_nil, false_or] at h
    rcases h with rfl | h | h
    · exact made_of_frame hf (by simp) (by simp [Stmt.assigned, Frame.ofPattern, Pattern.bound])
    · exact hb.made h
    · rcases mem_withinAll_branchOf h with rfl | h
      · exact made_of_plain (by simp) rfl
      · exact ha.made h

/-- The patterns of cases, too, bind names of blocks. -/
theorem ScopedCases.made : ∀ {path : List Frame} {s : Scope}
    {arms : List (Pattern × Option Expr × List Node)}
    {cases : List (Pattern × Option Expr × List Stmt)}, ScopedCases P env path s arms cases →
    (∀ c ∈ cases, ∀ n ∈ c.1.bound, ∃ path f, P path f ∧ n ∈ f.assigned) ∧
      (st ∈ withinCases cases → st.Made P env)
  | _, _, _, _, .nil => ⟨by simp, by simp [withinCases]⟩
  | _, _, _, _, .last _ hf hb _ => by
    refine ⟨fun c hc n hn => ?_, fun h => ?_⟩
    · obtain rfl := List.mem_singleton.mp hc
      exact ⟨_, _, hf, List.mem_append_right _ hn⟩
    · rw [withinCases, withinCases, List.append_nil] at h
      exact hb.made h
  | _, _, _, _, .cons _ _ hf hb hr => by
    refine ⟨fun c hc n hn => ?_, fun h => ?_⟩
    · rcases List.mem_cons.mp hc with rfl | hc
      · exact ⟨_, _, hf, List.mem_append_right _ hn⟩
      · exact hr.made.1 c hc n hn
    · rw [withinCases, List.mem_append] at h
      exact h.elim hb.made hr.made.2

theorem ScopedArguments.made : ∀ {path : List Frame} {s : Scope}
    {args : List (Expr ⊕ List Node)} {defs : List Stmt} {ops : List Operand},
    ScopedArguments P env path s args defs ops → st ∈ withinAll defs → st.Made P env
  | _, _, _, _, _, .nil, h => by cases h
  | _, _, _, _, _, .value _ ha, h => ha.made h
  | _, _, _, _, _, .block hf hb ha, h => by
    rw [withinAll, within, List.cons_append, List.mem_cons, List.mem_append] at h
    rcases h with rfl | h | h
    · exact made_of_frame hf (by simp) (by simp [Stmt.assigned])
    · exact hb.made h
    · exact ha.made h

theorem ScopedContents.made : ∀ {path : List Frame} {s : Scope} {blocks : List (List Node)}
    {defs : List Stmt} {ops : List Operand}, ScopedContents P env path s blocks defs ops →
    st ∈ withinAll defs → st.Made P env
  | _, _, _, _, _, .nil, h => by cases h
  | _, _, _, _, _, .cons hf hb hc, h => by
    rw [withinAll, within, List.cons_append, List.mem_cons, List.mem_append] at h
    rcases h with rfl | h | h
    · exact made_of_frame hf (by simp) (by simp [Stmt.assigned])
    · exact hb.made h
    · exact hc.made h

end

end Made

/-! ## Calls of templates -/

/-- A call in the code of a template runs another one. -/
def Env.Targets (env : Env) (r : TemplateRef) : Prop :=
  ∃ s path, env.context.target env.self s path = .template r

/-- Nothing needs to be kept. -/
theorem keeps_trivial : Keeps (fun _ _ => True) (fun _ _ _ => True) (fun _ => True) where
  mono _ _ := trivial
  pattern _ _ _ _ _ := ⟨trivial, trivial⟩
  item _ _ _ _ _ := ⟨trivial, trivial⟩
  content _ := ⟨trivial, trivial⟩

/-- **Generated statements call the templates that calls run**, and no others. -/
theorem Gen.refs_targets {env : Env} {s : Scope} {ns : List Node} {i p k k' loops : Nat}
    {pending : String} {stmts : List Stmt}
    (h : body env s i p pending ns k = .ok (stmts, k')) (hc : Stmt.checkAll loops stmts = .ok ())
    {r : TemplateRef} (hr : r ∈ Stmt.refsAll stmts) : env.Targets r := by
  have hs : ScopedBody (fun _ _ => True) env [] s ns stmts :=
    body_scoped keeps_trivial (fun _ _ => trivial) trivial h hc
  obtain ⟨p, args, hcall⟩ := (Stmt.mem_refsAll_iff stmts).mp hr
  obtain ⟨s', path, ht⟩ := (hs.made hcall).target p _ args rfl
  exact ⟨s', path, ht.symm⟩

/-! ## What calls run -/

namespace Context

variable {key : List String × String} {ref : TemplateRef}

theorem mem_put {table : List ((List String × String) × TemplateRef)}
    {entry : (List String × String) × TemplateRef} (h : entry ∈ put table key ref) :
    entry = (key, ref) ∨ entry ∈ table := by
  rw [put, List.mem_cons] at h
  exact h.imp_right fun h => (List.mem_filter.mp h).1

theorem mem_putNew {table : List ((List String × String) × TemplateRef)}
    {entry : (List String × String) × TemplateRef} (h : entry ∈ putNew table key ref) :
    entry = (key, ref) ∨ entry ∈ table := by
  unfold putNew at h
  split at h
  · exact .inr h
  · exact List.mem_cons.mp h

theorem mem_add {table : List ((List String × String) × TemplateRef)} {n : TemplateName}
    {entry : (List String × String) × TemplateRef} (h : entry ∈ add table n) :
    entry.2 = refOf n ∨ entry ∈ table := by
  have hput : entry ∈ put table (n.namespaces, n.function) (refOf n) →
      entry.2 = refOf n ∨ entry ∈ table := fun h => (mem_put h).imp_left (by rintro rfl; rfl)
  unfold add at h
  split at h
  · rcases mem_putNew h with rfl | h
    · exact .inl rfl
    · exact hput h
  · exact hput h

/-- A context knows its templates only. -/
theorem mem_ofNames {names : List TemplateName} {statics : Option (List String)}
    {entry : (List String × String) × TemplateRef}
    (h : entry ∈ (ofNames names statics).templates) : ∃ n ∈ names, entry.2 = refOf n := by
  have hfold : ∀ (names : List TemplateName) table,
      entry ∈ names.foldl add table → (∃ n ∈ names, entry.2 = refOf n) ∨ entry ∈ table := by
    intro names
    induction names with
    | nil => exact fun table h => .inr h
    | cons n names ih =>
      intro table h
      rcases ih _ h with ⟨m, hm, he⟩ | h
      · exact .inl ⟨m, List.mem_cons_of_mem _ hm, he⟩
      · exact (mem_add h).imp_left fun he => ⟨n, List.mem_cons_self, he⟩
  exact (hfold names [] h).resolve_right (List.not_mem_nil)

/-- **A call runs a template of the context**, and not the one it stands in. -/
theorem mem_of_target {c : Context} {self : TemplateName} {s : Scope} {path : List String}
    (h : c.target self s path = .template ref) :
    (∃ key, (key, ref) ∈ c.templates) ∧ ref ≠ refOf self := by
  unfold target at h
  split at h
  · cases h
  · split at h
    · rename_i r hfind
      split at h
      · cases h
      · cases h
        refine ⟨?_, ‹_›⟩
        unfold find? at hfind
        rcases Option.or_eq_some_iff.mp hfind with h | ⟨-, h⟩
        · exact ⟨_, mem_of_lookup h⟩
        · exact ⟨_, mem_of_lookup h⟩
    · cases h

end Context

/-- **The code of a template calls templates of its context** only. -/
theorem Template.mem_of_refs {names : List TemplateName} {statics : Option (List String)}
    {t : Template} {stmts : List Stmt} {r : TemplateRef}
    (h : t.stmts (.ofNames names statics) = .ok stmts) (hc : Stmt.checkAll 0 stmts = .ok ())
    (hr : r ∈ Stmt.refsAll stmts) : ∃ n ∈ names, r = Context.refOf n := by
  obtain ⟨k, hb⟩ := Template.stmts_ok.mp h
  obtain ⟨s, path, htarget⟩ := Gen.refs_targets hb hc hr
  obtain ⟨⟨key, hkey⟩, -⟩ := Context.mem_of_target htarget
  exact Context.mem_ofNames hkey

end Stencil
