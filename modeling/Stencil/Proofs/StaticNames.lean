import Stencil.Proofs.CallNames
import Stencil.Proofs.ReadSpans

/-!
# Names of static files in generated code

In the code, a static file has a name with a point in it. No name in a template has one, and fresh
names are made of these names, so that names of static files come from paths to static files only.

* `Expr.names`, `Node.exprs`: the names in an expression, and the expressions in a node.
* `Template.Read.shapes_of_body`: expressions and patterns that are read have the shape of such.
* **`ScopedBody.yields`**: the expressions of generated statements are those of the template.
* **`Template.not_usesStatics`**: without static files, no template that is read refers to one.
-/

namespace Stencil

open Text Expr

/-- The name starts like the names of static files. -/
def IsStaticName (n : String) : Prop := (Names.staticsAlias ++ ".").toList <+: n.toList

theorem IsStaticName.ownName {n : String} (h : IsStaticName n) : OwnName n :=
  List.IsPrefix.trans (by decide) h

theorem IsStaticName.point_mem {n : String} (h : IsStaticName n) : '.' ∈ n.toList :=
  h.subset (by decide)

theorem Expr.IsName.point_not_mem {n : String} (h : IsName n) : '.' ∉ n.toList := by
  obtain ⟨c, cs, hn, hstart, hword⟩ := h.exists_cons
  rw [hn, List.mem_cons, not_or]
  constructor
  · rintro rfl
    exact absurd hstart (by decide)
  · intro hmem
    exact absurd (hword '.' hmem) (by decide)

/-! ## Names in expressions -/

namespace Expr

mutual

/-- **The names in an expression**, at any depth; paths and fields are none. -/
def names : Expr → List String
  | literal _ _ | path _ _ => []
  | name _ n => [n]
  | field _ v _ => v.names
  | method _ r _ as => r.names ++ namesAll as
  | call _ f as => f.names ++ namesAll as
  | index _ v i => v.names ++ i.names
  | tuple _ is => namesAll is
  | list _ is => namesAll is
  | range _ s e _ => s.names ++ e.names
  | unary _ _ e => e.names
  | binary _ _ a b => a.names ++ b.names
  | group _ e => e.names

/-- The names in expressions. -/
def namesAll : List Expr → List String
  | [] => []
  | e :: es => e.names ++ namesAll es

end

mutual

/-- **An expression refers to a static file** if the name of one stands in it. -/
theorem usesStatics_iff : ∀ e : Expr, e.usesStatics = true ↔ ∃ n ∈ e.names, IsStaticName n
  | literal _ _ | path _ _ => by simp [usesStatics, names]
  | name _ n => by simp [usesStatics, names, IsStaticName]
  | field _ v _ | unary _ _ v | group _ v => by
    rw [usesStatics, names]
    exact usesStatics_iff v
  | method _ a _ as | call _ a as => by
    simp only [usesStatics, names, Bool.or_eq_true, usesStatics_iff a, anyUsesStatics_iff as,
      List.mem_append, or_and_right, exists_or]
  | index _ a b | range _ a b _ | binary _ _ a b => by
    simp only [usesStatics, names, Bool.or_eq_true, usesStatics_iff a, usesStatics_iff b,
      List.mem_append, or_and_right, exists_or]
  | tuple _ is | list _ is => by
    rw [usesStatics, names]
    exact anyUsesStatics_iff is

theorem anyUsesStatics_iff : ∀ es : List Expr,
    anyUsesStatics es = true ↔ ∃ n ∈ namesAll es, IsStaticName n
  | [] => by simp [anyUsesStatics, namesAll]
  | e :: es => by
    simp only [anyUsesStatics, namesAll, Bool.or_eq_true, usesStatics_iff e, anyUsesStatics_iff es,
      List.mem_append, or_and_right, exists_or]

end

theorem mem_namesAll {n : String} {es : List Expr} : n ∈ namesAll es ↔ ∃ e ∈ es, n ∈ e.names := by
  induction es with
  | nil => simp [namesAll]
  | cons e es ih => simp [namesAll, ih]

mutual

/-- The names in an expression that is read are names. -/
theorem isName_of_levelled {n : String} : ∀ {e : Expr}, e.Levelled → n ∈ e.names → IsName n
  | literal _ _, _, hn | path _ _, _, hn => by cases hn
  | name _ m, h, hn => by
    rw [List.mem_singleton.mp hn]
    exact h
  | field _ v _, h, hn | unary _ _ v, h, hn => isName_of_levelled (e := v) h.1 hn
  | group _ v, h, hn => isName_of_levelled (e := v) h hn
  | method _ a _ as, h, hn | call _ a as, h, hn =>
    (List.mem_append.mp hn).elim (isName_of_levelled h.1) (isName_of_levelledAll h.2.2.2)
  | index _ a b, h, hn =>
    (List.mem_append.mp hn).elim (isName_of_levelled h.1) (isName_of_levelled h.2.2)
  | range _ a b _, h, hn | binary _ _ a b, h, hn =>
    (List.mem_append.mp hn).elim (isName_of_levelled h.1) (isName_of_levelled h.2.2.1)
  | tuple _ _, h, hn | list _ _, h, hn => (isName_of_levelledAll h hn :)

theorem isName_of_levelledAll {n : String} : ∀ {es : List Expr}, LevelledAll es → n ∈ namesAll es →
    IsName n
  | [], _, hn => by cases hn
  | _ :: _, h, hn =>
    (List.mem_append.mp hn).elim (isName_of_levelled h.1) (isName_of_levelledAll h.2)

end

variable {r : Resolution}

mutual

/-- **Names are renamed one by one**, if no path has a code of its own. -/
theorem names_resolve (hpath : ∀ path p, r.ofPath path p = .ok none) : ∀ {e e' : Expr},
    e.resolve r = .ok e' → e'.names = e.names.map r.rename
  | literal _ v, _, he => by
    rw [resolve] at he
    split at he
    · cases he
      rfl
    · cases he
  | name _ n, _, he => by
    cases he
    rfl
  | path p parts, _, he => by
    rw [resolve, hpath] at he
    cases he
    rfl
  | field _ v _, _, he | unary _ _ v, _, he | group _ v, _, he => by
    simp only [resolve, Except.bind_ok] at he
    obtain ⟨v', hv, he⟩ := he
    cases he
    rw [names, names, names_resolve hpath hv]
  | method _ a _ as, _, he | call _ a as, _, he => by
    simp only [resolve, Except.bind_ok] at he
    obtain ⟨a', ha, as', has, he⟩ := he
    cases he
    rw [names, names, names_resolve hpath ha, namesAll_resolve hpath has, List.map_append]
  | index _ a b, _, he | binary _ _ a b, _, he => by
    simp only [resolve, Except.bind_ok] at he
    obtain ⟨a', ha, b', hb, he⟩ := he
    cases he
    rw [names, names, names_resolve hpath ha, names_resolve hpath hb, List.map_append]
  | tuple _ is, _, he | list _ is, _, he => by
    simp only [resolve, Except.bind_ok] at he
    obtain ⟨is', his, he⟩ := he
    cases he
    rw [names, names, namesAll_resolve hpath his]
  | range _ a b _, _, he => by
    simp only [resolve, Except.bind_ok] at he
    obtain ⟨b', hb, a', ha, he⟩ := he
    cases he
    rw [names, names, names_resolve hpath ha, names_resolve hpath hb, List.map_append]

theorem namesAll_resolve (hpath : ∀ path p, r.ofPath path p = .ok none) : ∀ {es es' : List Expr},
    resolveAll r es = .ok es' → namesAll es' = (namesAll es).map r.rename
  | [], _, he => by
    cases he
    rfl
  | e :: es, _, he => by
    simp only [resolveAll, Except.bind_ok] at he
    obtain ⟨e', hv, es', hes, he⟩ := he
    cases he
    rw [namesAll, namesAll, names_resolve hpath hv, namesAll_resolve hpath hes, List.map_append]

end

end Expr

/-! ## Expressions and patterns of a body -/

namespace Node

mutual

/-- **The expressions of a node and of the nodes inside it.** -/
def exprs : Node → List Expr
  | .text _ _ | .comment _ _ => []
  | .value _ e _ => [e]
  | .branch _ arms otherwise => armExprs arms ++ otherwiseExprs otherwise
  | .loop _ _ e body => e :: exprsAll body
  | .cases _ e arms => e :: caseExprs arms
  | .call _ _ args blocks => argumentExprs args ++ blockExprs blocks

/-- The expressions in a body, at any depth. -/
def exprsAll : List Node → List Expr
  | [] => []
  | n :: ns => n.exprs ++ exprsAll ns

/-- The expressions of arms and inside them. -/
def armExprs : List (Condition × List Node) → List Expr
  | [] => []
  | (.holds e, body) :: arms | (.matches _ e, body) :: arms => e :: (exprsAll body ++ armExprs arms)

/-- The expressions inside what is done if no arm is taken. -/
def otherwiseExprs : Option (List Node) → List Expr
  | none => []
  | some body => exprsAll body

/-- The guards of cases and the expressions inside them. -/
def caseExprs : List (Pattern × Option Expr × List Node) → List Expr
  | [] => []
  | (_, guard, body) :: arms => guard.toList ++ (exprsAll body ++ caseExprs arms)

/-- The arguments that are expressions, and the expressions inside the others. -/
def argumentExprs : List (Expr ⊕ List Node) → List Expr
  | [] => []
  | .inl e :: args => e :: argumentExprs args
  | .inr body :: args => exprsAll body ++ argumentExprs args

/-- The expressions inside blocks. -/
def blockExprs : List (List Node) → List Expr
  | [] => []
  | body :: blocks => exprsAll body ++ blockExprs blocks

end

end Node

namespace Pattern

mutual

/-- The names that a pattern binds are names. -/
theorem isName_of_shaped {n : String} : ∀ {p : Pattern} {d : Nat}, p.Shaped d → n ∈ p.bound →
    IsName n
  | wildcard _, _, _, hn | literal _ _, _, _, hn | value _ _, _, _, hn => by cases hn
  | binding _ m, _, h, hn => by
    rw [List.mem_singleton.mp hn]
    exact h.1
  | tuple _ _ _, _, h, hn => isName_of_shapedAll h.2.1 hn
  | variant _ _ _, _, h, hn => isName_of_shapedAll h.2.2 hn
  | struct _ _ _ _, _, h, hn => isName_of_shapedFields h.2.2 hn
  | or _ _, _, h, hn => isName_of_shapedAlternatives h.2 hn

theorem isName_of_shapedAll {n : String} : ∀ {ps : List Pattern} {d : Nat}, ShapedAll d ps →
    n ∈ boundAll ps → IsName n
  | [], _, _, hn => by cases hn
  | _ :: _, _, h, hn =>
    (List.mem_append.mp hn).elim (isName_of_shaped h.1) (isName_of_shapedAll h.2)

theorem isName_of_shapedFields {n : String} : ∀ {fs : List (String × Pattern)} {d : Nat},
    ShapedFields d fs → n ∈ boundFields fs → IsName n
  | [], _, _, hn => by cases hn
  | (m, p) :: fs, d, h, hn => by
    rcases List.mem_append.mp hn with hn | hn
    · rcases h.2.1 with hbinding | hp
      · cases p with
        | binding q k =>
          have hk : k = m := by simpa [isBinding] using hbinding
          have hn : n ∈ [k] := hn
          rw [List.mem_singleton.mp hn, hk]
          exact h.1
        | _ => cases hbinding
      · exact isName_of_shaped hp hn
    · exact isName_of_shapedFields h.2.2 hn

theorem isName_of_shapedAlternatives {n : String} : ∀ {ps : List Pattern} {d : Nat},
    ShapedAlternatives d ps → n ∈ boundAll ps → IsName n
  | [], _, _, hn => by cases hn
  | p :: ps, d, h, hn => by
    rcases List.mem_append.mp hn with hn | hn
    · have hp := h.1
      split at hp
      · exact isName_of_shaped hp.2 hn
      · exact isName_of_shaped hp hn
    · exact isName_of_shapedAlternatives h.2 hn

end

end Pattern

namespace Template.Read

/-- **Expressions and patterns that the reader can return.** -/
structure Shapes (es : List Expr) (ps : List Pattern) : Prop where
  levelled : ∀ e ∈ es, e.Levelled
  shaped : ∀ p ∈ ps, p.Shaped 0

namespace Shapes

variable {es es' : List Expr} {ps ps' : List Pattern} {e : Expr} {p : Pattern}

theorem nil : Shapes [] [] := ⟨by simp, by simp⟩

theorem exprs (hes : ∀ e ∈ es, e.Levelled) (h : Shapes es' ps) : Shapes (es ++ es') ps :=
  ⟨List.forall_mem_append.mpr ⟨hes, h.levelled⟩, h.shaped⟩

theorem expr (he : e.Levelled) (h : Shapes es ps) : Shapes (e :: es) ps :=
  exprs (List.forall_mem_singleton.mpr he) h

theorem pattern (hp : p.Shaped 0) (h : Shapes es ps) : Shapes es (p :: ps) :=
  ⟨h.levelled, List.forall_mem_cons.mpr ⟨hp, h.shaped⟩⟩

theorem append (h : Shapes es ps) (h' : Shapes es' ps') : Shapes (es ++ es') (ps ++ ps') :=
  ⟨List.forall_mem_append.mpr ⟨h.levelled, h'.levelled⟩,
    List.forall_mem_append.mpr ⟨h.shaped, h'.shaped⟩⟩

end Shapes

/-- An arm: its condition, its body, and the arms after it. -/
theorem shapes_arm {c d : Cursor} {cond : Condition} {body : List Node}
    {arms : List (Condition × List Node)} (h : condition c = .ok (cond, d))
    (hbody : Shapes (Node.exprsAll body) (Node.patternsAll body))
    (harms : Shapes (Node.armExprs arms) (Node.armPatterns arms)) :
    Shapes (Node.armExprs ((cond, body) :: arms)) (Node.armPatterns ((cond, body) :: arms)) := by
  unfold condition at h
  dsimp only at h
  split at h
  · obtain ⟨⟨p, a⟩, hp, h⟩ := Except.bind_ok.mp h
    split at h
    · obtain ⟨⟨e, b⟩, he, h⟩ := Except.bind_ok.mp h
      cases h
      exact .expr (fits_of_readExpression he).levelled
        (.pattern (Pattern.shaped_of_read hp) (hbody.append harms))
    · cases h
  · obtain ⟨⟨e, a⟩, he, h⟩ := Except.bind_ok.mp h
    cases h
    exact .expr (fits_of_readExpression he).levelled (hbody.append harms)

theorem levelled_of_guard? {c d : Cursor} {guard : Option Expr} (h : guard? c = .ok (guard, d)) :
    ∀ e ∈ guard.toList, e.Levelled := by
  unfold guard? at h
  split at h
  · obtain ⟨⟨e, a⟩, he, h⟩ := Except.bind_ok.mp h
    cases h
    simpa using (fits_of_readExpression he).levelled
  · cases h
    simp

mutual

/-- **Expressions and patterns that stand in a text** have the shape of such. -/
theorem shapes_of_body {c d : Cursor} : ∀ {ns : List Node}, Body.Spans c d ns →
    Shapes (Node.exprsAll ns) (Node.patternsAll ns)
  | _, .nil _ => .nil
  | _, .text _ _ _ hrest => (shapes_of_body hrest :)
  | _, .construct hnode _ _ hrest => (shapes_of_node hnode).append (shapes_of_body hrest)

theorem shapes_of_node {c d : Cursor} : ∀ {n : Node}, Node.Spans c d n → Shapes n.exprs n.patterns
  | _, .value _ he _ | _, .raw _ he _ => .expr (fits_of_readChain he).levelled .nil
  | _, .comment _ _ | _, .lineComment _ _ _ => .nil
  | _, .branch _ _ harms => (shapes_of_arms harms).1.append (shapes_of_arms harms).2
  | _, .loop _ _ hp _ he hbody =>
    .expr (fits_of_readExpression he).levelled
      (.pattern (Pattern.shaped_of_read hp) (shapes_of_block hbody))
  | _, .cases _ _ he _ harms => .expr (fits_of_readExpression he).levelled (shapes_of_cases harms)
  | _, .call _ _ _ hargs hblocks => (shapes_of_args hargs).append (shapes_of_blocks hblocks)

theorem shapes_of_block {c d : Cursor} : ∀ {ns : List Node}, Block.Spans c d ns →
    Shapes (Node.exprsAll ns) (Node.patternsAll ns)
  | _, .braces _ hbody _ => shapes_of_body hbody

theorem shapes_of_arms {c d : Cursor} : ∀ {arms : List (Condition × List Node)}
    {otherwise : Option (List Node)}, Arms.Spans c d arms otherwise →
    Shapes (Node.armExprs arms) (Node.armPatterns arms) ∧
      Shapes (Node.otherwiseExprs otherwise) (Node.otherwisePatterns otherwise)
  | _, _, .one hcond hbody => ⟨shapes_arm hcond (shapes_of_block hbody) .nil, .nil⟩
  | _, _, .otherwise hcond hbody _ hlast =>
    ⟨shapes_arm hcond (shapes_of_block hbody) .nil, shapes_of_block hlast⟩
  | _, _, .more hcond hbody _ harms =>
    ⟨shapes_arm hcond (shapes_of_block hbody) (shapes_of_arms harms).1, (shapes_of_arms harms).2⟩

theorem shapes_of_cases {c d : Cursor} : ∀ {arms : List (Pattern × Option Expr × List Node)},
    Cases.Spans c d arms → Shapes (Node.caseExprs arms) (Node.casePatterns arms)
  | _, .done _ _ => .nil
  | _, .more _ hp hguard _ hbody _ _ _ harms =>
    .pattern (Pattern.shaped_of_read hp) (.exprs (levelled_of_guard? hguard)
      ((shapes_of_block hbody).append (shapes_of_cases harms)))

theorem shapes_of_args {c d : Cursor} : ∀ {args : List (Expr ⊕ List Node)},
    Args.Spans c d args → Shapes (Node.argumentExprs args) (Node.argumentPatterns args)
  | _, .done _ => .nil
  | _, .last harg _ => shapes_of_arg harg .nil
  | _, .more harg _ hargs => shapes_of_arg harg (shapes_of_args hargs)

theorem shapes_of_arg {c d : Cursor} {args : List (Expr ⊕ List Node)} :
    ∀ {arg : Expr ⊕ List Node}, Arg.Spans c d arg →
    Shapes (Node.argumentExprs args) (Node.argumentPatterns args) →
    Shapes (Node.argumentExprs (arg :: args)) (Node.argumentPatterns (arg :: args))
  | _, .block hbody, h => (shapes_of_block hbody).append h
  | _, .value he, h => .expr (fits_of_readExpression he).levelled h

theorem shapes_of_blocks {c d : Cursor} : ∀ {blocks : List (List Node)},
    Blocks.Spans c d blocks → Shapes (Node.blockExprs blocks) (Node.blockPatterns blocks)
  | _, .done _ => .nil
  | _, .more _ hbody hrest => (shapes_of_block hbody).append (shapes_of_blocks hrest)

end

end Template.Read

/-! ## Expressions of generated statements -/

namespace Stmt

theorem exprsAll_append (a b : List Stmt) : exprsAll (a ++ b) = exprsAll a ++ exprsAll b := by
  induction a with
  | nil => rfl
  | cons s a ih => rw [List.cons_append, exprsAll, exprsAll, ih, List.append_assoc]

theorem exprsAll_single (s : Stmt) : exprsAll [s] = s.exprs := by
  rw [exprsAll, exprsAll, List.append_nil]

theorem exprsAll_branchOf (p : Nat) (r : List (Expr × List Stmt) × Option (List Stmt)) :
    exprsAll (Gen.branchOf p r) = armExprs r.1 ++ otherwiseExprs r.2 := by
  obtain ⟨arms, otherwise⟩ := r
  cases arms with
  | nil => cases otherwise <;> rfl
  | cons arm arms => exact exprsAll_single _

end Stmt

/-- **Expressions of the code come from expressions of the template**, which were resolved in scopes
of some kind. -/
def Env.Yields (env : Env) (Good : Scope → Prop) (es codes : List Expr) : Prop :=
  ∀ e' ∈ codes, ∃ e ∈ es, ∃ s, Good s ∧ e.resolve (env.resolution s) = .ok e'

section Yields

variable {env : Env} {Good : Scope → Prop} {es es' codes codes' : List Expr} {e e' : Expr}
variable {s : Scope}

theorem Env.yields_nil (es : List Expr) : env.Yields Good es [] := by simp [Env.Yields]

theorem Env.Yields.cons (hs : Good s) (he : e.resolve (env.resolution s) = .ok e')
    (h : env.Yields Good es codes) : env.Yields Good (e :: es) (e' :: codes) := by
  intro x hx
  rcases List.mem_cons.mp hx with rfl | hx
  · exact ⟨e, List.mem_cons_self, s, hs, he⟩
  · obtain ⟨y, hy, hresolved⟩ := h x hx
    exact ⟨y, List.mem_cons_of_mem _ hy, hresolved⟩

theorem Env.Yields.append (h : env.Yields Good es codes) (h' : env.Yields Good es' codes') :
    env.Yields Good (es ++ es') (codes ++ codes') := by
  intro x hx
  rcases List.mem_append.mp hx with hx | hx
  · obtain ⟨y, hy, hresolved⟩ := h x hx
    exact ⟨y, List.mem_append_left _ hy, hresolved⟩
  · obtain ⟨y, hy, hresolved⟩ := h' x hx
    exact ⟨y, List.mem_append_right _ hy, hresolved⟩

theorem Env.Yields.of_subset (h : env.Yields Good es codes) (hcodes : codes' ⊆ codes)
    (hes : es ⊆ es') : env.Yields Good es' codes' := by
  intro x hx
  obtain ⟨y, hy, hresolved⟩ := h x (hcodes hx)
  exact ⟨y, hes hy, hresolved⟩

mutual

/-- **The expressions of generated statements are those of the template**, each resolved in a scope
of the same kind as those of all blocks. -/
theorem ScopedBody.yields : ∀ {path : List Frame} {s : Scope} {ns : List Node} {stmts : List Stmt},
    ScopedBody (fun _ f => Good f.scope) env path s ns stmts → Good s →
    env.Yields Good (Node.exprsAll ns) (Stmt.exprsAll stmts)
  | _, _, _, _, .nil, _ => Env.yields_nil _
  | _, _, _, _, .plain _ hb, hs => (Env.yields_nil _).append (hb.yields hs)
  | _, _, _, _, .write hb, hs => (hb.yields hs :)
  | _, _, _, _, .node hn hb, hs => by
    rw [Stmt.exprsAll_append]
    exact (hn.yields hs).append (hb.yields hs)

theorem ScopedNode.yields : ∀ {path : List Frame} {s : Scope} {n : Node} {stmts : List Stmt},
    ScopedNode (fun _ f => Good f.scope) env path s n stmts → Good s →
    env.Yields Good n.exprs (Stmt.exprsAll stmts)
  | _, _, _, _, .value he, hs => .cons hs he (Env.yields_nil _)
  | _, _, _, _, .branch ha, hs => by
    rw [Stmt.exprsAll_branchOf]
    exact ha.yields hs
  | _, _, _, _, .loop he _ hf hb, hs => by
    rw [Stmt.exprsAll_single]
    exact .cons hs he (hb.yields hf)
  | _, _, _, _, .skipping he _ hf hb, hs => by
    simp only [Stmt.exprsAll_single, Stmt.exprs, Stmt.caseExprs, Operand.expr?, Option.toList,
      List.nil_append, List.append_nil]
    exact .cons hs he (hb.yields hf)
  | _, _, _, _, .evaluate he, hs => .cons hs he (Env.yields_nil _)
  | _, _, _, _, .cases he hc, hs => by
    rw [Stmt.exprsAll_single]
    exact .cons hs he (hc.yields hs)
  | _, _, _, _, .call ha hb, hs => by
    obtain ⟨hdefs, hops⟩ := hb.yields hs
    simp only [Stmt.exprsAll_append, Stmt.exprsAll_single, Stmt.exprs, List.filterMap_append, hops,
      List.append_nil]
    refine ((ha.yields hs).append hdefs).of_subset (fun x hx => ?_) (List.Subset.refl _)
    simp only [List.mem_append] at hx ⊢
    exact or_right_comm.mp hx

theorem ScopedArms.yields : ∀ {path : List Frame} {s : Scope} {p : Nat} {o : Option (List Node)}
    {arms : List (Condition × List Node)} {r : List (Expr × List Stmt) × Option (List Stmt)},
    ScopedArms (fun _ f => Good f.scope) env path s p o arms r → Good s →
    env.Yields Good (Node.armExprs arms ++ Node.otherwiseExprs o)
      (Stmt.armExprs r.1 ++ Stmt.otherwiseExprs r.2)
  | _, _, _, _, _, _, .nil, _ => Env.yields_nil _
  | _, _, _, _, _, _, .otherwise hb, hs => (hb.yields hs :)
  | _, _, _, _, _, _, .holds he hb ha, hs => by
    have hrest := (hb.yields hs).append (ha.yields hs)
    simp only [Node.armExprs, Stmt.armExprs, List.cons_append, List.append_assoc]
    exact .cons hs he hrest
  | _, _, _, _, _, _, .last he _ hf hb _, hs => by
    simp only [Node.armExprs, Stmt.armExprs, Stmt.otherwiseExprs, Stmt.exprsAll_single, Stmt.exprs,
      Stmt.caseExprs, Operand.expr?, Option.toList, List.nil_append, List.append_nil,
      List.cons_append, List.append_assoc]
    refine .cons hs he ?_
    exact (hb.yields hf).of_subset (List.Subset.refl _) (List.subset_append_left _ _)
  | _, _, _, _, _, _, .matches he _ hf hb ha, hs => by
    have hrest := (hb.yields hf).append (ha.yields hs)
    simp only [Node.armExprs, Stmt.armExprs, Stmt.otherwiseExprs, Stmt.exprsAll_single, Stmt.exprs,
      Stmt.caseExprs, Stmt.exprsAll_branchOf, Operand.expr?, Option.toList, List.nil_append,
      List.append_nil, List.cons_append, List.append_assoc]
    exact .cons hs he hrest

theorem ScopedCases.yields : ∀ {path : List Frame} {s : Scope}
    {arms : List (Pattern × Option Expr × List Node)}
    {cases : List (Pattern × Option Expr × List Stmt)},
    ScopedCases (fun _ f => Good f.scope) env path s arms cases → Good s →
    env.Yields Good (Node.caseExprs arms) (Stmt.caseExprs cases)
  | _, _, _, _, .nil, _ => Env.yields_nil _
  | _, _, _, _, .last _ hf hb _, _ => (hb.yields hf).append (Env.yields_nil _)
  | _, _, _, _, .cons _ hg hf hb hr, hs => by
    have hrest := (hb.yields hf).append (hr.yields hs)
    rw [Stmt.caseExprs, List.append_assoc]
    refine .append ?_ hrest
    cases Except.option_mapM_ok.mp hg with
    | none => exact Env.yields_nil _
    | some hguard => exact .cons hf hguard (Env.yields_nil _)

theorem ScopedArguments.yields : ∀ {path : List Frame} {s : Scope} {args : List (Expr ⊕ List Node)}
    {defs : List Stmt} {ops : List Operand},
    ScopedArguments (fun _ f => Good f.scope) env path s args defs ops → Good s →
    env.Yields Good (Node.argumentExprs args) (Stmt.exprsAll defs ++ ops.filterMap Operand.expr?)
  | _, _, _, _, _, .nil, _ => Env.yields_nil _
  | _, _, _, _, _, .value he ha, hs =>
    (Env.Yields.cons hs he (ha.yields hs)).of_subset List.perm_middle.subset (List.Subset.refl _)
  | _, _, _, _, _, .block hf hb ha, hs => by
    simp only [Stmt.exprsAll, Stmt.exprs, List.append_assoc]
    exact (hb.yields hf).append (ha.yields hs)

theorem ScopedContents.yields : ∀ {path : List Frame} {s : Scope} {blocks : List (List Node)}
    {defs : List Stmt} {ops : List Operand},
    ScopedContents (fun _ f => Good f.scope) env path s blocks defs ops → Good s →
    env.Yields Good (Node.blockExprs blocks) (Stmt.exprsAll defs) ∧
      ops.filterMap Operand.expr? = []
  | _, _, _, _, _, .nil, _ => ⟨Env.yields_nil _, rfl⟩
  | _, _, _, _, _, .cons hf hb hc, hs =>
    ⟨(hb.yields hf).append (hc.yields hs).1, (hc.yields hs).2⟩

end

end Yields

/-! ## Without static files -/

/-- No name in the code of a scope is that of a static file. -/
def Scope.Staticless (s : Scope) : Prop := ∀ x ∈ s, ¬ IsStaticName x.2

/-- A fresh name for a name without a point has none. -/
theorem not_isStaticName_freshName {kind : String} (h : '.' ∉ kind.toList) (n : Nat) :
    ¬ IsStaticName (Gen.freshName kind n) := by
  intro hs
  have hmem := hs.point_mem
  rw [Gen.toList_freshName, String.toList_append, List.mem_append, List.mem_append,
    List.mem_cons] at hmem
  rcases hmem with (hmem | hmem) | hmem | hmem
  · exact absurd hmem (by decide)
  · exact h hmem
  · cases hmem
  · exact absurd (Nat.isDigit_of_mem_toDigits (by decide) (by decide) hmem) (by decide)

/-- What a name without a point is called in such a scope. -/
theorem Scope.Staticless.rename {s : Scope} (h : s.Staticless) {n : String}
    (hn : '.' ∉ n.toList) : ¬ IsStaticName (s.rename n) := by
  rcases s.rename_eq n with hm | ⟨-, he⟩
  · exact h _ hm
  · rw [he]
    exact fun hs => hn hs.point_mem

/-- **Scopes get no names of static files**, below patterns whose names have no point. -/
theorem keeps_staticless : Keeps (fun _ f => f.scope.Staticless) (fun _ s _ => s.Staticless)
    fun p => ∀ n ∈ p.bound, '.' ∉ n.toList := by
  have hextend : ∀ {s renamed : Scope} {p : Pattern} {k k' : Nat}, s.Staticless →
      (∀ n ∈ p.bound, '.' ∉ n.toList) → Gen.renamings s p.names [] k = .ok (renamed, k') →
      (s.extend renamed p.names).Staticless := by
    intro s renamed p k k' hs hp hr x hx
    rcases Scope.mem_extend.mp hx with hx | ⟨n, hn, rfl⟩
    · exact hs x hx
    · have hpoint := hp n (p.names_subset_bound hn)
      rcases renamed.rename_eq n with hm | ⟨-, he⟩
      · obtain ⟨j, -, -, he⟩ := (Gen.renames_of_renamings hr).fresh _ hm
        rw [he]
        exact not_isStaticName_freshName hpoint j
      · rw [he]
        exact fun hs => hpoint hs.point_mem
  refine ⟨fun h _ => h, fun hs hp hr _ _ => ?_, fun hs hp hr _ _ => ?_, fun hs => ⟨hs, hs⟩⟩
  · exact ⟨hextend hs hp hr, hextend hs hp hr⟩
  · exact ⟨hextend hs hp hr, hextend hs hp hr⟩

/-- **The expressions and patterns of a template that is read** have the shape of such. -/
theorem Template.shapes_of_parse {name : TemplateName} {path : Path} {file : String}
    {text : List Char} {t : Template} (h : Template.parse name path file text = .ok t) :
    Template.Read.Shapes (Node.exprsAll t.body) (Node.patternsAll t.body) := by
  have hread := (Template.parse_ok h).1
  simp only [Outline.parse, Except.bind_ok] at hread
  obtain ⟨⟨imports, c⟩, -, ⟨params, c'⟩, -, ⟨body, c''⟩, hbody, hread⟩ := hread
  have hb : body = t.body := congrArg Outline.body (Except.pure_ok.mp hread)
  rw [← hb]
  exact Template.Read.shapes_of_body (Template.Read.spans_of_body hbody).1

/-- **Without static files, no template that is read refers to one** in its code. -/
theorem Template.not_usesStatics {name : TemplateName} {path : Path} {file : String}
    {text : List Char} {context : Context} {t : Template} {stmts : List Stmt}
    (hparse : Template.parse name path file text = .ok t) (hcontext : context.statics = none)
    (h : t.stmts context = .ok stmts) (hc : Stmt.checkAll 0 stmts = .ok ()) :
    Expr.anyUsesStatics (Stmt.exprsAll stmts) = false := by
  have hparams := Template.not_ownName_of_parse hparse
  have hshapes := Template.shapes_of_parse hparse
  obtain ⟨k, hb⟩ := Template.stmts_ok.mp h
  have hstart : (Scope.ofParams t.params).Staticless := by
    intro x hx hs
    obtain ⟨p, hp, rfl⟩ := Scope.mem_ofParams.mp hx
    exact hparams p hp hs.ownName
  have hscoped : ScopedBody (fun _ f => f.scope.Staticless) ⟨t.toTemplateName, context⟩ []
      (.ofParams t.params) t.body stmts := by
    refine Gen.body_scoped keeps_staticless (fun q hq n hn => ?_) hstart hb hc
    exact (Pattern.isName_of_shaped (hshapes.shaped q hq) (q.bound_simplify hn)).point_not_mem
  rw [← Bool.not_eq_true, Expr.anyUsesStatics_iff]
  rintro ⟨n, hn, hs⟩
  obtain ⟨e', he', hn⟩ := Expr.mem_namesAll.mp hn
  obtain ⟨e, he, s, hgood, hresolve⟩ := hscoped.yields hstart e' he'
  have hpath : ∀ path p,
      (Env.resolution ⟨t.toTemplateName, context⟩ s).ofPath path p = .ok none := by
    intro path p
    simp [Env.resolution, Env.staticPath, hcontext]
  rw [Expr.names_resolve hpath hresolve, List.mem_map] at hn
  obtain ⟨m, hm, rfl⟩ := hn
  have hpoint := (Expr.isName_of_levelled (hshapes.levelled e he) hm).point_not_mem
  exact hgood.rename hpoint hs

end Stencil
