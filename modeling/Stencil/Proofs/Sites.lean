import Stencil.Proofs.Locals
import Stencil.Proofs.References

/-!
# Uses of names and the functions around them

What a name in the code refers to is decided by the functions around it: if one of them has a
variable of that name, then the name refers to a variable, wherever it is assigned.

* `Func`, `Site`: the functions and the binders around a place.
* `SitedBody`: nodes and their statements, with what is asked of each use of a name.
* `Site.Fits`: the invariant: names that are bound around a place are bound in a function around it,
  and the variables of these functions are the names that are bound in them.
* **`Template.sited`**: what holds at every use in a place that fits holds in a generated template.
-/

namespace Stencil

/-- **A function of the code**: its parameters, the output aside, and what it consists of in the
template and in the code. -/
structure Func where
  params : List String
  nodes : List Node
  stmts : List Stmt

/-- **The variables of a function**: its parameters, and what is assigned anywhere in it. -/
def Func.locals (f : Func) : List String := Names.out :: (f.params ++ Stmt.storesAll f.stmts)

theorem Func.mem_locals_of_stores {f : Func} {n : String} (h : n ∈ Stmt.storesAll f.stmts) :
    n ∈ f.locals :=
  List.mem_cons_of_mem _ (List.mem_append_right _ h)

/-- The names that are bound in a function of the template. -/
def Func.binds (f : Func) : List String := f.params ++ Node.bindsAll f.nodes

/-- The function of a block that is passed on as content. -/
def Func.ofBlock (nodes : List Node) (stmts : List Stmt) : Func := ⟨[], nodes, stmts⟩

/-- **A place**: the functions and the binders around it, each from the inside. -/
structure Site where
  functions : List Func
  binders : List Binder

namespace Site

/-- The place below a binder. -/
def below (site : Site) (b : Binder) : Site := { site with binders := b :: site.binders }

/-- The place inside a function. -/
def inside (site : Site) (f : Func) : Site := { site with functions := f :: site.functions }

/-- **The name is a variable** of a function around the place. -/
def IsLocal (site : Site) (n : String) : Prop := ∃ f ∈ site.functions, n ∈ f.locals

/-- **The name is bound** somewhere in a function around the place, maybe in another block. -/
def Binds (site : Site) (n : String) : Prop := ∃ f ∈ site.functions, n ∈ f.binds

/-- Nothing around the place binds the name. -/
def IsFree (site : Site) (n : String) : Prop := innermost? site.binders n = none

/-- The place inside a function with nothing around it. -/
def ofFunc (f : Func) : Site := ⟨[f], [.params f.params]⟩

end Site

/-- **The place inside the rendering function** of a template. -/
def Template.site (t : Template) (stmts : List Stmt) : Site :=
  .ofFunc ⟨t.params.map Param.name, t.body, stmts⟩

/-- What is asked of the uses of names at a place: of expressions, of the paths of calls, and of
patterns. -/
structure Asked where
  value : Site → Expr → Expr → Prop
  call : Site → List String → Target → Prop
  pattern : Site → Pattern → Pattern → Prop

section Relation

variable (a : Asked)

mutual

/-- **Nodes and their statements, with the uses of names in them**, at a place. -/
inductive SitedBody : Site → List Node → List Stmt → Prop where
  | nil {site : Site} : SitedBody site [] []
  | plain {site : Site} {n : Node} {ns : List Node} {stmts : List Stmt} (h : n.plain?.isSome)
      (hs : SitedBody site ns stmts) : SitedBody site (n :: ns) stmts
  | write {site : Site} {p : Nat} {text : String} {ns : List Node} {stmts : List Stmt}
      (hs : SitedBody site ns stmts) : SitedBody site ns (.write p text :: stmts)
  | node {site : Site} {n : Node} {ns : List Node} {b stmts : List Stmt}
      (hn : SitedNode site n b) (hs : SitedBody site ns stmts) :
      SitedBody site (n :: ns) (b ++ stmts)

/-- A node and its statements. -/
inductive SitedNode : Site → Node → List Stmt → Prop where
  | value {site : Site} {p : Nat} {e e' : Expr} {raw : Bool} (he : a.value site e e') :
      SitedNode site (.value p e raw) [.interpolate p raw e']
  | branch {site : Site} {p : Nat} {arms : List (Condition × List Node)}
      {otherwise : Option (List Node)} {r : List (Expr × List Stmt) × Option (List Stmt)}
      (h : SitedArms site p otherwise arms r) :
      SitedNode site (.branch p arms otherwise) (Gen.branchOf p r)
  | loop {site : Site} {p : Nat} {pattern target : Pattern} {e e' : Expr} {nodes : List Node}
      {body : List Stmt} (he : a.value site e e') (ht : a.pattern site pattern.simplify target)
      (hb : SitedBody (site.below (.pattern pattern.simplify target)) nodes body) :
      SitedNode site (.loop p pattern e nodes) [.loop p target e' body]
  /-- A loop through helper items. -/
  | skipping {site : Site} {p : Nat} {pattern case : Pattern} {item : String} {e e' : Expr}
      {nodes : List Node} {body : List Stmt} (he : a.value site e e')
      (hc : a.pattern site pattern.simplify case)
      (hb : SitedBody (site.below (.pattern pattern.simplify case)) nodes body) :
      SitedNode site (.loop p pattern e nodes)
        [.loop p (.binding p item) e' [.select p (.made item) [(case, none, body)]]]
  | evaluate {site : Site} {p : Nat} {e e' : Expr} (he : a.value site e e') :
      SitedNode site (.cases p e []) [.evaluate p e']
  | cases {site : Site} {p : Nat} {e e' : Expr} {arms : List (Pattern × Option Expr × List Node)}
      {r : List (Pattern × Option Expr × List Stmt)} (he : a.value site e e')
      (h : SitedCases site arms r) : SitedNode site (.cases p e arms) [.select p (.value e') r]
  | call {site : Site} {p : Nat} {path : List String} {target : Target}
      {args : List (Expr ⊕ List Node)} {blocks : List (List Node)} {defs defs' : List Stmt}
      {ops ops' : List Operand} (ht : a.call site path target)
      (ha : SitedArguments site args defs ops) (hb : SitedContents site blocks defs' ops') :
      SitedNode site (.call p path args blocks) (defs ++ defs' ++ [.call p target (ops ++ ops')])

/-- The arms of a branch and their statements. -/
inductive SitedArms : Site → Nat → Option (List Node) → List (Condition × List Node) →
    List (Expr × List Stmt) × Option (List Stmt) → Prop where
  | nil {site : Site} {p : Nat} : SitedArms site p none [] ([], none)
  | otherwise {site : Site} {p : Nat} {nodes : List Node} {body : List Stmt}
      (hb : SitedBody site nodes body) : SitedArms site p (some nodes) [] ([], some body)
  | holds {site : Site} {p : Nat} {otherwise : Option (List Node)} {e e' : Expr}
      {nodes : List Node} {body : List Stmt} {arms : List (Condition × List Node)}
      {arms' : List (Expr × List Stmt)} {stmts : Option (List Stmt)} (he : a.value site e e')
      (hb : SitedBody site nodes body) (h : SitedArms site p otherwise arms (arms', stmts)) :
      SitedArms site p otherwise ((.holds e, nodes) :: arms) ((e', body) :: arms', stmts)
  /-- Nothing comes after an arm that every value matches, or after the last one. -/
  | last {site : Site} {p : Nat} {otherwise : Option (List Node)} {pattern case : Pattern}
      {e e' : Expr} {nodes : List Node} {body : List Stmt} {arms : List (Condition × List Node)}
      (he : a.value site e e') (hc : a.pattern site pattern.simplify case)
      (hb : SitedBody (site.below (.pattern pattern.simplify case)) nodes body)
      (hlast : arms = [] ∧ otherwise = none ∨ pattern.simplify.isCatchAll) :
      SitedArms site p otherwise ((.matches pattern e, nodes) :: arms)
        ([], some [.select p (.value e') [(case, none, body)]])
  | matches {site : Site} {p : Nat} {otherwise : Option (List Node)} {pattern case : Pattern}
      {e e' : Expr} {nodes : List Node} {body : List Stmt} {arms : List (Condition × List Node)}
      {r : List (Expr × List Stmt) × Option (List Stmt)} (he : a.value site e e')
      (hc : a.pattern site pattern.simplify case)
      (hb : SitedBody (site.below (.pattern pattern.simplify case)) nodes body)
      (hmore : ¬ pattern.simplify.isCatchAll) (h : SitedArms site p otherwise arms r) :
      SitedArms site p otherwise ((.matches pattern e, nodes) :: arms)
        ([], some [.select p (.value e')
          [(case, none, body), (.wildcard p, none, Gen.branchOf p r)]])

/-- Cases and their statements, up to one that every value takes. -/
inductive SitedCases : Site → List (Pattern × Option Expr × List Node) →
    List (Pattern × Option Expr × List Stmt) → Prop where
  | nil {site : Site} : SitedCases site [] []
  | last {site : Site} {pattern case : Pattern} {nodes : List Node} {body : List Stmt}
      {arms : List (Pattern × Option Expr × List Node)} (hc : a.pattern site pattern.simplify case)
      (hb : SitedBody (site.below (.pattern pattern.simplify case)) nodes body)
      (hlast : pattern.simplify.isCatchAll) :
      SitedCases site ((pattern, none, nodes) :: arms) [(case, none, body)]
  | cons {site : Site} {pattern case : Pattern} {guard guard' : Option Expr}
      {nodes : List Node} {body : List Stmt} {arms : List (Pattern × Option Expr × List Node)}
      {r : List (Pattern × Option Expr × List Stmt)} (hc : a.pattern site pattern.simplify case)
      (hg : Option.Rel (a.value (site.below (.pattern pattern.simplify case))) guard guard')
      (hb : SitedBody (site.below (.pattern pattern.simplify case)) nodes body)
      (h : SitedCases site arms r) :
      SitedCases site ((pattern, guard, nodes) :: arms) ((case, guard', body) :: r)

/-- The arguments of a call, the functions that are defined for its blocks, and what is passed. -/
inductive SitedArguments : Site → List (Expr ⊕ List Node) → List Stmt → List Operand → Prop where
  | nil {site : Site} : SitedArguments site [] [] []
  | value {site : Site} {e e' : Expr} {args : List (Expr ⊕ List Node)} {defs : List Stmt}
      {ops : List Operand} (he : a.value site e e') (h : SitedArguments site args defs ops) :
      SitedArguments site (.inl e :: args) defs (.value e' :: ops)
  | block {site : Site} {p : Nat} {name : String} {nodes : List Node} {body : List Stmt}
      {args : List (Expr ⊕ List Node)} {defs : List Stmt} {ops : List Operand}
      (hb : SitedBody (site.inside (.ofBlock nodes body)) nodes body)
      (h : SitedArguments site args defs ops) :
      SitedArguments site (.inr nodes :: args) (.define p name body :: defs) (.made name :: ops)

/-- The blocks after a call, and the functions that are defined for them. -/
inductive SitedContents : Site → List (List Node) → List Stmt → List Operand → Prop where
  | nil {site : Site} : SitedContents site [] [] []
  | cons {site : Site} {p : Nat} {name : String} {nodes : List Node} {body : List Stmt}
      {blocks : List (List Node)} {defs : List Stmt} {ops : List Operand}
      (hb : SitedBody (site.inside (.ofBlock nodes body)) nodes body)
      (h : SitedContents site blocks defs ops) :
      SitedContents site (nodes :: blocks) (.define p name body :: defs) (.made name :: ops)

end

end Relation

/-! ## Places fit their scopes -/

/-- **A place that fits a scope**: the scope holds what the binders give, what is in scope is bound
in a function around, and the variables of these functions are the names that are bound in them. -/
structure Site.Fits (site : Site) (s : Scope) : Prop where
  agrees : s.Agrees site.binders
  scope : ∀ n, s.has n = true → site.Binds n
  locals : ∀ n, ¬ IsMade n → (site.IsLocal n ↔ site.Binds n)

namespace Site

variable {site : Site} {s : Scope} {f : Func} {n : String}

theorem isLocal_inside : (site.inside f).IsLocal n ↔ n ∈ f.locals ∨ site.IsLocal n := by
  simp [IsLocal, inside]

theorem binds_inside : (site.inside f).Binds n ↔ n ∈ f.binds ∨ site.Binds n := by
  simp [Binds, inside]

theorem isLocal_ofFunc : (ofFunc f).IsLocal n ↔ n ∈ f.locals := by
  simp [IsLocal, ofFunc]

theorem binds_ofFunc : (ofFunc f).Binds n ↔ n ∈ f.binds := by
  simp [Binds, ofFunc]

/-- What is bound in a block is bound in its function. -/
theorem binds_ofBlock {nodes : List Node} {stmts : List Stmt} :
    ∀ n ∈ Node.bindsAll nodes, (site.inside (.ofBlock nodes stmts)).Binds n :=
  fun _ hn => binds_inside.mpr (.inl hn)

/-- The place below a pattern fits the scope there. -/
theorem Fits.below {renamed : Scope} {p case : Pattern} (h : site.Fits s)
    (hc : p.resolve renamed.rename = .ok case) (hnames : ∀ n ∈ p.names, site.Binds n) :
    (site.below (.pattern p case)).Fits (s.extend renamed p.names) where
  agrees := Scope.agrees_extend h.agrees hc
  scope n hn := (Scope.has_extend.mp hn).elim (hnames n) (h.scope n)
  locals := h.locals

/-- **The variables of a function** that starts in a scope: its parameters, and the names that are
bound in it and not in scope. -/
theorem mem_locals_iff {env : Env} {params : List String} {nodes : List Node}
    {i p k k' loops : Nat} {pending : String} {stmts : List Stmt} (hn : ¬ IsMade n)
    (hb : Gen.body env s i p pending nodes k = .ok (stmts, k'))
    (hc : Stmt.checkAll loops stmts = .ok ()) :
    n ∈ (Func.mk params nodes stmts).locals ↔
      n ∈ params ∨ n ∈ Node.bindsAll nodes ∧ s.has n = false := by
  have hout : n ≠ Names.out := fun he => hn (.inl he)
  rw [Func.locals, List.mem_cons, or_iff_right hout, List.mem_append, Gen.mem_stores_iff hn hb hc]

/-- **The place inside the function of a block fits the scope of the block**: what is bound in the
block and in scope already is bound around it. -/
theorem Fits.inside {env : Env} {nodes : List Node} {i p k k' loops : Nat} {pending : String}
    {stmts : List Stmt} (h : site.Fits s)
    (hb : Gen.body env s i p pending nodes k = .ok (stmts, k'))
    (hc : Stmt.checkAll loops stmts = .ok ()) : (site.inside (.ofBlock nodes stmts)).Fits s where
  agrees := h.agrees
  scope n hn := binds_inside.mpr (.inr (h.scope n hn))
  locals n hn := by
    rw [isLocal_inside, binds_inside, h.locals n hn, Func.ofBlock, mem_locals_iff hn hb hc,
      Func.binds, List.mem_append, or_assoc, or_assoc]
    refine or_congr_right ⟨Or.imp_left And.left, ?_⟩
    rintro (hm | hm)
    · cases hs : s.has n with
      | false => exact .inl ⟨hm, rfl⟩
      | true => exact .inr (h.scope n hs)
    · exact .inr hm

/-- **The place inside a rendering function fits the scope of its parameters.** -/
theorem fits_rendering {env : Env} {params : List Param} {nodes : List Node}
    {i p k k' loops : Nat} {pending : String} {stmts : List Stmt}
    (hb : Gen.body env (.ofParams params) i p pending nodes k = .ok (stmts, k'))
    (hc : Stmt.checkAll loops stmts = .ok ()) :
    Fits (.ofFunc ⟨params.map Param.name, nodes, stmts⟩) (.ofParams params) where
  agrees := Scope.agrees_ofParams params
  scope n hn := binds_ofFunc.mpr (List.mem_append_left _ (Scope.has_ofParams.mp hn))
  locals n hn := by
    rw [isLocal_ofFunc, binds_ofFunc, mem_locals_iff hn hb hc, Func.binds, List.mem_append]
    refine ⟨Or.imp_right And.left, ?_⟩
    rintro (hm | hm)
    · exact .inl hm
    · cases hs : (Scope.ofParams params).has n with
      | false => exact .inr ⟨hm, rfl⟩
      | true => exact .inl (Scope.has_ofParams.mp hs)

end Site

/-- **What generation does at every use**, at a place that fits its scope. -/
structure Asked.Met (a : Asked) (env : Env) : Prop where
  value : ∀ {site : Site} {s : Scope} {e e' : Expr}, site.Fits s →
    e.resolve (env.resolution s) = .ok e' → a.value site e e'
  call : ∀ {site : Site} {s : Scope} {path : List String}, site.Fits s →
    a.call site path (env.context.target env.self s path)
  pattern : ∀ {site : Site} {s renamed : Scope} {p case : Pattern} {k k' : Nat}, site.Fits s →
    Gen.renamings s p.names [] k = .ok (renamed, k') → p.resolve renamed.rename = .ok case →
    a.pattern site p case

namespace Gen

variable {env : Env} {a : Asked}

/-- No text is pending at the end of the text that is written. -/
theorem sited_flush {site : Site} {p : Nat} {text : String} {ns : List Node} {stmts : List Stmt}
    (h : SitedBody a site ns stmts) : SitedBody a site ns (flush p text ++ stmts) := by
  unfold flush
  split
  · exact h
  · exact .write h

mutual

/-- **Generated statements use names as asked**, at places that fit their scopes. -/
theorem body_sited (ha : a.Met env) : ∀ {ns : List Node} {site : Site} {s : Scope}
    {i p k k' loops : Nat} {pending : String} {r : List Stmt}, site.Fits s →
    (∀ n ∈ Node.bindsAll ns, site.Binds n) → body env s i p pending ns k = .ok (r, k') →
    Stmt.checkAll loops r = .ok () → SitedBody a site ns r
  | [], _, _, _, _, _, _, _, _, _, _, _, h, _ => by
    obtain ⟨rfl, -⟩ := body_nil_ok.mp h
    simpa using sited_flush SitedBody.nil
  | n :: ns, _, _, _, _, _, _, _, _, _, hs, hin, h, hc => by
    simp only [Node.bindsAll, List.mem_append] at hin
    cases hp : n.plain? with
    | some text =>
      rw [body_cons_plain hp] at h
      exact .plain (by rw [hp]; rfl) (body_sited ha hs (fun x hx => hin x (.inr hx)) h hc)
    | none =>
      obtain ⟨b, k₁, c, hb, hr, rfl⟩ := (body_cons_ok hp).mp h
      rw [List.append_assoc, Stmt.checkAll_append_ok, Stmt.checkAll_append_ok] at hc
      rw [List.append_assoc]
      exact sited_flush (.node (node_sited ha hs (fun x hx => hin x (.inl hx)) hp hb hc.2.1)
        (body_sited ha hs (fun x hx => hin x (.inr hx)) hr hc.2.2))

theorem node_sited (ha : a.Met env) : ∀ {n : Node} {site : Site} {s : Scope} {i k k' loops : Nat}
    {r : List Stmt}, site.Fits s → (∀ x ∈ n.binds, site.Binds x) → n.plain? = none →
    node env s i n k = .ok (r, k') → Stmt.checkAll loops r = .ok () → SitedNode a site n r
  | .text _ _, _, _, _, _, _, _, _, _, _, hp, _, _
  | .comment _ _, _, _, _, _, _, _, _, _, _, hp, _, _ => by cases hp
  | .value p e raw, _, _, _, _, _, _, _, hs, _, _, h, _ => by
    obtain ⟨e', he, rfl, -⟩ := node_value_ok.mp h
    exact .value (ha.value hs he)
  | .branch p arms otherwise, _, _, _, _, _, _, _, hs, hin, _, h, hc => by
    obtain ⟨r, hr, rfl⟩ := node_branch_ok.mp h
    rw [Stmt.check_branchOf_ok] at hc
    rw [Node.binds] at hin
    exact .branch (chain_sited ha hs rfl
      (fun ho hin h hc => alternative_sited ha hs hin ho h hc) hin hr hc.1 hc.2)
  | .loop p pattern e nodes, _, _, _, _, _, _, _, hs, hin, _, h, hc => by
    simp only [Node.binds, List.mem_append] at hin
    by_cases hp : pattern.simplify.isIrrefutable
    · obtain ⟨e', inner, renamed, k₁, target, body', he, hb, ht, -, hn, rfl⟩ :=
        (node_loop_plain_ok hp).mp h
      rw [Stmt.checkAll_single_ok] at hc
      obtain ⟨hr, rfl⟩ := bind_ok_eq hb
      exact .loop (ha.value hs he) (ha.pattern hs hr ht)
        (body_sited ha (hs.below ht fun x hx => hin x (.inl hx)) (fun x hx => hin x (.inr hx)) hn
          (Stmt.check_loop_ok hc))
    · obtain ⟨e', inner, renamed, k₁, case, body', he, hb, hcase, -, hn, rfl⟩ :=
        (node_loop_skipping_ok hp).mp h
      rw [Stmt.checkAll_single_ok] at hc
      obtain ⟨hr, rfl⟩ := bind_ok_eq hb
      have hc := Stmt.check_loop_ok hc
      rw [Stmt.checkAll_single_ok, Stmt.check_select_ok, Stmt.checkCases_cons_ok] at hc
      exact .skipping (ha.value hs he) (ha.pattern hs hr hcase)
        (body_sited ha (hs.below hcase fun x hx => hin x (.inl hx)) (fun x hx => hin x (.inr hx)) hn
          hc.2.1)
  | .cases p e [], _, _, _, _, _, _, _, hs, _, _, h, _ => by
    obtain ⟨e', he, rfl, -⟩ := node_cases_nil_ok.mp h
    exact .evaluate (ha.value hs he)
  | .cases p e (arm :: arms), _, _, _, _, _, _, _, hs, hin, _, h, hc => by
    obtain ⟨e', cases', he, -, hr, rfl⟩ := (node_cases_ok (List.cons_ne_nil _ _)).mp h
    rw [Stmt.checkAll_single_ok, Stmt.check_select_ok] at hc
    rw [Node.binds] at hin
    exact .cases (ha.value hs he) (cases_sited ha hs hin hr hc)
  | .call p path args blocks, _, _, _, _, _, _, _, hs, _, _, h, hc => by
    obtain ⟨defs, args', k₁, defs', contents', hargs, hb, rfl⟩ := node_call_ok.mp h
    rw [Stmt.checkAll_append_ok, Stmt.checkAll_append_ok] at hc
    exact .call (ha.call hs) (arguments_sited ha hs hargs hc.1.1) (contents_sited ha hs hb hc.1.2)

theorem alternative_sited (ha : a.Met env) : ∀ {o : Option (List Node)} {site : Site} {s : Scope}
    {i p k k' loops : Nat} {nodes : List Node} {r : List Stmt}, site.Fits s →
    (∀ n ∈ Node.otherwiseBinds o, site.Binds n) → o = some nodes →
    alternative env s i p o k = .ok (r, k') → Stmt.checkAll loops r = .ok () →
    SitedBody a site nodes r
  | none, _, _, _, _, _, _, _, _, _, _, _, ho, _, _ => by cases ho
  | some nodes, _, _, _, _, _, _, _, _, _, hs, hin, ho, h, hc => by
    cases ho
    rw [Node.otherwiseBinds] at hin
    rw [alternative_some] at h
    exact body_sited ha hs hin h hc

theorem chain_sited (ha : a.Met env) {site : Site} {s : Scope} {p loops : Nat} {last : Bool}
    {o : Option (List Node)} {otherwise : Nat → Gen (List Stmt)} (hs : site.Fits s)
    (hlast : last = o.isSome)
    (ho : ∀ {nodes i k k' r}, o = some nodes → (∀ n ∈ Node.otherwiseBinds o, site.Binds n) →
      otherwise i k = .ok (r, k') → Stmt.checkAll loops r = .ok () → SitedBody a site nodes r) :
    ∀ {arms : List (Condition × List Node)} {i k k' : Nat} {first : Bool}
      {r : List (Expr × List Stmt) × Option (List Stmt)},
    (∀ n ∈ Node.armBinds (Node.otherwiseBinds o) arms, site.Binds n) →
    chain env s i first p last otherwise arms k = .ok (r, k') →
    Stmt.checkArms loops r.1 = .ok () → Stmt.checkOtherwise loops r.2 = .ok () →
    SitedArms a site p o arms r
  | [], _, _, _, _, _, hin, h, hc, hc' => by
    rw [Node.armBinds] at hin
    obtain ⟨hl, -, stmts, hr, rfl⟩ | ⟨hl, rfl, -⟩ := chain_nil_ok.mp h
    · rw [hlast, Option.isSome_iff_exists] at hl
      obtain ⟨nodes, rfl⟩ := hl
      rw [Stmt.checkOtherwise] at hc'
      exact .otherwise (ho rfl hin hr hc')
    · rw [hlast, Option.isSome_eq_false_iff, Option.isNone_iff_eq_none] at hl
      subst hl
      exact .nil
  | (.holds e, nodes) :: arms, _, _, _, _, _, hin, h, hc, hc' => by
    obtain ⟨e', body', k₁, arms', stmts, he, -, hb, hr, rfl⟩ := chain_holds_ok.mp h
    simp only [Node.armBinds, List.mem_append] at hin
    rw [Stmt.checkArms_cons_ok] at hc
    exact .holds (ha.value hs he) (body_sited ha hs (fun x hx => hin x (.inl hx)) hb hc.1)
      (chain_sited ha hs hlast ho (fun x hx => hin x (.inr hx)) hr hc.2 hc')
  | (.matches pattern e, nodes) :: arms, _, _, _, _, _, hin, h, hc, hc' => by
    obtain ⟨i', e', inner, renamed, k₁, case, body', k₂, -, -, hbind, he, hcase, -, hb, h⟩ :=
      chain_matches_ok.mp h
    obtain ⟨hr, rfl⟩ := bind_ok_eq hbind
    simp only [Node.armBinds, List.mem_append] at hin
    have hbelow := hs.below hcase fun x hx => hin x (.inl hx)
    have hbody := fun x hx => hin x (.inr (.inl hx))
    obtain ⟨hend, rfl, -⟩ | ⟨hmore, arms', stmts, hrest, rfl⟩ := h
    · rw [Stmt.checkOtherwise, Stmt.checkAll_single_ok, Stmt.check_select_ok,
        Stmt.checkCases_cons_ok] at hc'
      refine .last (ha.value hs he) (ha.pattern hs hr hcase)
        (body_sited ha hbelow hbody hb hc'.2.1) ?_
      rwa [hlast, Option.isSome_eq_false_iff, Option.isNone_iff_eq_none] at hend
    · rw [Stmt.checkOtherwise, Stmt.checkAll_single_ok, Stmt.check_select_ok,
        Stmt.checkCases_cons_ok, Stmt.checkCases_cons_ok, Stmt.check_branchOf_ok] at hc'
      rw [if_neg fun hcatch => hmore (.inr hcatch)] at hin
      exact .matches (ha.value hs he) (ha.pattern hs hr hcase)
        (body_sited ha hbelow hbody hb hc'.2.1) (fun hcatch => hmore (.inr hcatch))
        (chain_sited ha hs hlast ho (fun x hx => hin x (.inr (.inr hx))) hrest hc'.2.2.2.1.1
          hc'.2.2.2.1.2)

theorem cases_sited (ha : a.Met env) :
    ∀ {arms : List (Pattern × Option Expr × List Node)} {site : Site} {s : Scope}
      {i p k k' loops : Nat} {r : List (Pattern × Option Expr × List Stmt)}, site.Fits s →
    (∀ n ∈ Node.caseBinds arms, site.Binds n) → cases env s i p arms k = .ok (r, k') →
    Stmt.checkCases loops r = .ok () → SitedCases a site arms r
  | [], _, _, _, _, _, _, _, _, _, _, h, _ => by
    obtain ⟨rfl, -⟩ := cases_nil_ok.mp h
    exact .nil
  | (pattern, guard, nodes) :: arms, _, _, _, _, _, _, _, _, hs, hin, h, hc => by
    obtain ⟨inner, renamed, k₁, case, guard', body', k₂, hbind, hcase, hg, -, hb, h⟩ :=
      cases_cons_ok.mp h
    obtain ⟨hr, rfl⟩ := bind_ok_eq hbind
    simp only [Node.caseBinds, List.mem_append] at hin
    have hbelow := hs.below hcase fun x hx => hin x (.inl hx)
    have hbody := fun x hx => hin x (.inr (.inl hx))
    obtain ⟨⟨rfl, hcatch⟩, rfl, -⟩ | ⟨hmore, rest, hrest, rfl⟩ := h
    · rw [Stmt.checkCases_cons_ok] at hc
      cases hg
      exact .last (ha.pattern hs hr hcase) (body_sited ha hbelow hbody hb hc.2.1) hcatch
    · rw [Stmt.checkCases_cons_ok] at hc
      have hgoes : ¬ (guard.isNone && pattern.simplify.isCatchAll) = true := by
        rw [Bool.and_eq_true, Option.isNone_iff_eq_none]
        exact hmore
      rw [if_neg hgoes] at hin
      refine .cons (ha.pattern hs hr hcase) ?_ (body_sited ha hbelow hbody hb hc.2.1)
        (cases_sited ha hs (fun x hx => hin x (.inr (.inr hx))) hrest hc.2.2)
      cases Except.option_mapM_ok.mp hg with
      | none => exact .none
      | some hguard => exact .some (ha.value hbelow hguard)

theorem arguments_sited (ha : a.Met env) : ∀ {args : List (Expr ⊕ List Node)} {site : Site}
    {s : Scope} {i p k k' loops : Nat} {defs : List Stmt} {ops : List Operand}, site.Fits s →
    arguments env s i p args k = .ok ((defs, ops), k') → Stmt.checkAll loops defs = .ok () →
    SitedArguments a site args defs ops
  | [], _, _, _, _, _, _, _, _, _, _, h, _ => by
    obtain ⟨hr, -⟩ := arguments_nil_ok.mp h
    cases hr
    exact .nil
  | .inl e :: args, _, _, _, _, _, _, _, _, _, hs, h, hc => by
    obtain ⟨e', defs', args', he, hargs, hr⟩ := arguments_value_ok.mp h
    cases hr
    exact .value (ha.value hs he) (arguments_sited ha hs hargs hc)
  | .inr nodes :: args, _, _, _, _, _, _, _, _, _, hs, h, hc => by
    obtain ⟨body', k₁, defs', args', -, hb, hargs, hr⟩ := arguments_block_ok.mp h
    cases hr
    rw [Stmt.checkAll_cons_ok, Stmt.check, Stmt.after_ok] at hc
    exact .block (body_sited ha (hs.inside hb hc.1) Site.binds_ofBlock hb hc.1)
      (arguments_sited ha hs hargs hc.2)

theorem contents_sited (ha : a.Met env) : ∀ {blocks : List (List Node)} {site : Site} {s : Scope}
    {i p k k' loops : Nat} {defs : List Stmt} {ops : List Operand}, site.Fits s →
    contents env s i p blocks k = .ok ((defs, ops), k') → Stmt.checkAll loops defs = .ok () →
    SitedContents a site blocks defs ops
  | [], _, _, _, _, _, _, _, _, _, _, h, _ => by
    obtain ⟨hr, -⟩ := contents_nil_ok.mp h
    cases hr
    exact .nil
  | nodes :: blocks, _, _, _, _, _, _, _, _, _, hs, h, hc => by
    obtain ⟨body', k₁, defs', args', -, hb, hd, hr⟩ := contents_cons_ok.mp h
    cases hr
    rw [Stmt.checkAll_cons_ok, Stmt.check, Stmt.after_ok] at hc
    exact .cons (body_sited ha (hs.inside hb hc.1) Site.binds_ofBlock hb hc.1)
      (contents_sited ha hs hd hc.2)

end

end Gen

/-- **What holds at every use in a place that fits holds in a generated template.** -/
theorem Template.sited {context : Context} {t : Template} {a : Asked} {stmts : List Stmt}
    (ha : a.Met ⟨t.toTemplateName, context⟩) (h : t.stmts context = .ok stmts)
    (hc : Stmt.checkAll 0 stmts = .ok ()) :
    SitedBody a (t.site stmts) t.body stmts := by
  obtain ⟨k, hb⟩ := Template.stmts_ok.mp h
  exact Gen.body_sited ha (Site.fits_rendering hb hc)
    (fun n hn => Site.binds_ofFunc.mpr (List.mem_append_right _ hn)) hb hc

end Stencil
