import Stencil.Proofs.Sites

/-!
# Names that nothing around them binds

A name that no binder around it binds is written as it stands, so that it reaches the module around
the function, if no function around the use has a variable of that name.

* `StartsWith`, `Target.identifier`: the identifier in the code that a use starts with.
* `Asked.free`: uses of free names, with what is said of the identifiers that they start with.
* **`free_names_leak`**: there is a variable of the identifier if a pattern binds it anywhere in a
  function around the use, in a block beside it, before it or after it, and not otherwise.
-/

namespace Stencil

/-- **The identifier that the code of a name or path starts with**, if its first part is not bound:
that of the path itself, or that of the imported static files. -/
def StartsWith (path code : List String) (id : String) : Prop :=
  code = path ∧ path.head? = some id ∨
    id = Names.staticsAlias ∧
      ∃ file, path = [Names.statics, file] ∧ code = [Names.staticsAlias ++ "." ++ file]

/-- The identifier that the code of a target starts with. -/
def Target.identifier : Target → String
  | bound n => n
  | own f => f
  | template r => r.localName
  | other path => path.headD ""

/-- A variable of the name is in reach as `Leaks` tells, if generation does not make the name. -/
def Site.Reaches (Leaks : Site → String → Prop) (site : Site) (id : String) : Prop :=
  ¬ IsMade id → (site.IsLocal id ↔ Leaks site id)

/-- **Uses of free names**: they are written as they stand, as static files or as templates.
`Refers` is said of the identifier in the code. -/
def Asked.free (Refers : Site → String → Prop) : Asked where
  value site e e' :=
    List.Forall₂ (fun path code => ∀ n, path.head? = some n → site.IsFree n →
      ∃ id, StartsWith path code id ∧ Refers site id) e.references e'.references
  call site path target :=
    ∀ n, path.head? = some n → site.IsFree n → (∀ code, target ≠ .bound code) ∧
      (∀ code, target = .other code → code = path) ∧ Refers site target.identifier
  pattern site p case :=
    List.Forall₂ (fun path code => ∀ n, path.head? = some n → site.IsFree n →
      code = path ∧ Refers site n) p.paths case.paths

section Met

variable {env : Env} {site : Site} {s : Scope} {path code : List String} {n : String}

/-- What becomes of a path whose first part is free. -/
theorem Becomes.startsWith {bs : List Binder} (h : Becomes bs path code)
    (hhead : path.head? = some n) (hfree : innermost? bs n = none) :
    ∃ id, StartsWith path code id := by
  obtain rfl | ⟨-, file, rfl, rfl⟩ := h
  · cases path with
    | nil => cases hhead
    | cons m path =>
      cases hhead
      exact ⟨n, .inl ⟨by rw [withHead, hfree, Option.getD_none], rfl⟩⟩
  · exact ⟨_, .inr ⟨rfl, file, rfl, rfl⟩⟩

/-- **Free names are written as they stand**, with what holds of identifiers at every place that
fits its scope. -/
theorem Asked.free_met {Refers : Site → String → Prop}
    (hrefers : ∀ {site s}, site.Fits s → ∀ id, Refers site id) : (free Refers).Met env where
  value {site s e e'} h he := by
    refine (Expr.follows h.agrees he).imp fun path code hbecomes n hhead hfree => ?_
    obtain ⟨id, hstart⟩ := hbecomes.startsWith hhead hfree
    exact ⟨id, hstart, hrefers h id⟩
  call {site s path} h n hhead hfree := by
    refine ⟨fun code hbound => ?_, fun code => Context.eq_of_target_other,
      hrefers h _⟩
    obtain ⟨m, rfl, hm⟩ := Context.lookup_of_target_bound hbound
    cases hhead
    rw [h.agrees n, hfree] at hm
    cases hm
  pattern {site s renamed p case k k'} h _ hc := by
    rw [free]
    simp only [Pattern.paths_resolve hc]
    exact List.forall₂_same.mpr fun path _ n _ _ => ⟨rfl, hrefers h n⟩

end Met

/-- **Free names leak**, at every place of every template that generates. The code of a name, path
or call whose first part is not bound around it starts with that name, or with the name of an
imported static file or template. It refers to a variable of the rendering function or of a block
around it if a pattern anywhere in that function binds the name, and to the module otherwise; names
that generation makes are left out. -/
theorem free_names_leak {context : Context} {t : Template} {code : String}
    (h : t.module? context = .ok code) :
    ∃ stmts, t.stmts context = .ok stmts ∧ code = t.moduleText stmts ∧
      SitedBody (.free (Site.Reaches Site.Binds)) (t.site stmts) t.body stmts := by
  obtain ⟨stmts, hs, hc, hcode⟩ := Template.module_ok.mp h
  exact ⟨stmts, hs, hcode, Template.sited (Asked.free_met fun h => h.locals) hs hc⟩

/-- Free names beside and below blocks that bind them, in the function and in blocks of calls. -/
def leakingText : List Char :=
  ("@(xs: list)\n@x.y @for x in xs {@x} @x::y @:x::f() @if y {@y} else if let Some(y) = x {@y} " ++
    "@:f(1) {@z @for z in xs {@match z {x::A => {@y},}}}").toList

theorem free_names_leak_blocks : ∃ t code,
    Template.parse ⟨[], "page", "html"⟩ .here "" leakingText = .ok t ∧
      t.module? .empty = .ok code ∧ ∃ stmts, t.stmts .empty = .ok stmts ∧
        code = t.moduleText stmts ∧
        SitedBody (.free (Site.Reaches Site.Binds)) (t.site stmts) t.body stmts := by
  obtain ⟨t, stmts, hparse, -, hm, -⟩ := Template.exists_of_generates
    ⟨[], "page", "html"⟩ leakingText .empty (fun _ _ => true) (by decide +kernel)
  exact ⟨t, _, hparse, hm, free_names_leak hm⟩

/-! ## A name that is not kept apart from a block beside it -/

section Leak

variable {a : Asked} {site : Site}

/-- Every node of a body has its statements. -/
theorem SitedBody.exists_node {n : Node} (hn : n.plain? = none) : ∀ {ns : List Node}
    {stmts : List Stmt}, SitedBody a site ns stmts → n ∈ ns → ∃ b, SitedNode a site n b
  | _, _, .nil, hm => by cases hm
  | _, _, .plain hplain hs, hm => by
    rcases List.mem_cons.mp hm with rfl | hm
    · rw [hn] at hplain
      cases hplain
    · exact hs.exists_node hn hm
  | _, _, .write hs, hm => hs.exists_node hn hm
  | _, _, .node hnode hs, hm => by
    rcases List.mem_cons.mp hm with rfl | hm
    · exact ⟨_, hnode⟩
    · exact hs.exists_node hn hm

/-- **A free name with a variable of its name** is not kept apart from it. -/
theorem not_sited_free {x : String} {params : List String} {nodes : List Node} {stmts : List Stmt}
    {p : Nat} {e : Expr} {raw : Bool} (hmade : ¬ IsMade x) (hvalue : .value p e raw ∈ nodes)
    (huse : [x] ∈ e.references) (hfree : x ∉ params) (hstore : x ∈ Stmt.storesAll stmts) :
    ¬ SitedBody (.free (Site.Reaches fun _ _ => False)) (.ofFunc ⟨params, nodes, stmts⟩) nodes
      stmts := by
  intro h
  obtain ⟨b, hnode⟩ := h.exists_node rfl hvalue
  cases hnode with
  | value he =>
    have hnone : innermost? [.params params] x = none := by simp [innermost?, Binder.code?, hfree]
    obtain ⟨code, -, hcode⟩ := exists_left_of_forall₂ he.flip huse
    obtain ⟨id, hstart, hreach⟩ := hcode x rfl hnone
    obtain ⟨-, hid⟩ | ⟨-, file, hpath, -⟩ := hstart
    · cases hid
      exact (hreach hmade).mp (Site.isLocal_ofFunc.mpr (Func.mem_locals_of_stores hstore))
    · cases hpath

end Leak

/-- A free name after a loop that binds it. -/
def leakText : List Char := "@(xs: list)\n@for x in xs {@x}@x".toList

/-- The name `x` is written in the body, it is no parameter, and the code assigns it. -/
def writesStored (params : List String) (nodes : List Node) (stmts : List Stmt) : Bool :=
  nodes.any (fun
    | .value _ e _ => e.references.contains ["x"]
    | _ => false) && decide ("x" ∉ params ∧ "x" ∈ Stmt.storesAll stmts)

theorem not_sited_of_writesStored {params : List String} {nodes : List Node} {stmts : List Stmt}
    (h : writesStored params nodes stmts = true) :
    ¬ SitedBody (.free (Site.Reaches fun _ _ => False)) (.ofFunc ⟨params, nodes, stmts⟩) nodes
      stmts := by
  unfold writesStored at h
  rw [Bool.and_eq_true, List.any_eq_true, decide_eq_true_iff] at h
  obtain ⟨⟨n, hn, huse⟩, hfree, hstore⟩ := h
  split at huse
  · have hmade : ¬ IsMade "x" := fun h => absurd (h.ownName (by decide)) (by decide)
    exact not_sited_free hmade hn (List.contains_iff_mem.mp huse) hfree hstore
  · cases huse

/-- The name that is free after the loop refers to the variable of the loop. -/
theorem leak_after_loop : ∃ t stmts,
    Template.parse ⟨[], "page", "html"⟩ .here "" leakText = .ok t ∧
      t.stmts .empty = .ok stmts ∧ t.module? .empty = .ok (t.moduleText stmts) ∧
      ¬ SitedBody (.free (Site.Reaches fun _ _ => False)) (t.site stmts) t.body stmts := by
  obtain ⟨t, stmts, hparse, hs, hm, hcheck⟩ := Template.exists_of_generates
    ⟨[], "page", "html"⟩ leakText .empty
    (fun t stmts => writesStored (t.params.map Param.name) t.body stmts) (by decide +kernel)
  exact ⟨t, stmts, hparse, hs, hm, not_sited_of_writesStored hcheck⟩

end Stencil
