import Stencil.Proofs.FailedGeneration
import Stencil.Proofs.References
import Stencil.Proofs.StaticNames

/-!
# Paths to static files

With an index of static files, a path that starts at `statics` leads to one of them, unless a local
name `statics` stands in the way. Only the paths in expressions are looked up in the index.

* `IsStaticPath`, `IsStaticFile`: a path into the static files, and the code of a known one.
* `Uses.statics`: such paths are known in expressions; how they are written in calls and patterns is
  a parameter.
* `IsUnknownStatic`: a path to an unknown static file, at a place of an expression.
* **`static_paths_checked`**: no unknown path gets through in an expression, and what fails is such
  a path, at its place. Calls and patterns hold the paths of the template, whatever the index.
-/

namespace Stencil

/-! ## Uses of static files -/

/-- **A path into the static files**: it starts at `statics`, which nothing around it binds. -/
structure IsStaticPath (bs : List Binder) (path : List String) : Prop where
  long : 2 ≤ path.length
  head : path.head? = some Names.statics
  free : innermost? bs Names.statics = none

/-- **The path of a known static file**, which its code takes from the imported module. -/
def IsStaticFile (known path code : List String) : Prop :=
  ∃ file ∈ known, path = [Names.statics, file] ∧
    ".".intercalate code = Names.staticsAlias ++ "." ++ file

/-- **Uses of static files**: known ones in expressions. `Written` relates the other paths into the
static files, of calls and in patterns, to their code. -/
def Uses.statics (known : List String) (Written : List String → List String → Prop) : Uses where
  value bs e e' :=
    List.Forall₂ (fun path code => IsStaticPath bs path → IsStaticFile known path code)
      e.references e'.references
  call bs path target :=
    IsStaticPath bs path → ∀ code, target = .other code → Written path code
  pattern bs p case :=
    List.Forall₂ (fun path code => IsStaticPath bs path → Written path code) p.paths case.paths

section Met

variable {context : Context} {known : List String} {self : TemplateName} {s : Scope}
variable {bs : List Binder} {path code : List String} {p : Nat} {o : Option String}

/-- A scope hides what a binder binds. -/
theorem Scope.Agrees.has (h : s.Agrees bs) (n : String) :
    s.has n = (innermost? bs n).isSome := by
  rw [Scope.has, h n]

/-- The path of a static file that is looked up is known. -/
theorem Env.staticPath_of_isStaticPath (hk : context.statics = some known) (h : s.Agrees bs)
    (hpath : IsStaticPath bs path)
    (ho : (⟨self, context⟩ : Env).staticPath s path p = .ok o) :
    ∃ file ∈ known, path = [Names.statics, file] ∧
      o = some (Names.staticsAlias ++ "." ++ file) := by
  have hfree : s.has Names.statics = false := by rw [h.has, hpath.free]; rfl
  unfold staticPath at ho
  simp only [hk, hpath.head, hfree, decide_true, Bool.not_false, Bool.and_true, if_true] at ho
  split at ho
  · rename_i first file
    obtain rfl : first = Names.statics := Option.some.inj hpath.head
    split at ho
    · cases ho
      exact ⟨file, List.contains_iff_mem.mp ‹_›, rfl, rfl⟩
    · cases ho
  · cases ho

/-- **The paths of an expression into the static files are known.** -/
theorem Expr.statics_known (hk : context.statics = some known) (h : s.Agrees bs) {e e' : Expr}
    (he : e.resolve ((⟨self, context⟩ : Env).resolution s) = .ok e') :
    List.Forall₂ (fun path code => IsStaticPath bs path → IsStaticFile known path code)
      e.references e'.references := by
  refine references_resolve (fun n hpath => ?_) (fun path p o ho hpath => ?_) he
  · exact absurd hpath.long (by simp)
  · obtain ⟨file, hfile, rfl, rfl⟩ := Env.staticPath_of_isStaticPath hk h hpath ho
    exact ⟨file, hfile, rfl, rfl⟩

/-- **Paths of calls and patterns are never looked up.** -/
theorem Uses.statics_met (hk : context.statics = some known) :
    (statics known fun path code => code = path).Met ⟨self, context⟩ where
  value h he := Expr.statics_known hk h he
  call _ _ _ ht := Context.eq_of_target_other ht
  pattern h := by
    simp only [statics, Pattern.paths_resolve h]
    exact List.forall₂_same.mpr fun _ _ _ => rfl

end Met

/-! ## Where an unknown static file is found -/

/-- **An unknown static file at a place**: an expression holds its path there, and nothing around it
binds `statics`. -/
def IsUnknownStatic (known : List String) (exprs : List (List String × Expr)) (file : String)
    (p : Nat) : Prop :=
  ∃ x ∈ exprs, Names.statics ∉ x.1 ∧ ∃ path, (p, path) ∈ x.2.placedPaths ∧
    path.head? = some Names.statics ∧ (∀ f ∈ known, path ≠ [Names.statics, f]) ∧
    file = "::".intercalate (path.drop 1)

section Failures

variable {context : Context} {known : List String} {self : TemplateName} {s : Scope}

/-- A path that is looked up in vain leads to an unknown static file. -/
theorem Env.staticPath_error (hk : context.statics = some known) {path : List String} {p : Nat}
    {f : Failure} (h : (⟨self, context⟩ : Env).staticPath s path p = .error f) :
    s.has Names.statics = false ∧ path.head? = some Names.statics ∧
      (∀ f ∈ known, path ≠ [Names.statics, f]) ∧
      f = .at (.unknownStatic ("::".intercalate (path.drop 1))) p := by
  unfold staticPath at h
  simp only [hk] at h
  split at h
  · rename_i hstatics
    rw [Bool.and_eq_true, Bool.not_eq_true', decide_eq_true_iff] at hstatics
    obtain ⟨hhead, hhas⟩ := hstatics
    refine ⟨hhas, hhead, ?_⟩
    split at h
    · rename_i first file
      split at h
      · cases h
      · cases h
        refine ⟨fun f hf he => ?_, by simp⟩
        cases he
        exact ‹¬ _› (List.contains_iff_mem.mpr hf)
    · rename_i hlength
      cases h
      exact ⟨fun f _ he => hlength _ _ he, rfl⟩
  · cases h

/-- **A failure that the expressions account for**, if it is about a static file. -/
def AccountedStatic (known : List String) (exprs : List (List String × Expr)) (f : Failure) :
    Prop :=
  ∀ file p, f = .at (.unknownStatic file) p → IsUnknownStatic known exprs file p

theorem failOnly_accountedStatic (hk : context.statics = some known)
    (exprs : List (List String × Expr)) :
    (⟨self, context⟩ : Env).FailOnly (AccountedStatic known exprs) exprs := by
  intro x hx s hs
  refine Expr.resolve_failsOnly (fun _ _ h => by cases h) fun ⟨p, path⟩ hpath => ?_
  refine failsOnly_iff.mpr fun f hf file q he => ?_
  obtain ⟨hhas, hhead, hknown, rfl⟩ := Env.staticPath_error hk hf
  cases he
  refine ⟨x, hx, fun hbound => ?_, path, hpath, hhead, hknown, rfl⟩
  rw [(hs _).mpr hbound] at hhas
  cases hhas

end Failures

/-- **No unknown static file gets through in an expression**, at any place of any template. If the
template generates, every path of an expression that starts at `statics`, where nothing binds that
name, is that of a known file, and its code takes the file from the module that is imported for it.
If generation fails because of a static file, then such a path stands at that place, and no known
file has it. Calls and patterns are not looked at: there the code has the path of the template. -/
theorem static_paths_checked {context : Context} {known : List String}
    (hk : context.statics = some known) (t : Template) :
    (∀ code, t.module? context = .ok code →
      ∃ stmts, t.stmts context = .ok stmts ∧ code = t.moduleText stmts ∧
        UsesBody (.statics known fun path code => code = path) [.params (t.params.map Param.name)]
          t.body stmts ∧
        ∀ e ∈ Stmt.exprsAll stmts, ∀ n ∈ e.names, IsStaticName n →
          ModuleImport.statics.line (upward t.namespaces) ∈ t.headLines stmts) ∧
    ∀ file p, t.module? context = .error (.at (.unknownStatic file) p) →
      IsUnknownStatic known (Node.boundExprsAll (t.params.map Param.name) t.body) file p := by
  constructor
  · intro code h
    obtain ⟨stmts, hs, hc, hcode⟩ := Template.module_ok.mp h
    obtain ⟨k, hb⟩ := Template.stmts_ok.mp hs
    have hscoped : ScopedBody (fun _ _ => True) ⟨t.toTemplateName, context⟩ []
        (.ofParams t.params) t.body stmts :=
      Gen.body_scoped keeps_trivial (fun _ _ => trivial) trivial hb hc
    refine ⟨stmts, hs, hcode, hscoped.uses (Uses.statics_met hk)
      (Scope.agrees_ofParams t.params), fun e he n hn hstatic => ?_⟩
    have hany : Expr.anyUsesStatics (Stmt.exprsAll stmts) = true :=
      (Expr.anyUsesStatics_iff _).mpr ⟨n, Expr.mem_namesAll.mpr ⟨e, he, hn⟩, hstatic⟩
    have hmem : ModuleImport.statics ∈ moduleImports stmts := by simp [moduleImports, hany]
    exact List.mem_append_right _ (List.mem_map_of_mem hmem)
  · intro file p h
    have hfails := t.module_failsOnly (P := AccountedStatic known _)
      (fun _ _ _ h => by cases h) (fun _ _ h => by cases h) (fun _ _ _ _ h => by cases h)
      (failOnly_accountedStatic hk _)
    exact failsOnly_iff.mp hfails _ h file p rfl

/-- A build with one static file. -/
def logoContext : Context := ⟨[], some ["logo_png"]⟩

/-- A known static file, a path that a loop hides, and unknown ones in a call and a pattern. -/
def mixedStaticsText : List Char :=
  ("@(x: list)\n@statics::logo_png@for statics in x {@statics::y}@:statics::nope()" ++
    "@match x {statics::Nope => {a},}").toList

/-- An unknown static file in an argument. -/
def unknownStaticText : List Char := "@()\n@:f(1, statics::nope)".toList

theorem static_paths_checked_mixedStatics : ∃ t t' code,
    Template.parse ⟨[], "page", "html"⟩ .here "" mixedStaticsText = .ok t ∧
      Template.parse ⟨[], "page", "html"⟩ .here "" unknownStaticText = .ok t' ∧
      logoContext.statics = some ["logo_png"] ∧ t.module? logoContext = .ok code ∧
      t'.module? logoContext = .error (.at (.unknownStatic "nope") 11) ∧
      (∃ stmts, t.stmts logoContext = .ok stmts ∧ code = t.moduleText stmts ∧
        UsesBody (.statics ["logo_png"] fun path code => code = path)
          [.params (t.params.map Param.name)] t.body stmts ∧
        ∀ e ∈ Stmt.exprsAll stmts, ∀ n ∈ e.names, IsStaticName n →
          ModuleImport.statics.line (upward t.namespaces) ∈ t.headLines stmts) ∧
      IsUnknownStatic ["logo_png"] (Node.boundExprsAll (t'.params.map Param.name) t'.body) "nope"
        11 := by
  obtain ⟨t, stmts, hparse, -, hm, -⟩ := Template.exists_of_generates
    ⟨[], "page", "html"⟩ mixedStaticsText logoContext (fun _ _ => true) (by decide +kernel)
  have hunknown : (Template.parse ⟨[], "page", "html"⟩ .here "" unknownStaticText).toOption.any
      fun t => decide (t.module? logoContext = .error (.at (.unknownStatic "nope") 11)) := by
    decide +kernel
  obtain ⟨t', hparse', hunknown⟩ := Except.exists_of_any hunknown
  have hfails := of_decide_eq_true hunknown
  exact ⟨t, t', _, hparse, hparse', rfl, hm, hfails, (static_paths_checked rfl t).1 _ hm,
    (static_paths_checked rfl t').2 _ _ hfails⟩

/-! ## Paths of calls miss the index -/

/-- **A call of an unknown static file** is not checked. -/
theorem not_uses_unknown_call {known : List String} {bs : List Binder} {c c₁ : Nat} {file : String}
    {code : List String} (hfree : innermost? bs Names.statics = none) (hfile : file ∉ known) :
    ¬ UsesBody (.statics known (IsStaticFile known)) bs [.call c [Names.statics, file] [] []]
      [.call c₁ (.other code) []] := by
  intro h
  have hcall := (h.single rfl (by simp)).call_target ⟨le_rfl, rfl, hfree⟩ code rfl
  obtain ⟨file', hknown, hpath, -⟩ := hcall
  cases hpath
  exact hfile hknown

/-- One call of an unknown static file, and no parameters. -/
def callsUnknownStatic (known params : List String) : List Node → List Stmt → Bool
  | [.call _ [s, file] [] []], [.call _ (.other _) []] =>
    decide (s = Names.statics ∧ file ∉ known ∧ params = [])
  | _, _ => false

theorem not_uses_of_callsUnknownStatic {known params : List String} {nodes : List Node}
    {stmts : List Stmt} (h : callsUnknownStatic known params nodes stmts = true) :
    ¬ UsesBody (.statics known (IsStaticFile known)) [.params params] nodes stmts := by
  unfold callsUnknownStatic at h
  split at h
  · obtain ⟨rfl, hfile, rfl⟩ := of_decide_eq_true h
    exact not_uses_unknown_call rfl hfile
  · cases h

/-- A template that calls an unknown static file. -/
def unknownCallText : List Char := "@()\n@:statics::nope()".toList

/-- The template generates, though no static file has the path that it calls. -/
theorem unknown_call_generates : ∃ t stmts,
    Template.parse ⟨[], "page", "html"⟩ .here "" unknownCallText = .ok t ∧
      t.stmts logoContext = .ok stmts ∧ t.module? logoContext = .ok (t.moduleText stmts) ∧
      ¬ UsesBody (.statics ["logo_png"] (IsStaticFile ["logo_png"]))
        [.params (t.params.map Param.name)] t.body stmts := by
  obtain ⟨t, stmts, hparse, hs, hm, hcheck⟩ := Template.exists_of_generates
    ⟨[], "page", "html"⟩ unknownCallText logoContext
    (fun t stmts => callsUnknownStatic ["logo_png"] (t.params.map Param.name) t.body stmts)
    (by decide +kernel)
  exact ⟨t, stmts, hparse, hs, hm, not_uses_of_callsUnknownStatic hcheck⟩

end Stencil
