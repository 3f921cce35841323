import Stencil.Package.File
import Stencil.Proofs.CallNames
import Stencil.Proofs.CodeMeaning
import Stencil.Proofs.FreeNames

/-!
# Names that stand for builtin functions

Besides the names of the template, the code of an expression holds two names of its own: `range`,
for a range, and `float`, for a number that is not finite.

* `CodeExpr.names`: the names in the tree of a code.
* `Expr.builtins`: the builtin functions that the code of an expression calls.
* `Expr.mem_names_meaning`: the names in the code are the first parts of the names and paths, and
  those of builtin functions.
* **`builtins_captured`**: such a name refers to something else if it is bound in a function around,
  or if the module is a page of that name.
-/

namespace Stencil

namespace CodeExpr

mutual

/-- **The names in a tree of generated code**; members are none. -/
def names : CodeExpr → List String
  | name n => [n]
  | member v _ => v.names
  | call f as => f.names ++ namesAll as
  | subscript v i => v.names ++ i.names
  | tuple is => namesAll is
  | list is => namesAll is
  | unary _ e => e.names
  | binary _ l r => l.names ++ r.names
  | junction _ es => namesAll es
  | compare first rest => first.names ++ namesCompared rest
  | _ => []

/-- The names in trees. -/
def namesAll : List CodeExpr → List String
  | [] => []
  | e :: es => e.names ++ namesAll es

/-- The names in the operands of a chain. -/
def namesCompared : List (String × CodeExpr) → List String
  | [] => []
  | (_, e) :: rest => e.names ++ namesCompared rest

end

theorem names_foldl_member (e : CodeExpr) (ns : List String) :
    (ns.foldl member e).names = e.names := by
  induction ns generalizing e with
  | nil => rfl
  | cons n ns ih => rw [List.foldl_cons, ih, names]

theorem names_joined (o : BinaryOp) (l r : CodeExpr) :
    (o.joined l r).names = l.names ++ r.names := by
  cases o <;> simp [BinaryOp.joined, names, namesAll, namesCompared]

end CodeExpr

/-! ## The builtin functions that code calls -/

/-- The builtin function that makes a number that is not finite. -/
def Literal.builtins : Literal → List String
  | float x => if x.isFinite then [] else ["float"]
  | _ => []

namespace Expr

mutual

/-- **The builtin functions that the code of an expression calls**, besides those that the template
names. -/
def builtins : Expr → List String
  | literal _ v => v.builtins
  | name _ _ | path _ _ => []
  | field _ v _ => v.builtins
  | method _ r _ as => r.builtins ++ builtinsAll as
  | call _ f as => f.builtins ++ builtinsAll as
  | index _ v i => v.builtins ++ i.builtins
  | tuple _ is => builtinsAll is
  | list _ is => builtinsAll is
  | range _ s e _ => "range" :: (s.builtins ++ e.builtins)
  | unary _ _ e => e.builtins
  | binary _ _ a b => a.builtins ++ b.builtins
  | group _ e => e.builtins

/-- The builtin functions that the codes of expressions call. -/
def builtinsAll : List Expr → List String
  | [] => []
  | e :: es => e.builtins ++ builtinsAll es

end

variable {n : String}

mutual

/-- **The names in the code of an expression** are the first parts of its names and paths, and those
of builtin functions. -/
theorem mem_names_meaning : ∀ e : Expr, n ∈ e.meaning.names ↔
    (∃ path ∈ e.references, path.headD "" = n) ∨ n ∈ e.builtins
  | literal _ v => by
    rw [meaning, references, builtins]
    cases v with
    | float x => by_cases hx : x.isFinite = true <;> simp [Literal.meaning, Literal.builtins, hx,
        CodeExpr.names, CodeExpr.namesAll]
    | _ => simp [Literal.meaning, Literal.builtins, CodeExpr.names]
  | name _ m => by simp [meaning, references, builtins, CodeExpr.names, eq_comm]
  | path _ [] => by simp [meaning, references, builtins, CodeExpr.names, eq_comm]
  | path _ (m :: ms) => by
    simp [meaning, references, builtins, CodeExpr.names_foldl_member, CodeExpr.names, eq_comm]
  | field _ v _ => by
    rw [meaning, references, builtins, CodeExpr.names]
    exact mem_names_meaning v
  | unary _ _ v => by
    rw [meaning, references, builtins, CodeExpr.names]
    exact mem_names_meaning v
  | group _ v => by
    rw [meaning, references, builtins]
    exact mem_names_meaning v
  | method _ f _ as | call _ f as => by
    simp only [meaning, references, builtins, CodeExpr.names, List.mem_append,
      mem_names_meaning f, mem_namesAll_meaning as, or_and_right, exists_or]
    exact or_or_or_comm
  | index _ a b => by
    simp only [meaning, references, builtins, CodeExpr.names, List.mem_append,
      mem_names_meaning a, mem_names_meaning b, or_and_right, exists_or]
    exact or_or_or_comm
  | binary _ o a b => by
    simp only [meaning, references, builtins, CodeExpr.names_joined, List.mem_append,
      mem_names_meaning a, mem_names_meaning b, or_and_right, exists_or]
    exact or_or_or_comm
  | tuple _ is | list _ is => by
    rw [meaning, references, builtins, CodeExpr.names]
    exact mem_namesAll_meaning is
  | range _ a b inclusive => by
    have hstop : (if inclusive then CodeExpr.binary "+" b.meaning (.int 1) else b.meaning).names =
        b.meaning.names := by
      cases inclusive <;> simp [CodeExpr.names]
    simp only [meaning, references, builtins, CodeExpr.names, CodeExpr.namesAll, hstop,
      List.mem_append, List.mem_cons, List.not_mem_nil, or_false, mem_names_meaning a,
      mem_names_meaning b, or_and_right, exists_or]
    rw [or_or_or_comm, or_left_comm]

theorem mem_namesAll_meaning : ∀ es : List Expr, n ∈ CodeExpr.namesAll (meaningAll es) ↔
    (∃ path ∈ referencesAll es, path.headD "" = n) ∨ n ∈ builtinsAll es
  | [] => by simp [meaningAll, referencesAll, builtinsAll, CodeExpr.namesAll]
  | e :: es => by
    simp only [meaningAll, referencesAll, builtinsAll, CodeExpr.namesAll, List.mem_append,
      mem_names_meaning e, mem_namesAll_meaning es, or_and_right, exists_or]
    exact or_or_or_comm

end

section Resolve

variable {r : Resolution}

mutual

/-- **Resolving names adds no calls of builtin functions**, and takes none away. -/
theorem builtins_resolve : ∀ {e e' : Expr}, e.resolve r = .ok e' → e'.builtins = e.builtins
  | literal _ v, _, he => by
    rw [resolve] at he
    split at he
    · cases he
      rfl
    · cases he
  | name _ n, _, he => by
    rw [resolve] at he
    cases he
    rw [builtins, builtins]
  | path p parts, _, he => by
    simp only [resolve, Except.bind_ok] at he
    obtain ⟨o, -, he⟩ := he
    cases o <;> cases he <;> rw [builtins, builtins]
  | field _ v _, _, he | unary _ _ v, _, he | group _ v, _, he => by
    simp only [resolve, Except.bind_ok] at he
    obtain ⟨v', hv, he⟩ := he
    cases he
    rw [builtins, builtins, builtins_resolve hv]
  | method _ f _ as, _, he | call _ f as, _, he => by
    simp only [resolve, Except.bind_ok] at he
    obtain ⟨f', hf, as', has, he⟩ := he
    cases he
    rw [builtins, builtins, builtins_resolve hf, builtinsAll_resolve has]
  | index _ a b, _, he | binary _ _ a b, _, he => by
    simp only [resolve, Except.bind_ok] at he
    obtain ⟨a', ha, b', hb, he⟩ := he
    cases he
    rw [builtins, builtins, builtins_resolve ha, builtins_resolve hb]
  | tuple _ is, _, he | list _ is, _, he => by
    simp only [resolve, Except.bind_ok] at he
    obtain ⟨is', his, he⟩ := he
    cases he
    rw [builtins, builtins, builtinsAll_resolve his]
  | range _ a b _, _, he => by
    simp only [resolve, Except.bind_ok] at he
    obtain ⟨b', hb, a', ha, he⟩ := he
    cases he
    rw [builtins, builtins, builtins_resolve ha, builtins_resolve hb]

theorem builtinsAll_resolve : ∀ {es es' : List Expr}, resolveAll r es = .ok es' →
    builtinsAll es' = builtinsAll es
  | [], _, he => by
    rw [resolveAll] at he
    cases he
    rfl
  | e :: es, _, he => by
    simp only [resolveAll, Except.bind_ok] at he
    obtain ⟨e', hv, es', hes, he⟩ := he
    cases he
    rw [builtinsAll, builtinsAll, builtins_resolve hv, builtinsAll_resolve hes]

end

end Resolve

end Expr

namespace Pattern

mutual

/-- **The builtin functions in the code of a pattern.** -/
def builtins : Pattern → List String
  | wildcard _ | binding _ _ | value _ _ => []
  | literal _ v => v.builtins
  | tuple _ items _ => builtinsAll items
  | variant _ _ items => builtinsAll items
  | struct _ _ fields _ => builtinsFields fields
  | or _ alternatives => builtinsAll alternatives

/-- The builtin functions in the codes of patterns. -/
def builtinsAll : List Pattern → List String
  | [] => []
  | p :: ps => p.builtins ++ builtinsAll ps

/-- The builtin functions in the codes of fields. -/
def builtinsFields : List (String × Pattern) → List String
  | [] => []
  | (_, p) :: fs => p.builtins ++ builtinsFields fs

end

end Pattern

/-! ## The two names -/

/-- The name of a builtin function that generated code calls. -/
def IsBuiltin (n : String) : Prop := n = "range" ∨ n = "float"

section Builtin

variable {n : String}

theorem IsBuiltin.not_isMade (h : IsBuiltin n) : ¬ IsMade n := by
  intro hmade
  rcases h with rfl | rfl <;> exact absurd (hmade.ownName (by decide)) (by decide)

/-- No rendering function has the name of a builtin function. -/
theorem IsBuiltin.ne_function (h : IsBuiltin n) (t : TemplateName) : n ≠ t.function := by
  intro he
  have hmem : '_' ∈ n.toList := by
    rw [he, TemplateName.toList_function]
    simp
  rcases h with rfl | rfl <;> exact absurd hmem (by decide)

theorem Literal.isBuiltin_of_mem {v : Literal} (h : n ∈ v.builtins) : IsBuiltin n := by
  unfold builtins at h
  split at h
  · split at h
    · cases h
    · exact .inr (List.mem_singleton.mp h)
  · cases h

mutual

theorem Expr.isBuiltin_of_mem : ∀ {e : Expr}, n ∈ e.builtins → IsBuiltin n
  | .literal _ _, h => Literal.isBuiltin_of_mem h
  | .name _ _, h | .path _ _, h => by simp [builtins] at h
  | .field _ v _, h | .unary _ _ v, h | .group _ v, h => by
    rw [builtins] at h
    exact isBuiltin_of_mem h
  | .method _ f _ as, h | .call _ f as, h => by
    rw [builtins, List.mem_append] at h
    exact h.elim isBuiltin_of_mem isBuiltin_of_memAll
  | .index _ a b, h | .binary _ _ a b, h => by
    rw [builtins, List.mem_append] at h
    exact h.elim isBuiltin_of_mem isBuiltin_of_mem
  | .tuple _ is, h | .list _ is, h => by
    rw [builtins] at h
    exact isBuiltin_of_memAll h
  | .range _ a b _, h => by
    rw [builtins, List.mem_cons, List.mem_append] at h
    exact h.elim .inl (Or.elim · isBuiltin_of_mem isBuiltin_of_mem)

theorem Expr.isBuiltin_of_memAll : ∀ {es : List Expr}, n ∈ Expr.builtinsAll es → IsBuiltin n
  | [], h => by cases h
  | e :: es, h => by
    rw [builtinsAll, List.mem_append] at h
    exact h.elim isBuiltin_of_mem isBuiltin_of_memAll

end

mutual

theorem Pattern.isBuiltin_of_mem : ∀ {p : Pattern}, n ∈ p.builtins → IsBuiltin n
  | .wildcard _, h | .binding _ _, h | .value _ _, h => by simp [builtins] at h
  | .literal _ _, h => Literal.isBuiltin_of_mem h
  | .tuple _ ps _, h | .variant _ _ ps, h | .or _ ps, h => by
    rw [builtins] at h
    exact isBuiltin_of_memAll h
  | .struct _ _ fs _, h => by
    rw [builtins] at h
    exact isBuiltin_of_memFields h

theorem Pattern.isBuiltin_of_memAll : ∀ {ps : List Pattern}, n ∈ Pattern.builtinsAll ps →
    IsBuiltin n
  | [], h => by cases h
  | p :: ps, h => by
    rw [builtinsAll, List.mem_append] at h
    exact h.elim isBuiltin_of_mem isBuiltin_of_memAll

theorem Pattern.isBuiltin_of_memFields : ∀ {fs : List (String × Pattern)},
    n ∈ Pattern.builtinsFields fs → IsBuiltin n
  | [], h => by cases h
  | (_, p) :: fs, h => by
    rw [builtinsFields, List.mem_append] at h
    exact h.elim isBuiltin_of_mem isBuiltin_of_memFields

end

end Builtin

/-! ## What captures them -/

/-- **Calls of builtin functions**: the names in the code of an expression are those of the
template, and builtin functions for its ranges and numbers that are not finite. `Captured` tells
which of these refer to something else: to a variable of a function around, or to what the module
defines. -/
def Asked.builtins (t : TemplateName) (Captured : Site → String → Prop) : Asked where
  value site e e' :=
    (∀ n, n ∈ e'.meaning.names ↔
      (∃ path ∈ e'.references, path.headD "" = n) ∨ n ∈ e.builtins) ∧
    ∀ n ∈ e.builtins, site.IsLocal n ∨ n ∈ Package.exports t ↔ Captured site n
  call _ _ _ := True
  pattern site _ case :=
    ∀ n ∈ case.builtins, site.IsLocal n ∨ n ∈ Package.exports t ↔ Captured site n

/-- The name is bound in a function around, or it is that of the page. -/
def Site.Captures (t : TemplateName) (site : Site) (n : String) : Prop :=
  site.Binds n ∨ t.isPage = true ∧ n = t.stem

theorem Site.Fits.captures {site : Site} {s : Scope} {n : String} (h : site.Fits s)
    (hn : IsBuiltin n) (t : TemplateName) :
    site.IsLocal n ∨ n ∈ Package.exports t ↔ site.Captures t n := by
  have hfunction := hn.ne_function t
  rw [h.locals n hn.not_isMade, Package.exports, Captures]
  split <;> simp [*]

theorem Asked.builtins_met {env : Env} (t : TemplateName) :
    (builtins t (Site.Captures t)).Met env where
  value h he :=
    ⟨fun _ => Expr.builtins_resolve he ▸ Expr.mem_names_meaning _,
      fun _ hn => h.captures (Expr.isBuiltin_of_mem hn) t⟩
  call _ := trivial
  pattern h _ _ _ hn := h.captures (Pattern.isBuiltin_of_mem hn) t

/-- **Builtin functions are captured by names that are bound around them**, and by that of the page,
at every place of every template that generates. The code of an expression names what the template
names, and calls `range` for a range and `float` for a number that is not finite. These two refer to
a variable or to something that the module defines if they are a parameter, if a pattern anywhere in
a function around binds them, or if they are the stem of the page, and not otherwise. -/
theorem builtins_captured {context : Context} {t : Template} {code : String}
    (h : t.module? context = .ok code) :
    ∃ stmts, t.stmts context = .ok stmts ∧ code = t.moduleText stmts ∧
      SitedBody (.builtins t.toTemplateName (Site.Captures t.toTemplateName)) (t.site stmts)
        t.body stmts := by
  obtain ⟨stmts, hs, hc, hcode⟩ := Template.module_ok.mp h
  exact ⟨stmts, hs, hcode, Template.sited (Asked.builtins_met t.toTemplateName) hs hc⟩

/-- Ranges and numbers that are not finite, in reach of names like theirs. -/
def capturingText : List Char :=
  ("@(float: str)\n@for i in 0..3 {@(1e999)} @:f() {@for range in 0..2 {@range}} " ++
    "@match x {1e999 => {a}, y if y == (1..=2) => {b},}").toList

theorem builtins_captured_capturing : ∃ t code,
    Template.parse ⟨[], "range", "html"⟩ .here "" capturingText = .ok t ∧
      t.module? .empty = .ok code ∧ ∃ stmts, t.stmts .empty = .ok stmts ∧
        code = t.moduleText stmts ∧
        SitedBody (.builtins t.toTemplateName (Site.Captures t.toTemplateName)) (t.site stmts)
          t.body stmts := by
  obtain ⟨t, stmts, hparse, -, hm, -⟩ := Template.exists_of_generates
    ⟨[], "range", "html"⟩ capturingText .empty (fun _ _ => true) (by decide +kernel)
  exact ⟨t, _, hparse, hm, builtins_captured hm⟩

/-! ## A range in reach of a loop variable -/

/-- **A range whose function has a variable `range`** does not call the builtin function. -/
theorem not_sited_builtins {t : TemplateName} {params : List String} {nodes body : List Node}
    {stmts : List Stmt} {p q : Nat} {pattern : Pattern} {l r : Expr} {inclusive : Bool}
    (huse : .loop p pattern (.range q l r inclusive) body ∈ nodes)
    (hstore : "range" ∈ Stmt.storesAll stmts) :
    ¬ SitedBody (.builtins t fun _ _ => False) (.ofFunc ⟨params, nodes, stmts⟩) nodes stmts := by
  intro h
  obtain ⟨b, hloop⟩ := h.exists_node rfl huse
  have hlocal : Site.IsLocal (.ofFunc ⟨params, nodes, stmts⟩) "range" :=
    Site.isLocal_ofFunc.mpr (Func.mem_locals_of_stores hstore)
  cases hloop with
  | loop he _ _ => exact (he.2 "range" List.mem_cons_self).mp (.inl hlocal)
  | skipping he _ _ => exact (he.2 "range" List.mem_cons_self).mp (.inl hlocal)

/-- A loop through a range after one whose variable is named `range`. -/
def capturedText : List Char := "@(xs: list)\n@for range in xs {@range}@for i in 0..3 {@i}".toList

/-- The body loops through a range, and the code assigns `range`. -/
def loopsThroughCaptured (nodes : List Node) (stmts : List Stmt) : Bool :=
  nodes.any (fun
    | .loop _ _ (.range ..) _ => true
    | _ => false) && decide ("range" ∈ Stmt.storesAll stmts)

theorem not_sited_of_loopsThroughCaptured {t : TemplateName} {params : List String}
    {nodes : List Node} {stmts : List Stmt} (h : loopsThroughCaptured nodes stmts = true) :
    ¬ SitedBody (.builtins t fun _ _ => False) (.ofFunc ⟨params, nodes, stmts⟩) nodes stmts := by
  unfold loopsThroughCaptured at h
  rw [Bool.and_eq_true, List.any_eq_true, decide_eq_true_iff] at h
  obtain ⟨⟨n, hn, hloop⟩, hstore⟩ := h
  split at hloop
  · exact not_sited_builtins hn hstore
  · cases hloop

/-- The second loop calls the item that the first one ended with. -/
theorem range_captured_by_loop : ∃ t stmts,
    Template.parse ⟨[], "page", "html"⟩ .here "" capturedText = .ok t ∧
      t.stmts .empty = .ok stmts ∧ t.module? .empty = .ok (t.moduleText stmts) ∧
      ¬ SitedBody (.builtins t.toTemplateName fun _ _ => False) (t.site stmts) t.body stmts := by
  obtain ⟨t, stmts, hparse, hs, hm, hcheck⟩ := Template.exists_of_generates
    ⟨[], "page", "html"⟩ capturedText .empty (fun t stmts => loopsThroughCaptured t.body stmts)
    (by decide +kernel)
  exact ⟨t, stmts, hparse, hs, hm, not_sited_of_loopsThroughCaptured hcheck⟩

end Stencil
