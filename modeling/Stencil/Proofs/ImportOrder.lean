import Mathlib.Data.List.Induction
import Stencil.Proofs.Loading
import Stencil.Proofs.PackageFiles
import Stencil.Proofs.Statements

/-!
# Importing a package

The modules of a package are loaded from the index of its root. An index imports what is below it,
and the module of a template imports the modules of the templates that it calls.

* `Package.Module`, `Package.imports`: the modules and what their import lines import.
* `Package.Calls`: the call graph of the templates.
* **`Package.importable_iff_acyclic`**: loading never imports a template that is still doing its own
  imports exactly if no template calls itself through others.
* `Package.mutual_calls_block`: a package of two templates that call each other cannot be loaded.
-/

namespace Stencil

open Relation

namespace Package

/-- **A module of a package**; an index and the module of a template are different files. -/
inductive Module where
  | index (dir : List String)
  | helpers
  | statics
  | template (ref : TemplateRef)
  deriving DecidableEq, Repr

/-- The module that a line of an index imports. -/
def IndexImport.module (dir : List String) : IndexImport → Module
  | directory name => .index (dir ++ [name])
  | statics => .statics
  | template n => .template ⟨dir, n.function⟩

end Package

/-- The module that a line of a template's module imports. -/
def ModuleImport.module : ModuleImport → Package.Module
  | helpers => .helpers
  | template r => .template r
  | statics => .statics

/-- The imports of a template's module: none if it has no code. -/
def Template.moduleImports (context : Context) (t : Template) : List ModuleImport :=
  match t.stmts context with
  | .ok stmts => Stencil.moduleImports stmts
  | .error _ => []

namespace Package

/-- The template that a reference names. -/
def template? (ts : List Template) (r : TemplateRef) : Option Template :=
  ts.find? fun t => Context.refOf t.toTemplateName == r

/-- **What a module of a package imports**, in the order of its lines. -/
def imports (context : Context) (ts : List Template) (withStatics : Bool) : Module → List Module
  | .index dir =>
    (indexImports (childrenOf (directories (ts.map Template.toTemplateName)) dir)
      ((templatesIn dir ts).map Template.toTemplateName) (withStatics && dir.isEmpty)).map
        (IndexImport.module dir)
  | .template r =>
    ((template? ts r).map (Template.moduleImports context)).getD [] |>.map ModuleImport.module
  | .helpers | .statics => []

/-- **The states through which a package is loaded**, from the index of its root. -/
def Loads (context : Context) (ts : List Template) (withStatics : Bool) (s : Loading Module) :
    Prop :=
  Loading.Reaches (imports context ts withStatics)
    (Loading.start (imports context ts withStatics) (.index [])) s

/-- **The call graph of templates**: the code of one template calls another one. -/
def Calls (context : Context) (ts : List Template) (r r' : TemplateRef) : Prop :=
  ∃ t ∈ ts, Context.refOf t.toTemplateName = r ∧
    ∃ stmts, t.stmts context = .ok stmts ∧ r' ∈ Stmt.refsAll stmts

section Imports

variable {context : Context} {ts : List Template} {withStatics : Bool}

theorem mem_importedRefs {stmts : List Stmt} {r : TemplateRef} :
    r ∈ importedRefs stmts ↔ r ∈ Stmt.refsAll stmts := by
  rw [importedRefs, mem_sortBy, mem_dedup]

theorem template_mem_moduleImports {stmts : List Stmt} {r : TemplateRef} :
    Module.template r ∈ (moduleImports stmts).map ModuleImport.module ↔
      r ∈ Stmt.refsAll stmts := by
  rw [← mem_importedRefs, moduleImports]
  split <;> simp [ModuleImport.module]

theorem index_not_mem_moduleImports {stmts : List Stmt} {dir : List String} :
    Module.index dir ∉ (moduleImports stmts).map ModuleImport.module := by
  rw [moduleImports]
  split <;> simp [ModuleImport.module]

/-- What an index imports: the directories and templates directly below it, and static files. -/
theorem mem_imports_index {dir : List String} {m : Module} :
    m ∈ imports context ts withStatics (.index dir) ↔
      (∃ c, dir ++ [c] ∈ directories (ts.map Template.toTemplateName) ∧ m = .index (dir ++ [c])) ∨
      (withStatics ∧ dir = [] ∧ m = .statics) ∨
      ∃ t ∈ ts, t.namespaces = dir ∧ m = .template (Context.refOf t.toTemplateName) := by
  have hchild : ∀ c, c ∈ childrenOf (directories (ts.map Template.toTemplateName)) dir ↔
      dir ++ [c] ∈ directories (ts.map Template.toTemplateName) := fun c => by
    rw [mem_childrenOf]
    constructor
    · rintro ⟨d, hd, hp⟩
      exact directories_closed hd hp
    · exact fun h => ⟨_, h, List.prefix_rfl⟩
  simp only [imports, indexImports, List.map_append, List.map_map, List.mem_append, List.mem_map,
    hchild, mem_templatesIn, or_assoc]
  refine or_congr ?_ (or_congr ?_ ?_)
  · constructor
    · rintro ⟨c, hc, rfl⟩
      exact ⟨c, hc, rfl⟩
    · rintro ⟨c, hc, rfl⟩
      exact ⟨c, hc, rfl⟩
  · cases withStatics <;> cases dir <;> simp [IndexImport.module, eq_comm]
  · constructor
    · rintro ⟨t, ⟨ht, rfl⟩, rfl⟩
      exact ⟨t, ht, rfl, rfl⟩
    · rintro ⟨t, ht, rfl, rfl⟩
      exact ⟨t, ⟨ht, rfl⟩, rfl⟩

theorem template?_eq_some (hnodup : (ts.map fun t => Context.refOf t.toTemplateName).Nodup)
    {t : Template} (ht : t ∈ ts) : template? ts (Context.refOf t.toTemplateName) = some t := by
  unfold template?
  induction ts with
  | nil => cases ht
  | cons a ts ih =>
    rw [List.map_cons, List.nodup_cons] at hnodup
    rcases List.mem_cons.mp ht with rfl | ht
    · rw [List.find?_cons_of_pos (by simp)]
    · rw [List.find?_cons_of_neg, ih hnodup.2 ht]
      intro h
      rw [beq_iff_eq] at h
      exact hnodup.1 (h ▸ List.mem_map_of_mem ht)

/-- **The module of a template imports the modules of those it calls.** -/
theorem template_mem_imports (hnodup : (ts.map fun t => Context.refOf t.toTemplateName).Nodup)
    {r r' : TemplateRef} :
    Module.template r' ∈ imports context ts withStatics (.template r) ↔ Calls context ts r r' := by
  constructor
  · intro h
    rw [imports] at h
    cases ht : template? ts r with
    | none => simp [ht] at h
    | some t =>
      simp only [ht, Option.map_some, Option.getD_some, Template.moduleImports] at h
      have href := List.find?_some ht
      refine ⟨t, List.mem_of_find?_eq_some ht, by simpa using href, ?_⟩
      split at h
      · exact ⟨_, ‹_›, template_mem_moduleImports.mp h⟩
      · cases h
  · rintro ⟨t, ht, rfl, stmts, hs, hr⟩
    rw [imports, template?_eq_some hnodup ht]
    simp only [Option.map_some, Option.getD_some, Template.moduleImports, hs]
    exact template_mem_moduleImports.mpr hr

theorem index_not_mem_imports {r : TemplateRef} {dir : List String} :
    Module.index dir ∉ imports context ts withStatics (.template r) := by
  intro h
  rw [imports] at h
  cases ht : template? ts r with
  | none => simp [ht] at h
  | some t =>
    simp only [ht, Option.map_some, Option.getD_some, Template.moduleImports] at h
    split at h
    · exact index_not_mem_moduleImports h
    · cases h

end Imports

/-! ## Cycles of imports -/

section Cycles

variable {context : Context} {ts : List Template} {withStatics : Bool}

/-- What a module imports, directly or through others, as far as cycles are concerned: an index
leads to deeper ones only, and a template to those it calls and to modules without imports. -/
def LeadsTo (context : Context) (ts : List Template) : Module → Module → Prop
  | .index dir, .index dir' => dir.length < dir'.length
  | .template _, .index _ => False
  | .template r, .template r' => TransGen (Calls context ts) r r'
  | .helpers, _ | .statics, _ => False
  | _, _ => True

/-- An index imports deeper ones only. -/
theorem length_lt_of_imports {dir dir' : List String}
    (h : Imports (imports context ts withStatics) (.index dir) (.index dir')) :
    dir.length < dir'.length := by
  rcases mem_imports_index.mp h with ⟨c, -, hc⟩ | ⟨-, -, hc⟩ | ⟨t, -, -, hc⟩
  · cases hc
    simp
  · cases hc
  · cases hc

theorem LeadsTo.of_imports (hnodup : (ts.map fun t => Context.refOf t.toTemplateName).Nodup)
    {m i : Module} (h : Imports (imports context ts withStatics) m i) : LeadsTo context ts m i := by
  cases m with
  | index dir =>
    cases i with
    | index dir' => exact length_lt_of_imports h
    | _ => trivial
  | template r =>
    cases i with
    | index dir' => exact absurd h index_not_mem_imports
    | template r' => exact .single ((template_mem_imports hnodup).mp h)
    | _ => trivial
  | helpers => cases h
  | statics => cases h

theorem LeadsTo.trans {m j i : Module} (hj : LeadsTo context ts m j) (hi : LeadsTo context ts j i) :
    LeadsTo context ts m i := by
  cases m with
  | index dir =>
    cases i with
    | index dir' =>
      cases j with
      | index dir'' => exact Nat.lt_trans hj hi
      | _ => exact hi.elim
    | _ => trivial
  | template r =>
    cases j with
    | template r' =>
      cases i with
      | index dir' => exact hi.elim
      | template r'' => exact TransGen.trans hj hi
      | _ => trivial
    | index dir' => exact hj.elim
    | helpers => exact hi.elim
    | statics => exact hi.elim
  | helpers => exact hj.elim
  | statics => exact hj.elim

theorem leadsTo_of_transGen (hnodup : (ts.map fun t => Context.refOf t.toTemplateName).Nodup)
    {m i : Module} (h : TransGen (Imports (imports context ts withStatics)) m i) :
    LeadsTo context ts m i := by
  induction h with
  | single he => exact .of_imports hnodup he
  | tail _ he ih => exact ih.trans (.of_imports hnodup he)

/-- **A cycle of imports is a cycle of calls.** -/
theorem exists_calls_of_cycle (hnodup : (ts.map fun t => Context.refOf t.toTemplateName).Nodup)
    {m : Module} (h : TransGen (Imports (imports context ts withStatics)) m m) :
    ∃ r, m = .template r ∧ TransGen (Calls context ts) r r := by
  have hlead := leadsTo_of_transGen hnodup h
  cases m with
  | index dir => exact absurd hlead (Nat.lt_irrefl _)
  | template r => exact ⟨r, rfl, hlead⟩
  | helpers => exact hlead.elim
  | statics => exact hlead.elim

/-- A cycle of calls is a cycle of imports. -/
theorem cycle_of_calls (withStatics : Bool)
    (hnodup : (ts.map fun t => Context.refOf t.toTemplateName).Nodup) {r r' : TemplateRef}
    (h : TransGen (Calls context ts) r r') :
    TransGen (Imports (imports context ts withStatics)) (.template r) (.template r') := by
  induction h with
  | single he => exact .single ((template_mem_imports hnodup).mpr he)
  | tail _ he ih => exact ih.tail ((template_mem_imports hnodup).mpr he)

/-- **The index of the root leads to each template.** -/
theorem reaches_template {t : Template} (ht : t ∈ ts) :
    ReflTransGen (Imports (imports context ts withStatics)) (.index [])
      (.template (Context.refOf t.toTemplateName)) := by
  have hdir : ∀ dir, dir ∈ directories (ts.map Template.toTemplateName) →
      ReflTransGen (Imports (imports context ts withStatics)) (.index []) (.index dir) := by
    intro dir
    induction dir using List.reverseRecOn with
    | nil => exact fun _ => .refl
    | append_singleton dir c ih =>
      intro h
      exact (ih (directories_closed h (List.prefix_append _ _))).tail
        (mem_imports_index.mpr (.inl ⟨c, h, rfl⟩))
  have hmem := namespaces_mem_directories (List.mem_map_of_mem (f := Template.toTemplateName) ht)
  exact (hdir _ hmem).tail (mem_imports_index.mpr (.inr (.inr ⟨t, ht, rfl, rfl⟩)))

end Cycles

/-! ## Generated packages -/

/-- The modules of a package. -/
def modules (ts : List Template) : List Module :=
  (directories (ts.map Template.toTemplateName)).map .index ++ [.helpers, .statics] ++
    ts.map fun t => .template (Context.refOf t.toTemplateName)

theorem root_mem_modules (ts : List Template) : Module.index [] ∈ modules ts := by
  simp [modules, mem_directories]

section Generated

variable {package : String} {ts : List Template} {index? : Option Index} {fs : List File}

/-- **Calls stay inside the package.** -/
theorem mem_of_calls (h : generate package ts index? = .ok fs) {r r' : TemplateRef}
    (hc : Calls (contextOf ts index?) ts r r') :
    ∃ t ∈ ts, Context.refOf t.toTemplateName = r' := by
  obtain ⟨t, ht, -, stmts, hs, hr⟩ := hc
  obtain ⟨stmts', hs', hcheck⟩ := (generate_ok h).1 t ht
  obtain rfl : stmts = stmts' := Except.ok.inj (hs.symm.trans hs')
  obtain ⟨n, hn, he⟩ := Template.mem_of_refs hs hcheck hr
  obtain ⟨t', ht', rfl⟩ := List.mem_map.mp hn
  exact ⟨t', ht', he.symm⟩

/-- **Imports stay inside the package.** -/
theorem imports_subset_modules (h : generate package ts index? = .ok fs) :
    ∀ m ∈ modules ts, imports (contextOf ts index?) ts index?.isSome m ⊆ modules ts := by
  have hnodup := nodup_refs h
  intro m _ i hi
  cases m with
  | index dir =>
    rcases mem_imports_index.mp hi with ⟨c, hc, rfl⟩ | ⟨-, -, rfl⟩ | ⟨t, ht, -, rfl⟩
    · simp [modules, hc]
    · simp [modules]
    · simp only [modules, List.mem_append, List.mem_map]
      exact .inr ⟨t, ht, rfl⟩
  | template r =>
    cases i with
    | index dir => exact absurd hi index_not_mem_imports
    | template r' =>
      obtain ⟨t, ht, rfl⟩ := mem_of_calls h ((template_mem_imports hnodup).mp hi)
      simp only [modules, List.mem_append, List.mem_map]
      exact .inr ⟨t, ht, rfl⟩
    | helpers => simp [modules]
    | statics => simp [modules]
  | helpers => cases hi
  | statics => cases hi

/-- A module that is imported while it is still running is that of a template that calls itself
through others. -/
theorem exists_calls_of_blocked (h : generate package ts index? = .ok fs)
    {s : Loading Module} (hs : Loads (contextOf ts index?) ts index?.isSome s) {m : Module}
    (hb : s.blocked? = some m) :
    ∃ r, m = .template r ∧ TransGen (Calls (contextOf ts index?) ts) r r := by
  obtain ⟨-, hc⟩ := ((Loading.sound_start _ _).reaches hs).cycle hb
  exact exists_calls_of_cycle (nodup_refs h) hc

/-- **A package whose call graph has no cycle is loaded** with all its templates. -/
theorem loaded_of_acyclic (h : generate package ts index? = .ok fs)
    (hacyclic : ∀ r, ¬ TransGen (Calls (contextOf ts index?) ts) r r) :
    ∃ s, Loads (contextOf ts index?) ts index?.isSome s ∧ s.running = [] ∧
      ∀ t ∈ ts, Module.template (Context.refOf t.toTemplateName) ∈ s.loaded := by
  have hfree : ∀ s, Loads (contextOf ts index?) ts index?.isSome s → s.blocked? = none := by
    intro s hs
    cases hb : s.blocked? with
    | none => rfl
    | some m =>
      obtain ⟨r, -, hr⟩ := exists_calls_of_blocked h hs hb
      exact absurd hr (hacyclic r)
  obtain ⟨s, hs, hend, -, hmem⟩ :=
    Loading.exists_loaded (imports_subset_modules h) (root_mem_modules ts) hfree
  exact ⟨s, hs, hend, fun t ht => hmem _ (reaches_template ht)⟩

/-- **A generated package can be imported exactly if its call graph has no cycle.** Loading the
modules depth first from the index of the root, in the order of their import lines, never comes to
the import of a template's module that is still doing its own imports if and only if no template
calls itself through others. -/
theorem importable_iff_acyclic (h : generate package ts index? = .ok fs) :
    (∀ s, Loads (contextOf ts index?) ts index?.isSome s →
      ∀ r, s.blocked? ≠ some (.template r)) ↔
    ∀ r, ¬ TransGen (Calls (contextOf ts index?) ts) r r := by
  constructor
  · intro hs r hr
    have hfree : ∀ s, Loads (contextOf ts index?) ts index?.isSome s → s.blocked? = none := by
      intro s hreach
      cases hb : s.blocked? with
      | none => rfl
      | some m =>
        obtain ⟨r', rfl, -⟩ := exists_calls_of_blocked h hreach hb
        exact absurd hb (hs s hreach r')
    -- the first template of the cycle is reached from the root, so it cannot import itself
    have hcycle := cycle_of_calls index?.isSome (nodup_refs h) hr
    obtain ⟨r', ⟨t, ht, rfl, -⟩, -⟩ := TransGen.head'_iff.mp hr
    have hacyclic :=
      (Loading.unblocked_iff (imports_subset_modules h) (root_mem_modules ts)).mp hfree
    exact hacyclic _ (reaches_template ht) hcycle
  · intro hacyclic s hreach r hb
    obtain ⟨r', -, hr⟩ := exists_calls_of_blocked h hreach hb
    exact hacyclic r' hr

end Generated

/-- A page that only calls another one of the same directory. -/
def callingPage (stem callee : String) : Template :=
  ⟨⟨[], stem, "html"⟩, ⟨[], [], [.call 4 [callee] [] []]⟩, .relative [stem ++ ".html"],
    ("@()\n@:" ++ callee ++ "()").toList⟩

/-- Two pages that call each other. -/
def mutualPages : List Template := [callingPage "a" "b", callingPage "b" "a"]

theorem generate_mutualPages : ∃ fs, generate "pkg" mutualPages none = .ok fs := by
  have h : (generate "pkg" mutualPages none).toBool = true := by decide +kernel
  cases hg : generate "pkg" mutualPages none with
  | error e => rw [hg] at h; cases h
  | ok fs => exact ⟨fs, rfl⟩

theorem importable_iff_acyclic_mutualPages : ∃ fs, generate "pkg" mutualPages none = .ok fs ∧
    ((∀ s, Loads (contextOf mutualPages none) mutualPages false s →
      ∀ r, s.blocked? ≠ some (.template r)) ↔
    ∀ r, ¬ TransGen (Calls (contextOf mutualPages none) mutualPages) r r) := by
  obtain ⟨fs, h⟩ := generate_mutualPages
  exact ⟨fs, h, importable_iff_acyclic h⟩

/-- **Two pages that call each other are generated, but cannot be imported.** -/
theorem mutual_calls_block : (∃ fs, generate "pkg" mutualPages none = .ok fs) ∧
    ∃ s, Loads (contextOf mutualPages none) mutualPages false s ∧
      s.blocked? = some (.template ⟨[], "a_html"⟩) := by
  refine ⟨generate_mutualPages, _, Loading.reaches_run 6 _, ?_⟩
  decide +kernel

end Package

end Stencil
