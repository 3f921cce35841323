import Mathlib.Data.List.Induction
import Stencil.Proofs.Statements

/-!
# Contexts that answer alike

What is generated for a template depends on what calls and paths of its context lead to, and not on
the order in which the templates of the context became known.

* **`Context.lookup_ofNames`**: what is known under a name. The function of a template comes before
  the stem of a page, whichever of them became known first.
* `Context.Alike`: contexts that know the same; `Context.alike_of_perm`: templates in another order.
* **`Template.render_congr`**: contexts that know the same give every template the same module.
-/

namespace Stencil

namespace Context

/-! ## What is known under a name -/

section Table

variable {table : List ((List String × String) × TemplateRef)} {key k : List String × String}
variable {ref : TemplateRef}

theorem lookup_filter_ne (h : k ≠ key) :
    (table.filter fun entry => entry.1 != key).lookup k = table.lookup k := by
  induction table with
  | nil => rfl
  | cons entry table ih =>
    obtain ⟨k', r⟩ := entry
    by_cases hk : k' = key
    · have hne : (k == k') = false := by simpa [hk] using h
      rw [List.filter_cons_of_neg (by simp [hk]), ih, List.lookup_cons, hne]
    · rw [List.filter_cons_of_pos (by simp [hk]), List.lookup_cons, List.lookup_cons, ih]

theorem lookup_put :
    (put table key ref).lookup k = if k = key then some ref else table.lookup k := by
  rw [put, List.lookup_cons]
  by_cases h : k = key
  · rw [beq_iff_eq.mpr h, if_pos h]
  · rw [beq_eq_false_iff_ne.mpr h, if_neg h, lookup_filter_ne h]

theorem lookup_putNew : (putNew table key ref).lookup k =
    (table.lookup k).or (if k = key then some ref else none) := by
  unfold putNew
  by_cases hk : k = key
  · subst hk
    cases htable : table.lookup k <;> simp [htable]
  · rw [if_neg hk, Option.or_none]
    split
    · rfl
    · rw [List.lookup_cons, beq_eq_false_iff_ne.mpr hk]

/-- What is known after a template was added: its function replaces what was known under that name,
the stem of a page does not. -/
theorem lookup_add {n : TemplateName} : (add table n).lookup k =
    if k = (n.namespaces, n.function) then some (refOf n)
    else (table.lookup k).or
      (if n.isPage = true ∧ k = (n.namespaces, n.stem) then some (refOf n) else none) := by
  rw [add]
  by_cases hp : n.isPage = true
  · simp only [hp, if_true, true_and, lookup_putNew, lookup_put]
    split
    · rw [Option.some_or]
    · rfl
  · simp only [hp, false_and, if_false, lookup_put, Option.or_none, Bool.false_eq_true]

end Table

section Names

variable {names names' : List TemplateName} {statics : Option (List String)} {dir : List String}
variable {w : String} {n : TemplateName}

/-- A template of the directory has a function of the given name. -/
def HasFunction (names : List TemplateName) (dir : List String) (w : String) : Prop :=
  ∃ n ∈ names, n.namespaces = dir ∧ n.function = w

/-- A page of the directory has the given stem. -/
def HasPage (names : List TemplateName) (dir : List String) (w : String) : Prop :=
  ∃ n ∈ names, n.isPage = true ∧ n.namespaces = dir ∧ n.stem = w

instance : Decidable (HasFunction names dir w) := by unfold HasFunction; infer_instance

instance : Decidable (HasPage names dir w) := by unfold HasPage; infer_instance

theorem hasFunction_append : HasFunction (names ++ [n]) dir w ↔
    (dir, w) = (n.namespaces, n.function) ∨ HasFunction names dir w := by
  simp only [HasFunction, List.mem_append, List.mem_singleton, or_and_right, exists_or,
    exists_eq_left, Prod.mk.injEq, eq_comm (a := dir), eq_comm (a := w)]
  exact or_comm

theorem hasPage_append : HasPage (names ++ [n]) dir w ↔
    HasPage names dir w ∨ n.isPage = true ∧ (dir, w) = (n.namespaces, n.stem) := by
  simp only [HasPage, List.mem_append, List.mem_singleton, or_and_right, exists_or,
    exists_eq_left, Prod.mk.injEq, eq_comm (a := dir), eq_comm (a := w)]

theorem refOf_page (h : n.isPage = true) : refOf n = ⟨n.namespaces, n.stem ++ "_html"⟩ := by
  rw [TemplateName.isPage, beq_iff_eq] at h
  rw [refOf, TemplateName.function, h, String.append_assoc]
  rfl

/-- **What is known under a name in a directory**: the template with that function, or else the page
with that stem. -/
theorem lookup_ofNames : (ofNames names statics).templates.lookup (dir, w) =
    if HasFunction names dir w then some ⟨dir, w⟩
    else if HasPage names dir w then some ⟨dir, w ++ "_html"⟩ else none := by
  rw [ofNames]
  induction names using List.reverseRecOn with
  | nil => simp [HasFunction, HasPage]
  | append_singleton names n ih =>
    rw [List.foldl_append, List.foldl_cons, List.foldl_nil, lookup_add]
    by_cases hf : (dir, w) = (n.namespaces, n.function)
    · rw [if_pos hf, if_pos (hasFunction_append.mpr (.inl hf))]
      cases hf
      rfl
    rw [if_neg hf, ih]
    simp only [hasFunction_append, hf, false_or]
    split
    · rw [Option.some_or]
    simp only [hasPage_append]
    by_cases hold : HasPage names dir w
    · rw [if_pos hold, if_pos (Or.inl hold), Option.some_or]
    rw [if_neg hold, Option.none_or]
    by_cases hpage : n.isPage = true ∧ (dir, w) = (n.namespaces, n.stem)
    · rw [if_pos hpage, if_pos (Or.inr hpage), refOf_page hpage.1]
      cases hpage.2
      rfl
    · rw [if_neg hpage, if_neg fun h => h.elim hold hpage]

-- the stem of a page that is also the function of another template, in both orders
example : ∀ names ∈ [[⟨[], "item_html", "html"⟩, ⟨[], "item", "html"⟩],
      [⟨[], "item", "html"⟩, ⟨[], "item_html", "html"⟩]],
    (ofNames names none).templates.lookup ([], "item_html") = some ⟨[], "item_html"⟩ := by
  decide +kernel

/-- **Contexts that know the same.** -/
structure Alike (c c' : Context) : Prop where
  templates : ∀ key, c.templates.lookup key = c'.templates.lookup key
  statics : c.statics = c'.statics

/-- **Contexts of the same templates know the same**, in whatever order these are given. -/
theorem alike_of_perm (h : names.Perm names') (statics : Option (List String)) :
    Alike (ofNames names statics) (ofNames names' statics) where
  templates := fun (dir, w) => by
    have hfunction : HasFunction names dir w ↔ HasFunction names' dir w := by
      simp only [HasFunction, h.mem_iff]
    have hpage : HasPage names dir w ↔ HasPage names' dir w := by
      simp only [HasPage, h.mem_iff]
    rw [lookup_ofNames, lookup_ofNames]
    simp only [hfunction, hpage]
  statics := rfl

end Names

/-! ## Calls and paths -/

section Alike

variable {c c' : Context} (h : c.Alike c') (self : TemplateName)
include h

theorem Alike.target : c.target self = c'.target self := by
  funext s path
  simp only [Context.target, Context.find?, h.templates]

theorem Alike.resolution :
    (⟨self, c⟩ : Env).resolution = (⟨self, c'⟩ : Env).resolution := by
  funext s
  have hpath : (⟨self, c⟩ : Env).staticPath s = (⟨self, c'⟩ : Env).staticPath s := by
    funext path position
    simp only [Env.staticPath, h.statics]
  simp only [Env.resolution, hpath]

end Alike

end Context

/-! ## Generation -/

namespace Gen

variable {self : TemplateName} {c c' : Context}

mutual

/-- **Contexts that know the same give bodies the same statements.** -/
theorem body_congr (h : c.Alike c') : ∀ (ns : List Node) (s : Scope) (i p : Nat)
    (pending : String), body ⟨self, c⟩ s i p pending ns = body ⟨self, c'⟩ s i p pending ns
  | [], _, _, _, _ => rfl
  | n :: ns, s, i, p, pending => by
    simp only [body, node_congr h n, body_congr h ns]

theorem node_congr (h : c.Alike c') : ∀ (n : Node) (s : Scope) (i : Nat),
    node ⟨self, c⟩ s i n = node ⟨self, c'⟩ s i n
  | .text _ _, _, _ => rfl
  | .comment _ _, _, _ => rfl
  | .value p e raw, s, i => by simp only [node, h.resolution]
  | .branch p arms otherwise, s, i => by
    have ho : (alternative ⟨self, c⟩ s · p otherwise) = (alternative ⟨self, c'⟩ s · p otherwise) :=
      funext fun i => alternative_congr h otherwise s i p
    simp only [node, ho, chain_congr h arms]
  | .loop p pattern iterable nodes, s, i => by
    simp only [node, h.resolution, body_congr h nodes]
  | .cases p subject arms, s, i => by simp only [node, h.resolution, cases_congr h arms]
  | .call p path args blocks, s, i => by
    simp only [node, h.target, arguments_congr h args, contents_congr h blocks]

theorem alternative_congr (h : c.Alike c') : ∀ (o : Option (List Node)) (s : Scope) (i p : Nat),
    alternative ⟨self, c⟩ s i p o = alternative ⟨self, c'⟩ s i p o
  | none, _, _, _ => rfl
  | some nodes, s, i, p => by simp only [alternative, body_congr h nodes]

theorem chain_congr (h : c.Alike c') : ∀ (arms : List (Condition × List Node)) (s : Scope) (i : Nat)
    (first : Bool) (p : Nat) (last : Bool) (otherwise : Nat → Gen (List Stmt)),
    chain ⟨self, c⟩ s i first p last otherwise arms =
      chain ⟨self, c'⟩ s i first p last otherwise arms
  | [], _, _, _, _, _, _ => by simp only [chain]
  | (.holds e, nodes) :: arms, s, i, first, p, last, otherwise => by
    simp only [chain, h.resolution, body_congr h nodes, chain_congr h arms]
  | (.matches pattern e, nodes) :: arms, s, i, first, p, last, otherwise => by
    simp only [chain, h.resolution, body_congr h nodes, chain_congr h arms]

theorem cases_congr (h : c.Alike c') : ∀ (arms : List (Pattern × Option Expr × List Node))
    (s : Scope) (i p : Nat), cases ⟨self, c⟩ s i p arms = cases ⟨self, c'⟩ s i p arms
  | [], _, _, _ => by simp only [cases]
  | (pattern, guard, nodes) :: arms, s, i, p => by
    simp only [cases, h.resolution, body_congr h nodes, cases_congr h arms]

theorem arguments_congr (h : c.Alike c') : ∀ (args : List (Expr ⊕ List Node)) (s : Scope)
    (i p : Nat), arguments ⟨self, c⟩ s i p args = arguments ⟨self, c'⟩ s i p args
  | [], _, _, _ => by simp only [arguments]
  | .inl e :: args, s, i, p => by simp only [arguments, h.resolution, arguments_congr h args]
  | .inr nodes :: args, s, i, p => by
    simp only [arguments, body_congr h nodes, arguments_congr h args]

theorem contents_congr (h : c.Alike c') : ∀ (blocks : List (List Node)) (s : Scope) (i p : Nat),
    contents ⟨self, c⟩ s i p blocks = contents ⟨self, c'⟩ s i p blocks
  | [], _, _, _ => by simp only [contents]
  | nodes :: blocks, s, i, p => by
    simp only [contents, body_congr h nodes, contents_congr h blocks]

end

end Gen

/-- **Contexts that know the same give every template the same module**, or the same error. -/
theorem Template.render_congr {c c' : Context} (h : c.Alike c') (t : Template) :
    t.render c = t.render c' := by
  simp only [render, module?, stmts, Gen.body_congr h]

end Stencil
