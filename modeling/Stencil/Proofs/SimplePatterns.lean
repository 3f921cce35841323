import Stencil.Pattern.Code
import Stencil.Proofs.Result

/-!
# Renamed and simplified patterns

Where a pattern gets the names that it has in the code, nothing else of it changes. The generated
language refuses a choice with a bare name or `_` before its last alternative. What is written has
no such choice, at any depth.

* `Pattern.renamed`: the pattern with every name that it binds changed.
* **`Pattern.resolve_ok`**: what becomes of a pattern in the code, if it can be written at all.
* `Pattern.IsSimple`: no choice in a pattern has a catch-all among its alternatives.
* **`Pattern.isSimple_simplify`**, **`Pattern.simplify_of_isSimple`**: simplifying a pattern makes
  it simple, and leaves simple patterns as they are.
* `Pattern.isSimple_renamed`: renaming what a pattern binds keeps it simple.
* `Matching`: the values that patterns match. What a pattern matches is left open but for its
  structure: names and `_` match everything, a choice matches what one of its alternatives does, and
  any other pattern hangs on its parts only through what they match.
* **`Matching.fits_simplify`**, **`Matching.fits_resolve`**: neither simplifying a pattern nor
  renaming what it binds changes what it matches.
-/

namespace Stencil.Pattern

/-! ## Other names -/

section Renamed

variable (rename : String → String)

mutual

/-- **The pattern with every name that it binds changed.** -/
def renamed : Pattern → Pattern
  | wildcard p => wildcard p
  | binding p n => binding p (rename n)
  | literal p v => literal p v
  | value p path => value p path
  | tuple p items rest => tuple p (renamedAll items) rest
  | variant p path items => variant p path (renamedAll items)
  | struct p path fields o => struct p path (renamedFields fields) o
  | or p alternatives => or p (renamedAll alternatives)

/-- The patterns with every name that they bind changed. -/
def renamedAll : List Pattern → List Pattern
  | [] => []
  | p :: ps => p.renamed :: renamedAll ps

/-- The fields with every name that their patterns bind changed. -/
def renamedFields : List (String × Pattern) → List (String × Pattern)
  | [] => []
  | (n, p) :: fs => (n, p.renamed) :: renamedFields fs

end

variable {rename}

mutual

/-- **A pattern in the code is the renamed pattern.** -/
theorem resolve_ok : ∀ {p p' : Pattern}, p.resolve rename = .ok p' → p' = p.renamed rename
  | wildcard _, _, h | binding _ _, _, h | value _ _, _, h => by
    rw [resolve] at h
    cases h
    rfl
  | literal _ v, _, h => by
    rw [resolve] at h
    split at h <;> cases h
    rfl
  | tuple _ items _, _, h | variant _ _ items, _, h | or _ items, _, h => by
    rw [resolve, Except.bind_ok] at h
    obtain ⟨items', hi, h⟩ := h
    cases h
    rw [renamed, resolveAll_ok hi]
  | struct _ _ fields _, _, h => by
    rw [resolve, Except.bind_ok] at h
    obtain ⟨fields', hf, h⟩ := h
    cases h
    rw [renamed, resolveFields_ok hf]

theorem resolveAll_ok : ∀ {ps ps' : List Pattern}, resolveAll rename ps = .ok ps' →
    ps' = renamedAll rename ps
  | [], _, h => by
    rw [resolveAll] at h
    cases h
    rfl
  | p :: ps, _, h => by
    simp only [resolveAll, Except.bind_ok] at h
    obtain ⟨p', hp, ps', hps, h⟩ := h
    cases h
    rw [renamedAll, resolve_ok hp, resolveAll_ok hps]

theorem resolveFields_ok : ∀ {fs fs' : List (String × Pattern)},
    resolveFields rename fs = .ok fs' → fs' = renamedFields rename fs
  | [], _, h => by
    rw [resolveFields] at h
    cases h
    rfl
  | (_, p) :: fs, _, h => by
    simp only [resolveFields, Except.bind_ok] at h
    obtain ⟨p', hp, fs', hfs, h⟩ := h
    cases h
    rw [renamedFields, resolve_ok hp, resolveFields_ok hfs]

end

/-- Renaming keeps what is a bare name or `_`, and makes nothing else one. -/
theorem isCatchAll_renamed (p : Pattern) : (p.renamed rename).isCatchAll = p.isCatchAll := by
  cases p <;> rfl

theorem isCatchAll_resolve {p p' : Pattern} (h : p.resolve rename = .ok p') :
    p'.isCatchAll = p.isCatchAll := by
  rw [resolve_ok h, isCatchAll_renamed]

end Renamed

/-! ## Patterns without a catch-all among alternatives -/

mutual

/-- **No choice in a pattern has a bare name or `_` among its alternatives**, at any depth. -/
def IsSimple : Pattern → Prop
  | wildcard _ | binding _ _ | literal _ _ | value _ _ => True
  | tuple _ items _ | variant _ _ items => AllSimple items
  | struct _ _ fields _ => FieldsSimple fields
  | or _ alternatives => (∀ p ∈ alternatives, ¬ p.isCatchAll) ∧ AllSimple alternatives

/-- All patterns of a list are simple. -/
def AllSimple : List Pattern → Prop
  | [] => True
  | p :: ps => p.IsSimple ∧ AllSimple ps

/-- The patterns of all fields are simple. -/
def FieldsSimple : List (String × Pattern) → Prop
  | [] => True
  | (_, p) :: fs => p.IsSimple ∧ FieldsSimple fs

end

/-- A bare name and `_` are simple. -/
theorem isSimple_of_isCatchAll {p : Pattern} (h : p.isCatchAll) : p.IsSimple := by
  cases p with
  | wildcard _ | binding _ _ => rw [IsSimple]; trivial
  | _ => simp [isCatchAll] at h

/-! ## Simplifying -/

mutual

/-- **A simplified pattern is simple.** -/
theorem isSimple_simplify : ∀ p : Pattern, p.simplify.IsSimple
  | wildcard _ | binding _ _ | literal _ _ | value _ _ => by
    rw [simplify] <;> simp [IsSimple]
  | tuple _ items _ | variant _ _ items => by
    rw [simplify, IsSimple]
    exact allSimple_simplifyAll items
  | struct _ _ fields _ => by
    rw [simplify, IsSimple]
    exact fieldsSimple_simplifyFields fields
  | or p alternatives => by
    rw [simplify]
    cases hf : (simplifyAll alternatives).find? isCatchAll with
    | some q =>
      rw [Option.getD_some]
      exact isSimple_of_isCatchAll (List.find?_some hf)
    | none =>
      rw [Option.getD_none, IsSimple]
      exact ⟨List.find?_eq_none.mp hf, allSimple_simplifyAll alternatives⟩

theorem allSimple_simplifyAll : ∀ ps : List Pattern, AllSimple (simplifyAll ps)
  | [] => by rw [simplifyAll, AllSimple]; trivial
  | p :: ps => by
    rw [simplifyAll, AllSimple]
    exact ⟨isSimple_simplify p, allSimple_simplifyAll ps⟩

theorem fieldsSimple_simplifyFields : ∀ fs : List (String × Pattern),
    FieldsSimple (simplifyFields fs)
  | [] => by rw [simplifyFields, FieldsSimple]; trivial
  | (_, p) :: fs => by
    rw [simplifyFields, FieldsSimple]
    exact ⟨isSimple_simplify p, fieldsSimple_simplifyFields fs⟩

end

mutual

/-- **Simplifying leaves a simple pattern as it is.** -/
theorem simplify_of_isSimple : ∀ {p : Pattern}, p.IsSimple → p.simplify = p
  | wildcard _, _ | binding _ _, _ | literal _ _, _ | value _ _, _ => by
    rw [simplify] <;> simp
  | tuple _ items _, h | variant _ _ items, h => by
    rw [IsSimple] at h
    rw [simplify, simplifyAll_of_allSimple h]
  | struct _ _ fields _, h => by
    rw [IsSimple] at h
    rw [simplify, simplifyFields_of_fieldsSimple h]
  | or _ alternatives, h => by
    rw [IsSimple] at h
    rw [simplify, simplifyAll_of_allSimple h.2, List.find?_eq_none.mpr h.1, Option.getD_none]

theorem simplifyAll_of_allSimple : ∀ {ps : List Pattern}, AllSimple ps → simplifyAll ps = ps
  | [], _ => by rw [simplifyAll]
  | p :: ps, h => by
    rw [AllSimple] at h
    rw [simplifyAll, simplify_of_isSimple h.1, simplifyAll_of_allSimple h.2]

theorem simplifyFields_of_fieldsSimple : ∀ {fs : List (String × Pattern)}, FieldsSimple fs →
    simplifyFields fs = fs
  | [], _ => by rw [simplifyFields]
  | (_, p) :: fs, h => by
    rw [FieldsSimple] at h
    rw [simplifyFields, simplify_of_isSimple h.1, simplifyFields_of_fieldsSimple h.2]

end

/-- **Simplifying twice is simplifying once.** -/
theorem simplify_simplify (p : Pattern) : p.simplify.simplify = p.simplify :=
  simplify_of_isSimple (isSimple_simplify p)

/-! ## Renaming -/

section Renamed

variable {rename : String → String}

mutual

/-- **A simple pattern whose bindings are renamed is simple.** -/
theorem isSimple_renamed : ∀ {p : Pattern}, p.IsSimple → (p.renamed rename).IsSimple
  | wildcard _, _ | binding _ _, _ | literal _ _, _ | value _ _, _ => by
    rw [renamed, IsSimple]
    trivial
  | tuple _ items _, h | variant _ _ items, h => by
    rw [IsSimple] at h
    rw [renamed, IsSimple]
    exact (allSimple_renamedAll h).1
  | struct _ _ fields _, h => by
    rw [IsSimple] at h
    rw [renamed, IsSimple]
    exact fieldsSimple_renamedFields h
  | or _ alternatives, h => by
    rw [IsSimple] at h
    rw [renamed, IsSimple]
    exact ⟨(allSimple_renamedAll h.2).2 h.1, (allSimple_renamedAll h.2).1⟩

theorem allSimple_renamedAll : ∀ {ps : List Pattern}, AllSimple ps →
    AllSimple (renamedAll rename ps) ∧
      ((∀ p ∈ ps, ¬ p.isCatchAll) → ∀ p ∈ renamedAll rename ps, ¬ p.isCatchAll)
  | [], _ => by simp [renamedAll, AllSimple]
  | p :: ps, h => by
    rw [AllSimple] at h
    obtain ⟨hsimple, hcatch⟩ := allSimple_renamedAll h.2
    rw [renamedAll, AllSimple, List.forall_mem_cons, List.forall_mem_cons, isCatchAll_renamed]
    exact ⟨⟨isSimple_renamed h.1, hsimple⟩, And.imp_right hcatch⟩

theorem fieldsSimple_renamedFields : ∀ {fs : List (String × Pattern)}, FieldsSimple fs →
    FieldsSimple (renamedFields rename fs)
  | [], _ => by simp [renamedFields, FieldsSimple]
  | (_, p) :: fs, h => by
    rw [FieldsSimple] at h
    rw [renamedFields, FieldsSimple]
    exact ⟨isSimple_renamed h.1, fieldsSimple_renamedFields h.2⟩

end

end Renamed

end Stencil.Pattern

/-! ## Which values a pattern matches -/

namespace Stencil

/-- **The values of a type that patterns match.** -/
structure Matching (α : Type) where
  fits : Pattern → α → Bool
  fits_wildcard : ∀ p v, fits (.wildcard p) v = true
  fits_binding : ∀ p n v, fits (.binding p n) v = true
  fits_or : ∀ p ps v, fits (.or p ps) v = ps.any (fits · v)
  fits_tuple : ∀ p ps ps' rest, List.Forall₂ (fun q q' => fits q = fits q') ps ps' →
    fits (.tuple p ps rest) = fits (.tuple p ps' rest)
  fits_variant : ∀ p path ps ps', List.Forall₂ (fun q q' => fits q = fits q') ps ps' →
    fits (.variant p path ps) = fits (.variant p path ps')
  fits_struct : ∀ p path fs fs' o,
    List.Forall₂ (fun f f' => f.1 = f'.1 ∧ fits f.2 = fits f'.2) fs fs' →
    fits (.struct p path fs o) = fits (.struct p path fs' o)

namespace Matching

variable {α : Type} (M : Matching α)

attribute [simp] fits_wildcard fits_binding

/-- Everything matches a bare name or `_`. -/
theorem fits_of_isCatchAll {p : Pattern} (h : p.isCatchAll) (v : α) : M.fits p v = true := by
  cases p with
  | wildcard p => exact M.fits_wildcard p v
  | binding p n => exact M.fits_binding p n v
  | _ => simp [Pattern.isCatchAll] at h

theorem any_fits_congr {ps ps' : List Pattern}
    (h : List.Forall₂ (fun q q' => M.fits q = M.fits q') ps ps') (v : α) :
    ps.any (M.fits · v) = ps'.any (M.fits · v) := by
  induction h with
  | nil => rfl
  | cons h _ ih => rw [List.any_cons, List.any_cons, h, ih]

/-! ## Simplifying -/

mutual

/-- **A simplified pattern matches what the pattern matches.** -/
theorem fits_simplify : ∀ p : Pattern, M.fits p.simplify = M.fits p
  | .wildcard _ | .binding _ _ | .literal _ _ | .value _ _ => by rw [Pattern.simplify] <;> simp
  | .tuple p items rest => by
    rw [Pattern.simplify]
    exact M.fits_tuple p _ _ rest (fits_simplifyAll items)
  | .variant p path items => by
    rw [Pattern.simplify]
    exact M.fits_variant p path _ _ (fits_simplifyAll items)
  | .struct p path fields o => by
    rw [Pattern.simplify]
    exact M.fits_struct p path _ _ o (fits_simplifyFields fields)
  | .or p alternatives => by
    rw [Pattern.simplify]
    funext v
    have hany := M.any_fits_congr (fits_simplifyAll alternatives) v
    cases hf : (Pattern.simplifyAll alternatives).find? Pattern.isCatchAll with
    | none => rw [Option.getD_none, M.fits_or, M.fits_or, hany]
    | some q =>
      -- the catch-all that is left is one of the alternatives, so the choice matches everything
      have hq : M.fits q v = true := M.fits_of_isCatchAll (List.find?_some hf) v
      rw [Option.getD_some, hq, M.fits_or, ← hany]
      exact (List.any_eq_true.mpr ⟨q, List.mem_of_find?_eq_some hf, hq⟩).symm

theorem fits_simplifyAll : ∀ ps : List Pattern,
    List.Forall₂ (fun q q' => M.fits q = M.fits q') (Pattern.simplifyAll ps) ps
  | [] => by
    rw [Pattern.simplifyAll]
    exact .nil
  | p :: ps => by
    rw [Pattern.simplifyAll]
    exact .cons (fits_simplify p) (fits_simplifyAll ps)

theorem fits_simplifyFields : ∀ fs : List (String × Pattern),
    List.Forall₂ (fun f f' => f.1 = f'.1 ∧ M.fits f.2 = M.fits f'.2) (Pattern.simplifyFields fs) fs
  | [] => by
    rw [Pattern.simplifyFields]
    exact .nil
  | (n, p) :: fs => by
    rw [Pattern.simplifyFields]
    exact .cons ⟨rfl, fits_simplify p⟩ (fits_simplifyFields fs)

end

/-! ## Renaming -/

variable {rename : String → String}

mutual

theorem fits_renamed : ∀ p : Pattern, M.fits (p.renamed rename) = M.fits p
  | .wildcard _ | .literal _ _ | .value _ _ => rfl
  | .binding p n => by
    funext v
    rw [Pattern.renamed, fits_binding, fits_binding]
  | .tuple p items rest => M.fits_tuple p _ _ rest (fits_renamedAll items)
  | .variant p path items => M.fits_variant p path _ _ (fits_renamedAll items)
  | .struct p path fields o => M.fits_struct p path _ _ o (fits_renamedFields fields)
  | .or p alternatives => by
    funext v
    rw [Pattern.renamed, M.fits_or, M.fits_or, M.any_fits_congr (fits_renamedAll alternatives)]

theorem fits_renamedAll : ∀ ps : List Pattern,
    List.Forall₂ (fun q q' => M.fits q = M.fits q') (Pattern.renamedAll rename ps) ps
  | [] => .nil
  | p :: ps => .cons (fits_renamed p) (fits_renamedAll ps)

theorem fits_renamedFields : ∀ fs : List (String × Pattern),
    List.Forall₂ (fun f f' => f.1 = f'.1 ∧ M.fits f.2 = M.fits f'.2)
      (Pattern.renamedFields rename fs) fs
  | [] => .nil
  | (_, p) :: fs => .cons ⟨rfl, fits_renamed p⟩ (fits_renamedFields fs)

end

/-- **A pattern whose bindings are renamed matches what the pattern matches.** -/
theorem fits_resolve {p p' : Pattern} (h : p.resolve rename = .ok p') : M.fits p' = M.fits p := by
  rw [Pattern.resolve_ok h, M.fits_renamed]

/-- What is matched by the case that is generated for a pattern. -/
theorem fits_case {p p' : Pattern} (h : p.simplify.resolve rename = .ok p') :
    M.fits p' = M.fits p :=
  (M.fits_resolve h).trans (M.fits_simplify p)

end Matching

/-! ## Literal values -/

mutual

/-- A pattern matches a literal value that it names, or any. -/
def Pattern.fitsLiteral (v : Literal) : Pattern → Bool
  | .wildcard _ | .binding _ _ => true
  | .literal _ w => v = w
  | .or _ alternatives => Pattern.anyFitsLiteral v alternatives
  | _ => false

/-- One of the patterns matches a literal value. -/
def Pattern.anyFitsLiteral (v : Literal) : List Pattern → Bool
  | [] => false
  | p :: ps => p.fitsLiteral v || Pattern.anyFitsLiteral v ps

end

/-- **Patterns among values that are all literals.** -/
def Matching.literals : Matching Literal where
  fits p v := p.fitsLiteral v
  fits_wildcard p v := by rw [Pattern.fitsLiteral]
  fits_binding p n v := by rw [Pattern.fitsLiteral]
  fits_or p ps v := by
    rw [Pattern.fitsLiteral]
    induction ps with
    | nil => rw [Pattern.anyFitsLiteral, List.any_nil]
    | cons q ps ih => rw [Pattern.anyFitsLiteral, List.any_cons, ih]
  fits_tuple p ps ps' rest _ := by
    funext v
    rw [Pattern.fitsLiteral, Pattern.fitsLiteral] <;> simp
  fits_variant p path ps ps' _ := by
    funext v
    rw [Pattern.fitsLiteral, Pattern.fitsLiteral] <;> simp
  fits_struct p path fs fs' o _ := by
    funext v
    rw [Pattern.fitsLiteral, Pattern.fitsLiteral] <;> simp

end Stencil
