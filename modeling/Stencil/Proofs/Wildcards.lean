import Stencil.Proofs.FormedStatements
import Stencil.Proofs.Sites
import Stencil.Proofs.StaticNames

/-!
# What wildcards assign

In a case `_` matches without binding anything. The target of a plain loop is no case: there `_` is a
name like any other, and the loop assigns it.

* `Pattern.not_mem_bound_simplify`: no plain loop of a template that is read binds the name `_`.
* `Stmt.sets`: the names that the generated language assigns at a statement.
* `Stmt.Formed.mem_sets`: these are the names that patterns bind, and `_` in a plain loop that has it.
* **`wildcards_set`**: so it is at every statement of a generated template, which has `_` where the
  template has it.
-/

namespace Stencil

namespace Pattern

/-! ## Renaming -/

section Renamed

variable {rename : String → String}

mutual

/-- Renaming what a pattern binds neither adds wildcards nor removes any. -/
theorem hasWildcard_renamed : ∀ p : Pattern, (p.renamed rename).hasWildcard = p.hasWildcard
  | wildcard _ | binding _ _ | literal _ _ | value _ _ => rfl
  | tuple _ items _ | variant _ _ items | or _ items => by
    rw [renamed, hasWildcard, hasWildcard, anyWildcard_renamedAll items]
  | struct _ _ fields _ => by
    rw [renamed, hasWildcard, hasWildcard, fieldsWildcard_renamedFields fields]

theorem anyWildcard_renamedAll : ∀ ps : List Pattern,
    anyWildcard (renamedAll rename ps) = anyWildcard ps
  | [] => rfl
  | p :: ps => by
    rw [renamedAll, anyWildcard, anyWildcard, hasWildcard_renamed p, anyWildcard_renamedAll ps]

theorem fieldsWildcard_renamedFields : ∀ fs : List (String × Pattern),
    fieldsWildcard (renamedFields rename fs) = fieldsWildcard fs
  | [] => rfl
  | (_, p) :: fs => by
    rw [renamedFields, fieldsWildcard, fieldsWildcard, hasWildcard_renamed p,
      fieldsWildcard_renamedFields fs]

end

end Renamed

/-! ## Targets of plain loops -/

mutual

/-- **No plain loop of a template binds the name `_`**: it is a wildcard there. -/
theorem not_mem_bound_simplify : ∀ {p : Pattern} {d : Nat}, p.Shaped d →
    p.simplify.isIrrefutable → "_" ∉ p.simplify.bound
  | wildcard _, _, _, _ => by simp [simplify, bound]
  | binding _ n, _, h, _ => by
    rw [simplify]
    · simpa [bound] using h.2.symm
    all_goals simp
  | tuple _ items none, _, h, hp => by
    rw [simplify, isIrrefutable] at hp
    rw [simplify, bound]
    exact not_mem_boundAll_simplifyAll h.2.1 hp
  | or _ alternatives, _, h, hp => by
    rw [simplify] at hp ⊢
    cases hf : (simplifyAll alternatives).find? isCatchAll with
    | none => simp [hf, isIrrefutable] at hp
    | some q =>
      rw [Option.getD_some]
      exact not_mem_bound_of_mem h.2 (List.mem_of_find?_eq_some hf) (by simpa [hf] using hp)
  | tuple _ _ (some _), _, _, hp | literal _ _, _, _, hp | value _ _, _, _, hp
  | variant _ _ _, _, _, hp | struct _ _ _ _, _, _, hp => by
    simp [simplify, isIrrefutable] at hp

theorem not_mem_boundAll_simplifyAll : ∀ {ps : List Pattern} {d : Nat}, ShapedAll d ps →
    allIrrefutable (simplifyAll ps) → "_" ∉ boundAll (simplifyAll ps)
  | [], _, _, _ => by simp [simplifyAll, boundAll]
  | p :: ps, _, h, hp => by
    rw [simplifyAll, allIrrefutable, Bool.and_eq_true] at hp
    rw [simplifyAll, boundAll, List.mem_append, not_or]
    exact ⟨not_mem_bound_simplify h.1 hp.1, not_mem_boundAll_simplifyAll h.2 hp.2⟩

/-- None of the alternatives of a choice binds `_`, if it can be the target of a plain loop. -/
theorem not_mem_bound_of_mem : ∀ {ps : List Pattern} {d : Nat} {q : Pattern},
    ShapedAlternatives d ps → q ∈ simplifyAll ps → q.isIrrefutable → "_" ∉ q.bound
  | [], _, _, _, hq, _ => by simp [simplifyAll] at hq
  | p :: ps, d, q, h, hq, hp => by
    rw [simplifyAll, List.mem_cons] at hq
    rcases hq with rfl | hq
    · have hshaped : ∃ d, p.Shaped d := by
        have hs := h.1
        split at hs
        · exact ⟨_, hs.2⟩
        · exact ⟨_, hs⟩
      obtain ⟨d', hs⟩ := hshaped
      exact not_mem_bound_simplify hs hp
    · exact not_mem_bound_of_mem h.2 hq hp

end

/-- No name becomes `_` where it gets its name in the code. -/
theorem IsCodeOf.not_mem_bound {p case : Pattern} (h : p.IsCodeOf case)
    (hp : "_" ∉ p.simplify.bound) : "_" ∉ case.bound := by
  obtain ⟨s, k, renamed, k', hr, hc⟩ := h
  rw [(bound_resolve hc).1, List.mem_map]
  rintro ⟨n, hn, he⟩
  rcases renamed.rename_eq n with hmem | ⟨-, hn'⟩
  · obtain ⟨j, -, -, hfresh⟩ := (Gen.renames_of_renamings hr).fresh _ hmem
    have hfresh : renamed.rename n = Gen.freshName n j := hfresh
    have hown := ownName_freshName n j
    rw [← hfresh, he] at hown
    exact absurd hown (by decide)
  · rw [hn'] at he
    exact hp (he ▸ hn)

theorem IsCodeOf.isIrrefutable {p case : Pattern} (h : p.IsCodeOf case) :
    case.isIrrefutable = p.simplify.isIrrefutable := by
  obtain ⟨s, k, renamed, k', -, hc⟩ := h
  rw [resolve_ok hc, isIrrefutable_renamed]

end Pattern

namespace Stmt

/-- **The names that are assigned at a statement**: that of a function, those in the target of a
loop, and those that cases capture, which is never `_`. -/
def sets : Stmt → List String
  | define _ name _ => [name]
  | loop _ target _ _ => target.targetNames
  | select _ _ cases => (cases.flatMap fun c => c.1.bound).filter (· ≠ "_")
  | _ => []

/-- A plain loop whose target has a wildcard. -/
def LeavesOut : Stmt → Prop
  | loop _ target _ _ => target.hasWildcard
  | _ => False

/-- **What is assigned at a statement of a template** that is read are the names that its patterns
bind, and `_`, if it is a loop whose target has a wildcard. -/
theorem Formed.mem_sets {st : Stmt} (h : st.Formed (·.Shaped 0)) (n : String) :
    n ∈ st.sets ↔ n ∈ st.assigned ∧ n ≠ "_" ∨ n = "_" ∧ st.LeavesOut := by
  have hfresh : ∀ kind j, Gen.freshName kind j ≠ "_" := fun kind j he =>
    absurd (he ▸ ownName_freshName kind j : OwnName "_") (by decide)
  cases h with
  | write | interpolate | evaluate | call | branch => simp [sets, assigned, LeavesOut]
  | define =>
    simp only [sets, assigned, LeavesOut, List.mem_singleton, and_false, or_false]
    exact ⟨fun he => ⟨he, he ▸ hfresh _ _⟩, And.left⟩
  | select => simp [sets, assigned, LeavesOut]
  | items =>
    simp only [sets, assigned, LeavesOut, Pattern.targetNames, Pattern.bound, Pattern.hasWildcard,
      List.mem_singleton, Bool.false_eq_true, and_false, or_false]
    exact ⟨fun he => ⟨he, he ▸ hfresh _ _⟩, And.left⟩
  | loop hq hplain ht =>
    have htarget := ht.isIrrefutable.trans hplain
    have hbound := ht.not_mem_bound (Pattern.not_mem_bound_simplify hq hplain)
    rw [sets, assigned, LeavesOut, Pattern.mem_targetNames_iff htarget]
    exact or_congr_left ⟨fun hn => ⟨hn, fun he => hbound (he ▸ hn)⟩, And.left⟩

end Stmt

/-! ## Generated templates -/

/-- Patterns of the code have wildcards where those of the template have them, and plain loops are
made of the same patterns. -/
def Asked.wildcards : Asked where
  value _ _ _ := True
  call _ _ _ := True
  pattern _ p case := case.hasWildcard = p.hasWildcard ∧ case.isIrrefutable = p.isIrrefutable

theorem Asked.wildcards_met {env : Env} : wildcards.Met env where
  value _ _ := trivial
  call _ := trivial
  pattern _ _ hc := by
    rw [wildcards, Pattern.resolve_ok hc]
    exact ⟨Pattern.hasWildcard_renamed _, Pattern.isIrrefutable_renamed _⟩

/-- **What wildcards assign**, in every template that is read and generates. A statement assigns the
names that its patterns bind, and it assigns `_` if it is a plain loop whose target has a wildcard,
whatever `_` stands for around it; nothing else assigns `_`, neither the case of a selection, a
condition or another loop, nor what `..` stands for. The patterns of the code have wildcards where
the simplified patterns of the template have them. -/
theorem wildcards_set {name : TemplateName} {path : Path} {file : String} {text : List Char}
    {context : Context} {t : Template} {code : String}
    (hparse : Template.parse name path file text = .ok t) (h : t.module? context = .ok code) :
    ∃ stmts, t.stmts context = .ok stmts ∧ code = t.moduleText stmts ∧
      (∀ st ∈ Stmt.withinAll stmts, ∀ n,
        n ∈ st.sets ↔ n ∈ st.assigned ∧ n ≠ "_" ∨ n = "_" ∧ st.LeavesOut) ∧
      SitedBody .wildcards (t.site stmts) t.body stmts := by
  obtain ⟨stmts, hs, hc, hcode⟩ := Template.module_ok.mp h
  exact ⟨stmts, hs, hcode,
    fun st hst => (Template.formed hs (Template.shapes_of_parse hparse).shaped st hst).mem_sets,
    Template.sited Asked.wildcards_met hs hc⟩

/-- Wildcards in plain loops, in a loop through helper items, in a selection and in a condition. -/
def wildcardText : List Char :=
  ("@(xs: list)\n@for (_, x) in xs {@x}@for (_, ..) in xs {a}" ++
    "@match xs {Some(_) => {b}, _ => {c},}@if let (_, z) = xs {@z}").toList

theorem wildcards_set_page : ∃ t stmts,
    Template.parse ⟨[], "page", "html"⟩ .here "" wildcardText = .ok t ∧
      t.module? .empty = .ok (t.moduleText stmts) ∧
      (∀ st ∈ Stmt.withinAll stmts, ∀ n,
        n ∈ st.sets ↔ n ∈ st.assigned ∧ n ≠ "_" ∨ n = "_" ∧ st.LeavesOut) ∧
      SitedBody .wildcards (t.site stmts) t.body stmts := by
  obtain ⟨t, stmts, hparse, hs, hm, -⟩ := Template.exists_of_generates
    ⟨[], "page", "html"⟩ wildcardText .empty (fun _ _ => true) (by decide +kernel)
  obtain ⟨stmts', hs', -, hsets, hsited⟩ := wildcards_set hparse hm
  obtain rfl := Except.ok.inj (hs.symm.trans hs')
  exact ⟨t, stmts, hparse, hm, hsets, hsited⟩

/-- A loop that leaves out its items, before a use of the parameter `_`. -/
def discardText : List Char := "@(_: str, xs: list)\n@for _ in xs {x}@_".toList

/-- **The parameter `_` is assigned** by a loop, though no pattern of the template binds a name. -/
theorem parameter_set_by_loop : ∃ t stmts,
    Template.parse ⟨[], "page", "html"⟩ .here "" discardText = .ok t ∧
      t.module? .empty = .ok (t.moduleText stmts) ∧ "_" ∈ t.params.map Param.name ∧
      (∀ q ∈ Node.patternsAll t.body, q.bound = []) ∧ ∃ st ∈ stmts, "_" ∈ st.sets := by
  obtain ⟨t, stmts, hparse, -, hm, hcheck⟩ := Template.exists_of_generates
    ⟨[], "page", "html"⟩ discardText .empty
    (fun t stmts => decide ("_" ∈ t.params.map Param.name ∧
      (∀ q ∈ Node.patternsAll t.body, q.bound = []) ∧ ∃ st ∈ stmts, "_" ∈ st.sets))
    (by decide +kernel)
  exact ⟨t, stmts, hparse, hm, decide_eq_true_iff.mp hcheck⟩

end Stencil
