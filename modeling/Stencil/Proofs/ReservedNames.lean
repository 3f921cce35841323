import Stencil.Proofs.CallNames
import Stencil.Proofs.Sites

/-!
# Names that the generator keeps for itself

Parameters cannot have a name that starts like those of the generator. Patterns can bind one, and it
stands in the code as it is unless it is bound around the pattern already.

* `IsReserved`: the names that the generator uses for itself.
* `Gen.rename_eq_iff`: which names of a pattern stay as they are.
* `Asked.spelled`: patterns, with what is said of the reserved names that they bind in the code.
* **`reserved_names`**: which reserved names of a template stand in its code.
-/

namespace Stencil

/-- **A name that the generator uses for itself**: that of the output, of a writer or of the static
files, that of a template in other modules, or a fresh one. -/
def IsReserved (n : String) : Prop :=
  n ∈ [Names.out, Names.writeEscaped, Names.writeRaw, Names.staticsAlias] ∨
    (∃ r : TemplateRef, n = r.localName) ∨ ∃ kind j, n = Gen.freshName kind j

/-- **All reserved names start in the same way.** -/
theorem IsReserved.ownName {n : String} (h : IsReserved n) : OwnName n := by
  obtain h | ⟨r, rfl⟩ | ⟨kind, j, rfl⟩ := h
  · simp only [List.mem_cons, List.not_mem_nil, or_false] at h
    rcases h with rfl | rfl | rfl | rfl <;> decide
  · exact r.ownName_localName
  · exact ownName_freshName kind j

namespace Gen

variable {s : Scope} {n : String}

/-- A fresh name is longer than what it was made of. -/
theorem freshName_ne (kind : String) (j : Nat) : freshName kind j ≠ kind := by
  intro he
  have hlength := congrArg (List.length ∘ String.toList) he
  simp [toList_freshName] at hlength
  omega

/-- Only the given names are renamed. -/
theorem mem_of_renamings : ∀ {names : List String} {before renamed : Scope} {k k' : Nat},
    renamings s names before k = .ok (renamed, k') →
    ∀ x ∈ renamed, x.1 ∈ names ∨ x ∈ before
  | [], before, renamed, k, k', h, x, hx => by
    rw [renamings, pure_ok] at h
    cases h
    exact .inr hx
  | m :: names, before, renamed, k, k', h, x, hx => by
    rw [renamings] at h
    split at h
    · simp only [bind_ok, fresh_ok, Prod.mk.injEq] at h
      obtain ⟨_, _, ⟨rfl, rfl⟩, h⟩ := h
      rcases mem_of_renamings h x hx with hn | hx
      · exact .inl (List.mem_cons_of_mem _ hn)
      · rcases List.mem_cons.mp hx with rfl | hx
        · exact .inl List.mem_cons_self
        · exact .inr hx
    · exact (mem_of_renamings h x hx).imp_left (List.mem_cons_of_mem _)

/-- **A name stays as it is** unless it is one of those that are bound, and in scope already. -/
theorem rename_eq_iff {names : List String} {renamed : Scope} {k k' : Nat}
    (h : renamings s names [] k = .ok (renamed, k')) :
    renamed.rename n = n ↔ (n ∈ names → s.has n = false) := by
  have hrenames := renames_of_renamings h
  rcases renamed.rename_eq n with hmem | ⟨hhas, he⟩
  · obtain ⟨j, -, -, hfresh⟩ := hrenames.fresh _ hmem
    have hfresh : renamed.rename n = freshName n j := hfresh
    have hn : n ∈ names := (mem_of_renamings h _ hmem).resolve_right List.not_mem_nil
    have hs : s.has n = true :=
      has_of_renamings h (by simp [Scope.has]) n (Scope.has_iff.mpr ⟨_, hmem⟩)
    simp [hfresh, freshName_ne, hn, hs]
  · refine iff_of_true he fun hn => Bool.eq_false_iff.mpr fun hs => ?_
    rw [hrenames.covers n hn hs] at hhas
    cases hhas

end Gen

/-! ## Reserved names in patterns -/

/-- **The pattern puts a name into the code as it is**, at a place: the pattern binds it, and if it is
among the names of the first alternatives, then nothing around the place binds it. -/
def Site.Spells (site : Site) (p : Pattern) (n : String) : Prop :=
  n ∈ p.bound ∧ (n ∈ p.names → site.IsFree n)

/-- **Patterns and their reserved names**: a reserved name stands in the code of a pattern where the
pattern binds that name if and only if `Spells` says so. -/
def Asked.spelled (Spells : Site → Pattern → String → Prop) : Asked where
  value _ _ _ := True
  call _ _ _ := True
  pattern site p case :=
    ∀ n, IsReserved n → ((n, n) ∈ p.bound.zip case.bound ↔ Spells site p n)

theorem Asked.spelled_met {env : Env} : (spelled Site.Spells).Met env where
  value _ _ := trivial
  call _ := trivial
  pattern {site s renamed p case k k'} hfits hr hc n _ := by
    have hfree : s.has n = false ↔ site.IsFree n := by
      rw [Scope.has, hfits.agrees n, Option.isSome_eq_false_iff, Option.isNone_iff_eq_none,
        Site.IsFree]
    rw [(Pattern.bound_resolve hc).1, ← List.map_prod_left_eq_zip, List.mem_map, Site.Spells,
      ← hfree, ← Gen.rename_eq_iff hr]
    constructor
    · rintro ⟨m, hm, he⟩
      obtain ⟨rfl, he⟩ := Prod.mk.inj he
      exact ⟨hm, he⟩
    · rintro ⟨hn, he⟩
      exact ⟨n, hn, by rw [he]⟩

/-- **Reserved names of a template in its code**, in every template that is read and generates. No
parameter has a name that the generator uses for itself. A pattern that binds one puts it into the
code as it is, unless it is bound around the pattern, whatever the generator uses it for. -/
theorem reserved_names {name : TemplateName} {path : Path} {file : String} {text : List Char}
    {context : Context} {t : Template} {code : String}
    (hparse : Template.parse name path file text = .ok t) (h : t.module? context = .ok code) :
    (∀ p ∈ t.params, ¬ IsReserved p.name) ∧
      ∃ stmts, t.stmts context = .ok stmts ∧ code = t.moduleText stmts ∧
        SitedBody (.spelled Site.Spells) (t.site stmts) t.body stmts := by
  obtain ⟨stmts, hs, hc, hcode⟩ := Template.module_ok.mp h
  exact ⟨fun p hp hn => Template.not_ownName_of_parse hparse p hp hn.ownName, stmts, hs, hcode,
    Template.sited Asked.spelled_met hs hc⟩

/-- A reserved name that one pattern puts into the code, and another one below it does not. -/
def reservedText : List Char :=
  ("@(xs: list)\n@for _tplc_write_raw in xs " ++
    "{@match _tplc_write_raw {Some(_tplc_write_raw) => {a}, _tplc_x_1 => {b},}}").toList

theorem reserved_names_page : ∃ t stmts,
    Template.parse ⟨[], "page", "html"⟩ .here "" reservedText = .ok t ∧
      t.module? .empty = .ok (t.moduleText stmts) ∧ (∀ p ∈ t.params, ¬ IsReserved p.name) ∧
      SitedBody (.spelled Site.Spells) (t.site stmts) t.body stmts := by
  obtain ⟨t, stmts, hparse, hs, hm, -⟩ := Template.exists_of_generates
    ⟨[], "page", "html"⟩ reservedText .empty (fun _ _ => true) (by decide +kernel)
  obtain ⟨hparams, stmts', hs', -, hsited⟩ := reserved_names hparse hm
  obtain rfl := Except.ok.inj (hs.symm.trans hs')
  exact ⟨t, stmts, hparse, hm, hparams, hsited⟩

/-- A loop that binds the name of the output. -/
def outputText : List Char := "@(xs: list)\n@for _tplc_out_ in xs {x}".toList

/-- **The output is assigned** by a loop of the template, before its body writes to it. -/
theorem output_set_by_loop : ∃ t stmts,
    Template.parse ⟨[], "page", "html"⟩ .here "" outputText = .ok t ∧
      t.module? .empty = .ok (t.moduleText stmts) ∧ IsReserved Names.out ∧
      (∃ q ∈ Node.patternsAll t.body, Names.out ∈ q.bound) ∧
      ∃ st ∈ stmts, Names.out ∈ st.assigned := by
  obtain ⟨t, stmts, hparse, -, hm, hcheck⟩ := Template.exists_of_generates
    ⟨[], "page", "html"⟩ outputText .empty
    (fun t stmts => decide ((∃ q ∈ Node.patternsAll t.body, Names.out ∈ q.bound) ∧
      ∃ st ∈ stmts, Names.out ∈ st.assigned)) (by decide +kernel)
  exact ⟨t, stmts, hparse, hm, .inl List.mem_cons_self, decide_eq_true_iff.mp hcheck⟩

end Stencil
