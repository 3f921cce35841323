import Mathlib.Data.List.Nodup
import Stencil.Package.Generate
import Stencil.Proofs.Generation
import Stencil.Proofs.Sorting

/-!
# What is in a package

* `Package.mem_directories`, `Package.mem_childrenOf`: the directories of a package and those below
  them.
* `Package.generate_ok`: a package that is generated has code for each template and an index for
  each directory.
* **`Package.nodup_refs`**: no two templates of a generated package have one module.
-/

namespace Stencil

namespace Package

/-! ## Directories -/

theorem mem_starts {d ds : List String} : d ∈ starts ds ↔ d <+: ds := by
  induction ds generalizing d with
  | nil => simp [starts]
  | cons a ds ih =>
    cases d with
    | nil => simp [starts]
    | cons b d => simp [starts, ih, List.cons_prefix_cons, and_comm, eq_comm]

/-- The root is a directory, and so is all that leads to a template. -/
theorem mem_directories {names : List TemplateName} {d : List String} :
    d ∈ directories names ↔ d = [] ∨ ∃ n ∈ names, d <+: n.namespaces := by
  simp [directories, mem_sortBy, mem_dedup, mem_starts]

theorem directories_closed {names : List TemplateName} {d d' : List String}
    (hd : d ∈ directories names) (h : d' <+: d) : d' ∈ directories names := by
  rw [mem_directories] at hd ⊢
  rcases hd with rfl | ⟨n, hn, hp⟩
  · exact .inl (List.prefix_nil.mp h)
  · exact .inr ⟨n, hn, h.trans hp⟩

theorem namespaces_mem_directories {names : List TemplateName} {n : TemplateName}
    (h : n ∈ names) : n.namespaces ∈ directories names :=
  mem_directories.mpr (.inr ⟨n, h, List.prefix_rfl⟩)

theorem mem_childrenOf {dirs : List (List String)} {dir : List String} {c : String} :
    c ∈ childrenOf dirs dir ↔ ∃ d ∈ dirs, dir ++ [c] <+: d := by
  simp only [childrenOf, sortTexts, mem_sortBy, mem_dedup, List.mem_filterMap]
  constructor
  · rintro ⟨d, hd, h⟩
    split at h
    · rename_i hp
      obtain ⟨l, rfl⟩ := List.isPrefixOf_iff_prefix.mp hp
      rw [List.drop_left] at h
      obtain ⟨l, rfl⟩ := List.head?_eq_some_iff.mp h
      exact ⟨_, hd, l, by simp⟩
    · cases h
  · rintro ⟨d, hd, l, rfl⟩
    refine ⟨_, hd, ?_⟩
    have hp : dir.isPrefixOf (dir ++ [c] ++ l) := by
      rw [List.isPrefixOf_iff_prefix, List.append_assoc]
      exact List.prefix_append _ _
    rw [if_pos hp, List.append_assoc, List.drop_left]
    rfl

theorem mem_templatesIn {dir : List String} {ts : List Template} {t : Template} :
    t ∈ templatesIn dir ts ↔ t ∈ ts ∧ t.namespaces = dir := by
  simp [templatesIn, mem_sortBy]

/-! ## Generated packages -/

/-- The names of an index without a conflict are all different. -/
theorem nodup_of_conflict? {before cs : List Claim} (h : conflict? before cs = none) :
    (∀ c ∈ cs, ∀ b ∈ before, b.name ≠ c.name) ∧ (cs.map Claim.name).Nodup := by
  induction cs generalizing before with
  | nil => exact ⟨fun _ h => (by cases h), List.nodup_nil⟩
  | cons c cs ih =>
    unfold conflict? at h
    split at h
    · cases h
    · rename_i hfind
      obtain ⟨hne, hnodup⟩ := ih h
      have hc : ∀ b ∈ before, b.name ≠ c.name := fun b hb =>
        fun he => List.find?_eq_none.mp hfind b hb (beq_iff_eq.mpr he)
      refine ⟨fun c' hc' b hb => ?_, ?_⟩
      · rcases List.mem_cons.mp hc' with rfl | hc'
        · exact hc b hb
        · exact hne c' hc' b (List.mem_append_left _ hb)
      · rw [List.map_cons, List.nodup_cons]
        refine ⟨fun hm => ?_, hnodup⟩
        obtain ⟨c', hc', he⟩ := List.mem_map.mp hm
        exact hne c' hc' c (List.mem_append_right _ List.mem_cons_self) he.symm

/-- In an index, no two templates have one function. -/
theorem nodup_functions {dir children : List String} {templates : List TemplateName}
    {withStatics : Bool} {text : String}
    (h : indexText dir children templates withStatics = .ok text) :
    (templates.map TemplateName.function).Nodup := by
  unfold indexText at h
  split at h
  · cases h
  · have hnodup := (nodup_of_conflict? ‹_›).2
    rw [claims, List.map_append] at hnodup
    have hflat := hnodup.of_append_right
    have hmap : (templates.flatMap fun t => (exports t).map fun n =>
        (⟨n, t.logical⟩ : Claim)).map Claim.name = templates.flatMap exports := by
      simp [List.map_flatMap, Function.comp_def]
    rw [hmap, List.nodup_flatMap] at hflat
    have hmem : ∀ n : TemplateName, n.function ∈ exports n := by
      intro n
      unfold exports
      split <;> simp
    rw [List.Nodup, List.pairwise_map]
    refine hflat.2.imp fun {a b} hd he => ?_
    exact hd (hmem a) (he ▸ hmem b)

/-- **A package that is generated** has code for each template, and an index for each directory. -/
theorem generate_ok {package : String} {ts : List Template} {index? : Option Index}
    {fs : List File} (h : generate package ts index? = .ok fs) :
    (∀ t ∈ ts, ∃ stmts, t.stmts (contextOf ts index?) = .ok stmts ∧
      Stmt.checkAll 0 stmts = .ok ()) ∧
    ∀ dir ∈ directories (ts.map Template.toTemplateName), ∃ text,
      indexText dir (childrenOf (directories (ts.map Template.toTemplateName)) dir)
        ((templatesIn dir ts).map Template.toTemplateName) (index?.isSome && dir.isEmpty) =
          .ok text := by
  simp only [generate, Except.bind_ok] at h
  obtain ⟨statics, hstatics, texts, htexts, h⟩ := h
  have hts : (ts.zip texts).map Prod.fst = ts :=
    List.map_fst_zip (Except.mapM_ok.mp htexts).length_eq.le
  have hsome : statics.isSome = index?.isSome := by
    cases index? with
    | none => cases hstatics; rfl
    | some ix =>
      simp only [Option.mapM_some, Functor.map, Except.map] at hstatics
      split at hstatics
      · cases hstatics
      · cases hstatics; rfl
  constructor
  · intro t ht
    obtain ⟨text, -, htext⟩ := Except.mapM_ok_mem htexts ht
    obtain ⟨stmts, hs, hc, -⟩ := Template.module_ok.mp (Template.render_ok.mp htext)
    exact ⟨stmts, hs, hc⟩
  · intro dir hdir
    simp only [files, hts, hsome, Except.bind_ok] at h
    obtain ⟨indices, hindices, -⟩ := h
    obtain ⟨file, -, hfile⟩ := Except.mapM_ok_mem hindices hdir
    rw [indexFile, Except.bind_ok] at hfile
    obtain ⟨text, htext, -⟩ := hfile
    exact ⟨text, htext⟩

/-- If no index has a conflict, no two templates have one module. -/
theorem nodup_refs_of_indexText {ts : List Template} (withStatics : List String → Bool)
    (h : ∀ dir ∈ directories (ts.map Template.toTemplateName), ∃ text,
      indexText dir (childrenOf (directories (ts.map Template.toTemplateName)) dir)
        ((templatesIn dir ts).map Template.toTemplateName) (withStatics dir) = .ok text) :
    (ts.map fun t => Context.refOf t.toTemplateName).Nodup := by
  have hdir : ∀ t ∈ ts, (ts.filter (·.namespaces == t.namespaces)).Pairwise
      fun a b => a.function ≠ b.function := by
    intro t ht
    have hmem : t.namespaces ∈ directories (ts.map Template.toTemplateName) :=
      namespaces_mem_directories (List.mem_map_of_mem ht)
    obtain ⟨text, htext⟩ := h t.namespaces hmem
    have hnodup := nodup_functions htext
    rw [List.map_map, templatesIn] at hnodup
    have hperm := (perm_sortBy (fun a b => textLe a.function b.function)
      (ts.filter (·.namespaces == t.namespaces))).map
        (TemplateName.function ∘ Template.toTemplateName)
    exact List.pairwise_map.mp (hperm.nodup_iff.mp hnodup)
  rw [List.Nodup, List.pairwise_map, List.pairwise_iff_forall_sublist]
  intro a b hab he
  injection he with hns hf
  have ha : a ∈ ts := hab.subset List.mem_cons_self
  have hsub : [a, b].Sublist (ts.filter (·.namespaces == a.namespaces)) := by
    have := hab.filter (·.namespaces == a.namespaces)
    simpa [hns] using this
  exact List.pairwise_iff_forall_sublist.mp (hdir a ha) hsub hf

/-- **No two templates of a generated package have one module.** -/
theorem nodup_refs {package : String} {ts : List Template} {index? : Option Index}
    {fs : List File} (h : generate package ts index? = .ok fs) :
    (ts.map fun t => Context.refOf t.toTemplateName).Nodup :=
  nodup_refs_of_indexText (fun dir => index?.isSome && dir.isEmpty) (generate_ok h).2

end Package

end Stencil
