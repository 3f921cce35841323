import Stencil.Proofs.AlikeContexts
import Stencil.Proofs.ClosedPackage

/-!
# The order of templates

A package does not show in which order its templates were given. Their context knows the same, each
of them has the same module, and the files are sorted by paths, no two of which have one text.

* `TemplateName.IsOfFile`: the name of the template in some file.
* `Path.eq_of_toString_relative`: places below a path whose texts are equal are equal.
* `Package.compile`: the files of a package of templates.
* **`Package.compile_perm`**: templates in another order give the same files, or fail as well.
-/

namespace Stencil

/-! ## Texts of paths -/

namespace Path

theorem not_mem_of_mem_cut {mark : Char} {cs l : List Char} (h : l ∈ cut mark cs) : mark ∉ l := by
  induction cs generalizing l with
  | nil =>
    rw [List.mem_singleton.mp h]
    exact List.not_mem_nil
  | cons c cs ih =>
    unfold cut at h
    split at h
    · rcases List.mem_cons.mp h with rfl | h
      · exact List.not_mem_nil
      · exact ih h
    · rename_i hc
      split at h
      · rw [List.mem_singleton.mp h, List.mem_singleton]
        exact Ne.symm hc
      · rename_i l' ls he
        rcases List.mem_cons.mp h with rfl | h
        · rw [List.mem_cons, not_or]
          exact ⟨Ne.symm hc, ih (he ▸ List.mem_cons_self)⟩
        · exact ih (he ▸ List.mem_cons_of_mem _ h)

/-- No part of a path that is read holds a slash. -/
theorem not_mem_parse {s p : String} (h : p ∈ (parse s).parts) : '/' ∉ p.toList := by
  obtain ⟨l, hl, rfl⟩ := List.mem_map.mp (List.mem_filter.mp h).1
  rw [String.toList_ofList]
  exact not_mem_of_mem_cut hl

/-- **Places below a path whose texts are equal are equal**, as long as no part holds a slash. -/
theorem eq_of_toString_relative {root : Path} {l l' : List String}
    (hroot : ∀ p ∈ root.parts, '/' ∉ p.toList) (hl : ∀ p ∈ l, '/' ∉ p.toList)
    (hl' : ∀ p ∈ l', '/' ∉ p.toList) (hne : l ≠ []) (hne' : l' ≠ [])
    (h : (root / .relative l : Path).toString = (root / .relative l' : Path).toString) :
    l = l' := by
  have htext : ∀ l : List String, l ≠ [] → (root / .relative l : Path).toString =
      root.root ++ "/".intercalate (root.parts ++ l) := by
    intro l hne
    rw [join_relative, Path.toString, if_neg (by simp [hne])]
  have hparts : ∀ l : List String, (∀ p ∈ l, '/' ∉ p.toList) → l ≠ [] →
      ("/".intercalate (root.parts ++ l)).toList.splitOn '/' =
        (root.parts ++ l).map String.toList := by
    intro l hl hne
    refine ImportLine.splitOn_of_eq (String.toList_intercalate ..) ?_ (by simp [hne])
    rw [List.forall_mem_map, List.forall_mem_append]
    exact ⟨hroot, hl⟩
  rw [htext l hne, htext l' hne'] at h
  have hmap := congrArg (fun s => s.toList.splitOn '/') ((String.append_right_inj _).mp h)
  simp only [hparts l hl hne, hparts l' hl' hne'] at hmap
  have hinj : Function.Injective String.toList := fun _ _ => String.toList_inj.mp
  exact List.append_cancel_left (List.map_injective_iff.mpr hinj hmap)

end Path

/-! ## Names of templates -/

namespace TemplateName

/-- **The name of the template in some file**, whatever its suffix. -/
def IsOfFile (n : TemplateName) : Prop := ∃ file display, ofPath (.parse file) display = .ok n

theorem mem_of_mem_suffix {name : String} {c : Char} (h : c ∈ (Path.suffixOf name).toList) :
    c = '.' ∨ c ∈ name.toList := by
  unfold Path.suffixOf at h
  split at h
  · rename_i before after hsplit
    split at h
    · cases h
    · rw [String.toList_ofList] at h
      rcases List.mem_cons.mp h with rfl | h
      · exact .inl rfl
      · unfold Path.splitLastPoint at hsplit
        dsimp only at hsplit
        split at hsplit
        · cases hsplit
        · cases hsplit
          rw [List.mem_reverse] at h
          exact .inr (List.mem_reverse.mp ((List.takeWhile_sublist _).subset h))
  · cases h

/-- **The directories and the module of a template have no slash in their names.** -/
theorem IsOfFile.not_mem {n : TemplateName} (h : n.IsOfFile) :
    ∀ w ∈ n.namespaces ++ [n.module], '/' ∉ w.toList := by
  obtain ⟨file, display, h⟩ := h
  unfold ofPath at h
  dsimp only at h
  split at h
  · cases h
  rename_i hwords
  cases h
  have hword : ∀ w ∈ (Path.parse file).parent.components.map underscored ++ [underscored
      (String.ofList ((Path.parse file).name.toList.take (if (Path.parse file).suffix = "" then 0
        else (Path.parse file).name.length - (Path.parse file).suffix.length)))],
      '/' ∉ w.toList := by
    intro w hw hslash
    have hw : isTemplateWord w = true := by simpa using List.find?_eq_none.mp hwords w hw
    simp only [isTemplateWord, Bool.and_eq_true] at hw
    exact ImportLine.not_mem_of_isIdentifier hw.1.1 (by decide) hslash
  have hname : '/' ∉ (Path.parse file).name.toList := by
    rw [Path.name, List.getLastD_eq_getLast?]
    cases hlast : (Path.parse file).parts.getLast? with
    | none => decide
    | some p => exact Path.not_mem_parse (List.mem_of_getLast? hlast)
  intro w hw
  rcases List.mem_append.mp hw with hw | hw
  · exact hword w (List.mem_append_left _ hw)
  · rw [List.mem_singleton.mp hw, module, function]
    simp only [String.toList_append, String.toList_ofList, List.mem_append, not_or]
    refine ⟨by decide, ⟨hword _ (List.mem_append_right _ (List.mem_singleton_self _)), by decide⟩,
      fun hslash => ?_⟩
    rcases mem_of_mem_suffix (List.mem_of_mem_drop hslash) with hc | hc
    · exact absurd hc (by decide)
    · exact hname hc

end TemplateName

namespace Package

/-! ## Files -/

/-- **The files of a package of templates**, all of which are generated in the context of their
names. -/
def compile (package : String) (names? : Option (List String))
    (statics : Option (String × List Path)) (ts : List Template) : Except Error (List File) := do
  let texts ← ts.mapM (Template.render (.ofNames (ts.map Template.toTemplateName) names?))
  files package (ts.zip texts) statics

/-- A package with an index of static files is compiled with the names of the index. -/
theorem generate_eq_compile (package : String) (ts : List Template) (index? : Option Index) :
    generate package ts index? = index?.mapM staticsModule >>= fun statics =>
      compile package (index?.map fun ix => ix.names.map Prod.fst) statics ts := rfl

section Files

variable {package : String} {context : Context} {ts ts' : List Template} {texts : List String}
variable {statics : Option (String × List Path)} {fs : List File}

/-- **No two files of a package have one text as their path.** -/
theorem eq_of_toString_path (htexts : ts.mapM (Template.render context) = .ok texts)
    (hfs : files package (ts.zip texts) statics = .ok fs)
    (hnames : ∀ t ∈ ts, t.toTemplateName.IsOfFile) :
    ∀ f ∈ fs, ∀ g ∈ fs, f.path.toString = g.path.toString → f = g := by
  obtain ⟨fs', hperm, hmodules⟩ := files_modules htexts hfs
  have hplace : ∀ f ∈ fs, ∃ l, l ≠ [] ∧ (∀ p ∈ l, '/' ∉ p.toList) ∧
      f.path = Path.parse package / .relative l := by
    intro f hf
    obtain ⟨m, hm, hpath, -⟩ := exists_left_of_forall₂ hmodules (hperm.mem_iff.mp hf)
    refine ⟨_, List.append_ne_nil_of_right_ne_nil _ (List.cons_ne_nil _ _), ?_, hpath⟩
    have hslash := forall_mem_fileModules (P := fun w => '/' ∉ w.toList)
      (List.forall_mem_map.mpr fun t ht => (hnames t ht).not_mem) (by decide) hm
    rw [List.forall_mem_append] at hslash ⊢
    refine ⟨hslash.1, List.forall_mem_singleton.mpr fun hc => ?_⟩
    rw [String.toList_append, List.mem_append] at hc
    exact hc.elim (List.forall_mem_singleton.mp hslash.2) (by decide)
  intro f hf g hg h
  obtain ⟨l, hne, hl, hpath⟩ := hplace f hf
  obtain ⟨l', hne', hl', hpath'⟩ := hplace g hg
  refine List.inj_on_of_nodup_map (nodup_paths htexts hfs) hf hg ?_
  rw [hpath, hpath'] at h ⊢
  rw [Path.eq_of_toString_relative (fun p => Path.not_mem_parse) hl hl' hne hne' h]

theorem directories_perm {names names' : List TemplateName} (h : names.Perm names') :
    directories names = directories names' := by
  refine sortBy_eq_of_perm sortsBy_textsLe (perm_dedup fun d => ?_)
    fun _ _ _ _ => textsLe_antisymm
  simp only [List.mem_cons, List.mem_flatMap, h.mem_iff]

/-- The templates of a directory come in one order, as no two of them have one function. -/
theorem templatesIn_perm (hperm : ts.Perm ts')
    (hrefs : (ts.map fun t => Context.refOf t.toTemplateName).Nodup) (dir : List String) :
    templatesIn dir ts = templatesIn dir ts' := by
  refine sortBy_eq_of_perm (sortsBy_textLe fun t : Template => t.function) (hperm.filter _) ?_
  intro a ha b hb hab hba
  obtain ⟨ha, hdir⟩ := List.mem_filter.mp ha
  obtain ⟨hb, hdir'⟩ := List.mem_filter.mp hb
  refine List.inj_on_of_nodup_map hrefs ha hb ?_
  rw [beq_iff_eq] at hdir hdir'
  simp only [Context.refOf, hdir, hdir', textLe_antisymm hab hba]

/-- **Templates in another order, with the same modules, give the same files.** -/
theorem files_perm {texts' : List String} (hperm : ts.Perm ts')
    (hzip : (ts.zip texts).Perm (ts'.zip texts'))
    (hnames : ∀ t ∈ ts, t.toTemplateName.IsOfFile)
    (htexts : ts.mapM (Template.render context) = .ok texts)
    (htexts' : ts'.mapM (Template.render context) = .ok texts')
    (hfs : files package (ts.zip texts) statics = .ok fs) :
    files package (ts'.zip texts') statics = .ok fs := by
  have hts : (ts.zip texts).map Prod.fst = ts :=
    List.map_fst_zip (Except.mapM_ok.mp htexts).length_eq.le
  have hts' : (ts'.zip texts').map Prod.fst = ts' :=
    List.map_fst_zip (Except.mapM_ok.mp htexts').length_eq.le
  have hdirs := directories_perm (hperm.map Template.toTemplateName)
  have hindex : ∀ root dirs withStatics,
      indexFile root ts' dirs withStatics = indexFile root ts dirs withStatics := by
    intro root dirs withStatics
    funext dir
    rw [indexFile, indexFile, templatesIn_perm hperm (nodup_refs_of_files htexts hfs)]
  have hunique := eq_of_toString_path htexts hfs hnames
  simp only [files, hts, hts', hindex, ← hdirs, Except.bind_ok] at hfs ⊢
  obtain ⟨indices, hindices, hfs⟩ := hfs
  refine ⟨indices, hindices, ?_⟩
  rw [Except.pure_ok] at hfs ⊢
  rw [← hfs]
  refine (sortBy_eq_of_perm (sortsBy_textLe fun f : File => f.path.toString) ?_ ?_).symm
  · exact ((hzip.map _).append_left _).append_right _
  · intro f hf g hg hab hba
    rw [← hfs] at hunique
    exact hunique f ((mem_sortBy _).mpr hf) g ((mem_sortBy _).mpr hg) (textLe_antisymm hab hba)

end Files

theorem mapM_ok_map {ε α β : Type} {g : α → Except ε β} {f : α → β} {l : List α}
    (h : ∀ a ∈ l, g a = .ok (f a)) : l.mapM g = .ok (l.map f) := by
  rw [Except.mapM_ok, List.forall₂_map_right_iff, List.forall₂_same]
  exact h

/-- The files of a package of templates are those of the templates in another order. -/
theorem compile_of_perm {package : String} {names? : Option (List String)}
    {statics : Option (String × List Path)} {ts ts' : List Template} {fs : List File}
    (hperm : ts.Perm ts') (hnames : ∀ t ∈ ts, t.toTemplateName.IsOfFile)
    (h : compile package names? statics ts = .ok fs) :
    compile package names? statics ts' = .ok fs := by
  obtain ⟨texts, htexts, hfs⟩ := Except.bind_ok.mp h
  have halike := Context.alike_of_perm (hperm.map Template.toTemplateName) names?
  have hrender := funext (Template.render_congr halike)
  -- each template has the same text in both orders
  let text (t : Template) : String :=
    (t.render (.ofNames (ts.map Template.toTemplateName) names?)).toOption.getD ""
  have htext : ∀ t ∈ ts,
      t.render (.ofNames (ts.map Template.toTemplateName) names?) = .ok (text t) := by
    intro t ht
    obtain ⟨s, -, hs⟩ := Except.mapM_ok_mem htexts ht
    simp only [text, hs]
    rfl
  have htexts' : ts'.mapM (Template.render (.ofNames (ts.map Template.toTemplateName) names?)) =
      .ok (ts'.map text) := mapM_ok_map fun t ht => htext t (hperm.mem_iff.mpr ht)
  have hmap := mapM_ok_map htext
  obtain rfl : texts = ts.map text := Except.ok.inj (htexts.symm.trans hmap)
  refine Except.bind_ok.mpr ⟨ts'.map text, hrender ▸ htexts', ?_⟩
  refine files_perm hperm ?_ hnames htexts htexts' hfs
  have hzip : ∀ l : List Template, l.zip (l.map text) = l.map fun t => (t, text t) := fun l => by
    simpa using List.zip_map' (f := (id : Template → Template)) (g := text) (l := l)
  rw [hzip, hzip]
  exact hperm.map _

/-- **The order of templates does not matter**: a package of templates whose names are those of
files has the same files in whatever order the templates are given, or fails in every order.
Templates of one name fail in every order. The context knows the same in every order, also where the
stem of a page is the function of another template. -/
theorem compile_perm {ts ts' : List Template} (hperm : ts.Perm ts')
    (hnames : ∀ t ∈ ts, t.toTemplateName.IsOfFile) (package : String)
    (names? : Option (List String)) (statics : Option (String × List Path)) :
    (compile package names? statics ts).toOption = (compile package names? statics ts').toOption ∧
    ∀ key, (Context.ofNames (ts.map Template.toTemplateName) names?).templates.lookup key =
      (Context.ofNames (ts'.map Template.toTemplateName) names?).templates.lookup key := by
  refine ⟨?_, (Context.alike_of_perm (hperm.map _) names?).templates⟩
  have hnames' : ∀ t ∈ ts', t.toTemplateName.IsOfFile :=
    fun t ht => hnames t (hperm.mem_iff.mpr ht)
  cases h : compile package names? statics ts with
  | ok fs => rw [compile_of_perm hperm hnames h]
  | error e =>
    cases h' : compile package names? statics ts' with
    | ok fs =>
      rw [compile_of_perm hperm.symm hnames' h'] at h
      cases h
    | error e' => rfl

/-- A page and a template that calls it, in both orders. -/
theorem compile_perm_nestedTexts : ∃ ts fs, readAll nestedTexts = .ok ts ∧ ts.Perm ts.reverse ∧
    (∀ t ∈ ts, t.toTemplateName.IsOfFile) ∧
    compile "pkg" (some ["logo"]) (some ("", [])) ts = .ok fs ∧
    (compile "pkg" (some ["logo"]) (some ("", [])) ts.reverse).toOption = some fs := by
  obtain ⟨ts, texts, fs, hts, htexts, hfs, hcheck⟩ := exists_of_generatesFiles nestedTexts
    (some ["logo"]) (some ("", []))
    (fun ts _ => ts.map Template.toTemplateName = nestedTexts.map Prod.fst) (by decide +kernel)
  have hcompile : compile "pkg" (some ["logo"]) (some ("", [])) ts = .ok fs :=
    Except.bind_ok.mpr ⟨texts, htexts, hfs⟩
  have hfiles : ∀ n ∈ nestedTexts.map Prod.fst, n.IsOfFile := by
    simp only [nestedTexts, List.map_cons, List.map_nil, List.forall_mem_cons]
    exact ⟨⟨"item.html", "", by decide +kernel⟩, ⟨"a/b/page.xml", "", by decide +kernel⟩,
      List.forall_mem_nil _⟩
  have hnames : ∀ t ∈ ts, t.toTemplateName.IsOfFile := fun t ht =>
    hfiles _ (of_decide_eq_true hcheck ▸ List.mem_map_of_mem ht)
  have hperm : ts.Perm ts.reverse := (List.reverse_perm ts).symm
  refine ⟨ts, fs, hts, hperm, hnames, hcompile, ?_⟩
  rw [← (compile_perm hperm hnames "pkg" (some ["logo"]) (some ("", []))).1, hcompile]
  rfl

end Package

end Stencil
