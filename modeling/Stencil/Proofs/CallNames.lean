import Mathlib.Data.List.Chain
import Stencil.Proofs.Hygiene
import Stencil.Proofs.Statements

/-!
# Names of called templates

A call of a known template runs the function of the module itself or a function that is imported
under a name of its own, made of the template's directories and the name of its function.

* `TemplateName.Admitted`: names as they are read off the files of templates.
* `Separable`: a name that can be told apart from its neighbours when names are joined by `__`.
* `CallsApart`: calls of different templates have different names in the code, which nothing in
  the rendering function hides.
* **`TemplateRef.localName_inj`**: separable names give each template a name of its own.
* **`calls_apart`**: the calls of a generated template are apart, if the names of templates are
  separable and nothing in the template is named like its own function.
-/

namespace Stencil

/-! ## Names of templates -/

/-- **A name that the file of a template can have**: names that can stand in generated code and do
not belong to the generator, and a known format. -/
structure TemplateName.Admitted (n : TemplateName) : Prop where
  word : ∀ w ∈ n.namespaces ++ [n.stem], isTemplateWord w
  format : n.format ∈ formats

instance (n : TemplateName) : Decidable n.Admitted :=
  decidable_of_iff ((∀ w ∈ n.namespaces ++ [n.stem], isTemplateWord w) ∧ n.format ∈ formats)
    ⟨fun h => ⟨h.1, h.2⟩, fun h => ⟨h.word, h.format⟩⟩

/-- **The names of template files are admitted.** -/
theorem TemplateName.admitted_of_ofPath {path : Path} {display : String} {n : TemplateName}
    (hfile : isTemplateFile path) (h : ofPath path display = .ok n) : n.Admitted := by
  unfold ofPath at h
  dsimp only at h
  split at h
  · cases h
  · rename_i hwords
    cases h
    refine ⟨fun w hw => ?_, ?_⟩
    · simpa using List.find?_eq_none.mp hwords w hw
    · rw [isTemplateFile, Bool.and_eq_true] at hfile
      exact List.contains_iff_mem.mp hfile.1

/-- No two underscores stand in a row in a name, not even if one more follows it. -/
def Separable (w : List Char) : Prop := (w ++ ['_']).IsChain fun a b => ¬ (a = '_' ∧ b = '_')

instance (w : List Char) : Decidable (Separable w) := by unfold Separable; infer_instance

/-- The names of a template's directories and its stem are separable. -/
def TemplateName.IsSeparable (n : TemplateName) : Prop :=
  ∀ w ∈ n.namespaces ++ [n.stem], Separable w.toList

instance (n : TemplateName) : Decidable n.IsSeparable := by
  unfold TemplateName.IsSeparable; infer_instance

/-- What follows a separable name and two underscores begins at the first two underscores. -/
theorem Separable.append_inj {a b r r' : List Char} (ha : Separable a) (hb : Separable b)
    (h : a ++ '_' :: '_' :: r = b ++ '_' :: '_' :: r') : a = b ∧ r = r' := by
  -- a name that goes on where the other one ends would start with the underscores
  have hends : ∀ {b r r' : List Char}, Separable b →
      '_' :: '_' :: r = b ++ '_' :: '_' :: r' → b = [] := by
    intro b r r' hb h
    match b with
    | [] => rfl
    | [c] =>
      cases h
      exact absurd ⟨rfl, rfl⟩ (List.isChain_cons_cons.mp hb).1
    | c :: d :: b =>
      cases h
      exact absurd ⟨rfl, rfl⟩ (List.isChain_cons_cons.mp hb).1
  induction a generalizing b with
  | nil =>
    obtain rfl := hends hb h
    cases h
    exact ⟨rfl, rfl⟩
  | cons c a ih =>
    cases b with
    | nil =>
      have := hends ha h.symm
      cases this
    | cons d b =>
      obtain ⟨rfl, htail⟩ := List.cons.inj h
      obtain ⟨rfl, hr⟩ := ih (List.IsChain.tail ha) (List.IsChain.tail hb) htail
      exact ⟨rfl, hr⟩

/-- A separable name holds no two underscores in a row. -/
theorem Separable.ne_append {a b r : List Char} (ha : Separable a) : a ≠ b ++ '_' :: '_' :: r := by
  rintro rfl
  rw [Separable, List.append_assoc, List.isChain_append] at ha
  exact (List.isChain_cons_cons.mp ha.2.1).1 ⟨rfl, rfl⟩

/-- **Separable names can be told apart after they were joined.** -/
theorem Separable.intercalate_inj : ∀ {ws ws' : List (List Char)}, ws ≠ [] → ws' ≠ [] →
    (∀ w ∈ ws, Separable w) → (∀ w ∈ ws', Separable w) →
    ['_', '_'].intercalate ws = ['_', '_'].intercalate ws' → ws = ws'
  | [], _, hn, _, _, _, _ => absurd rfl hn
  | _ :: _, [], _, hn, _, _, _ => absurd rfl hn
  | [w], [w'], _, _, _, _, h => by
    rw [List.intercalate_singleton, List.intercalate_singleton] at h
    rw [h]
  | [w], w' :: v :: ws', _, _, hw, _, h => by
    rw [List.intercalate_singleton, List.intercalate_cons_cons, List.append_assoc] at h
    exact absurd h (hw w List.mem_cons_self).ne_append
  | w :: v :: ws, [w'], _, _, _, hw', h => by
    rw [List.intercalate_singleton, List.intercalate_cons_cons, List.append_assoc] at h
    exact absurd h.symm (hw' w' List.mem_cons_self).ne_append
  | w :: v :: ws, w' :: v' :: ws', _, _, hw, hw', h => by
    rw [List.intercalate_cons_cons, List.intercalate_cons_cons, List.append_assoc,
      List.append_assoc] at h
    obtain ⟨rfl, hrest⟩ :=
      (hw w List.mem_cons_self).append_inj (hw' w' List.mem_cons_self) h
    rw [intercalate_inj (List.cons_ne_nil _ _) (List.cons_ne_nil _ _)
      (fun x hx => hw x (List.mem_cons_of_mem _ hx))
      (fun x hx => hw' x (List.mem_cons_of_mem _ hx)) hrest]

/-! ## Functions of templates -/

namespace TemplateName

variable {n : TemplateName}

theorem toList_function (n : TemplateName) :
    n.function.toList = n.stem.toList ++ '_' :: n.format.toList := by
  rw [function, String.toList_append, String.toList_append, List.append_assoc]
  rfl

/-- A format has no underscore, and something in it is no digit. -/
theorem format_chars : ∀ f ∈ formats, '_' ∉ f.toList ∧ ∃ c ∈ f.toList, c.isDigit = false := by
  have hall : formats.all fun f => !f.toList.contains '_' && f.toList.any (!·.isDigit) := by
    decide +kernel
  simpa [List.all_eq_true] using hall

/-- **The function of a separable name is separable.** -/
theorem separable_function (h : n.IsSeparable) (hf : n.format ∈ formats) :
    Separable n.function.toList := by
  have hstem : Separable n.stem.toList := h n.stem (by simp)
  have hformat : ∀ f ∈ formats, Separable f.toList ∧ (f.toList ++ ['_']).head? ≠ some '_' := by
    decide +kernel
  obtain ⟨hchain, hhead⟩ := hformat n.format hf
  have hsplit : n.function.toList ++ ['_'] =
      (n.stem.toList ++ ['_']) ++ (n.format.toList ++ ['_']) := by
    rw [toList_function]
    simp
  rw [Separable, hsplit, List.isChain_append]
  refine ⟨hstem, hchain, fun a _ b hb => ?_⟩
  rintro ⟨-, rfl⟩
  exact hhead hb

/-- **The function of a template is none of the generator's names.** -/
theorem not_ownName_function (h : n.Admitted) : ¬ OwnName n.function := by
  -- the underscore after the stem is where the generator's names have a letter
  have hpre : ∀ a b : List Char, a ≠ [] → ['_', 't', 'p', 'l', 'c'] <+: a ++ '_' :: b →
      ['_', 't', 'p', 'l', 'c'] <+: a := by
    intro a b ha hab
    rcases a with _ | ⟨_, _ | ⟨_, _ | ⟨_, _ | ⟨_, _ | ⟨_, a⟩⟩⟩⟩⟩
    · exact absurd rfl ha
    all_goals simp [List.cons_prefix_cons] at hab ⊢
    exact hab
  have hstem := h.word n.stem (by simp)
  rw [isTemplateWord, Bool.and_eq_true, Bool.and_eq_true, Bool.not_eq_true'] at hstem
  intro hown
  rw [OwnName, toList_function] at hown
  have hne : n.stem.toList ≠ [] := by
    intro hempty
    have hid := hstem.1.1
    rw [Text.isIdentifier, hempty] at hid
    cases hid
  have hin : ownPrefix.toList.isPrefixOf n.stem.toList = true :=
    List.isPrefixOf_iff_prefix.mpr (hpre _ _ hne hown)
  rw [hin] at hstem
  cases hstem.2

theorem function_ne_underscore (h : n.format ∈ formats) : n.function ≠ "_" := by
  intro he
  obtain ⟨-, c, hc, -⟩ := format_chars n.format h
  have hchars : n.stem.toList ++ '_' :: n.format.toList = ['_'] := by
    rw [← toList_function, he]
    rfl
  have hlength := congrArg List.length hchars
  rw [List.length_append, List.length_cons, List.length_singleton] at hlength
  have := List.length_pos_of_mem hc
  omega

end TemplateName

namespace TemplateRef

variable {n : TemplateName}

theorem toList_localName (r : TemplateRef) : r.localName.toList = "_tplc_".toList ++
    ['_', '_'].intercalate ((r.namespaces ++ [r.function]).map String.toList) := by
  rw [localName, String.toList_append, String.toList_intercalate]
  rfl

theorem ownName_localName (r : TemplateRef) : OwnName r.localName := by
  rw [OwnName, toList_localName]
  exact (List.prefix_append ['_', 't', 'p', 'l', 'c'] ['_']).trans (List.prefix_append _ _)

/-- **Separable names give each template a name of its own** in other modules. -/
theorem localName_inj {r r' : TemplateRef}
    (h : ∀ w ∈ r.namespaces ++ [r.function], Separable w.toList)
    (h' : ∀ w ∈ r'.namespaces ++ [r'.function], Separable w.toList)
    (he : r.localName = r'.localName) : r = r' := by
  have hjoin := congrArg String.toList he
  rw [toList_localName, toList_localName, List.append_cancel_left_eq] at hjoin
  have hmap := Separable.intercalate_inj (by simp) (by simp) (List.forall_mem_map.mpr h)
    (List.forall_mem_map.mpr h') hjoin
  have hnames := List.map_injective_iff.mpr (fun _ _ => String.toList_inj.mp) hmap
  obtain ⟨hns, hf⟩ := List.append_inj' hnames rfl
  cases r
  cases r'
  simp_all

/-- The directories and the function of a template are separable. -/
theorem separable_refOf (h : n.IsSeparable) (hf : n.format ∈ formats) :
    ∀ w ∈ (Context.refOf n).namespaces ++ [(Context.refOf n).function], Separable w.toList := by
  intro w hw
  rcases List.mem_append.mp hw with hw | hw
  · exact h w (List.mem_append_left _ hw)
  · rw [List.mem_singleton.mp hw]
    exact TemplateName.separable_function h hf

/-- The name of a template in other modules ends in an underscore and its format. -/
theorem localName_ends (n : TemplateName) :
    ∃ start, (Context.refOf n).localName.toList = start ++ '_' :: n.format.toList := by
  have hlast : ∀ (ws : List (List Char)) (w : List Char),
      w <:+ ['_', '_'].intercalate (ws ++ [w]) := by
    intro ws w
    induction ws with
    | nil =>
      simp only [List.nil_append, List.intercalate_singleton, List.suffix_refl]
    | cons v ws ih =>
      cases ws with
      | nil =>
        rw [List.singleton_append, List.intercalate_cons_cons, List.intercalate_singleton]
        exact List.suffix_append _ _
      | cons u ws =>
        rw [List.cons_append, List.cons_append, List.intercalate_cons_cons]
        exact ih.trans (List.suffix_append _ _)
  rw [toList_localName, List.map_append, List.map_singleton]
  obtain ⟨start, hs⟩ := hlast ((Context.refOf n).namespaces.map String.toList)
    (Context.refOf n).function.toList
  refine ⟨"_tplc_".toList ++ (start ++ n.stem.toList), ?_⟩
  rw [← hs]
  simp [Context.refOf, TemplateName.toList_function]

/-- **The name of a template in other modules is no fresh name**: those end in digits. -/
theorem localName_ne_freshName (hf : n.format ∈ formats) (kind : String) (j : Nat) :
    (Context.refOf n).localName ≠ Gen.freshName kind j := by
  intro h
  obtain ⟨start, hstart⟩ := localName_ends n
  obtain ⟨hunderscore, c, hc, hdigit⟩ := TemplateName.format_chars n.format hf
  have h := congrArg String.toList h
  rw [hstart, Gen.toList_freshName] at h
  have hd := Gen.eq_of_append_underscore hunderscore Nat.underscore_not_in_toDigits h
  rw [hd] at hc
  rw [Nat.isDigit_of_mem_toDigits (by decide) (by decide) hc] at hdigit
  cases hdigit

/-- The name of a template in other modules is not that of the output. -/
theorem localName_ne_out (hf : n.format ∈ formats) : (Context.refOf n).localName ≠ Names.out := by
  intro h
  obtain ⟨start, hstart⟩ := localName_ends n
  obtain ⟨hunderscore, c, hc, -⟩ := TemplateName.format_chars n.format hf
  have hout : Names.out.toList = "_tplc_out".toList ++ ['_'] := by decide
  have h := congrArg String.toList h
  rw [hstart, hout] at h
  rw [Gen.eq_of_append_underscore hunderscore List.not_mem_nil h] at hc
  cases hc

end TemplateRef

/-! ## What the code assigns -/

/-- The names that a block assigns are good or fresh. -/
def Named (Good : String → Prop) (f : Frame) : Prop :=
  ∀ n ∈ f.assigned, Good n ∨ ∃ kind j, n = Gen.freshName kind j

/-- **The code assigns good names and fresh ones**, if all patterns bind good names. -/
theorem keeps_named (Good : String → Prop) : Keeps (fun _ => Named Good) (fun _ _ _ => True)
    (fun p => ∀ n ∈ p.bound, Good n) := by
  have hcase : ∀ {s renamed : Scope} {p case : Pattern} {k k' : Nat},
      (∀ n ∈ p.bound, Good n) → Gen.renamings s p.names [] k = .ok (renamed, k') →
      p.resolve renamed.rename = .ok case →
      ∀ n ∈ case.bound, Good n ∨ ∃ kind j, n = Gen.freshName kind j := by
    intro s renamed p case k k' hgood hr hc n hn
    rw [(Pattern.bound_resolve hc).1] at hn
    obtain ⟨m, hm, rfl⟩ := List.mem_map.mp hn
    rcases renamed.rename_eq m with hren | ⟨-, he⟩
    · obtain ⟨j, -, -, he⟩ := (Gen.renames_of_renamings hr).fresh _ hren
      exact .inr ⟨m, j, he⟩
    · rw [he]
      exact .inl (hgood m hm)
  refine ⟨fun _ _ => trivial, fun _ hgood hr hc _ => ⟨hcase hgood hr hc, trivial⟩,
    fun _ hgood hr hc _ => ⟨fun n hn => ?_, trivial⟩, fun _ => ⟨fun n hn => ?_, trivial⟩⟩
  · rcases List.mem_append.mp hn with hn | hn
    · exact .inr ⟨_, _, List.mem_singleton.mp hn⟩
    · exact hcase hgood hr hc n hn
  · exact .inr ⟨_, _, List.mem_singleton.mp hn⟩

/-! ## Calls -/

/-- The known template that a call in the module of a template runs. -/
def Target.ref? (self : TemplateName) : Target → Option TemplateRef
  | own _ => some (Context.refOf self)
  | template r => some r
  | bound _ | other _ => none

/-- What a statement calls, if it is a call. -/
def Stmt.target? : Stmt → Option Target
  | call _ target _ => some target
  | _ => none

/-- **What the calls in statements run**, at any depth. -/
def Stmt.targets (stmts : List Stmt) : List Target := (withinAll stmts).filterMap target?

/-- **The local names of a rendering function**: the output, its parameters, the name that stands
for what is left out, and all that is assigned in it. -/
def Template.localNames (t : Template) (stmts : List Stmt) : List String :=
  Names.out :: "_" :: t.params.map Param.name ++ (Stmt.withinAll stmts).flatMap Stmt.assigned

/-- **Calls of known templates run these templates**: calls of different ones have different names,
and these are no local names. -/
structure CallsApart (t : Template) (stmts : List Stmt) : Prop where
  different : ∀ a ∈ Stmt.targets stmts, ∀ b ∈ Stmt.targets stmts, ∀ r r',
    a.ref? t.toTemplateName = some r → b.ref? t.toTemplateName = some r' → r ≠ r' →
    a.code ≠ b.code
  visible : ∀ a ∈ Stmt.targets stmts, ∀ r, a.ref? t.toTemplateName = some r →
    a.code ∉ t.localNames stmts

/-- A call of the module's own function names it. -/
theorem Context.function_of_target {c : Context} {self : TemplateName} {s : Scope}
    {path : List String} {f : String} (h : c.target self s path = .own f) : f = self.function := by
  unfold target at h
  split at h
  · cases h
  · split at h
    · split at h
      · rename_i hself
        cases h
        rw [hself]
        rfl
      · cases h
    · cases h

section Apart

variable {t : Template} {names : List TemplateName} {statics : Option (List String)}
variable {stmts : List Stmt}

/-- **What a call of a known template runs** is the module's own function or that of another
template of the context. -/
theorem Stmt.target_cases {P : List Frame → Frame → Prop} {self : TemplateName}
    {path : List Frame} {s : Scope} {ns : List Node}
    (hs : ScopedBody P ⟨self, .ofNames names statics⟩ path s ns stmts) {a : Target}
    (ha : a ∈ targets stmts) {r : TemplateRef} (hr : a.ref? self = some r) :
    a = .own self.function ∧ r = Context.refOf self ∨
      a = .template r ∧ r ≠ Context.refOf self ∧ ∃ n ∈ names, r = Context.refOf n := by
  obtain ⟨st, hst, htarget⟩ := List.mem_filterMap.mp ha
  cases st with
  | call p target args =>
    cases htarget
    obtain ⟨s', path', rfl⟩ := (hs.made hst).target p _ args rfl
    cases htarget : Context.target (.ofNames names statics) self s' path' with
    | own f =>
      rw [htarget] at hr
      cases hr
      exact .inl ⟨by rw [Context.function_of_target htarget], rfl⟩
    | template r' =>
      rw [htarget] at hr
      cases hr
      obtain ⟨⟨key, hkey⟩, hne⟩ := Context.mem_of_target htarget
      obtain ⟨n, hn, he⟩ := Context.mem_ofNames hkey
      exact .inr ⟨rfl, hne, n, hn, he⟩
    | bound _ => rw [htarget] at hr; cases hr
    | other _ => rw [htarget] at hr; cases hr
  | _ => cases htarget

section Local

variable {env : Env} {path : List Frame} {s : Scope} {ns : List Node}

/-- The local names of a rendering function whose patterns bind good names. -/
theorem Template.mem_localNames {Good : String → Prop}
    (hs : ScopedBody (fun _ => Named Good) env path s ns stmts) {n : String}
    (hn : n ∈ t.localNames stmts) :
    n = Names.out ∨ n = "_" ∨ (∃ p ∈ t.params, n = p.name) ∨ Good n ∨
      ∃ kind j, n = Gen.freshName kind j := by
  rw [localNames, List.mem_append, List.mem_cons, List.mem_cons, List.mem_map,
    List.mem_flatMap] at hn
  rcases hn with (h | h | ⟨p, hp, h⟩) | ⟨st, hst, hassigned⟩
  · exact .inl h
  · exact .inr (.inl h)
  · exact .inr (.inr (.inl ⟨p, hp, h.symm⟩))
  · obtain ⟨_, f, hf, hmem⟩ := (hs.made hst).assigned n hassigned
    exact .inr (.inr (.inr (hf n hmem)))

/-- The function of a template is no local name of it, if nothing in it is named like it. -/
theorem Template.function_not_local
    (hs : ScopedBody (fun _ => Named (· ≠ t.function)) env path s ns stmts)
    (hadmitted : t.Admitted) (hparams : ∀ p ∈ t.params, p.name ≠ t.function) :
    t.function ∉ t.localNames stmts := by
  intro hmem
  have hown := TemplateName.not_ownName_function hadmitted
  rcases t.mem_localNames hs hmem with he | he | ⟨p, hp, he⟩ | he | ⟨kind, j, he⟩
  · rw [he] at hown
    exact hown (by decide)
  · exact TemplateName.function_ne_underscore hadmitted.format he
  · exact hparams p hp he.symm
  · exact he rfl
  · rw [he] at hown
    exact hown (ownName_freshName kind j)

/-- The name of another template is no local name, if nothing is named like a name of the
generator. -/
theorem Template.localName_not_local
    (hs : ScopedBody (fun _ => Named (¬ OwnName ·)) env path s ns stmts)
    (hparams : ∀ p ∈ t.params, ¬ OwnName p.name) {n : TemplateName} (hf : n.format ∈ formats) :
    (Context.refOf n).localName ∉ t.localNames stmts := by
  intro hmem
  have hown := (Context.refOf n).ownName_localName
  rcases t.mem_localNames hs hmem with he | he | ⟨p, hp, he⟩ | he | ⟨kind, j, he⟩
  · exact TemplateRef.localName_ne_out hf he
  · rw [he] at hown
    exact absurd hown (by decide)
  · rw [he] at hown
    exact hparams p hp hown
  · exact he hown
  · exact TemplateRef.localName_ne_freshName hf kind j he

end Local

/-- **Calls of known templates run these templates**, in every template that generates, if the
names of the templates are separable and nothing in the template is named like its function: no
parameter, and nothing that a pattern binds, which must not be one of the generator's names either.
-/
theorem calls_apart {name : TemplateName} {path : Path} {file : String} {text : List Char}
    {code : String} (hparse : Template.parse name path file text = .ok t)
    (hadmitted : ∀ n ∈ t.toTemplateName :: names, n.Admitted)
    (hseparable : ∀ n ∈ names, n.IsSeparable) (hparams : ∀ p ∈ t.params, p.name ≠ t.function)
    (hbound : ∀ q ∈ Node.patternsAll t.body, ∀ n ∈ q.bound, ¬ OwnName n ∧ n ≠ t.function)
    (h : t.module? (.ofNames names statics) = .ok code) :
    ∃ stmts, t.stmts (.ofNames names statics) = .ok stmts ∧ code = t.moduleText stmts ∧
      CallsApart t stmts := by
  obtain ⟨stmts, hstmts, hc, hcode⟩ := Template.module_ok.mp h
  obtain ⟨k, hb⟩ := Template.stmts_ok.mp hstmts
  have hs : ∀ Good : String → Prop, (∀ q ∈ Node.patternsAll t.body, ∀ n ∈ q.bound, Good n) →
      ScopedBody (fun _ => Named Good) ⟨t.toTemplateName, .ofNames names statics⟩ []
        (.ofParams t.params) t.body stmts := fun Good hgood =>
    Gen.body_scoped (keeps_named Good) (fun q hq n hn => hgood q hq n (q.bound_simplify hn))
      trivial hb hc
  have hsOwn := hs (¬ OwnName ·) fun q hq n hn => (hbound q hq n hn).1
  have hsFunction := hs (· ≠ t.function) fun q hq n hn => (hbound q hq n hn).2
  have hother : ∀ n ∈ names, n.Admitted := fun n hn => hadmitted n (List.mem_cons_of_mem _ hn)
  have hself := hadmitted _ List.mem_cons_self
  have hne : ∀ r : TemplateRef, t.function ≠ r.localName := fun r he =>
    TemplateName.not_ownName_function hself (he ▸ r.ownName_localName)
  refine ⟨stmts, hstmts, hcode, ?_, ?_⟩
  · intro a ha b hb r r' hr hr' hdiff
    rcases Stmt.target_cases hsOwn ha hr with ⟨rfl, rfl⟩ | ⟨rfl, -, n, hn, rfl⟩ <;>
      rcases Stmt.target_cases hsOwn hb hr' with ⟨rfl, rfl⟩ | ⟨rfl, -, m, hm, rfl⟩
    · exact absurd rfl hdiff
    · exact hne _
    · exact (hne _).symm
    · exact fun he => hdiff (TemplateRef.localName_inj
        (TemplateRef.separable_refOf (hseparable n hn) (hother n hn).format)
        (TemplateRef.separable_refOf (hseparable m hm) (hother m hm).format) he)
  · intro a ha r hr
    rcases Stmt.target_cases hsOwn ha hr with ⟨rfl, rfl⟩ | ⟨rfl, -, n, hn, rfl⟩
    · exact t.function_not_local hsFunction hself hparams
    · exact t.localName_not_local hsOwn (Template.not_ownName_of_parse hparse) (hother n hn).format

end Apart

/-- A page that calls itself and two templates whose names differ by one underscore. -/
def callerText : List Char :=
  "@(x: list)\n@:page(x)@:a_b()@for (y, _) in x {@:a::b(y)}".toList

/-- The names of the page and of the templates that it calls. -/
def callerNames : List TemplateName :=
  [⟨[], "page", "html"⟩, ⟨[], "a_b", "html"⟩, ⟨["a"], "b", "html"⟩]

theorem calls_apart_caller : ∃ t code,
    Template.parse ⟨[], "page", "html"⟩ .here "" callerText = .ok t ∧
      (∀ n ∈ t.toTemplateName :: callerNames, n.Admitted) ∧
      (∀ n ∈ callerNames, n.IsSeparable) ∧ (∀ p ∈ t.params, p.name ≠ t.function) ∧
      (∀ q ∈ Node.patternsAll t.body, ∀ n ∈ q.bound, ¬ OwnName n ∧ n ≠ t.function) ∧
      t.module? (.ofNames callerNames none) = .ok code ∧
      ∃ stmts, t.stmts (.ofNames callerNames none) = .ok stmts ∧ code = t.moduleText stmts ∧
        CallsApart t stmts := by
  obtain ⟨t, stmts, hparse, -, hm, hcheck⟩ := Template.exists_of_generates
    ⟨[], "page", "html"⟩ callerText (.ofNames callerNames none)
    (fun t _ => decide ((∀ n ∈ t.toTemplateName :: callerNames, n.Admitted) ∧
      (∀ n ∈ callerNames, n.IsSeparable) ∧ (∀ p ∈ t.params, p.name ≠ t.function) ∧
      ∀ q ∈ Node.patternsAll t.body, ∀ n ∈ q.bound, ¬ OwnName n ∧ n ≠ t.function))
    (by decide +kernel)
  obtain ⟨hadmitted, hseparable, hparams, hbound⟩ := of_decide_eq_true hcheck
  exact ⟨t, _, hparse, hadmitted, hseparable, hparams, hbound, hm,
    calls_apart hparse hadmitted hseparable hparams hbound hm⟩

/-! ## Calls that are not apart -/

/-- Two templates whose names are the same when they are joined. -/
def clashText : List Char := "@()\n@:a__b()@:a::b()".toList

/-- The names of a page and of two templates that it calls. -/
def clashNames : List TemplateName :=
  [⟨[], "page", "html"⟩, ⟨[], "a__b", "html"⟩, ⟨["a"], "b", "html"⟩]

/-- **Two templates may share a name in the code**: a directory and a stem that are joined by two
underscores, and a stem that holds them. -/
theorem calls_clash : ∃ t stmts,
    Template.parse ⟨[], "page", "html"⟩ .here "" clashText = .ok t ∧
      (∀ n ∈ t.toTemplateName :: clashNames, n.Admitted) ∧
      t.stmts (.ofNames clashNames none) = .ok stmts ∧
      t.module? (.ofNames clashNames none) = .ok (t.moduleText stmts) ∧ ¬ CallsApart t stmts := by
  obtain ⟨t, stmts, hparse, hs, hm, hcheck⟩ := Template.exists_of_generates
    ⟨[], "page", "html"⟩ clashText (.ofNames clashNames none)
    (fun t stmts => decide (∀ n ∈ t.toTemplateName :: clashNames, n.Admitted) &&
      (Stmt.targets stmts).any fun a => (Stmt.targets stmts).any fun b =>
        (a.ref? t.toTemplateName).isSome && (b.ref? t.toTemplateName).isSome &&
          a.ref? t.toTemplateName != b.ref? t.toTemplateName && a.code == b.code)
    (by decide +kernel)
  simp only [Bool.and_eq_true, decide_eq_true_iff, List.any_eq_true, bne_iff_ne,
    beq_iff_eq] at hcheck
  obtain ⟨hadmitted, a, ha, b, hb, ⟨⟨hra, hrb⟩, hne⟩, hcode⟩ := hcheck
  obtain ⟨r, hr⟩ := Option.isSome_iff_exists.mp hra
  obtain ⟨r', hr'⟩ := Option.isSome_iff_exists.mp hrb
  refine ⟨t, stmts, hparse, hadmitted, hs, hm, fun hapart => ?_⟩
  exact hapart.different a ha b hb r r' hr hr' (fun h => hne (by rw [hr, hr', h])) hcode

/-- A page that calls itself and has a parameter of the same name. -/
def hiddenSelfText : List Char := "@(page_html: str)\n@:page()".toList

/-- **A parameter may hide the function that a call runs.** -/
theorem call_hidden_by_parameter : ∃ t stmts,
    Template.parse ⟨[], "page", "html"⟩ .here "" hiddenSelfText = .ok t ∧ t.Admitted ∧
      t.stmts (.ofNames [⟨[], "page", "html"⟩] none) = .ok stmts ∧
      t.module? (.ofNames [⟨[], "page", "html"⟩] none) = .ok (t.moduleText stmts) ∧
      ¬ CallsApart t stmts := by
  obtain ⟨t, stmts, hparse, hs, hm, hcheck⟩ := Template.exists_of_generates
    ⟨[], "page", "html"⟩ hiddenSelfText (.ofNames [⟨[], "page", "html"⟩] none)
    (fun t stmts => decide t.Admitted && (Stmt.targets stmts).any fun a =>
      (a.ref? t.toTemplateName).isSome && (t.localNames stmts).contains a.code)
    (by decide +kernel)
  simp only [Bool.and_eq_true, decide_eq_true_iff, List.any_eq_true,
    List.contains_iff_mem] at hcheck
  obtain ⟨hadmitted, a, ha, hra, hcode⟩ := hcheck
  obtain ⟨r, hr⟩ := Option.isSome_iff_exists.mp hra
  exact ⟨t, stmts, hparse, hadmitted, hs, hm, fun hapart => hapart.visible a ha r hr hcode⟩

end Stencil
