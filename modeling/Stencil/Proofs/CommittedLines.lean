import Stencil.Proofs.OneLine
import Stencil.Proofs.StaticNames

/-!
# Lines of generated functions

Each line of a rendering function is one line: whatever a template writes into the code holds no
character that may break a line.

* `Node.Named`: what the reader ensures of the names in a node.
* `TemplateName.Inline`, `Context.Inline`: the names of templates hold no such character.
* `Stmt.Inline`: all parts of a statement are on one line.
* **`Gen.body_inline`**: so are those of the statements that are generated for a body.
* **`Template.oneLine_functionLines`**: the lines of a rendering function are lines.
-/

namespace Stencil

open Text Expr

/-! ## Names in a body -/

/-- The expression of a condition and the pattern that it has to match are such as are read. -/
def Condition.Named : Condition → Prop
  | .holds e => e.Levelled
  | .matches p e => p.Shaped 0 ∧ e.Levelled

namespace Node

mutual

/-- **What a node holds is such as is read**: its expressions, its patterns and the paths of what it
calls. -/
def Named : Node → Prop
  | .text _ _ | .comment _ _ => True
  | .value _ e _ => e.Levelled
  | .branch _ arms otherwise => NamedArms arms ∧ NamedOtherwise otherwise
  | .loop _ p e body => p.Shaped 0 ∧ e.Levelled ∧ NamedAll body
  | .cases _ e arms => e.Levelled ∧ NamedCases arms
  | .call _ parts args blocks => (∀ w ∈ parts, IsName w) ∧ NamedArguments args ∧ NamedBlocks blocks

/-- What the nodes of a body hold is such as is read. -/
def NamedAll : List Node → Prop
  | [] => True
  | n :: ns => n.Named ∧ NamedAll ns

def NamedArms : List (Condition × List Node) → Prop
  | [] => True
  | (cond, body) :: arms => cond.Named ∧ NamedAll body ∧ NamedArms arms

def NamedOtherwise : Option (List Node) → Prop
  | none => True
  | some body => NamedAll body

def NamedCases : List (Pattern × Option Expr × List Node) → Prop
  | [] => True
  | (p, guard, body) :: arms =>
    p.Shaped 0 ∧ (∀ e ∈ guard, e.Levelled) ∧ NamedAll body ∧ NamedCases arms

def NamedArguments : List (Expr ⊕ List Node) → Prop
  | [] => True
  | .inl e :: args => e.Levelled ∧ NamedArguments args
  | .inr body :: args => NamedAll body ∧ NamedArguments args

def NamedBlocks : List (List Node) → Prop
  | [] => True
  | body :: blocks => NamedAll body ∧ NamedBlocks blocks

end

end Node

namespace Template.Read

theorem named_of_condition {c d : Cursor} {cond : Condition} (h : condition c = .ok (cond, d)) :
    cond.Named := by
  unfold condition at h
  dsimp only at h
  split at h
  · obtain ⟨⟨p, a⟩, hp, h⟩ := Except.bind_ok.mp h
    split at h
    · obtain ⟨⟨e, b⟩, he, h⟩ := Except.bind_ok.mp h
      cases h
      exact ⟨Pattern.shaped_of_read hp, (fits_of_readExpression he).levelled⟩
    · cases h
  · obtain ⟨⟨e, a⟩, he, h⟩ := Except.bind_ok.mp h
    cases h
    exact (fits_of_readExpression he).levelled

mutual

/-- **What stands in a body is such as is read.** -/
theorem named_of_body {c d : Cursor} : ∀ {ns : List Node}, Body.Spans c d ns → Node.NamedAll ns
  | _, .nil _ => trivial
  | _, .text _ _ _ hrest => ⟨trivial, named_of_body hrest⟩
  | _, .construct hnode _ _ hrest => ⟨named_of_node hnode, named_of_body hrest⟩

theorem named_of_node {c d : Cursor} : ∀ {n : Node}, Node.Spans c d n → n.Named
  | _, .value _ he _ | _, .raw _ he _ => (fits_of_readChain he).levelled
  | _, .comment _ _ | _, .lineComment _ _ _ => trivial
  | _, .branch _ _ harms => named_of_arms harms
  | _, .loop _ _ hp _ he hbody =>
    ⟨Pattern.shaped_of_read hp, (fits_of_readExpression he).levelled, named_of_block hbody⟩
  | _, .cases _ _ he _ harms => ⟨(fits_of_readExpression he).levelled, named_of_cases harms⟩
  | _, .call _ hpath _ hargs hblocks =>
    ⟨(isName_of_path hpath).2, named_of_args hargs, named_of_blocks hblocks⟩

theorem named_of_block {c d : Cursor} : ∀ {ns : List Node}, Block.Spans c d ns → Node.NamedAll ns
  | _, .braces _ hbody _ => named_of_body hbody

theorem named_of_arms {c d : Cursor} : ∀ {arms : List (Condition × List Node)}
    {otherwise : Option (List Node)}, Arms.Spans c d arms otherwise →
    Node.NamedArms arms ∧ Node.NamedOtherwise otherwise
  | _, _, .one hcond hbody => ⟨⟨named_of_condition hcond, named_of_block hbody, trivial⟩, trivial⟩
  | _, _, .otherwise hcond hbody _ hlast =>
    ⟨⟨named_of_condition hcond, named_of_block hbody, trivial⟩, named_of_block hlast⟩
  | _, _, .more hcond hbody _ harms =>
    ⟨⟨named_of_condition hcond, named_of_block hbody, (named_of_arms harms).1⟩,
      (named_of_arms harms).2⟩

theorem named_of_cases {c d : Cursor} : ∀ {arms : List (Pattern × Option Expr × List Node)},
    Cases.Spans c d arms → Node.NamedCases arms
  | _, .done _ _ => trivial
  | _, .more _ hp hguard _ hbody _ _ _ harms =>
    ⟨Pattern.shaped_of_read hp, fun e he => levelled_of_guard? hguard e (Option.mem_toList.mpr he),
      named_of_block hbody, named_of_cases harms⟩

theorem named_of_args {c d : Cursor} : ∀ {args : List (Expr ⊕ List Node)},
    Args.Spans c d args → Node.NamedArguments args
  | _, .done _ => trivial
  | _, .last harg _ => named_of_arg harg trivial
  | _, .more harg _ hargs => named_of_arg harg (named_of_args hargs)

theorem named_of_arg {c d : Cursor} {args : List (Expr ⊕ List Node)} :
    ∀ {arg : Expr ⊕ List Node}, Arg.Spans c d arg → Node.NamedArguments args →
    Node.NamedArguments (arg :: args)
  | _, .block hbody, h => ⟨named_of_block hbody, h⟩
  | _, .value he, h => ⟨(fits_of_readExpression he).levelled, h⟩

theorem named_of_blocks {c d : Cursor} : ∀ {blocks : List (List Node)},
    Blocks.Spans c d blocks → Node.NamedBlocks blocks
  | _, .done _ => trivial
  | _, .more _ hbody hrest => ⟨named_of_block hbody, named_of_blocks hrest⟩

end

end Template.Read

/-! ## Names of templates and names in scope -/

/-- **The names of a template are on one line.** -/
def TemplateName.Inline (n : TemplateName) : Prop :=
  ∀ w ∈ n.namespaces ++ [n.stem, n.format], OneLine w

instance (n : TemplateName) : Decidable n.Inline := by
  unfold TemplateName.Inline; infer_instance

/-- So are the names that the files of templates can have. -/
theorem TemplateName.Admitted.inline {n : TemplateName} (h : n.Admitted) : n.Inline := by
  have hformats : ∀ f ∈ formats, OneLine f := by decide +kernel
  intro w hw
  have hcases : w ∈ n.namespaces ++ [n.stem] ∨ w = n.format := by
    simpa [or_assoc] using hw
  rcases hcases with hw | rfl
  · exact oneLine_isIdentifier (h.isIdentifier w hw)
  · exact hformats _ h.format

theorem TemplateName.Inline.function {n : TemplateName} (h : n.Inline) : OneLine n.function :=
  oneLine_append (oneLine_append (h _ (by simp)) (by decide)) (h _ (by simp))

/-- The directories and the function of a template are on one line. -/
def TemplateRef.Inline (r : TemplateRef) : Prop := ∀ w ∈ r.namespaces ++ [r.function], OneLine w

theorem TemplateName.Inline.refOf {n : TemplateName} (h : n.Inline) :
    (Context.refOf n).Inline := by
  intro w hw
  rcases List.mem_append.mp hw with hw | hw
  · exact h w (List.mem_append_left _ hw)
  · rw [List.mem_singleton.mp hw]
    exact h.function

theorem TemplateRef.Inline.localName {r : TemplateRef} (h : r.Inline) : OneLine r.localName :=
  oneLine_append (by decide) (oneLine_intercalate (by decide) h)

/-- **The templates of a context have names on one line.** -/
def Context.Inline (c : Context) : Prop := ∀ entry ∈ c.templates, entry.2.Inline

theorem Context.inline_ofNames {names : List TemplateName} {statics : Option (List String)}
    (h : ∀ n ∈ names, n.Inline) : (ofNames names statics).Inline := by
  intro entry hentry
  obtain ⟨n, hn, he⟩ := mem_ofNames hentry
  rw [he]
  exact (h n hn).refOf

/-- **Names in a scope are on one line in the code**, if they are in the template. -/
def Scope.Inline (s : Scope) : Prop := ∀ n, OneLine n → OneLine (s.rename n)

namespace Scope

variable {s renamed : Scope} {names : List String}

theorem inline_ofParams (params : List Param) : (ofParams params).Inline := by
  intro n hn
  rcases rename_eq (ofParams params) n with hmem | ⟨-, he⟩
  · obtain ⟨p, -, he⟩ := mem_ofParams.mp hmem
    obtain ⟨hp, hrename⟩ := Prod.mk.inj he
    rw [hrename, ← hp]
    exact hn
  · rwa [he]

theorem Inline.extend (hs : s.Inline) (hr : renamed.Inline) : (s.extend renamed names).Inline := by
  intro n hn
  rw [rename, lookup_extend]
  split
  · exact hr n hn
  · exact hs n hn

end Scope

/-- The names that a pattern binds are on one line in the code, fresh ones included. -/
theorem Gen.inline_of_bind {s inner renamed : Scope} {p : Pattern} {k k' : Nat}
    (h : Gen.bind s p k = .ok ((inner, renamed), k')) (hs : s.Inline) :
    inner.Inline ∧ renamed.Inline := by
  obtain ⟨hr, rfl⟩ := bind_ok_eq h
  have hrenamed : renamed.Inline := by
    intro n hn
    rcases renamed.rename_eq n with hmem | ⟨-, he⟩
    · obtain ⟨j, -, -, he⟩ := (renames_of_renamings hr).fresh _ hmem
      simp only at he
      rw [he]
      exact oneLine_freshName hn j
    · rwa [he]
  exact ⟨hs.extend hrenamed, hrenamed⟩

section Env

variable {env : Env} {s : Scope}

theorem Env.inline_resolution (hs : s.Inline) : (env.resolution s).Inline where
  rename := hs
  ofPath parts p code hparts h := by
    obtain ⟨-, file, rfl, rfl⟩ := Env.staticPath_some h
    exact oneLine_append (by decide) (hparts file (by simp))

/-- The parts of what a call runs are on one line. -/
def Target.Inline : Target → Prop
  | .bound n | .own n => OneLine n
  | .template r => r.Inline
  | .other parts => ∀ w ∈ parts, OneLine w

theorem Target.Inline.code {t : Target} (h : t.Inline) : OneLine t.code := by
  cases t with
  | bound n | own n => exact h
  | template r => exact TemplateRef.Inline.localName h
  | other parts => exact oneLine_intercalate (by decide) h

theorem Context.inline_of_find? {c : Context} (hc : c.Inline) {here path : List String}
    {r : TemplateRef} (h : c.find? here path = some r) : r.Inline := by
  rcases Option.or_eq_some_iff.mp h with h | ⟨-, h⟩
  · exact hc _ (mem_of_lookup h)
  · exact hc _ (mem_of_lookup h)

theorem Context.inline_target {c : Context} (hc : c.Inline) (hs : s.Inline) {path : List String}
    (hpath : ∀ w ∈ path, OneLine w) (self : TemplateName) : (c.target self s path).Inline := by
  unfold target
  split
  · rename_i n code hlookup
    have hcode := hs n (hpath n (List.mem_singleton_self n))
    rw [List.headD_cons] at hlookup
    rwa [Scope.rename, hlookup] at hcode
  · split
    · rename_i r hfind
      have hr := inline_of_find? hc hfind
      split
      · exact hr _ (List.mem_append_right _ (List.mem_singleton_self _))
      · exact hr
    · exact hpath

end Env

/-! ## Statements -/

namespace Stmt

mutual

/-- **All that a statement puts into its lines is on one line**, at any depth. -/
def Inline : Stmt → Prop
  | write _ _ => True
  | interpolate _ _ e | evaluate _ e => OneLine e.code
  | call _ target args => target.Inline ∧ ∀ a ∈ args, OneLine a.code
  | define _ n body => OneLine n ∧ InlineAll body
  | branch _ arms otherwise => InlineArms arms ∧ InlineOtherwise otherwise
  | loop _ target e body => OneLine target.target ∧ OneLine e.code ∧ InlineAll body
  | select _ subject cases => OneLine subject.code ∧ InlineCases cases

/-- All that statements put into their lines is on one line. -/
def InlineAll : List Stmt → Prop
  | [] => True
  | s :: ss => s.Inline ∧ InlineAll ss

def InlineArms : List (Expr × List Stmt) → Prop
  | [] => True
  | (e, body) :: arms => OneLine e.code ∧ InlineAll body ∧ InlineArms arms

def InlineOtherwise : Option (List Stmt) → Prop
  | none => True
  | some body => InlineAll body

def InlineCases : List (Pattern × Option Expr × List Stmt) → Prop
  | [] => True
  | (p, guard, body) :: cases =>
    OneLine p.code ∧ (∀ e ∈ guard, OneLine e.code) ∧ InlineAll body ∧ InlineCases cases

end

theorem inlineAll_append {ss ss' : List Stmt} (h : InlineAll ss) (h' : InlineAll ss') :
    InlineAll (ss ++ ss') := by
  induction ss with
  | nil => exact h'
  | cons s ss ih => exact ⟨h.1, ih h.2⟩

theorem inlineAll_branchOf {p : Nat} {r : List (Expr × List Stmt) × Option (List Stmt)}
    (h : InlineArms r.1 ∧ InlineOtherwise r.2) : InlineAll (Gen.branchOf p r) := by
  obtain ⟨arms, otherwise⟩ := r
  cases arms with
  | nil =>
    cases otherwise with
    | none => trivial
    | some stmts => exact h.2
  | cons arm arms => exact ⟨h, trivial⟩

/-- **The lines of code are lines.** -/
def OneLines (ls : List Line) : Prop := ∀ l ∈ ls, OneLine l.text

theorem oneLine_text {l : Line} (h : OneLine l.head.code) : OneLine l.text := by
  refine oneLine_append (oneLine_ofList fun c hc => ?_) h
  rw [List.eq_of_mem_replicate hc]
  decide

theorem OneLines.cons {l : Line} {ls : List Line} (hl : OneLine l.head.code) (h : OneLines ls) :
    OneLines (l :: ls) :=
  List.forall_mem_cons.mpr ⟨oneLine_text hl, h⟩

theorem OneLines.append {ls ls' : List Line} (h : OneLines ls) (h' : OneLines ls') :
    OneLines (ls ++ ls') :=
  List.forall_mem_append.mpr ⟨h, h'⟩

theorem oneLines_nil : OneLines [] := by simp [OneLines]

theorem OneLines.orPass {ls : List Line} (h : OneLines ls) (i p : Nat) :
    OneLines (orPass i p ls) := by
  unfold Stmt.orPass
  split
  · exact .cons (by decide : OneLine "pass") oneLines_nil
  · exact h

/-! ## Heads -/

section Heads

variable {e : Expr} (he : OneLine e.code)

include he

theorem oneLine_interpolate (raw : Bool) : OneLine (Head.interpolate raw e).code := by
  have hwriter : OneLine (if raw then Names.writeRaw else Names.writeEscaped) := by
    cases raw <;> decide
  refine oneLine_append (oneLine_append ?_ he) (by decide)
  exact oneLine_append (oneLine_append (oneLine_append hwriter (by decide)) (by decide)) (by decide)

theorem oneLine_branch (first : Bool) : OneLine (Head.branch first e).code :=
  oneLine_append (oneLine_append (by cases first <;> decide) he) (by decide)

theorem oneLine_loop {p : Pattern} (hp : OneLine p.target) : OneLine (Head.loop p e).code := by
  have hfor := oneLine_append (by decide : OneLine "for ") hp
  exact oneLine_append (oneLine_append (oneLine_append hfor (by decide)) he) (by decide)

end Heads

theorem oneLine_call {target : Target} {args : List Operand} (ht : target.Inline)
    (ha : ∀ a ∈ args, OneLine a.code) : OneLine (Head.call target args).code := by
  refine Expr.oneLine_items (oneLine_append ht.code (by decide)) (by decide) ?_
  exact List.forall_mem_cons.mpr ⟨by decide, List.forall_mem_map.mpr ha⟩

theorem oneLine_select {subject : Operand} (h : OneLine subject.code) :
    OneLine (Head.select subject).code :=
  oneLine_append (oneLine_append (by decide) h) (by decide)

theorem oneLine_case {p : Pattern} {guard : Option Expr} (hp : OneLine p.code)
    (hg : ∀ e ∈ guard, OneLine e.code) : OneLine (Head.case p guard).code := by
  refine oneLine_append (oneLine_append (oneLine_append (by decide) hp) ?_) (by decide)
  cases guard with
  | none => decide
  | some e => exact oneLine_append (by decide) (hg e rfl)

/-- The head of a function, if its name and its parameters are on one line. -/
theorem oneLine_define {name : String} {params : List Param} (hn : OneLine name)
    (hp : ∀ p ∈ params, OneLine p.name ∧ OneLine p.type) :
    OneLine (Head.define name params).code := by
  have hparams : OneLine (String.join (params.map fun p => ", " ++ p.name ++ ": " ++ p.type)) := by
    intro c hc
    rw [String.toList_join, List.mem_flatMap] at hc
    obtain ⟨w, hw, hc⟩ := hc
    obtain ⟨p, hmem, rfl⟩ := List.mem_map.mp hw
    have hname := oneLine_append (by decide : OneLine ", ") (hp p hmem).1
    exact oneLine_append (oneLine_append hname (by decide)) (hp p hmem).2 c hc
  have hstart := oneLine_append (by decide : OneLine "def ") hn
  have hout := oneLine_append (oneLine_append (oneLine_append hstart (by decide : OneLine "("))
    (by decide : OneLine Names.out)) (by decide : OneLine ": Writer")
  exact oneLine_append (oneLine_append hout hparams) (by decide)

/-! ## Lines -/

mutual

/-- **The lines of a statement are lines.** -/
theorem oneLines_lines : ∀ {st : Stmt} (i : Nat), st.Inline → OneLines (st.lines i)
  | write _ s, i, _ => by
    rw [lines]
    exact .cons (oneLine_append (oneLine_append (by decide) (oneLine_quote s)) (by decide))
      oneLines_nil
  | interpolate _ raw _, i, h => by
    rw [Inline] at h
    rw [lines]
    exact .cons (oneLine_interpolate h raw) oneLines_nil
  | evaluate _ _, i, h => by
    rw [Inline] at h
    rw [lines]
    exact .cons h oneLines_nil
  | call _ _ _, i, h => by
    rw [Inline] at h
    rw [lines]
    exact .cons (oneLine_call h.1 h.2) oneLines_nil
  | define p _ _, i, h => by
    rw [Inline] at h
    rw [lines]
    exact .cons (oneLine_define h.1 (by simp)) ((oneLines_linesAll (i + 1) h.2).orPass _ p)
  | branch p _ _, i, h => by
    rw [Inline] at h
    rw [lines]
    exact (oneLines_armLines i p true h.1).append (oneLines_otherwiseLines i p h.2)
  | loop p _ _ _, i, h => by
    rw [Inline] at h
    rw [lines]
    exact .cons (oneLine_loop h.2.1 h.1) ((oneLines_linesAll (i + 1) h.2.2).orPass _ p)
  | select p _ _, i, h => by
    rw [Inline] at h
    rw [lines]
    exact .cons (oneLine_select h.1) (oneLines_caseLines (i + 1) p h.2)

theorem oneLines_linesAll : ∀ {ss : List Stmt} (i : Nat), InlineAll ss → OneLines (linesAll i ss)
  | [], _, _ => by
    rw [linesAll]
    exact oneLines_nil
  | _ :: _, i, h => by
    rw [InlineAll] at h
    rw [linesAll]
    exact (oneLines_lines i h.1).append (oneLines_linesAll i h.2)

theorem oneLines_armLines : ∀ {arms : List (Expr × List Stmt)} (i p : Nat) (first : Bool),
    InlineArms arms → OneLines (armLines i p first arms)
  | [], _, _, _, _ => by
    rw [armLines]
    exact oneLines_nil
  | (_, _) :: _, i, p, first, h => by
    rw [InlineArms] at h
    rw [armLines]
    exact .cons (oneLine_branch h.1 first)
      (((oneLines_linesAll (i + 1) h.2.1).orPass _ p).append (oneLines_armLines i p false h.2.2))

theorem oneLines_otherwiseLines : ∀ {o : Option (List Stmt)} (i p : Nat),
    InlineOtherwise o → OneLines (otherwiseLines i p o)
  | none, _, _, _ => by
    rw [otherwiseLines]
    exact oneLines_nil
  | some _, i, p, h => by
    rw [InlineOtherwise] at h
    rw [otherwiseLines]
    exact .cons (by decide : OneLine "else:") ((oneLines_linesAll (i + 1) h).orPass _ p)

theorem oneLines_caseLines : ∀ {cases : List (Pattern × Option Expr × List Stmt)} (i p : Nat),
    InlineCases cases → OneLines (caseLines i p cases)
  | [], _, _, _ => by
    rw [caseLines]
    exact oneLines_nil
  | (_, _, _) :: _, i, p, h => by
    rw [InlineCases] at h
    rw [caseLines]
    exact .cons (oneLine_case h.1 h.2.1)
      (((oneLines_linesAll (i + 1) h.2.2.1).orPass _ p).append (oneLines_caseLines i p h.2.2.2))

end

/-! ## References -/

mutual

/-- **The templates that a statement calls have names on one line.** -/
theorem inline_of_refs {r : TemplateRef} : ∀ {st : Stmt}, st.Inline → r ∈ st.refs → r.Inline
  | call _ (.template _) _, h, hr => by
    rw [refs, List.mem_singleton] at hr
    rw [Inline] at h
    rw [hr]
    exact h.1
  | define _ _ _, h, hr => by
    rw [refs] at hr
    rw [Inline] at h
    exact inline_of_refsAll h.2 hr
  | branch _ _ _, h, hr => by
    rw [refs, List.mem_append] at hr
    rw [Inline] at h
    exact hr.elim (inline_of_armRefs h.1) (inline_of_otherwiseRefs h.2)
  | loop _ _ _ _, h, hr => by
    rw [refs] at hr
    rw [Inline] at h
    exact inline_of_refsAll h.2.2 hr
  | select _ _ _, h, hr => by
    rw [refs] at hr
    rw [Inline] at h
    exact inline_of_caseRefs h.2 hr
  | write _ _, _, hr | interpolate _ _ _, _, hr | evaluate _ _, _, hr
  | call _ (.bound _) _, _, hr | call _ (.own _) _, _, hr | call _ (.other _) _, _, hr => by
    rw [refs] at hr
    · cases hr
    all_goals simp

theorem inline_of_refsAll {r : TemplateRef} : ∀ {ss : List Stmt}, InlineAll ss → r ∈ refsAll ss →
    r.Inline
  | [], _, hr => by
    rw [refsAll] at hr
    cases hr
  | _ :: _, h, hr => by
    rw [refsAll, List.mem_append] at hr
    rw [InlineAll] at h
    exact hr.elim (inline_of_refs h.1) (inline_of_refsAll h.2)

theorem inline_of_armRefs {r : TemplateRef} : ∀ {arms : List (Expr × List Stmt)},
    InlineArms arms → r ∈ armRefs arms → r.Inline
  | [], _, hr => by
    rw [armRefs] at hr
    cases hr
  | (_, _) :: _, h, hr => by
    rw [armRefs, List.mem_append] at hr
    rw [InlineArms] at h
    exact hr.elim (inline_of_refsAll h.2.1) (inline_of_armRefs h.2.2)

theorem inline_of_otherwiseRefs {r : TemplateRef} : ∀ {o : Option (List Stmt)},
    InlineOtherwise o → r ∈ otherwiseRefs o → r.Inline
  | none, _, hr => by
    rw [otherwiseRefs] at hr
    cases hr
  | some _, h, hr => by
    rw [otherwiseRefs] at hr
    rw [InlineOtherwise] at h
    exact inline_of_refsAll h hr

theorem inline_of_caseRefs {r : TemplateRef} :
    ∀ {cases : List (Pattern × Option Expr × List Stmt)}, InlineCases cases → r ∈ caseRefs cases →
    r.Inline
  | [], _, hr => by
    rw [caseRefs] at hr
    cases hr
  | (_, _, _) :: _, h, hr => by
    rw [caseRefs, List.mem_append] at hr
    rw [InlineCases] at h
    exact hr.elim (inline_of_refsAll h.2.2.1) (inline_of_caseRefs h.2.2.2)

end

end Stmt

/-! ## Generation -/

namespace Gen

open Stmt

variable {env : Env}

/-- The pattern of the code is on one line, if it comes from one that is read. -/
theorem inline_of_resolve {p case : Pattern} {renamed : Scope} (hp : p.Shaped 0)
    (hr : renamed.Inline) (h : p.simplify.resolve renamed.rename = .ok case) : case.Inline := by
  rw [Pattern.resolve_ok h]
  exact Pattern.inline_renamed hr (Pattern.inline_simplify (Pattern.inline_of_shaped hp))

theorem inlineAll_flush (p : Nat) (text : String) : InlineAll (flush p text) := by
  unfold flush
  split
  · trivial
  · exact ⟨trivial, trivial⟩

mutual

/-- **All that is generated for a body is on one line**, if the names of templates are. -/
theorem body_inline (hc : env.context.Inline) : ∀ {ns : List Node} {s : Scope} {i p k k' : Nat}
    {pending : String} {r : List Stmt}, Node.NamedAll ns → s.Inline →
    body env s i p pending ns k = .ok (r, k') → InlineAll r
  | [], _, _, _, _, _, _, _, _, _, h => by
    obtain ⟨rfl, -⟩ := body_nil_ok.mp h
    exact inlineAll_flush _ _
  | n :: ns, _, _, _, _, _, _, _, hn, hs, h => by
    rw [Node.NamedAll] at hn
    cases hp : n.plain? with
    | some text =>
      rw [body_cons_plain hp] at h
      exact body_inline hc hn.2 hs h
    | none =>
      obtain ⟨a, k₁, b, ha, hb, rfl⟩ := (body_cons_ok hp).mp h
      exact inlineAll_append
        (inlineAll_append (inlineAll_flush _ _) (node_inline hc hn.1 hs hp ha))
        (body_inline hc hn.2 hs hb)

theorem node_inline (hc : env.context.Inline) : ∀ {n : Node} {s : Scope} {i k k' : Nat}
    {r : List Stmt}, n.Named → s.Inline → n.plain? = none → node env s i n k = .ok (r, k') →
    InlineAll r
  | .text _ _, _, _, _, _, _, _, _, hp, _ | .comment _ _, _, _, _, _, _, _, _, hp, _ => by cases hp
  | .value _ _ _, _, _, _, _, _, hn, hs, _, h => by
    obtain ⟨e', he, rfl, -⟩ := node_value_ok.mp h
    rw [Node.Named] at hn
    exact ⟨Expr.oneLine_code (Env.inline_resolution hs) hn he, trivial⟩
  | .branch _ _ _, _, _, _, _, _, hn, hs, _, h => by
    obtain ⟨r, hr, rfl⟩ := node_branch_ok.mp h
    rw [Node.Named] at hn
    exact inlineAll_branchOf (chain_inline hc (fun h => alternative_inline hc hn.2 hs h) hn.1 hs hr)
  | .loop _ pattern _ _, _, _, _, _, _, hn, hs, _, h => by
    rw [Node.Named] at hn
    by_cases hp : pattern.simplify.isIrrefutable
    · obtain ⟨e', inner, renamed, k₁, target, body', he, hb, ht, -, hbody, rfl⟩ :=
        (node_loop_plain_ok hp).mp h
      obtain ⟨hinner, hrenamed⟩ := inline_of_bind hb hs
      have htarget := Pattern.oneLine_target (inline_of_resolve hn.1 hrenamed ht)
      exact ⟨⟨htarget, Expr.oneLine_code (Env.inline_resolution hs) hn.2.1 he,
        body_inline hc hn.2.2 hinner hbody⟩, trivial⟩
    · obtain ⟨e', inner, renamed, k₁, case, body', he, hb, hcase, -, hbody, rfl⟩ :=
        (node_loop_skipping_ok hp).mp h
      obtain ⟨hinner, hrenamed⟩ := inline_of_bind hb hs
      have hitem := oneLine_freshName (by decide : OneLine "item") (k₁ + 1)
      have hcode := Pattern.oneLine_code (inline_of_resolve hn.1 hrenamed hcase)
      refine ⟨⟨hitem, Expr.oneLine_code (Env.inline_resolution hs) hn.2.1 he, ?_⟩, trivial⟩
      exact ⟨⟨hitem, hcode, by simp, body_inline hc hn.2.2 hinner hbody, trivial⟩, trivial⟩
  | .cases _ _ [], _, _, _, _, _, hn, hs, _, h => by
    obtain ⟨e', he, rfl, -⟩ := node_cases_nil_ok.mp h
    rw [Node.Named] at hn
    exact ⟨Expr.oneLine_code (Env.inline_resolution hs) hn.1 he, trivial⟩
  | .cases _ _ (_ :: _), _, _, _, _, _, hn, hs, _, h => by
    obtain ⟨e', cases', he, -, hr, rfl⟩ := (node_cases_ok (List.cons_ne_nil _ _)).mp h
    rw [Node.Named] at hn
    exact ⟨⟨Expr.oneLine_code (Env.inline_resolution hs) hn.1 he, cases_inline hc hn.2 hs hr⟩,
      trivial⟩
  | .call _ _ _ _, _, _, _, _, _, hn, hs, _, h => by
    obtain ⟨defs, args', k₁, defs', contents', ha, hb, rfl⟩ := node_call_ok.mp h
    rw [Node.Named] at hn
    have htarget := Context.inline_target hc hs (fun w hw => oneLine_isName (hn.1 w hw)) env.self
    obtain ⟨hdefs, hargs⟩ := arguments_inline hc hn.2.1 hs ha
    obtain ⟨hdefs', hcontents⟩ := contents_inline hc hn.2.2 hs hb
    exact inlineAll_append (inlineAll_append hdefs hdefs')
      ⟨⟨htarget, List.forall_mem_append.mpr ⟨hargs, hcontents⟩⟩, trivial⟩

theorem alternative_inline (hc : env.context.Inline) : ∀ {o : Option (List Node)} {s : Scope}
    {i p k k' : Nat} {r : List Stmt}, Node.NamedOtherwise o → s.Inline →
    alternative env s i p o k = .ok (r, k') → InlineAll r
  | none, _, _, _, _, _, _, _, _, h => by
    obtain ⟨rfl, -⟩ := alternative_none_ok.mp h
    trivial
  | some _, _, _, _, _, _, _, hn, hs, h => by
    rw [alternative_some] at h
    exact body_inline hc hn hs h

theorem chain_inline (hc : env.context.Inline) {s : Scope} {p : Nat} {last : Bool}
    {otherwise : Nat → Gen (List Stmt)}
    (ho : ∀ {i k k' r}, otherwise i k = .ok (r, k') → InlineAll r) :
    ∀ {arms : List (Condition × List Node)} {i k k' : Nat} {first : Bool}
      {r : List (Expr × List Stmt) × Option (List Stmt)}, Node.NamedArms arms → s.Inline →
    chain env s i first p last otherwise arms k = .ok (r, k') →
    InlineArms r.1 ∧ InlineOtherwise r.2
  | [], _, _, _, _, _, _, _, h => by
    obtain ⟨-, -, stmts, hstmts, rfl⟩ | ⟨-, rfl, -⟩ := chain_nil_ok.mp h
    · exact ⟨trivial, ho hstmts⟩
    · exact ⟨trivial, trivial⟩
  | (.holds _, _) :: _, _, _, _, _, _, hn, hs, h => by
    obtain ⟨e', body', k₁, arms', stmts, he, -, hb, hr, rfl⟩ := chain_holds_ok.mp h
    rw [Node.NamedArms] at hn
    obtain ⟨harms, hrest⟩ := chain_inline hc ho hn.2.2 hs hr
    exact ⟨⟨Expr.oneLine_code (Env.inline_resolution hs) hn.1 he, body_inline hc hn.2.1 hs hb,
      harms⟩, hrest⟩
  | (.matches _ _, _) :: _, _, _, _, _, _, hn, hs, h => by
    obtain ⟨i', e', inner, renamed, k₁, case, body', k₂, -, -, hbind, he, hcase, -, hb, h⟩ :=
      chain_matches_ok.mp h
    rw [Node.NamedArms] at hn
    obtain ⟨hinner, hrenamed⟩ := inline_of_bind hbind hs
    have hvalue := Expr.oneLine_code (Env.inline_resolution hs) hn.1.2 he
    have hcode := Pattern.oneLine_code (inline_of_resolve hn.1.1 hrenamed hcase)
    have hbody := body_inline hc hn.2.1 hinner hb
    obtain ⟨-, rfl, -⟩ | ⟨-, arms', stmts, hrest, rfl⟩ := h
    · exact ⟨trivial, ⟨hvalue, hcode, by simp, hbody, trivial⟩, trivial⟩
    · have hmore := inlineAll_branchOf (p := p) (chain_inline hc ho hn.2.2 hs hrest)
      have hwildcard : OneLine "_" := by decide
      exact ⟨trivial, ⟨hvalue, hcode, by simp, hbody, hwildcard, by simp, hmore, trivial⟩, trivial⟩

theorem cases_inline (hc : env.context.Inline) :
    ∀ {arms : List (Pattern × Option Expr × List Node)} {s : Scope} {i p k k' : Nat}
      {r : List (Pattern × Option Expr × List Stmt)}, Node.NamedCases arms → s.Inline →
    cases env s i p arms k = .ok (r, k') → InlineCases r
  | [], _, _, _, _, _, _, _, _, h => by
    obtain ⟨rfl, -⟩ := cases_nil_ok.mp h
    trivial
  | (_, guard, _) :: _, _, _, _, _, _, _, hn, hs, h => by
    obtain ⟨inner, renamed, k₁, case, guard', body', k₂, hbind, hcase, hg, -, hb, h⟩ :=
      cases_cons_ok.mp h
    rw [Node.NamedCases] at hn
    obtain ⟨hinner, hrenamed⟩ := inline_of_bind hbind hs
    have hcode := Pattern.oneLine_code (inline_of_resolve hn.1 hrenamed hcase)
    have hguard : ∀ e ∈ guard', OneLine e.code := by
      cases Except.option_mapM_ok.mp hg with
      | none => simp
      | some he =>
        intro e hmem
        obtain rfl := Option.mem_some.mp hmem
        exact Expr.oneLine_code (Env.inline_resolution hinner) (hn.2.1 _ rfl) he
    have hbody := body_inline hc hn.2.2.1 hinner hb
    obtain ⟨-, rfl, -⟩ | ⟨-, rest, hrest, rfl⟩ := h
    · exact ⟨hcode, hguard, hbody, trivial⟩
    · exact ⟨hcode, hguard, hbody, cases_inline hc hn.2.2.2 hs hrest⟩

theorem arguments_inline (hc : env.context.Inline) : ∀ {args : List (Expr ⊕ List Node)} {s : Scope}
    {i p k k' : Nat} {defs : List Stmt} {ops : List Operand}, Node.NamedArguments args → s.Inline →
    arguments env s i p args k = .ok ((defs, ops), k') →
    InlineAll defs ∧ ∀ a ∈ ops, OneLine a.code
  | [], _, _, _, _, _, _, _, _, _, h => by
    obtain ⟨hr, -⟩ := arguments_nil_ok.mp h
    cases hr
    exact ⟨trivial, by simp⟩
  | .inl _ :: _, _, _, _, _, _, _, _, hn, hs, h => by
    obtain ⟨e', defs', args', he, ha, hr⟩ := arguments_value_ok.mp h
    cases hr
    rw [Node.NamedArguments] at hn
    obtain ⟨hdefs, hops⟩ := arguments_inline hc hn.2 hs ha
    have hvalue := Expr.oneLine_code (Env.inline_resolution hs) hn.1 he
    exact ⟨hdefs, List.forall_mem_cons.mpr ⟨hvalue, hops⟩⟩
  | .inr _ :: _, _, _, _, k, _, _, _, hn, hs, h => by
    obtain ⟨body', k₁, defs', args', -, hb, ha, hr⟩ := arguments_block_ok.mp h
    cases hr
    rw [Node.NamedArguments] at hn
    obtain ⟨hdefs, hops⟩ := arguments_inline hc hn.2 hs ha
    have hname := oneLine_freshName (by decide : OneLine "content") (k + 1)
    exact ⟨⟨⟨hname, body_inline hc hn.1 hs hb⟩, hdefs⟩, List.forall_mem_cons.mpr ⟨hname, hops⟩⟩

theorem contents_inline (hc : env.context.Inline) : ∀ {blocks : List (List Node)} {s : Scope}
    {i p k k' : Nat} {defs : List Stmt} {ops : List Operand}, Node.NamedBlocks blocks → s.Inline →
    contents env s i p blocks k = .ok ((defs, ops), k') →
    InlineAll defs ∧ ∀ a ∈ ops, OneLine a.code
  | [], _, _, _, _, _, _, _, _, _, h => by
    obtain ⟨hr, -⟩ := contents_nil_ok.mp h
    cases hr
    exact ⟨trivial, by simp⟩
  | _ :: _, _, _, _, k, _, _, _, hn, hs, h => by
    obtain ⟨body', k₁, defs', args', -, hb, hd, hr⟩ := contents_cons_ok.mp h
    cases hr
    rw [Node.NamedBlocks] at hn
    obtain ⟨hdefs, hops⟩ := contents_inline hc hn.2 hs hd
    have hname := oneLine_freshName (by decide : OneLine "content") (k + 1)
    exact ⟨⟨⟨hname, body_inline hc hn.1 hs hb⟩, hdefs⟩, List.forall_mem_cons.mpr ⟨hname, hops⟩⟩

end

end Gen

/-! ## Parameters -/

namespace Text

/-- Words hold no white space. -/
theorem not_isBlank_of_mem_wordsFrom {cs word w : List Char}
    (hword : ∀ c ∈ word, isBlank c = false) (h : w ∈ wordsFrom word cs) :
    ∀ c ∈ w, isBlank c = false := by
  induction cs generalizing word with
  | nil =>
    rw [wordsFrom] at h
    split at h
    · cases h
    · obtain rfl := List.mem_singleton.mp h
      simpa using hword
  | cons a cs ih =>
    have hnil : w ∈ wordsFrom [] cs → ∀ c ∈ w, isBlank c = false := ih (by simp)
    rw [wordsFrom] at h
    split at h
    · split at h
      · exact hnil h
      · rcases List.mem_cons.mp h with rfl | h
        · simpa using hword
        · exact hnil h
    · rename_i ha
      exact ih (List.forall_mem_cons.mpr ⟨by simpa using ha, hword⟩) h

/-- **A text with its white space collapsed is on one line.** -/
theorem oneLine_collapse (cs : List Char) : OneLine (String.ofList (collapse cs)) := by
  refine oneLine_ofList fun c hc => ?_
  rcases mem_intercalate hc with hc | ⟨w, hw, hc⟩
  · rw [List.mem_singleton.mp hc]
    decide
  · exact not_mem_lineBreaks_of_not_blank (not_isBlank_of_mem_wordsFrom (by simp) hw c hc)

theorem oneLine_name? {cs w r : List Char} (h : name? cs = some (w, r)) :
    OneLine (String.ofList w) := by
  refine oneLine_ofList fun c hc => ?_
  cases cs with
  | nil => cases h
  | cons a cs =>
    rw [name?] at h
    split at h
    · rename_i ha
      cases h
      rcases List.mem_cons.mp hc with rfl | hc
      · exact not_mem_lineBreaks_of_isWord (isNameStart_iff.mp ha).1
      · exact not_mem_lineBreaks_of_isWord (List.all_eq_true.mp List.all_takeWhile c hc)
    · cases h

end Text

namespace Template

theorem Read.oneLine_paramType {c d : Cursor} {type : String}
    (h : paramType c = .ok (type, d)) : OneLine type := by
  rw [paramType, Except.bind_ok] at h
  obtain ⟨⟨span, rest⟩, -, h⟩ := h
  dsimp only at h
  split at h
  · cases h
  · cases h
    exact oneLine_collapse span

/-- **Parameters are on one line**: their names are words, and the white space in their types is
collapsed. -/
theorem Read.oneLine_params {steps : Nat} {seen : List String} {c d : Cursor} {ps : List Param}
    (h : params steps seen c = .ok (ps, d)) : ∀ p ∈ ps, OneLine p.name ∧ OneLine p.type := by
  induction steps generalizing seen c ps with
  | zero =>
    rw [params] at h
    cases h
  | succ steps ih =>
    rw [params] at h
    split at h
    · cases Except.pure_ok.mp h
      simp
    · split at h
      · cases h
      · rename_i word rest hname
        obtain ⟨-, h⟩ := Except.seq_ok.mp h
        dsimp only at h
        split at h
        · obtain ⟨⟨type, c₁⟩, htype, h⟩ := Except.bind_ok.mp h
          obtain ⟨⟨ps', c₂⟩, hps, h⟩ := Except.bind_ok.mp h
          cases Except.pure_ok.mp h
          exact List.forall_mem_cons.mpr
            ⟨⟨oneLine_name? hname, oneLine_paramType htype⟩, ih hps⟩
        · cases h

/-! ## Rendering functions -/

section Parsed

variable {name : TemplateName} {path : Path} {file : String} {text : List Char} {t : Template}
variable {context : Context} {stmts : List Stmt}

/-- **All statements of a template that is read are on one line**, if the names of templates are. -/
theorem inline_stmts (hparse : Template.parse name path file text = .ok t)
    (hcontext : context.Inline) (h : t.stmts context = .ok stmts) : Stmt.InlineAll stmts := by
  have hread := (Template.parse_ok hparse).1
  simp only [Outline.parse, Except.bind_ok] at hread
  obtain ⟨⟨imports, c⟩, -, ⟨params, c'⟩, -, ⟨body, c''⟩, hbody, hread⟩ := hread
  have hb : body = t.body := congrArg Outline.body (Except.pure_ok.mp hread)
  have hnamed := Read.named_of_body (Read.spans_of_body hbody).1
  rw [hb] at hnamed
  obtain ⟨k, hstmts⟩ := Template.stmts_ok.mp h
  exact Gen.body_inline hcontext hnamed (Scope.inline_ofParams t.params) hstmts

/-- **The lines of the rendering function are lines**: none of them is broken by what a template
puts into it. -/
theorem oneLine_functionLines (hparse : Template.parse name path file text = .ok t)
    (hname : name.Inline) (hcontext : context.Inline) (h : t.stmts context = .ok stmts) :
    ∀ l ∈ t.functionLines stmts, OneLine l.text := by
  have hread := (Template.parse_ok hparse).1
  simp only [Outline.parse, Except.bind_ok] at hread
  obtain ⟨⟨imports, c⟩, -, ⟨params, c'⟩, hparams, ⟨body, c''⟩, -, hread⟩ := hread
  have hps : params = t.params := congrArg Outline.params (Except.pure_ok.mp hread)
  have hdefine := Read.oneLine_params hparams
  rw [hps] at hdefine
  have hfunction : OneLine t.function := by
    rw [(Template.parse_ok hparse).2]
    exact hname.function
  have hbody := (Stmt.oneLines_linesAll 1 (inline_stmts hparse hcontext h)).orPass 1 0
  exact Stmt.OneLines.cons (Stmt.oneLine_define hfunction hdefine) hbody

end Parsed

end Template

end Stencil
