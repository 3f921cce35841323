import Stencil.Proofs.EnoughSteps
import Stencil.Proofs.ReadSpans

/-!
# How reading a template fails

A template is read in as many steps as its text allows for, and what goes wrong is at a position of
the text; the only other failure is that of an integer in the text that has no value.

* `Template.Read.failsOnly_preamble`, `Template.Read.failsOnly_params`: what stands before a body.
* `Template.Read.Accounted`: how the functions of the reader fail.
* `Outline.failsOnly_parse`: how reading a template text fails.
* **`reading_failsOnly`**: all readers together.
-/

namespace Stencil

open Text Expr

/-! ## Progress -/

theorem Cursor.Past.length_lt {c d : Cursor} {x : Char} {part : List Char}
    (h : c.Past (x :: part) d) : d.rest.length < c.rest.length := by
  rw [h.length_eq, List.length_cons]
  omega

theorem Cursor.Marked.length_lt {c d : Cursor} (h : c.Marked d) :
    d.rest.length < c.rest.length := by
  obtain ⟨part, h⟩ := h
  exact h.length_lt

theorem Block.Spans.length_lt {c d : Cursor} {ns : List Node} (h : Block.Spans c d ns) :
    d.rest.length < c.rest.length := by
  obtain ⟨hopening, hbody, hclosing⟩ := h
  have hbefore := c.reaches_skipBlank.length_le
  have hbrace := hopening.length_lt
  have hafter := (hbody.reaches.trans hclosing.reaches).length_le
  omega

namespace Cursor

variable {c d : Cursor}

/-! ## Comments -/

theorem failsOnly_comment? {comment : Except Failure (String × Cursor)}
    (h : c.comment? = some comment) : FailsOnly Failure.IsPlaced comment := by
  unfold comment? at h
  split at h
  · cases h
    unfold blockComment
    split <;> trivial
  · split at h
    · cases h
      trivial
    · cases h

theorem failsOnly_skipCommentsIn {s : Nat} (h : c.rest.length < s) :
    FailsOnly Failure.IsPlaced (skipCommentsIn s c) := by
  induction s generalizing c with
  | zero => cases h
  | succ s ih =>
    have hblank := c.reaches_skipBlank.length_le
    rw [skipCommentsIn]
    cases hcomment : c.skipBlank.comment? with
    | none => trivial
    | some comment =>
      refine (failsOnly_comment? hcomment).bind ?_
      rintro ⟨text, a⟩ ha
      have hlt := (marked_of_comment? hcomment ha).length_lt
      exact ih (c := a) (by omega)

theorem failsOnly_skipComments (c : Cursor) : FailsOnly Failure.IsPlaced c.skipComments :=
  failsOnly_skipCommentsIn (by unfold steps; omega)

end Cursor

namespace Template.Read

open Cursor

variable {s d position : Nat} {c c' : Cursor} {seen : List String}

/-! ## The preamble -/

theorem failsOnly_preamble (h : c.rest.length < s) : FailsOnly Failure.IsPlaced (preamble s c) := by
  induction s generalizing c with
  | zero => cases h
  | succ s ih =>
    have hblank := c.reaches_skipBlank.length_le
    rw [preamble]
    simp only
    cases hcomment : c.skipBlank.comment? with
    | some comment =>
      refine (failsOnly_comment? hcomment).bind ?_
      rintro ⟨text, a⟩ ha
      have hlt := (marked_of_comment? hcomment ha).length_lt
      exact ih (c := a) (by omega)
    | none =>
      cases himport : import? c.skipBlank with
      | some found =>
        obtain ⟨text, a⟩ := found
        have hlt := (marked_of_import? himport).length_lt
        exact (ih (c := a) (by omega)).bind fun _ _ => trivial
      | none =>
        simp only
        split <;> trivial

/-! ## Parameters -/

theorem failsOnly_typeSpan {start : Nat} {closers : List Char} {string : Option OpenString}
    {cs : List Char} :
    FailsOnly Failure.IsPlaced (typeSpan start closers string position cs) := by
  fun_induction typeSpan start closers string position cs <;>
    first | trivial | exact FailsOnly.bind ‹_› fun _ _ => trivial

theorem failsOnly_checkParam {name : String} :
    FailsOnly Failure.IsPlaced (checkParam name seen position) := by
  unfold checkParam
  split
  · trivial
  · split
    · trivial
    · split <;> trivial

theorem failsOnly_paramType (c : Cursor) : FailsOnly Failure.IsPlaced (paramType c) := by
  refine failsOnly_typeSpan.bind ?_
  rintro ⟨span, rest⟩ _
  simp only
  split <;> trivial

/-- A word is taken from the front of the text. -/
theorem reaches_skip_of_name? {word r : List Char} (h : name? c.rest = some (word, r)) :
    c.Ends (c.skip word.length) := by
  obtain ⟨hrest, last, hlast, hb⟩ := takes_name? h
  obtain ⟨part, rfl⟩ := List.getLast?_eq_some_iff.mp hlast
  exact ⟨part, last, (past_skip hrest).1, hb⟩

theorem failsOnly_params (h : c.rest.length < s) :
    FailsOnly Failure.IsPlaced (params s seen c) := by
  induction s generalizing c seen with
  | zero => cases h
  | succ s ih =>
    have hblank := c.reaches_skipBlank.length_le
    rw [params]
    simp only
    split
    · trivial
    · cases hname : name? c.skipBlank.rest with
      | none => trivial
      | some found =>
        obtain ⟨word, r⟩ := found
        have hlt := (reaches_skip_of_name? hname).length_lt
        refine failsOnly_checkParam.bind fun _ _ => ?_
        generalize (c.skipBlank.skip word.length) = e at *
        have hle := e.reaches_skipBlank.length_le
        split
        · have hcolon := (past_of_startsWith (s := ":") ‹_›).reaches
          refine (failsOnly_paramType _).bind ?_
          rintro ⟨type, a⟩ ha
          have hafter := hcolon.trans ((reaches_paramType ha).trans
            (a.reaches_skipBlank.trans (reaches_comma _)))
          have hlt' := Nat.lt_of_le_of_lt hafter.length_le (by omega : e.skipBlank.rest.length < s)
          exact (ih hlt').bind fun _ _ => trivial
        · trivial

/-! ## Conditions and guards -/

theorem failsOnly_condition (c : Cursor) : FailsOnly c.Admits (condition c) := by
  have hblank := c.reaches_skipBlank
  unfold condition
  simp only
  split
  · rename_i hlet
    rw [atWordBlank, Bool.and_eq_true] at hlet
    have hword := hblank.trans (past_of_startsWith hlet.1).reaches
    refine ((Pattern.failsOnly_read _).mono hword.admits).bind ?_
    rintro ⟨p, a⟩ ha
    have hpattern := hword.trans ((Pattern.ends_of_read ha).reaches.trans a.reaches_skipBlank)
    simp only
    split
    · rename_i heq
      rw [Bool.and_eq_true] at heq
      have hvalue := hpattern.trans (past_of_startsWith heq.1).reaches
      exact ((failsOnly_readExpression _).mono hvalue.admits).bind fun _ _ => trivial
    · trivial
  · exact ((failsOnly_readExpression _).mono hblank.admits).bind fun _ _ => trivial

theorem failsOnly_guard? (c : Cursor) : FailsOnly c.Admits (guard? c) := by
  unfold guard?
  split
  · have hword := (past_of_atWord (w := "if") ‹_›).reaches
    exact ((failsOnly_readExpression _).mono hword.admits).bind fun _ _ => trivial
  · trivial

theorem failsOnly_enter : FailsOnly c.Admits (Template.Read.enter d position) := by
  unfold Template.Read.enter
  split <;> trivial

/-! ## Bodies -/

/-- **How the functions of the reader fail** in a number of steps that the text allows for. -/
structure Accounted (s : Nat) : Prop where
  body : ∀ {inBlock d braces pending} {c : Cursor}, 16 * c.rest.length + 2 ≤ s →
    FailsOnly c.Admits (body s inBlock d braces pending c)
  block : ∀ {d} {c : Cursor}, 16 * c.rest.length + 1 ≤ s → FailsOnly c.Admits (block s d c)
  construct : ∀ {d} {c : Cursor}, c.startsWith "@" = true → 16 * c.rest.length + 1 ≤ s →
    FailsOnly c.Admits (construct s d c)
  branches : ∀ {d} {c : Cursor}, 16 * c.rest.length + 2 ≤ s → FailsOnly c.Admits (branches s d c)
  cases : ∀ {d start} {c : Cursor}, 16 * c.rest.length + 1 ≤ s →
    FailsOnly c.Admits (cases s d start c)
  call : ∀ {d start} {c : Cursor}, 16 * c.rest.length + 1 ≤ s →
    FailsOnly c.Admits (call s d start c)
  arguments : ∀ {d} {c : Cursor}, 16 * c.rest.length + 3 ≤ s → FailsOnly c.Admits (arguments s d c)
  argument : ∀ {d} {c : Cursor}, 16 * c.rest.length + 2 ≤ s → FailsOnly c.Admits (argument s d c)
  blocks : ∀ {d} {c : Cursor}, 16 * c.rest.length + 2 ≤ s → FailsOnly c.Admits (blocks s d c)

section Step

variable {inBlock : Bool} {braces : Nat} {pending : Pending}
variable (ih : Accounted s)
include ih

theorem failsOnly_body (h : 16 * c.rest.length + 2 ≤ s + 1) :
    FailsOnly c.Admits (body (s + 1) inBlock d braces pending c) := by
  obtain ⟨rest, hrest, -, -⟩ := plainRun_eq inBlock braces c.rest
  rw [body]
  generalize plainRun inBlock braces c.rest = run at *
  obtain ⟨run, braces'⟩ := run
  have hrun := (past_skip hrest).1.reaches
  have hle := hrun.length_le
  simp only at hrun hle ⊢
  split
  · have hescaped := (past_escaped? ‹_›).1
    have hlt := hescaped.length_lt
    exact (ih.body (by omega)).mono (hrun.trans hescaped.reaches).admits
  · split
    · rename_i hat
      refine ((ih.construct hat (by omega)).mono hrun.admits).bind ?_
      rintro ⟨n, e⟩ hn
      obtain ⟨e', gap, hnode, hgap, -⟩ := (sound s).construct hat hn
      have hlt := hnode.marked.length_lt
      have hnext := hnode.marked.reaches.trans hgap.reaches
      have hle' := hgap.reaches.length_le
      refine ((ih.body (by omega)).mono (hrun.trans hnext).admits).bind fun _ _ => trivial
    · trivial

theorem failsOnly_block (h : 16 * c.rest.length + 1 ≤ s + 1) :
    FailsOnly c.Admits (block (s + 1) d c) := by
  have hblank := c.reaches_skipBlank
  have hle := hblank.length_le
  rw [block]
  simp only
  split
  · have hopening : c.skipBlank.Past ['\x7b'] (c.skipBlank.skip 1) :=
      past_of_startsWith (s := "\x7b") ‹_›
    have hlt := hopening.length_lt
    refine failsOnly_enter.bind fun d' _ => ?_
    refine ((ih.body (by omega)).mono (hblank.trans hopening.reaches).admits).bind fun _ _ => ?_
    split <;> trivial
  · trivial

theorem failsOnly_branches (h : 16 * c.rest.length + 2 ≤ s + 1) :
    FailsOnly c.Admits (branches (s + 1) d c) := by
  rw [branches]
  refine (failsOnly_condition c).bind ?_
  rintro ⟨cond, a⟩ hcond
  have ha := reaches_condition hcond
  have hle := ha.length_le
  refine ((ih.block (by omega)).mono ha.admits).bind ?_
  rintro ⟨ns, b⟩ hns
  have hblock := (sound s).block hns
  have hlt := hblock.length_lt
  have hb := ha.trans hblock.reaches
  simp only
  cases hmark : b.elseMark? with
  | none => trivial
  | some next =>
    have hnext := hb.trans (reaches_elseMark? hmark)
    have hle' := (reaches_elseMark? hmark).length_le
    simp only
    split
    · exact ((ih.block (by omega)).mono hnext.admits).bind fun _ _ => trivial
    · exact ((ih.branches (by omega)).mono hnext.admits).bind fun _ _ => trivial

theorem failsOnly_cases (h : 16 * c.rest.length + 1 ≤ s + 1) :
    FailsOnly c.Admits (cases (s + 1) d position c) := by
  rw [cases]
  refine ((failsOnly_skipComments c).mono fun _ => .of_placed).bind fun a ha => ?_
  have ha := reaches_skipComments ha
  split
  · trivial
  · split
    · trivial
    · refine ((Pattern.failsOnly_read a).mono ha.admits).bind ?_
      rintro ⟨p, b⟩ hp
      have hb := ha.trans ((Pattern.ends_of_read hp).reaches.trans b.reaches_skipBlank)
      refine ((failsOnly_guard? _).mono hb.admits).bind ?_
      rintro ⟨guard, e⟩ hguard
      have he := hb.trans (reaches_guard? hguard)
      have hle := he.length_le
      simp only
      split
      · have harrow : e.Past ['=', '>'] (e.skip 2) := past_of_startsWith (s := "=>") ‹_›
        have hlt := harrow.length_lt
        have hf := he.trans harrow.reaches
        refine ((ih.block (by omega)).mono hf.admits).bind ?_
        rintro ⟨ns, g⟩ hns
        have hblock := (sound s).block hns
        have hg := hf.trans hblock.reaches
        refine ((failsOnly_skipComments g).mono fun _ => .of_placed).bind fun i hi => ?_
        have hi := (reaches_skipComments hi).trans (reaches_comma i)
        have hle' := (hblock.reaches.trans hi).length_le
        exact ((ih.cases (by omega)).mono (hg.trans hi).admits).bind fun _ _ => trivial
      · trivial

theorem failsOnly_blocks (h : 16 * c.rest.length + 2 ≤ s + 1) :
    FailsOnly c.Admits (blocks (s + 1) d c) := by
  rw [blocks]
  cases hmark : c.blockMark? with
  | none => trivial
  | some next =>
    have hnext := reaches_blockMark? hmark
    have hle := hnext.length_le
    refine ((ih.block (by omega)).mono hnext.admits).bind ?_
    rintro ⟨ns, a⟩ hns
    have hblock := (sound s).block hns
    have hlt := hblock.length_lt
    exact ((ih.blocks (by omega)).mono (hnext.trans hblock.reaches).admits).bind fun _ _ => trivial

theorem failsOnly_argument (h : 16 * c.rest.length + 2 ≤ s + 1) :
    FailsOnly c.Admits (argument (s + 1) d c) := by
  rw [argument]
  split
  · exact (ih.block (by omega)).bind fun _ _ => trivial
  · exact (failsOnly_readExpression c).bind fun _ _ => trivial

theorem failsOnly_arguments (h : 16 * c.rest.length + 3 ≤ s + 1) :
    FailsOnly c.Admits (arguments (s + 1) d c) := by
  have hblank := c.reaches_skipBlank
  have hle := hblank.length_le
  rw [arguments]
  simp only
  split
  · trivial
  · refine ((ih.argument (by omega)).mono hblank.admits).bind ?_
    rintro ⟨arg, a⟩ harg
    have ha := ((sound s).argument harg).reaches.trans a.reaches_skipBlank
    have hle' := ha.length_le
    simp only
    split
    · have hcomma : a.skipBlank.Past [','] (a.skipBlank.skip 1) :=
        past_of_startsWith (s := ",") ‹_›
      have hlt := hcomma.length_lt
      have hnext := hblank.trans (ha.trans hcomma.reaches)
      exact ((ih.arguments (by omega)).mono hnext.admits).bind fun _ _ => trivial
    · split <;> trivial

theorem failsOnly_call (h : 16 * c.rest.length + 1 ≤ s + 1) :
    FailsOnly c.Admits (call (s + 1) d position c) := by
  rw [call]
  refine ((failsOnly_readPath c).mono fun _ => .of_placed).bind ?_
  rintro ⟨path, a⟩ hpath
  have ha := (ends_of_readPath hpath).reaches
  have hle := ha.length_le
  simp only
  split
  · have hparen : a.Past ['('] (a.skip 1) := past_of_startsWith (s := "(") ‹_›
    have hlt := hparen.length_lt
    have hb := ha.trans hparen.reaches
    refine ((ih.arguments (by omega)).mono hb.admits).bind ?_
    rintro ⟨args, e⟩ hargs
    have he := ((sound s).arguments hargs).reaches
    have hle' := he.length_le
    exact ((ih.blocks (by omega)).mono (hb.trans he).admits).bind fun _ _ => trivial
  · trivial

theorem failsOnly_construct (hat : c.startsWith "@" = true) (h : 16 * c.rest.length + 1 ≤ s + 1) :
    FailsOnly c.Admits (construct (s + 1) d c) := by
  have hmark : c.Past ['@'] (c.skip 1) := past_of_startsWith hat
  have hlt := hmark.length_lt
  rw [construct]
  simp only
  cases hcomment : c.comment? with
  | some comment =>
    exact ((failsOnly_comment? hcomment).mono fun _ => .of_placed).bind fun _ _ => trivial
  | none =>
    simp only
    split
    · have hcolon : (c.skip 1).Reaches ((c.skip 1).skip 1) :=
        (past_of_startsWith (s := ":") ‹_›).reaches
      have hle := hcolon.length_le
      exact (ih.call (by omega)).mono (hmark.reaches.trans hcolon).admits
    · split
      · have hbang := (past_of_startsWith (s := "!") ‹_›).reaches
        have hnext := hmark.reaches.trans hbang
        exact ((failsOnly_readChain _).mono hnext.admits).bind fun _ _ => trivial
      · split
        · rename_i a hword
          obtain ⟨b, -, hpast⟩ := past_keyword? hword
          have hle := hpast.reaches.length_le
          have ha := hmark.reaches.trans hpast.reaches
          exact ((ih.branches (by omega)).mono ha.admits).bind fun _ _ => trivial
        · rename_i a hword
          obtain ⟨b, -, hpast⟩ := past_keyword? hword
          have ha := hmark.reaches.trans (hpast.reaches.trans a.reaches_skipBlank)
          refine ((Pattern.failsOnly_read _).mono ha.admits).bind ?_
          rintro ⟨p, f⟩ hp
          have hf := (Pattern.ends_of_read hp).reaches.trans f.reaches_skipBlank
          simp only
          split
          · have hin : f.skipBlank.Reaches (f.skipBlank.skip 2) :=
              (past_of_atWord (w := "in") ‹_›).reaches
            have hg := ha.trans (hf.trans hin)
            refine ((failsOnly_readExpression _).mono hg.admits).bind ?_
            rintro ⟨e, g⟩ he
            have hg' := hg.trans (ends_of_readExpression he).reaches
            have hle := (hpast.reaches.trans (a.reaches_skipBlank.trans (hf.trans (hin.trans
              (ends_of_readExpression he).reaches)))).length_le
            exact ((ih.block (by omega)).mono hg'.admits).bind fun _ _ => trivial
          · trivial
        · rename_i a hword
          obtain ⟨b, -, hpast⟩ := past_keyword? hword
          have ha := hmark.reaches.trans hpast.reaches
          refine ((failsOnly_readExpression _).mono ha.admits).bind ?_
          rintro ⟨e, f⟩ he
          have hf := (ends_of_readExpression he).reaches.trans f.reaches_skipBlank
          simp only
          split
          · have hbrace : f.skipBlank.Reaches (f.skipBlank.skip 1) :=
              (past_of_startsWith (s := "\x7b") ‹_›).reaches
            have hle := (hpast.reaches.trans (hf.trans hbrace)).length_le
            refine failsOnly_enter.bind fun d' _ => ?_
            exact ((ih.cases (by omega)).mono (ha.trans (hf.trans hbrace)).admits).bind
              fun _ _ => trivial
          · trivial
        · split
          · trivial
          · split
            · exact ((failsOnly_readChain _).mono hmark.reaches.admits).bind fun _ _ => trivial
            · trivial

end Step

/-- **The functions of the reader fail only as the text accounts for.** -/
theorem accounted : ∀ s, Accounted s
  | 0 => by constructor <;> intros <;> omega
  | s + 1 => by
    have ih := accounted s
    exact ⟨failsOnly_body ih, failsOnly_block ih, failsOnly_construct ih, failsOnly_branches ih,
      failsOnly_cases ih, failsOnly_call ih, failsOnly_arguments ih, failsOnly_argument ih,
      failsOnly_blocks ih⟩

end Template.Read

/-! ## Whole texts -/

theorem Cursor.reaches_skipDeclarationEnd (c : Cursor) : c.Reaches c.skipDeclarationEnd := by
  unfold skipDeclarationEnd
  simp only
  split
  · obtain ⟨gap, hgap, -⟩ := (c.skipWhile isSpaceOrTab).past_skipNewline
    exact (c.past_skipWhile _).reaches.trans hgap.reaches
  · exact .refl c

/-- **Reading a template text** fails only as the text accounts for. -/
theorem Outline.failsOnly_parse (text : List Char) :
    FailsOnly (Cursor.ofText text 0).Admits (Outline.parse text) := by
  have hsteps (c : Cursor) : c.rest.length < c.steps := by
    unfold Cursor.steps
    omega
  refine ((Template.Read.failsOnly_preamble (hsteps _)).mono fun _ => .of_placed).bind ?_
  rintro ⟨imports, c⟩ hc
  obtain ⟨hreaches, hstart⟩ := Template.Read.reaches_preamble hc
  have hmark := hreaches.trans (Cursor.past_of_startsWith hstart).reaches
  refine ((Template.Read.failsOnly_params ?_).mono fun _ => .of_placed).bind ?_
  · have := (Cursor.past_of_startsWith hstart).reaches.length_le
    exact Nat.lt_of_le_of_lt this (hsteps _)
  · rintro ⟨ps, a⟩ ha
    obtain ⟨_, hparams⟩ := Template.Read.past_params ha
    have hbody := hmark.trans (hparams.reaches.trans a.reaches_skipDeclarationEnd)
    refine (((Template.Read.accounted _).body ?_).mono hbody.admits).bind fun _ _ => trivial
    unfold Cursor.steps
    omega

/-! ## Numbers that cannot be read -/

namespace Expr

variable {c : Cursor} {spaced : Bool}

/-- An integer without a value fails as a literal. -/
theorem ofToken_of_isUnreadable {k : Token} (hk : k.kind = .int) (h : Literal.IsUnreadable k.text) :
    Literal.ofToken k = some (.error .unreadableNumber) := by
  rw [Literal.ofToken, hk]
  simp only [Literal.ofInt_error.mpr ⟨rfl, h⟩]
  rfl

/-- **An expression that starts with an integer without a value is refused**, at no position. -/
theorem readExpression_unreadable (hk : (c.peek true).1.kind = .int)
    (h : Literal.IsUnreadable (c.peek true).1.text) :
    readExpression c = .error .unreadableNumber := by
  have hunary : Read.unaryOp? (c.peek true).1 = none := by
    simp [Read.unaryOp?, Token.isKeyword, Token.isOp, hk]
  obtain ⟨s, hs⟩ : ∃ s, c.steps = s + 10 := ⟨c.steps - 10, by unfold Cursor.steps; omega⟩
  have hprimary : ∀ s d, Read.primary (s + 1) true d c = .error .unreadableNumber := fun s d => by
    rw [Read.primary]
    simp only [ofToken_of_isUnreadable hk h]
    rfl
  have hpostfixed : ∀ s d, Read.postfixed (s + 2) true d c = .error .unreadableNumber := by
    intro s d
    rw [Read.postfixed, hprimary]
    rfl
  have hbinary : ∀ k l s, l + k = BinaryOp.levels →
      Read.binary (s + k + 4) true 0 l c = .error .unreadableNumber := by
    intro k
    induction k with
    | zero =>
      intro l s hl
      rw [Read.binary, if_neg (by omega), Read.unary]
      simp only [hunary]
      exact hpostfixed s 0
    | succ k ih =>
      intro l s hl
      have hnext := ih (l + 1) s (by omega)
      rw [show s + (k + 1) + 4 = s + k + 4 + 1 by omega, Read.binary, if_pos (by omega), hnext]
      rfl
  rw [readExpression, hs, Read.expression, hbinary 5 0 s rfl]
  rfl

end Expr

/-- **How reading fails.** Every text is read as an expression, and as a template, or refused at a
position, or an integer in it has no value; the same holds of reading an expression, a chain or a
pattern at any position of a text, and a path is always read or refused at a position. An integer
without a value is one with a base and no digits, or one with too many decimal digits, and reading
an expression that starts with one does fail. -/
theorem reading_failsOnly (text : List Char) (start : Nat) (name : TemplateName) (path : Path)
    (file : String) :
    let c := Cursor.ofText text start
    FailsOnly (Cursor.ofText text 0).Admits (Expr.parse text) ∧
      (∃ r : Except Failure Template, Template.parse name path file text =
          Source.lift ⟨text, file⟩ r ∧ FailsOnly (Cursor.ofText text 0).Admits r) ∧
      FailsOnly c.Admits (readExpression c) ∧ FailsOnly c.Admits (readChain c) ∧
      FailsOnly c.Admits (Pattern.read c) ∧ FailsOnly Failure.IsPlaced (readPath c) ∧
      ((c.peek true).1.kind = .int ∧ Literal.IsUnreadable (c.peek true).1.text →
        readExpression c = .error .unreadableNumber) := by
  refine ⟨failsOnly_parse text, ?_, failsOnly_readExpression _, failsOnly_readChain _,
    Pattern.failsOnly_read _, failsOnly_readPath _, fun h => readExpression_unreadable h.1 h.2⟩
  have hread := Outline.failsOnly_parse text
  unfold Template.parse
  cases hparse : Outline.parse text with
  | ok outline => exact ⟨.ok { name, outline with path, text }, rfl, trivial⟩
  | error f =>
    rw [hparse] at hread
    exact ⟨.error f, rfl, hread⟩

theorem reading_failsOnly_baseWithoutDigits :
    readExpression (.ofText "0x_ + 1".toList 0) = .error .unreadableNumber ∧
      FailsOnly (Cursor.ofText "0x_ + 1".toList 0).Admits (Expr.parse "0x_ + 1".toList) := by
  have h := reading_failsOnly "0x_ + 1".toList 0 ⟨[], "a", "html"⟩ (.parse "a.html") "a.html"
  exact ⟨h.2.2.2.2.2.2 ⟨rfl, .inl ⟨'x', rfl, rfl⟩⟩, h.1⟩

/-- A base without digits is refused at no position, in an expression or in a template. -/
theorem baseWithoutDigits_unplaced :
    ¬ FailsOnly Failure.IsPlaced (Expr.parse "0x_".toList) ∧
      ¬ FailsOnly Failure.IsPlaced (Outline.parse "@()\n@(0x_)".toList) := by
  have hexpr : Expr.parse "0x_".toList = .error .unreadableNumber := by rfl
  have htemplate : Outline.parse "@()\n@(0x_)".toList = .error .unreadableNumber := by rfl
  rw [hexpr, htemplate]
  exact ⟨id, id⟩

end Stencil
