import Mathlib.Logic.Relation
import Stencil.Proofs.ReadSpans

/-!
# Each character of a template's text is accounted for

The nodes of a body follow each other in the text as they do in the body. The stretch from a text
node to the next node stands for its text, a construct runs up to the next node but for a line break
behind its last brace, and so it goes on in each block of the body, at any depth.

* `Node.Kept`: what the text holds from a node to what follows it.
* `Body.Accounted`: the nodes of a body stand in a part of the text one after another, and each is
  kept.
* `Outline.DeclaredUpTo`: where the declaration of a template ends.
* **`Outline.text_accounted`**: a template that is read is accounted for, in each of its bodies.
-/

namespace Stencil

open Text Expr

/-! ## Cursors of a text -/

namespace Cursor

variable {text part : List Char} {c d : Cursor}

/-- **The cursor stands in the text.** -/
def In (c : Cursor) (text : List Char) : Prop := (Cursor.ofText text 0).Reaches c

theorem in_ofText (text : List Char) : (Cursor.ofText text 0).In text := .refl _

theorem In.reaches (h : c.In text) (h' : c.Reaches d) : d.In text := h.trans h'

theorem In.position_le (h : c.In text) : c.position ≤ text.length := by
  obtain ⟨part, hrest, hposition⟩ := h
  have hlength : text.length = part.length + c.rest.length := by
    rw [← List.length_append, ← hrest]
    rfl
  have hstart : (ofText text 0).position = 0 := Nat.zero_min _
  omega

/-- A cursor is where it stands. -/
theorem In.eq (h : c.In text) : c = Cursor.ofText text c.position := by
  have hle := h.position_le
  obtain ⟨part, hrest, hposition⟩ := h
  have hstart : (ofText text 0).position = 0 := Nat.zero_min _
  rw [hstart, Nat.zero_add] at hposition
  have htext : text = part ++ c.rest := hrest
  have hdrop : text.drop c.position = c.rest := by
    rw [hposition]
    nth_rewrite 1 [htext]
    exact List.drop_left
  cases c
  rw [ofText, Nat.min_eq_left hle, hdrop]

theorem In.rest (h : c.In text) : c.rest = text.drop c.position := by
  nth_rewrite 1 [h.eq]
  rfl

/-- **The text between two of its cursors.** -/
theorem In.extract (h : c.In text) (hpast : c.Past part d) :
    text.extract c.position d.position = part := by
  rw [List.extract_eq_take_drop, ← h.rest, hpast.2, hpast.1, Nat.add_sub_cancel_left, List.take_left]

/-- The character at a cursor. -/
theorem In.getElem? {ch : Char} (h : c.In text) (hpast : c.Past (ch :: part) d) :
    text[c.position]? = some ch := by
  rw [← List.head?_drop, ← h.rest, hpast.1]
  rfl

end Cursor

/-! ## Bodies and their blocks -/

/-- The blocks of a construct. -/
def Node.blocks : Node → List Body
  | .branch _ arms otherwise => arms.map (·.2) ++ otherwise.toList
  | .loop _ _ _ body => [body]
  | .cases _ _ arms => arms.map (·.2.2)
  | .call _ _ args blocks => args.filterMap Sum.getRight? ++ blocks
  | _ => []

/-- The body is a block of a node of another one. -/
def Body.IsBlockOf (inner outer : Body) : Prop := ∃ n ∈ outer, inner ∈ n.blocks

/-- Where the first node starts; the given end if there is none. -/
def Body.start (ns : Body) (stop : Nat) : Nat := (ns.head?.map Node.position).getD stop

/-- **What the text holds from a node up to `next`, where the next one starts**: what a text node
stands for, or a construct and the gap behind it. -/
def Node.Kept (text : List Char) (n : Node) (next : Nat) : Prop :=
  match n with
  | .text p t => Template.unescape? (text.extract p next) = some t.toList
  | n => ∃ stop, n.position < stop ∧ stop ≤ next ∧
      Node.Spans (Cursor.ofText text n.position) (Cursor.ofText text stop) n ∧
      n.Gap (text.extract stop next)

/-- **The nodes of a body stand in the text from `p` to `q` one after another**, and each is kept. -/
structure Body.Accounted (text : List Char) (p q : Nat) (ns : Body) : Prop where
  start : Body.start ns q = p
  increasing : (ns.map Node.position).Pairwise (· < ·)
  kept : ∀ before n after, ns = before ++ n :: after → n.Kept text (Body.start after q)
  inside : ∀ n ∈ ns, p ≤ n.position ∧ n.position < q
  stop_le : q ≤ text.length

namespace Body

variable {text : List Char} {p q m : Nat} {n : Node} {ns : Body}

theorem accounted_nil (h : q ≤ text.length) : Accounted text q q [] where
  start := rfl
  increasing := .nil
  kept := fun before n after h => by cases before <;> cases h
  inside := fun n h => by cases h
  stop_le := h

/-- A node in front of a body. -/
theorem Accounted.cons (h : Accounted text m q ns) (hm : m ≤ q) (hn : n.position < m)
    (hkept : n.Kept text m) : Accounted text n.position q (n :: ns) where
  start := rfl
  increasing := by
    rw [List.map_cons, List.pairwise_cons]
    refine ⟨fun k hk => ?_, h.increasing⟩
    obtain ⟨n', hn', rfl⟩ := List.mem_map.mp hk
    exact Nat.lt_of_lt_of_le hn (h.inside n' hn').1
  kept := fun before n' after hsplit => by
    cases before with
    | nil =>
      cases hsplit
      rwa [h.start]
    | cons b before =>
      obtain ⟨-, hsplit⟩ := List.cons.inj hsplit
      exact h.kept before n' after hsplit
  inside := fun n' hn' => by
    rcases List.mem_cons.mp hn' with rfl | hn'
    · exact ⟨Nat.le_refl _, Nat.lt_of_lt_of_le hn hm⟩
    · have := h.inside n' hn'
      omega
  stop_le := h.stop_le

/-- A text node is kept. -/
theorem kept_text {c d : Cursor} {part t : List Char} (hin : c.In text) (hpast : c.Past part d)
    (h : Template.unescape? part = some t) :
    (Node.text c.position (String.ofList t)).Kept text d.position := by
  show Template.unescape? (text.extract c.position d.position) = some (String.ofList t).toList
  rw [hin.extract hpast, h, String.toList_ofList]

/-- A construct is kept. -/
theorem kept_construct {c d e : Cursor} {gap : List Char} (hin : c.In text)
    (hnode : Node.Spans c d n) (hpast : d.Past gap e) (hgap : n.Gap gap) :
    n.Kept text e.position := by
  have hin' := hin.reaches hnode.marked.reaches
  have hkept : ∃ stop, n.position < stop ∧ stop ≤ e.position ∧
      Node.Spans (Cursor.ofText text n.position) (Cursor.ofText text stop) n ∧
      n.Gap (text.extract stop e.position) := by
    refine ⟨d.position, ?_, hpast.position_le, ?_, ?_⟩
    · rw [hnode.position]
      exact hnode.marked.position_lt
    · rwa [hnode.position, ← hin.eq, ← hin'.eq]
    · rwa [hin'.extract hpast]
  cases n with
  | text => cases hnode
  | _ => exact hkept

/-- **A body is accounted for where it is written.** -/
theorem Spans.accounted : ∀ {c d : Cursor} {ns : Body}, Body.Spans c d ns → c.In text →
    Accounted text c.position d.position ns
  | _, _, _, .nil c, hin => accounted_nil hin.position_le
  | _, _, _, .text (c := c) (t := t) hpast hunescaped hne hrest, hin => by
    have hpart := hpast.position_lt (Template.ne_nil_of_unescape? hunescaped hne)
    have hrest' := hrest.accounted (hin.reaches hpast.reaches)
    exact hrest'.cons (n := .text c.position (String.ofList t)) hrest.reaches.position_le hpart
      (kept_text hin hpast hunescaped)
  | _, _, _, .construct (c := c) (n := n) hnode hpast hgap hrest, hin => by
    have hin' := hin.reaches (hnode.marked.reaches.trans hpast.reaches)
    have hlt : n.position < _ := hnode.position ▸
      Nat.lt_of_lt_of_le hnode.marked.position_lt hpast.position_le
    rw [← hnode.position]
    exact (hrest.accounted hin').cons hrest.reaches.position_le hlt
      (kept_construct hin hnode hpast hgap)

/-! ### Blocks -/

/-- A block stands behind a cursor. -/
def Written (c : Cursor) (ns : Body) : Prop := ∃ a d, c.Reaches a ∧ Block.Spans a d ns

theorem Written.after {c d : Cursor} (h : Written d ns) (hc : c.Reaches d) : Written c ns := by
  obtain ⟨a, e, ha, he⟩ := h
  exact ⟨a, e, hc.trans ha, he⟩

theorem written_of_spans {c d : Cursor} (h : Block.Spans c d ns) : Written c ns :=
  ⟨c, d, .refl c, h⟩

theorem written_of_arms : ∀ {c d : Cursor} {arms : List (Condition × Body)}
    {otherwise : Option Body}, Arms.Spans c d arms otherwise →
    ∀ ns ∈ arms.map (·.2) ++ otherwise.toList, Written c ns
  | _, _, _, _, .one hhead hbody, ns, h => by
    rw [List.mem_singleton.mp h]
    exact (written_of_spans hbody).after (reaches_condition hhead)
  | _, _, _, _, .otherwise hhead hbody hmark hlast, ns, h => by
    have hcond := reaches_condition hhead
    rcases List.mem_pair.mp h with rfl | rfl
    · exact (written_of_spans hbody).after hcond
    · have hnext := hbody.reaches.trans (Cursor.reaches_elseMark? hmark)
      exact (written_of_spans hlast).after (hcond.trans hnext)
  | _, _, _, _, .more hhead hbody hmark hrest, ns, h => by
    have hcond := reaches_condition hhead
    rcases List.mem_cons.mp h with rfl | h
    · exact (written_of_spans hbody).after hcond
    · have hnext := hbody.reaches.trans (Cursor.reaches_elseMark? hmark)
      exact (written_of_arms hrest ns h).after (hcond.trans hnext)

theorem written_of_cases : ∀ {c d : Cursor} {arms : List (Pattern × Option Expr × Body)},
    Cases.Spans c d arms → ∀ ns ∈ arms.map (·.2.2), Written c ns
  | _, _, _, .done _ _, ns, h => by cases h
  | c, _, _, .more (f := f) hskipped hpattern hguard harrow hbody hafter hcomma _ hrest, ns, h => by
    have hhead : c.Reaches f := (Cursor.reaches_skipComments hskipped).trans
      ((Pattern.ends_of_read hpattern).reaches.trans ((Cursor.reaches_skipBlank _).trans
        ((reaches_guard? hguard).trans harrow.reaches)))
    rcases List.mem_cons.mp h with rfl | h
    · exact (written_of_spans hbody).after hhead
    · have hnext := hbody.reaches.trans ((Cursor.reaches_skipComments hafter).trans hcomma.reaches)
      exact (written_of_cases hrest ns h).after (hhead.trans hnext)

theorem written_of_arg {c d : Cursor} {arg : Expr ⊕ Body} (h : Arg.Spans c d arg)
    (hns : arg.getRight? = some ns) : Written c ns := by
  cases h with
  | block hbody =>
    cases hns
    exact written_of_spans hbody
  | value => cases hns

theorem written_of_args : ∀ {c d : Cursor} {args : List (Expr ⊕ Body)}, Args.Spans c d args →
    ∀ ns ∈ args.filterMap Sum.getRight?, Written c ns
  | _, _, _, .done _, ns, h => by cases h
  | c, _, _, .last harg _, ns, h => by
    obtain ⟨arg, hmem, hns⟩ := List.mem_filterMap.mp h
    rw [List.mem_singleton.mp hmem] at hns
    exact (written_of_arg harg hns).after c.reaches_skipBlank
  | c, _, _, .more harg hcomma hrest, ns, h => by
    obtain ⟨arg, hmem, hns⟩ := List.mem_filterMap.mp h
    rcases List.mem_cons.mp hmem with rfl | hmem
    · exact (written_of_arg harg hns).after c.reaches_skipBlank
    · have hnext := harg.reaches.trans ((Cursor.reaches_skipBlank _).trans hcomma.reaches)
      have hlater := written_of_args hrest ns (List.mem_filterMap.mpr ⟨arg, hmem, hns⟩)
      exact hlater.after (c.reaches_skipBlank.trans hnext)

theorem written_of_blocks : ∀ {c d : Cursor} {blocks : List Body}, Blocks.Spans c d blocks →
    ∀ ns ∈ blocks, Written c ns
  | _, _, _, .done _, ns, h => by cases h
  | _, _, _, .more hmark hbody hrest, ns, h => by
    have hnext := Cursor.reaches_blockMark? hmark
    rcases List.mem_cons.mp h with rfl | h
    · exact (written_of_spans hbody).after hnext
    · exact (written_of_blocks hrest ns h).after (hnext.trans hbody.reaches)

/-- **The blocks of a construct are written behind its mark.** -/
theorem written_of_node {c d : Cursor} (h : Node.Spans c d n) (hns : ns ∈ n.blocks) :
    Written c ns := by
  cases h with
  | branch hmark _ harms => exact (written_of_arms harms ns hns).after hmark.reaches
  | loop hmark _ hpattern hword hiterable hbody =>
    rw [List.mem_singleton.mp hns]
    exact (written_of_spans hbody).after (hmark.reaches.trans ((Cursor.reaches_skipBlank _).trans
      ((Pattern.ends_of_read hpattern).reaches.trans ((Cursor.reaches_skipBlank _).trans
        (hword.reaches.trans (ends_of_readExpression hiterable).reaches)))))
  | cases hmark _ hsubject hbrace harms =>
    exact (written_of_cases harms ns hns).after (hmark.reaches.trans
      ((ends_of_readExpression hsubject).reaches.trans
        ((Cursor.reaches_skipBlank _).trans hbrace.reaches)))
  | call hmark hpath hparen hargs hblocks =>
    have hstart := hmark.reaches.trans ((ends_of_readPath hpath).reaches.trans hparen.reaches)
    rcases List.mem_append.mp hns with h | h
    · exact (written_of_args hargs ns h).after hstart
    · exact (written_of_blocks hblocks ns h).after (hstart.trans hargs.reaches)
  | _ => cases hns

theorem written_of_body : ∀ {c d : Cursor} {ns : Body}, Body.Spans c d ns →
    ∀ inner, IsBlockOf inner ns → Written c inner
  | _, _, _, .nil _, inner, ⟨_, hn, _⟩ => by cases hn
  | _, _, _, .text hpast _ _ hrest, inner, ⟨n, hn, hinner⟩ => by
    rcases List.mem_cons.mp hn with rfl | hn
    · cases hinner
    · exact (written_of_body hrest inner ⟨n, hn, hinner⟩).after hpast.reaches
  | _, _, _, .construct hnode hpast _ hrest, inner, ⟨n, hn, hinner⟩ => by
    rcases List.mem_cons.mp hn with rfl | hn
    · exact written_of_node hnode hinner
    · exact (written_of_body hrest inner ⟨n, hn, hinner⟩).after
        (hnode.marked.reaches.trans hpast.reaches)

/-- **A block at any depth is written.** -/
theorem Spans.written_of_within {c d : Cursor} {inner : Body} (h : Body.Spans c d ns)
    (hinner : Relation.TransGen IsBlockOf inner ns) : Written c inner := by
  induction hinner using Relation.TransGen.head_induction_on with
  | single hblock => exact written_of_body h _ hblock
  | head hblock _ ih =>
    obtain ⟨a, e, ha, hspans⟩ := ih
    obtain ⟨hopening, hbody, -⟩ := hspans
    have hstart := ha.trans ((Cursor.reaches_skipBlank _).trans hopening.reaches)
    exact (written_of_body hbody _ hblock).after hstart

end Body

/-! ## The declaration -/

/-- **What may stand between a declaration and its body**: nothing, or spaces and tabs with a line
break after them. -/
def IsDeclarationEnd (gap : List Char) : Prop :=
  gap = [] ∨ ∃ blanks lineBreak, gap = blanks ++ lineBreak ∧
    (∀ c ∈ blanks, isSpaceOrTab c = true) ∧ IsLineBreak lineBreak

theorem Cursor.past_skipDeclarationEnd (c : Cursor) :
    ∃ gap, c.Past gap c.skipDeclarationEnd ∧ IsDeclarationEnd gap := by
  have hblanks := c.past_skipWhile isSpaceOrTab
  have hall : ∀ ch ∈ c.rest.takeWhile isSpaceOrTab, isSpaceOrTab ch = true :=
    List.all_eq_true.mp List.all_takeWhile
  unfold skipDeclarationEnd
  dsimp only
  split
  · obtain ⟨gap, hgap, h⟩ := past_lineBreak ‹_›
    exact ⟨_, hblanks.append hgap, .inr ⟨_, gap, rfl, hall, h⟩⟩
  · exact ⟨[], .nil c, .inl rfl⟩

/-! ## Whole templates -/

/-- **The declaration of a template ends at a position of its text**, behind the closing parenthesis
of its parameters. -/
def Outline.DeclaredUpTo (o : Outline) (text : List Char) (stop : Nat) : Prop :=
  ∃ c : Cursor, ∃ last, Template.Read.preamble (Cursor.ofText text 0).steps (Cursor.ofText text 0) =
      .ok (o.imports, c) ∧ c.startsWith "@(" = true ∧
    Template.Read.params c.steps [] (c.skip 2) = .ok (o.params, Cursor.ofText text stop) ∧
    stop = last + 1 ∧ text[last]? = some ')'

/-- **Each character of a template's text is accounted for.** The body of a template that is read
starts behind the declaration and at most one line end, and reaches to the end of the text; each
block of it, at any depth, reaches from its opening to its closing brace. In each of these bodies
the positions of the nodes increase, the stretch from a text node to the next node stands for its
text once the escapes are undone, and between the end of a construct and the next node there is
nothing, or one line break behind the last brace of the construct. -/
theorem Outline.text_accounted {text : List Char} {o : Outline} (h : Outline.parse text = .ok o) :
    (∃ stop start, o.DeclaredUpTo text stop ∧ stop ≤ start ∧
      IsDeclarationEnd (text.extract stop start) ∧
      Body.Accounted text start text.length o.body) ∧
    ∀ inner, Relation.TransGen Body.IsBlockOf inner o.body → ∃ p q,
      text[p]? = some '\x7b' ∧ Body.Accounted text (p + 1) q inner ∧ text[q]? = some '\x7d' := by
  simp only [Outline.parse, Except.bind_ok] at h
  obtain ⟨⟨imports, c⟩, hpreamble, ⟨params, d⟩, hparams, ⟨body, e⟩, hbody, h⟩ := h
  cases h
  obtain ⟨hreaches, hmark⟩ := Template.Read.reaches_preamble hpreamble
  have hin := (Cursor.in_ofText text).reaches
    (hreaches.trans (Cursor.past_of_startsWith hmark).reaches)
  obtain ⟨part, hpart⟩ := Template.Read.past_params hparams
  obtain ⟨m, hbefore, hclosing⟩ := hpart.split
  have hinClosing := hin.reaches hbefore.reaches
  have hinBody := hinClosing.reaches hclosing.reaches
  obtain ⟨gap, hgap, hend⟩ := d.past_skipDeclarationEnd
  obtain ⟨hspans, hstop⟩ := Template.Read.spans_of_body hbody
  have hinStart := hinBody.reaches hgap.reaches
  have hinEnd := hinStart.reaches hspans.reaches
  have hlength : e.position = text.length := by
    have hrest := hinEnd.rest
    rw [hstop, eq_comm, List.drop_eq_nil_iff] at hrest
    exact Nat.le_antisymm hinEnd.position_le hrest
  refine ⟨⟨d.position, d.skipDeclarationEnd.position, ?_, hgap.position_le, ?_, ?_⟩, ?_⟩
  · exact ⟨c, m.position, hpreamble, hmark, by rw [← hinBody.eq]; exact hparams, hclosing.2,
      hinClosing.getElem? hclosing⟩
  · rwa [hinBody.extract hgap]
  · rw [← hlength]
    exact hspans.accounted hinStart
  · intro inner hinner
    obtain ⟨a, f, ha, hblock⟩ := hspans.written_of_within hinner
    obtain ⟨hopening, hinside, hclose⟩ := hblock
    have hinOpen := hinStart.reaches (ha.trans a.reaches_skipBlank)
    have hinInside := hinOpen.reaches hopening.reaches
    refine ⟨_, _, hinOpen.getElem? hopening, ?_, (hinInside.reaches hinside.reaches).getElem? hclose⟩
    have haccounted := hinside.accounted hinInside
    rwa [hopening.2] at haccounted

/-- A template with escapes, a value before a point, line breaks after blocks and a comment. -/
def mixedText : List Char :=
  ("@(x: str) \t\nA @@ @x. @if x \x7b @\x7d@x\x7d else \x7b\x7d\r\n@// c\n@:f() \x7b@* d *@\x7d\n." ++
    "\n").toList

theorem Outline.text_accounted_mixedText : ∃ o, Outline.parse mixedText = .ok o ∧
    (∃ stop start, o.DeclaredUpTo mixedText stop ∧ stop ≤ start ∧
      IsDeclarationEnd (mixedText.extract stop start) ∧
      Body.Accounted mixedText start mixedText.length o.body) ∧
    ∀ inner, Relation.TransGen Body.IsBlockOf inner o.body → ∃ p q,
      mixedText[p]? = some '\x7b' ∧ Body.Accounted mixedText (p + 1) q inner ∧
        mixedText[q]? = some '\x7d' := by
  have hread : (Outline.parse mixedText).toBool = true := by decide +kernel
  cases h : Outline.parse mixedText with
  | error f =>
    rw [h] at hread
    cases hread
  | ok o => exact ⟨o, rfl, text_accounted h⟩

end Stencil
