import Stencil.Proofs.BodySpans

/-!
# The reader returns what is written

Whatever template is read, each body that comes out is written where it was read. The proof is by
induction on the steps of the reader; its functions are treated together, and the text that is
pending in front of a cursor is carried along as what the text before the cursor stands for.

* `Template.Read.Pending.Holds`: the pending text is what a stretch of the text stands for.
* `Template.Read.Sound`: what the functions of the reader return is written.
* **`Template.Read.spans_of_body`**: a body that is read is written.
* `Template.Read.reaches_preamble`, `Template.Read.past_params`: where parts of a declaration end.
-/

namespace Stencil

open Text Expr

namespace Template.Read

/-! ## Pending text -/

/-- **The pending text is what the text between two cursors stands for**, and starts with it if
there is any. -/
def Pending.Holds (p : Pending) (start c : Cursor) : Prop :=
  (p.text = [] ∨ p.position = start.position) ∧
    ∃ part, start.Past part c ∧ unescape? part = some p.text

section Pending

variable {p : Pending} {start c d : Cursor} {part t : List Char} {ns : List Node}

/-- Nothing is pending yet. -/
theorem Pending.holds_nil (position : Nat) (c : Cursor) : (⟨position, []⟩ : Pending).Holds c c :=
  ⟨.inl rfl, [], .nil c, rfl⟩

/-- More text is pending. -/
theorem Pending.Holds.add (h : p.Holds start c) (hpast : c.Past part d)
    (ht : unescape? part = some t) : (p.add c.position t).Holds start d := by
  obtain ⟨hposition, before, hbefore, hunescaped⟩ := h
  unfold Pending.add
  split
  · rename_i hempty
    rw [List.isEmpty_iff.mp hempty] at hunescaped
    obtain rfl := eq_nil_of_unescape? hunescaped
    obtain rfl := hbefore.eq_of_nil
    exact ⟨.inr rfl, part, hpast, ht⟩
  · rename_i hne
    have hposition := hposition.resolve_left fun h => hne (List.isEmpty_iff.mpr h)
    exact ⟨.inr hposition, before ++ part, hbefore.append hpast, unescape?_append hunescaped ht⟩

/-- The pending text becomes a node in front of others. -/
theorem Pending.Holds.spans (h : p.Holds start c) (hns : Body.Spans c d ns) :
    Body.Spans start d (p.nodes ++ ns) := by
  obtain ⟨hposition, part, hpast, hunescaped⟩ := h
  unfold Pending.nodes
  split
  · rename_i hempty
    rw [List.isEmpty_iff.mp hempty] at hunescaped
    obtain rfl := eq_nil_of_unescape? hunescaped
    obtain rfl := hpast.eq_of_nil
    exact hns
  · rename_i hne
    have hne : p.text ≠ [] := fun h => hne (List.isEmpty_iff.mpr h)
    rw [hposition.resolve_left hne]
    exact .text hpast hunescaped hne hns

end Pending

/-! ## Runs of plain text and escapes -/

/-- A run of plain text is at the front of the text and has no `@`; outside of blocks it ends at an
`@` or with the text. -/
theorem plainRun_eq (inBlock : Bool) (braces : Nat) (cs : List Char) :
    ∃ rest, cs = (Cursor.plainRun inBlock braces cs).1 ++ rest ∧
      '@' ∉ (Cursor.plainRun inBlock braces cs).1 ∧
      (inBlock = false → rest.head?.all (· = '@') = true) := by
  -- A character of the run in front of the run that follows it.
  have hcons {c : Char} {cs run : List Char} (hc : c ≠ '@')
      (ih : ∃ rest, cs = run ++ rest ∧ '@' ∉ run ∧
        (inBlock = false → rest.head?.all (· = '@') = true)) :
      ∃ rest, c :: cs = c :: run ++ rest ∧ '@' ∉ c :: run ∧
        (inBlock = false → rest.head?.all (· = '@') = true) := by
    obtain ⟨rest, hrest, hfree, hend⟩ := ih
    refine ⟨rest, congrArg (c :: ·) hrest, ?_, hend⟩
    rw [List.mem_cons, not_or]
    exact ⟨Ne.symm hc, hfree⟩
  fun_induction Cursor.plainRun inBlock braces cs with
  | case1 => exact ⟨[], rfl, List.not_mem_nil, fun _ => rfl⟩
  | case2 braces cs => exact ⟨'@' :: cs, rfl, List.not_mem_nil, fun _ => rfl⟩
  | case3 _ _ _ hat _ _ _ heq ih =>
    rw [heq] at ih
    exact hcons hat ih
  | case4 c cs _ _ hclose =>
    rw [Bool.and_eq_true] at hclose
    exact ⟨c :: cs, rfl, List.not_mem_nil, fun h => by rw [h] at hclose; cases hclose.1⟩
  | case5 _ _ hat _ _ _ _ _ heq ih =>
    rw [heq] at ih
    exact hcons hat ih
  | case6 _ _ _ hat _ _ _ _ heq ih =>
    rw [heq] at ih
    exact hcons hat ih

/-- An escape stands for its character. -/
theorem past_escaped? {c : Cursor} {ch : Char} (h : c.escaped? = some ch) :
    c.Past ['@', ch] (c.skip 2) ∧ unescape? ['@', ch] = some [ch] := by
  have hpast {x : Char} {cs : List Char} (hrest : c.rest = '@' :: x :: cs) :
      c.Past ['@', x] (c.skip 2) := (Cursor.past_skip hrest).1
  unfold Cursor.escaped? at h
  split at h
  · cases h
    exact ⟨hpast ‹_›, rfl⟩
  · cases h
    exact ⟨hpast ‹_›, rfl⟩
  · cases h
    exact ⟨hpast ‹_›, rfl⟩
  · cases h

/-! ## The functions of the reader -/

/-- **What the functions of the reader return in a number of steps is written** where they read. -/
structure Sound (s : Nat) : Prop where
  body : ∀ {inBlock d braces pending start c ns c'}, pending.Holds start c →
    body s inBlock d braces pending c = .ok (ns, c') →
    Body.Spans start c' ns ∧ (inBlock = false → c'.rest = [])
  block : ∀ {d c ns c'}, block s d c = .ok (ns, c') → Block.Spans c c' ns
  construct : ∀ {d c n c'}, c.startsWith "@" = true → construct s d c = .ok (n, c') →
    ∃ e gap, Node.Spans c e n ∧ e.Past gap c' ∧ n.Gap gap
  branches : ∀ {d c arms otherwise c'}, branches s d c = .ok (arms, otherwise, c') →
    Arms.Spans c c' arms otherwise
  cases : ∀ {d start c arms c'}, cases s d start c = .ok (arms, c') → Cases.Spans c c' arms
  call : ∀ {d c a n c'}, c.Past ['@', ':'] a → call s d c.position a = .ok (n, c') →
    ∃ e gap, Node.Spans c e n ∧ e.Past gap c' ∧ n.Gap gap
  arguments : ∀ {d c args c'}, arguments s d c = .ok (args, c') → Args.Spans c c' args
  argument : ∀ {d c arg c'}, argument s d c = .ok (arg, c') → Arg.Spans c c' arg
  blocks : ∀ {d c bs c'}, blocks s d c = .ok (bs, c') → Blocks.Spans c c' bs

section Step

variable {s d braces position : Nat} {inBlock : Bool} {pending : Pending} {start c c' a : Cursor}
variable {n : Node} {ns : List Node}

/-- A construct with blocks, and the line break after it. -/
theorem spans_trimmed {e : Cursor} (hnode : Node.Spans c e n) (hends : n.endsInBlock = true) :
    ∃ e' gap, Node.Spans c e' n ∧ e'.Past gap e.skipNewline ∧ n.Gap gap := by
  obtain ⟨gap, hgap, hbreak⟩ := e.past_skipNewline
  exact ⟨e, gap, hnode, hgap, hbreak.imp_right fun h => ⟨hends, h⟩⟩

variable (ih : Sound s)
include ih

theorem spans_body (hp : pending.Holds start c)
    (h : body (s + 1) inBlock d braces pending c = .ok (ns, c')) :
    Body.Spans start c' ns ∧ (inBlock = false → c'.rest = []) := by
  obtain ⟨rest, hrest, hfree, hend⟩ := plainRun_eq inBlock braces c.rest
  rw [body] at h
  generalize Cursor.plainRun inBlock braces c.rest = run at *
  obtain ⟨run, braces'⟩ := run
  obtain ⟨hrun, hleft⟩ := Cursor.past_skip hrest
  have hp' := hp.add hrun (unescape?_plain hfree)
  simp only at h
  split at h
  · rename_i ch hescaped
    obtain ⟨hpast, hunescaped⟩ := past_escaped? hescaped
    exact ih.body (hp'.add hpast hunescaped) h
  · split at h
    · rename_i hat
      obtain ⟨⟨n, e⟩, hn, h⟩ := Except.bind_ok.mp h
      obtain ⟨⟨ms, e'⟩, hms, h⟩ := Except.bind_ok.mp h
      cases h
      obtain ⟨b, gap, hnode, hpast, hgap⟩ := ih.construct hat hn
      obtain ⟨hbody, hstop⟩ := ih.body (Pending.holds_nil _ e) hms
      exact ⟨hp'.spans (.construct hnode hpast hgap hbody), hstop⟩
    · rename_i hat
      cases h
      refine ⟨?_, fun hb => ?_⟩
      · have := hp'.spans (.nil _)
        rwa [List.append_nil] at this
      · rw [hleft]
        cases rest with
        | nil => rfl
        | cons x rest =>
          have hx : x = '@' := by simpa using hend hb
          rw [Cursor.startsWith, hleft, hx] at hat
          exact absurd rfl hat

theorem spans_block (h : block (s + 1) d c = .ok (ns, c')) : Block.Spans c c' ns := by
  rw [block] at h
  simp only at h
  split at h
  · have hopening := Cursor.past_of_startsWith (s := "\x7b") ‹_›
    obtain ⟨d', -, h⟩ := Except.bind_ok.mp h
    obtain ⟨⟨ms, close⟩, hms, h⟩ := Except.bind_ok.mp h
    simp only at h
    split at h
    · have hclosing := Cursor.past_of_startsWith (s := "\x7d") ‹_›
      cases h
      exact .braces hopening (ih.body (Pending.holds_nil _ _) hms).1 hclosing
    · cases h
  · cases h

theorem spans_branches {arms : List (Condition × Body)} {otherwise : Option Body}
    (h : branches (s + 1) d c = .ok (arms, otherwise, c')) : Arms.Spans c c' arms otherwise := by
  rw [branches] at h
  obtain ⟨⟨cond, a⟩, hcond, h⟩ := Except.bind_ok.mp h
  obtain ⟨⟨ms, b⟩, hms, h⟩ := Except.bind_ok.mp h
  have hblock := ih.block hms
  simp only at h
  split at h
  · cases h
    exact .one hcond hblock
  · rename_i next hmark
    split at h
    · obtain ⟨⟨last, e⟩, hlast, h⟩ := Except.bind_ok.mp h
      cases h
      exact .otherwise hcond hblock hmark (ih.block hlast)
    · obtain ⟨⟨more, o, e⟩, hmore, h⟩ := Except.bind_ok.mp h
      cases h
      exact .more hcond hblock hmark (ih.branches hmore)

theorem spans_cases {arms : List (Pattern × Option Expr × Body)}
    (h : cases (s + 1) d position c = .ok (arms, c')) : Cases.Spans c c' arms := by
  rw [cases] at h
  obtain ⟨a, hskipped, h⟩ := Except.bind_ok.mp h
  split at h
  · cases h
  · split at h
    · have hclosing := Cursor.past_of_startsWith (s := "\x7d") ‹_›
      cases h
      exact .done hskipped hclosing
    · obtain ⟨⟨p, b⟩, hp, h⟩ := Except.bind_ok.mp h
      obtain ⟨⟨guard, e⟩, hguard, h⟩ := Except.bind_ok.mp h
      simp only at h
      split at h
      · have harrow := Cursor.past_of_startsWith (s := "=>") ‹_›
        obtain ⟨⟨ms, g⟩, hms, h⟩ := Except.bind_ok.mp h
        obtain ⟨b', hafter, h⟩ := Except.bind_ok.mp h
        obtain ⟨⟨more, e'⟩, hmore, h⟩ := Except.bind_ok.mp h
        cases h
        have hrest := ih.cases hmore
        -- A comma may stand behind the block.
        split at hrest
        · have hcomma := Cursor.past_of_startsWith (s := ",") ‹_›
          exact .more hskipped hp hguard harrow (ih.block hms) hafter hcomma (.inr rfl) hrest
        · exact .more hskipped hp hguard harrow (ih.block hms) hafter (.nil _) (.inl rfl) hrest
      · cases h

theorem spans_blocks {bs : List Body} (h : blocks (s + 1) d c = .ok (bs, c')) :
    Blocks.Spans c c' bs := by
  rw [blocks] at h
  split at h
  · cases h
    exact .done c
  · rename_i next hmark
    obtain ⟨⟨ms, a⟩, hms, h⟩ := Except.bind_ok.mp h
    obtain ⟨⟨more, b⟩, hmore, h⟩ := Except.bind_ok.mp h
    cases h
    exact .more hmark (ih.block hms) (ih.blocks hmore)

theorem spans_argument {arg : Expr ⊕ Body} (h : argument (s + 1) d c = .ok (arg, c')) :
    Arg.Spans c c' arg := by
  rw [argument] at h
  split at h
  · obtain ⟨⟨ms, a⟩, hms, h⟩ := Except.bind_ok.mp h
    cases h
    exact .block (ih.block hms)
  · obtain ⟨⟨e, a⟩, he, h⟩ := Except.bind_ok.mp h
    cases h
    exact .value he

theorem spans_arguments {args : List (Expr ⊕ Body)}
    (h : arguments (s + 1) d c = .ok (args, c')) : Args.Spans c c' args := by
  rw [arguments] at h
  simp only at h
  split at h
  · have hclosing := Cursor.past_of_startsWith (s := ")") ‹_›
    cases h
    exact .done hclosing
  · obtain ⟨⟨arg, a⟩, harg, h⟩ := Except.bind_ok.mp h
    have hfirst := ih.argument harg
    simp only at h
    split at h
    · have hcomma := Cursor.past_of_startsWith (s := ",") ‹_›
      obtain ⟨⟨more, b⟩, hmore, h⟩ := Except.bind_ok.mp h
      cases h
      exact .more hfirst hcomma (ih.arguments hmore)
    · split at h
      · have hclosing := Cursor.past_of_startsWith (s := ")") ‹_›
        cases h
        exact .last hfirst hclosing
      · cases h

theorem spans_call (hmark : c.Past ['@', ':'] a)
    (h : call (s + 1) d c.position a = .ok (n, c')) :
    ∃ e gap, Node.Spans c e n ∧ e.Past gap c' ∧ n.Gap gap := by
  rw [call] at h
  obtain ⟨⟨path, f⟩, hpath, h⟩ := Except.bind_ok.mp h
  simp only at h
  split at h
  · have hparen := Cursor.past_of_startsWith (s := "(") ‹_›
    obtain ⟨⟨args, g⟩, hargs, h⟩ := Except.bind_ok.mp h
    obtain ⟨⟨bs, e⟩, hbs, h⟩ := Except.bind_ok.mp h
    have hnode := Node.Spans.call hmark hpath hparen (ih.arguments hargs) (ih.blocks hbs)
    cases h
    by_cases hempty : bs.isEmpty = true
    · rw [if_pos hempty]
      exact ⟨e, [], hnode, .nil e, .inl rfl⟩
    · rw [if_neg hempty]
      obtain ⟨gap, hgap, hbreak⟩ := e.past_skipNewline
      refine ⟨e, gap, hnode, hgap, hbreak.imp_right fun h => ⟨?_, h⟩⟩
      simpa [Node.endsInBlock] using hempty
  · cases h

theorem spans_construct (hat : c.startsWith "@" = true)
    (h : construct (s + 1) d c = .ok (n, c')) :
    ∃ e gap, Node.Spans c e n ∧ e.Past gap c' ∧ n.Gap gap := by
  have hmark : c.Past ['@'] (c.skip 1) := Cursor.past_of_startsWith hat
  rw [construct] at h
  simp only at h
  split at h
  · rename_i comment hcomment
    obtain ⟨⟨text, e⟩, hc, h⟩ := Except.bind_ok.mp h
    cases h
    exact ⟨e, [], Cursor.spans_comment? hcomment hc, .nil e, .inl rfl⟩
  · split at h
    · have hcolon := Cursor.past_of_startsWith (s := ":") ‹_›
      exact ih.call (hmark.append hcolon) h
    · split at h
      · have hbang := Cursor.past_of_startsWith (s := "!") ‹_›
        obtain ⟨⟨e, b⟩, he, h⟩ := Except.bind_ok.mp h
        cases h
        exact ⟨b, [], .raw (hmark.append hbang) he (ends_of_readChain he), .nil b, .inl rfl⟩
      · split at h
        · rename_i a hword
          obtain ⟨b, hb, hpast⟩ := Cursor.past_keyword? hword
          obtain ⟨⟨arms, o, e⟩, harms, h⟩ := Except.bind_ok.mp h
          cases h
          exact spans_trimmed (.branch (hmark.append hpast) hb (ih.branches harms)) rfl
        · rename_i a hword
          obtain ⟨b, hb, hpast⟩ := Cursor.past_keyword? hword
          obtain ⟨⟨p, f⟩, hp, h⟩ := Except.bind_ok.mp h
          simp only at h
          split at h
          · have hin := past_of_atWord (w := "in") ‹_›
            obtain ⟨⟨e, g⟩, he, h⟩ := Except.bind_ok.mp h
            obtain ⟨⟨ms, g'⟩, hms, h⟩ := Except.bind_ok.mp h
            cases h
            exact spans_trimmed (.loop (hmark.append hpast) hb hp hin he (ih.block hms)) rfl
          · cases h
        · rename_i a hword
          obtain ⟨b, hb, hpast⟩ := Cursor.past_keyword? hword
          obtain ⟨⟨e, f⟩, he, h⟩ := Except.bind_ok.mp h
          simp only at h
          split at h
          · have hbrace := Cursor.past_of_startsWith (s := "\x7b") ‹_›
            obtain ⟨d', -, h⟩ := Except.bind_ok.mp h
            obtain ⟨⟨arms, last⟩, harms, h⟩ := Except.bind_ok.mp h
            cases h
            exact spans_trimmed (.cases (hmark.append hpast) hb he hbrace (ih.cases harms)) rfl
          · cases h
        · split at h
          · cases h
          · split at h
            · obtain ⟨⟨e, b⟩, he, h⟩ := Except.bind_ok.mp h
              cases h
              exact ⟨b, [], .value hmark he (ends_of_readChain he), .nil b, .inl rfl⟩
            · cases h

end Step

/-- **What the reader returns is written**, in any number of steps. -/
theorem sound : ∀ s, Sound s
  | 0 => by constructor <;> intros <;> contradiction
  | s + 1 => by
    have ih := sound s
    exact ⟨spans_body ih, spans_block ih, spans_construct ih, spans_branches ih, spans_cases ih,
      spans_call ih, spans_arguments ih, spans_argument ih, spans_blocks ih⟩

/-- **A body that is read outside of blocks is written** up to the end of the text. -/
theorem spans_of_body {s d position : Nat} {c c' : Cursor} {ns : List Node}
    (h : body s false d 0 ⟨position, []⟩ c = .ok (ns, c')) :
    Body.Spans c c' ns ∧ c'.rest = [] := by
  obtain ⟨hspans, hend⟩ := (sound s).body (Pending.holds_nil position c) h
  exact ⟨hspans, hend rfl⟩

end Template.Read

/-! ## The declaration -/

theorem Cursor.marked_of_comment? {c d : Cursor} {text : String}
    {comment : Except Failure (String × Cursor)} (h : c.comment? = some comment)
    (hc : comment = .ok (text, d)) : c.Marked d :=
  (spans_comment? h hc).marked

namespace Template.Read

open Cursor

variable {s position : Nat} {c c' : Cursor}

theorem marked_of_import? {text : String} (h : import? c = some (text, c')) : c.Marked c' := by
  unfold import? at h
  simp only at h
  split at h
  · have hmark := past_of_startsWith (s := "@") ‹_›
    have hline (n : Nat) := ((c.skip 1).skip n).past_skipWhile fun x => x != '\r' && x != '\n'
    split at h
    · obtain ⟨b, -, hword⟩ := past_of_atWordBlank (w := "import") ‹_›
      cases h
      exact hmark.marked (hword.reaches.trans (hline 7).reaches)
    · split at h
      · obtain ⟨b, -, hword⟩ := past_of_atWordBlank (w := "from") ‹_›
        cases h
        exact hmark.marked (hword.reaches.trans (hline 5).reaches)
      · cases h
  · cases h

/-- **The preamble ends in front of the declaration.** -/
theorem reaches_preamble {texts : List String} (h : preamble s c = .ok (texts, c')) :
    c.Reaches c' ∧ c'.startsWith "@(" = true := by
  induction s generalizing c texts with
  | zero => cases h
  | succ s ih =>
    have hblank := c.reaches_skipBlank
    rw [preamble] at h
    simp only at h
    split at h
    · rename_i comment hcomment
      obtain ⟨⟨text, a⟩, ha, h⟩ := Except.bind_ok.mp h
      obtain ⟨hrest, hstart⟩ := ih h
      exact ⟨hblank.trans ((marked_of_comment? hcomment ha).reaches.trans hrest), hstart⟩
    · split at h
      · rename_i text a himport
        obtain ⟨⟨more, b⟩, hb, h⟩ := Except.bind_ok.mp h
        cases h
        obtain ⟨hrest, hstart⟩ := ih hb
        exact ⟨hblank.trans ((marked_of_import? himport).reaches.trans hrest), hstart⟩
      · split at h
        · cases h
          exact ⟨hblank, ‹_›⟩
        · cases h

/-- The text of a type is at the front of what is left. -/
theorem eq_of_typeSpan {start : Nat} {closers : List Char} {string : Option OpenString}
    {cs span rest : List Char} (h : typeSpan start closers string position cs = .ok (span, rest)) :
    cs = span ++ rest := by
  -- A character in front of what is taken.
  have hcons {c : Char} {cs span : List Char} {r : Except Failure (List Char × List Char)}
      (ih : ∀ {span}, r = .ok (span, rest) → cs = span ++ rest)
      (h : (r >>= fun x => pure (c :: x.1, x.2)) = .ok (span, rest)) : c :: cs = span ++ rest := by
    obtain ⟨⟨more, r⟩, hmore, h⟩ := Except.bind_ok.mp h
    cases h
    rw [ih hmore, List.cons_append]
  fun_induction typeSpan start closers string position cs generalizing span
  all_goals first
    | exact hcons ‹_› h
    | (cases h; rfl)
    | cases h

theorem reaches_paramType {text : String} (h : paramType c = .ok (text, c')) : c.Reaches c' := by
  obtain ⟨⟨span, rest⟩, hspan, h⟩ := Except.bind_ok.mp h
  simp only at h
  split at h
  · cases h
  · cases h
    exact ⟨span, eq_of_typeSpan hspan, rfl⟩

/-- A comma after a parameter. -/
theorem reaches_comma (c : Cursor) :
    c.Reaches (if c.startsWith "," then c.skip 1 else c) := by
  split
  · exact (past_of_startsWith (s := ",") ‹_›).reaches
  · exact .refl c

/-- **The parameters end behind the closing parenthesis.** -/
theorem past_params {seen : List String} {params : List Param}
    (h : Read.params s seen c = .ok (params, c')) : ∃ part, c.Past (part ++ [')']) c' := by
  induction s generalizing c seen params with
  | zero => cases h
  | succ s ih =>
    have hblank := c.past_skipWhile isBlank
    rw [Read.params] at h
    simp only at h
    split at h
    · have hclosing := past_of_startsWith (s := ")") ‹_›
      cases h
      exact ⟨_, hblank.append hclosing⟩
    · split at h
      · cases h
      · rename_i word rest hname
        obtain ⟨-, -, h⟩ := Except.bind_ok.mp h
        have hword := (past_skip (takes_name? hname).1).1.reaches
        split at h
        · have hcolon := (past_of_startsWith (s := ":") ‹_›).reaches
          obtain ⟨⟨type, a⟩, htype, h⟩ := Except.bind_ok.mp h
          obtain ⟨⟨more, b⟩, hmore, h⟩ := Except.bind_ok.mp h
          cases h
          obtain ⟨part, hpart⟩ := ih hmore
          obtain ⟨before, hbefore⟩ := hblank.reaches.trans (hword.trans
            ((reaches_skipBlank _).trans (hcolon.trans ((reaches_paramType htype).trans
              (a.reaches_skipBlank.trans (reaches_comma _))))))
          exact ⟨before ++ part, by rw [List.append_assoc]; exact hbefore.append hpart⟩
        · cases h

end Template.Read

end Stencil
