import Stencil.Proofs.Depth
import Stencil.Proofs.ReaderCalls

/-!
# Where nodes come from

Each node of a body is returned by a call of the reader, texts excepted, and at its place in the text.

* `Call.Gives`: a call returns a node, at any depth.
* **`Outline.exists_construct`**: each node of a text, texts excepted, comes from the call of a
  construct.
-/

namespace Stencil

open Text Expr

namespace Template.Read

/-- **A node is among those that the call returns**, at any depth; a call of a template returns what
stands inside its node. -/
def Call.Gives (s : Nat) (n : Node) : Call → Prop
  | body inBlock d braces pending c =>
    ∃ ns e, Read.body s inBlock d braces pending c = .ok (ns, e) ∧ n ∈ Node.nodesAll ns
  | block d c => ∃ ns e, Read.block s d c = .ok (ns, e) ∧ n ∈ Node.nodesAll ns
  | construct d c => ∃ m e, Read.construct s d c = .ok (m, e) ∧ n ∈ m.nodes
  | branches d c => ∃ arms otherwise e, Read.branches s d c = .ok (arms, otherwise, e) ∧
    n ∈ Node.armNodes arms ++ Node.otherwiseNodes otherwise
  | cases d start c => ∃ arms e, Read.cases s d start c = .ok (arms, e) ∧ n ∈ Node.caseNodes arms
  | call d start c => ∃ path args bs e,
    Read.call s d start c = .ok (.call start path args bs, e) ∧
      n ∈ Node.argumentNodes args ++ Node.blockNodes bs
  | arguments d c => ∃ args e, Read.arguments s d c = .ok (args, e) ∧ n ∈ Node.argumentNodes args
  | argument d c => ∃ arg e, Read.argument s d c = .ok (arg, e) ∧ n ∈ Node.argumentNodes [arg]
  | blocks d c => ∃ bs e, Read.blocks s d c = .ok (bs, e) ∧ n ∈ Node.blockNodes bs

section Gives

open Call Cursor

variable {s d braces start : Nat} {inBlock : Bool} {pending : Pending} {c : Cursor} {t : Call}
variable {n : Node}

theorem exists_text_of_pending (h : n ∈ Node.nodesAll pending.nodes) :
    ∃ p text, n = .text p text := by
  unfold Pending.nodes at h
  split at h
  · cases h
  · simp only [Node.nodesAll, Node.nodes, List.append_nil, List.mem_singleton] at h
    exact ⟨_, _, h⟩

theorem nodesAll_append (ns ms : List Node) :
    Node.nodesAll (ns ++ ms) = Node.nodesAll ns ++ Node.nodesAll ms := by
  induction ns with
  | nil => rw [Node.nodesAll, List.nil_append, List.nil_append]
  | cons n ns ih => rw [List.cons_append, Node.nodesAll, Node.nodesAll, ih, List.append_assoc]

theorem argumentNodes_append (as bs : List (Expr ⊕ List Node)) :
    Node.argumentNodes (as ++ bs) = Node.argumentNodes as ++ Node.argumentNodes bs := by
  induction as with
  | nil => rw [Node.argumentNodes, List.nil_append, List.nil_append]
  | cons a as ih =>
    cases a with
    | inl e => rw [List.cons_append, Node.argumentNodes, Node.argumentNodes, ih]
    | inr ns => rw [List.cons_append, Node.argumentNodes, Node.argumentNodes, ih, List.append_assoc]

/-- A node that a body returns is a text of it or comes from a call that it makes. -/
theorem gives_body (hn : ∀ p text, n ≠ .text p text)
    (h : (Call.body inBlock d braces pending c).Gives (s + 1) n) :
    ∃ u ∈ (Call.body inBlock d braces pending c).starts s, u.Gives s n := by
  obtain ⟨ns, e, h, hmem⟩ := h
  rw [body] at h
  simp only [starts]
  cases hescaped : (c.skip (Cursor.plainRun inBlock braces c.rest).1.length).escaped? with
  | some ch =>
    simp only [hescaped] at h ⊢
    refine ⟨_, List.mem_singleton_self _, ?_⟩
    exact ⟨ns, e, h, hmem⟩
  | none =>
    simp only [hescaped] at h ⊢
    split at h
    · rename_i hat
      obtain ⟨⟨m, g⟩, hm, h⟩ := Except.bind_ok.mp h
      obtain ⟨⟨ms, g'⟩, hms, h⟩ := Except.bind_ok.mp h
      cases h
      rw [if_pos hat]
      rw [nodesAll_append, Node.nodesAll, List.mem_append, List.mem_append] at hmem
      rcases hmem with hmem | hmem | hmem
      · obtain ⟨p, text, rfl⟩ := exists_text_of_pending hmem
        exact absurd rfl (hn p text)
      · exact ⟨_, List.mem_cons_self, m, g, hm, hmem⟩
      · exact ⟨_, List.mem_cons_of_mem _ (mem_after.mpr ⟨_, hm, List.mem_singleton_self _⟩), ms, g',
          hms, hmem⟩
    · cases h
      obtain ⟨p, text, rfl⟩ := exists_text_of_pending hmem
      exact absurd rfl (hn p text)

theorem gives_block (h : (Call.block d c).Gives (s + 1) n) :
    ∃ u ∈ (Call.block d c).starts s, u.Gives s n := by
  obtain ⟨ns, e, h, hmem⟩ := h
  rw [block] at h
  simp only at h
  split at h
  · rename_i hbrace
    obtain ⟨d', hd, h⟩ := Except.bind_ok.mp h
    obtain ⟨⟨ms, close⟩, hms, h⟩ := Except.bind_ok.mp h
    simp only at h
    split at h
    · cases h
      simp only [starts, hbrace, if_true]
      exact ⟨_, mem_after.mpr ⟨_, hd, List.mem_singleton_self _⟩, _, _, hms, hmem⟩
    · cases h
  · cases h

/-- A call of a template returns such a node. -/
theorem eq_call_of_call {e : Cursor} (h : call s d start c = .ok (n, e)) :
    ∃ path args bs, n = .call start path args bs := by
  cases s with
  | zero => cases h
  | succ s =>
    rw [call] at h
    obtain ⟨⟨path, g⟩, -, h⟩ := Except.bind_ok.mp h
    simp only at h
    split at h
    · obtain ⟨⟨args, g⟩, -, h⟩ := Except.bind_ok.mp h
      obtain ⟨⟨bs, g'⟩, -, h⟩ := Except.bind_ok.mp h
      cases h
      exact ⟨path, args, bs, rfl⟩
    · cases h

theorem gives_construct (h : (Call.construct d c).Gives (s + 1) n) :
    (∃ e, construct (s + 1) d c = .ok (n, e)) ∨
      ∃ u ∈ (Call.construct d c).starts s, u.Gives s n := by
  obtain ⟨m, e, h, hmem⟩ := h
  have hcall := h
  rw [construct] at h
  simp only [starts]
  cases hcomment : c.comment? with
  | some comment =>
    simp only [hcomment] at h
    obtain ⟨⟨text, g⟩, -, h⟩ := Except.bind_ok.mp h
    cases h
    rw [Node.nodes, List.mem_singleton] at hmem
    exact .inl ⟨_, hmem ▸ hcall⟩
  | none =>
    simp only [hcomment] at h ⊢
    split at h
    · rename_i hcolon
      rw [if_pos hcolon]
      obtain ⟨path, args, bs, rfl⟩ := eq_call_of_call h
      rw [Node.nodes, List.mem_cons] at hmem
      rcases hmem with rfl | hmem
      · exact .inl ⟨_, hcall⟩
      · exact .inr ⟨_, List.mem_singleton_self _, path, args, bs, e, h, hmem⟩
    · rename_i hcolon
      rw [if_neg hcolon]
      split at h
      · obtain ⟨⟨v, g⟩, -, h⟩ := Except.bind_ok.mp h
        cases h
        rw [Node.nodes, List.mem_singleton] at hmem
        exact .inl ⟨_, hmem ▸ hcall⟩
      · rename_i hbang
        rw [if_neg hbang]
        cases hword : (c.skip 1).keyword? with
        | none =>
          simp only [hword] at h
          split at h
          · cases h
          · split at h
            · obtain ⟨⟨v, g⟩, -, h⟩ := Except.bind_ok.mp h
              cases h
              rw [Node.nodes, List.mem_singleton] at hmem
              exact .inl ⟨_, hmem ▸ hcall⟩
            · cases h
        | some found =>
          obtain ⟨word, f⟩ := found
          cases word with
          | «if» =>
            simp only [hword] at h ⊢
            obtain ⟨⟨arms, o, g⟩, harms, h⟩ := Except.bind_ok.mp h
            cases h
            rw [Node.nodes, List.mem_cons] at hmem
            rcases hmem with rfl | hmem
            · exact .inl ⟨_, hcall⟩
            · exact .inr ⟨_, List.mem_singleton_self _, arms, o, g, harms, hmem⟩
          | «for» =>
            simp only [hword] at h ⊢
            obtain ⟨⟨p, a⟩, hp, h⟩ := Except.bind_ok.mp h
            simp only at h
            split at h
            · rename_i hin
              obtain ⟨⟨v, b⟩, hv, h⟩ := Except.bind_ok.mp h
              obtain ⟨⟨ms, g⟩, hms, h⟩ := Except.bind_ok.mp h
              cases h
              rw [Node.nodes, List.mem_cons] at hmem
              rcases hmem with rfl | hmem
              · exact .inl ⟨_, hcall⟩
              · refine .inr ⟨.block d b, mem_after.mpr ⟨_, hp, ?_⟩, ms, g, hms, hmem⟩
                simp only [hin, if_true]
                exact mem_after.mpr ⟨_, hv, List.mem_singleton_self _⟩
            · cases h
          | «match» =>
            simp only [hword] at h ⊢
            obtain ⟨⟨v, a⟩, hv, h⟩ := Except.bind_ok.mp h
            simp only at h
            split at h
            · rename_i hbrace
              obtain ⟨d', hd, h⟩ := Except.bind_ok.mp h
              obtain ⟨⟨arms, g⟩, harms, h⟩ := Except.bind_ok.mp h
              cases h
              rw [Node.nodes, List.mem_cons] at hmem
              rcases hmem with rfl | hmem
              · exact .inl ⟨_, hcall⟩
              · refine .inr ⟨.cases d' _ _, mem_after.mpr ⟨_, hv, ?_⟩, arms, g, harms, hmem⟩
                simp only [hbrace, if_true]
                exact mem_after.mpr ⟨_, hd, List.mem_singleton_self _⟩
            · cases h

/-- What a branch calls after the block of its first condition. -/
theorem mem_starts_branches {cond : Condition} {ns : List Node} {a b : Cursor} {u : Call}
    (hcond : condition c = .ok (cond, a)) (hns : block s d a = .ok (ns, b))
    (hu : u ∈ match b.elseMark? with
      | none => []
      | some next => if next.startsWith "\x7b" then [Call.block d next] else [.branches d next]) :
    u ∈ (Call.branches d c).starts s :=
  mem_after.mpr ⟨_, hcond, List.mem_cons_of_mem _ (mem_after.mpr ⟨_, hns, hu⟩)⟩

theorem gives_branches (h : (Call.branches d c).Gives (s + 1) n) :
    ∃ u ∈ (Call.branches d c).starts s, u.Gives s n := by
  obtain ⟨arms, o, e, h, hmem⟩ := h
  rw [branches] at h
  obtain ⟨⟨cond, a⟩, hcond, h⟩ := Except.bind_ok.mp h
  obtain ⟨⟨ns, b⟩, hns, h⟩ := Except.bind_ok.mp h
  have hfirst (hin : n ∈ Node.nodesAll ns) : ∃ u ∈ (Call.branches d c).starts s, u.Gives s n :=
    ⟨.block d a, mem_after.mpr ⟨_, hcond, List.mem_cons_self⟩, ns, b, hns, hin⟩
  simp only at h
  split at h
  · cases h
    simp only [Node.armNodes, Node.otherwiseNodes, List.append_nil] at hmem
    exact hfirst hmem
  · rename_i next hmark
    split at h
    · rename_i hbrace
      obtain ⟨⟨ms, g⟩, hms, h⟩ := Except.bind_ok.mp h
      cases h
      simp only [Node.armNodes, Node.otherwiseNodes, List.append_nil, List.mem_append] at hmem
      rcases hmem with hmem | hmem
      · exact hfirst hmem
      · refine ⟨.block d next, mem_starts_branches hcond hns ?_, ms, g, hms, hmem⟩
        simp only [hmark, hbrace, if_true, List.mem_singleton]
    · rename_i hbrace
      obtain ⟨⟨more, o', g⟩, hmore, h⟩ := Except.bind_ok.mp h
      cases h
      rw [Node.armNodes, List.append_assoc, List.mem_append] at hmem
      rcases hmem with hmem | hmem
      · exact hfirst hmem
      · refine ⟨.branches d next, mem_starts_branches hcond hns ?_, more, o', g, hmore, hmem⟩
        simp only [hmark]
        rw [if_neg hbrace]
        exact List.mem_singleton_self _

theorem gives_cases (h : (Call.cases d start c).Gives (s + 1) n) :
    ∃ u ∈ (Call.cases d start c).starts s, u.Gives s n := by
  obtain ⟨arms, e, h, hmem⟩ := h
  rw [cases] at h
  obtain ⟨a, ha, h⟩ := Except.bind_ok.mp h
  split at h
  · cases h
  · rename_i hend
    split at h
    · cases h
      cases hmem
    · rename_i hclose
      obtain ⟨⟨p, b⟩, hp, h⟩ := Except.bind_ok.mp h
      obtain ⟨⟨guard, g⟩, hguard, h⟩ := Except.bind_ok.mp h
      simp only at h
      split at h
      · rename_i harrow
        obtain ⟨⟨ns, i⟩, hns, h⟩ := Except.bind_ok.mp h
        obtain ⟨j, hj, h⟩ := Except.bind_ok.mp h
        obtain ⟨⟨more, e'⟩, hmore, h⟩ := Except.bind_ok.mp h
        cases h
        have hstarts {u : Call} (hu : u ∈ Call.block d (g.skip 2) ::
            after (block s d (g.skip 2)) fun r => after r.2.skipComments fun c =>
              [Call.cases d start (if c.startsWith "," then c.skip 1 else c)]) :
            u ∈ (Call.cases d start c).starts s := by
          refine mem_after.mpr ⟨_, ha, ?_⟩
          rw [if_neg hend, if_neg hclose]
          refine mem_after.mpr ⟨_, hp, mem_after.mpr ⟨_, hguard, ?_⟩⟩
          simp only [harrow, if_true]
          exact hu
        rw [Node.caseNodes, List.mem_append] at hmem
        rcases hmem with hmem | hmem
        · exact ⟨.block d (g.skip 2), hstarts List.mem_cons_self, ns, i, hns, hmem⟩
        · exact ⟨.cases d start _, hstarts (List.mem_cons_of_mem _ (mem_after.mpr ⟨_, hns,
            mem_after.mpr ⟨_, hj, List.mem_singleton_self _⟩⟩)), more, e', hmore, hmem⟩
      · cases h

theorem gives_call (h : (Call.call d start c).Gives (s + 1) n) :
    ∃ u ∈ (Call.call d start c).starts s, u.Gives s n := by
  obtain ⟨path, args, bs, e, h, hmem⟩ := h
  rw [call] at h
  obtain ⟨⟨path', a⟩, hpath, h⟩ := Except.bind_ok.mp h
  simp only at h
  split at h
  · rename_i hparen
    obtain ⟨⟨args', b⟩, hargs, h⟩ := Except.bind_ok.mp h
    obtain ⟨⟨bs', g⟩, hbs, h⟩ := Except.bind_ok.mp h
    cases h
    have hstarts {u : Call} (hu : u ∈ Call.arguments d (a.skip 1) ::
        after (arguments s d (a.skip 1)) fun r => [Call.blocks d r.2]) :
        u ∈ (Call.call d start c).starts s := by
      refine mem_after.mpr ⟨_, hpath, ?_⟩
      simp only [hparen, if_true]
      exact hu
    rcases List.mem_append.mp hmem with hmem | hmem
    · exact ⟨.arguments d (a.skip 1), hstarts List.mem_cons_self, args', b, hargs, hmem⟩
    · exact ⟨.blocks d b, hstarts (List.mem_cons_of_mem _ (mem_after.mpr ⟨_, hargs,
        List.mem_singleton_self _⟩)), bs', g, hbs, hmem⟩
  · cases h

theorem gives_arguments (h : (Call.arguments d c).Gives (s + 1) n) :
    ∃ u ∈ (Call.arguments d c).starts s, u.Gives s n := by
  obtain ⟨args, e, h, hmem⟩ := h
  rw [arguments] at h
  simp only [starts]
  simp only at h
  split at h
  · cases h
    cases hmem
  · rename_i hclose
    obtain ⟨⟨arg, a⟩, harg, h⟩ := Except.bind_ok.mp h
    rw [if_neg hclose]
    have hfirst (hin : n ∈ Node.argumentNodes [arg]) : (Call.argument d c.skipBlank).Gives s n :=
      ⟨arg, a, harg, hin⟩
    simp only at h
    split at h
    · rename_i hcomma
      obtain ⟨⟨more, b⟩, hmore, h⟩ := Except.bind_ok.mp h
      cases h
      rw [← List.singleton_append, argumentNodes_append, List.mem_append] at hmem
      rcases hmem with hmem | hmem
      · exact ⟨_, List.mem_cons_self, hfirst hmem⟩
      · refine ⟨.arguments d (a.skipBlank.skip 1), List.mem_cons_of_mem _ ?_, more, b, hmore, hmem⟩
        refine mem_after.mpr ⟨_, harg, ?_⟩
        simp only [hcomma, if_true, List.mem_singleton]
    · split at h
      · cases h
        exact ⟨_, List.mem_cons_self, hfirst hmem⟩
      · cases h

theorem gives_argument (h : (Call.argument d c).Gives (s + 1) n) :
    ∃ u ∈ (Call.argument d c).starts s, u.Gives s n := by
  obtain ⟨arg, e, h, hmem⟩ := h
  rw [argument] at h
  split at h
  · rename_i hbrace
    obtain ⟨⟨ns, a⟩, hns, h⟩ := Except.bind_ok.mp h
    cases h
    simp only [Node.argumentNodes, List.append_nil] at hmem
    simp only [starts, hbrace, if_true]
    exact ⟨.block d c, List.mem_singleton_self _, ns, e, hns, hmem⟩
  · obtain ⟨⟨v, a⟩, -, h⟩ := Except.bind_ok.mp h
    cases h
    cases hmem

theorem gives_blocks (h : (Call.blocks d c).Gives (s + 1) n) :
    ∃ u ∈ (Call.blocks d c).starts s, u.Gives s n := by
  obtain ⟨bs, e, h, hmem⟩ := h
  rw [blocks] at h
  split at h
  · cases h
    cases hmem
  · rename_i next hmark
    obtain ⟨⟨ns, a⟩, hns, h⟩ := Except.bind_ok.mp h
    obtain ⟨⟨more, b⟩, hmore, h⟩ := Except.bind_ok.mp h
    cases h
    simp only [starts, hmark]
    rw [Node.blockNodes, List.mem_append] at hmem
    rcases hmem with hmem | hmem
    · exact ⟨.block d next, List.mem_cons_self, ns, a, hns, hmem⟩
    · exact ⟨.blocks d a,
        List.mem_cons_of_mem _ (mem_after.mpr ⟨_, hns, List.mem_singleton_self _⟩), more, e, hmore,
        hmem⟩

/-- **A node that a call returns**, texts excepted, is what the call of a construct returns that it
leads to. -/
theorem Call.Gives.exists_construct (hn : ∀ p text, n ≠ .text p text) :
    ∀ {s : Nat} {t : Call}, t.Gives s n →
      ∃ s' d c e, LeadsTo s t s' (.construct d c) ∧ Read.construct s' d c = .ok (n, e)
  | 0, t, h => by
    -- a call without steps returns nothing
    cases t <;> simp [Gives, Read.body, Read.block, Read.construct, Read.branches, Read.cases,
      Read.call, Read.arguments, Read.argument, Read.blocks] at h
  | s + 1, t, h => by
    have hlater : (∃ u ∈ t.starts s, u.Gives s n) →
        ∃ s' d c e, LeadsTo (s + 1) t s' (.construct d c) ∧ Read.construct s' d c = .ok (n, e) := by
      rintro ⟨u, hu, h⟩
      obtain ⟨s', d, c, e, hleads, hc⟩ := Gives.exists_construct hn h
      exact ⟨s', d, c, e, .step hu hleads, hc⟩
    cases t with
    | body => exact hlater (gives_body hn h)
    | block => exact hlater (gives_block h)
    | construct d c =>
      rcases gives_construct h with ⟨e, hc⟩ | h
      · exact ⟨s + 1, d, c, e, .refl _ _, hc⟩
      · exact hlater h
    | branches => exact hlater (gives_branches h)
    | cases => exact hlater (gives_cases h)
    | call => exact hlater (gives_call h)
    | arguments => exact hlater (gives_arguments h)
    | argument => exact hlater (gives_argument h)
    | blocks => exact hlater (gives_blocks h)

end Gives

end Template.Read

/-! ## Whole texts -/

namespace Outline

open Template Template.Read Cursor

variable {text : List Char}

/-- **Each node of a text**, at any depth and texts excepted, comes from the call of a construct. -/
theorem exists_construct {o : Outline} {n : Node} (h : parse text = .ok o)
    (hn : n ∈ Node.nodesAll o.body) (hne : ∀ p t, n ≠ .text p t) :
    ∃ s d c e, LeadsTo text s (.construct d c) ∧ construct s d c = .ok (n, e) := by
  obtain ⟨⟨imports, c⟩, hpreamble, h⟩ := Except.bind_ok.mp h
  obtain ⟨⟨ps, d⟩, hparams, h⟩ := Except.bind_ok.mp h
  obtain ⟨⟨ns, e⟩, hbody, h⟩ := Except.bind_ok.mp h
  cases h
  have hgives : Call.Gives d.skipDeclarationEnd.steps n
      (.body false 0 0 ⟨d.skipDeclarationEnd.position, []⟩ d.skipDeclarationEnd) :=
    ⟨ns, e, hbody, hn⟩
  obtain ⟨s, depth, c', e', hleads, hc⟩ := hgives.exists_construct hne
  exact ⟨s, depth, c', e', ⟨imports, c, ps, d, hpreamble, hparams, hleads⟩, hc⟩

end Outline

end Stencil
