import Stencil.Proofs.Readers
import Stencil.Proofs.TemplateFailures
import Stencil.Proofs.TextAccount

/-!
# What reading a template leads to

The functions that read bodies call one another. A call that fails makes its caller fail in the same
way, so that in a text that is read all calls succeed.

* `Template.Read.Call`: a call of one of the functions.
* `Call.starts`: the calls that a call makes.
* `Outline.LeadsTo`: the calls that reading a text leads to.
* **`Outline.parse_error_of_leadsTo`**: a text is refused if one of the calls fails.
-/

namespace Stencil

open Text Expr

namespace Template.Read

/-- **A call of one of the functions that read bodies**, its number of steps aside. -/
inductive Call where
  | body (inBlock : Bool) (depth braces : Nat) (pending : Pending) (c : Cursor)
  | block (depth : Nat) (c : Cursor)
  | construct (depth : Nat) (c : Cursor)
  | branches (depth : Nat) (c : Cursor)
  | cases (depth start : Nat) (c : Cursor)
  | call (depth start : Nat) (c : Cursor)
  | arguments (depth : Nat) (c : Cursor)
  | argument (depth : Nat) (c : Cursor)
  | blocks (depth : Nat) (c : Cursor)

/-- The calls that come after a reading that succeeds. -/
def after {α : Type} (r : Except Failure α) (k : α → List Call) : List Call :=
  match r with
  | .ok a => k a
  | .error _ => []

theorem mem_after {α : Type} {r : Except Failure α} {k : α → List Call} {t : Call} :
    t ∈ after r k ↔ ∃ a, r = .ok a ∧ t ∈ k a := by
  cases r with
  | ok a => simp [after]
  | error f => simp [after]

namespace Call

/-- **The calls that a call makes**, which have `s` steps. -/
def starts (s : Nat) : Call → List Call
  | body inBlock d braces pending c =>
    let (run, braces) := Cursor.plainRun inBlock braces c.rest
    let pending := pending.add c.position run
    let c := c.skip run.length
    match c.escaped? with
    | some ch => [body inBlock d braces (pending.add c.position [ch]) (c.skip 2)]
    | none =>
      if c.startsWith "@" then
        construct d c :: after (Read.construct s d c) fun (_, c) =>
          [body inBlock d braces ⟨c.position, []⟩ c]
      else []
  | block d c =>
    let c := c.skipBlank
    if c.startsWith "\x7b" then
      after (enter d c.position) fun d => [body true d 0 ⟨c.position, []⟩ (c.skip 1)]
    else []
  | construct d c =>
    let next := c.skip 1
    match c.comment? with
    | some _ => []
    | none =>
      if next.startsWith ":" then [call d c.position (next.skip 1)]
      else if next.startsWith "!" then []
      else
        match next.keyword? with
        | some (.if, c) => [branches d c]
        | some (.for, c) =>
          after (Pattern.read c.skipBlank) fun (_, c) =>
            let c := c.skipBlank
            if c.atWord "in" then after (readExpression (c.skip 2)) fun (_, c) => [block d c]
            else []
        | some (.match, c) =>
          after (readExpression c) fun (_, c) =>
            let c := c.skipBlank
            if c.startsWith "\x7b" then
              after (enter d c.position) fun d => [cases d c.position (c.skip 1)]
            else []
        | none => []
  | branches d c =>
    after (condition c) fun (_, c) =>
      block d c :: after (Read.block s d c) fun (_, c) =>
        match c.elseMark? with
        | none => []
        | some next => if next.startsWith "\x7b" then [block d next] else [branches d next]
  | cases d start c =>
    after c.skipComments fun c =>
      if c.rest.isEmpty then []
      else if c.startsWith "\x7d" then []
      else
        after (Pattern.read c) fun (_, c) =>
          after (guard? c.skipBlank) fun (_, c) =>
            if c.startsWith "=>" then
              block d (c.skip 2) :: after (Read.block s d (c.skip 2)) fun (_, c) =>
                after c.skipComments fun c =>
                  [cases d start (if c.startsWith "," then c.skip 1 else c)]
            else []
  | call d _ c =>
    after (readPath c) fun (_, c) =>
      if c.startsWith "(" then
        arguments d (c.skip 1) :: after (Read.arguments s d (c.skip 1)) fun (_, c) => [blocks d c]
      else []
  | arguments d c =>
    let c := c.skipBlank
    if c.startsWith ")" then []
    else
      argument d c :: after (Read.argument s d c) fun (_, c) =>
        let c := c.skipBlank
        if c.startsWith "," then [arguments d (c.skip 1)] else []
  | argument d c => if c.startsWith "\x7b" then [block d c] else []
  | blocks d c =>
    match c.blockMark? with
    | none => []
    | some next =>
      block d next :: after (Read.block s d next) fun (_, c) => [blocks d c]

/-- **A call in `s` steps leads to another one** with its number of steps: it makes it, or it makes
one that leads to it. -/
inductive LeadsTo : Nat → Call → Nat → Call → Prop
  | refl (s : Nat) (t : Call) : LeadsTo s t s t
  | step {s s' : Nat} {t u t' : Call} : u ∈ t.starts s → LeadsTo s u s' t' →
    LeadsTo (s + 1) t s' t'

/-- The call fails. -/
def Fails (s : Nat) (f : Failure) : Call → Prop
  | body inBlock d braces pending c => Read.body s inBlock d braces pending c = .error f
  | block d c => Read.block s d c = .error f
  | construct d c => Read.construct s d c = .error f
  | branches d c => Read.branches s d c = .error f
  | cases d start c => Read.cases s d start c = .error f
  | call d start c => Read.call s d start c = .error f
  | arguments d c => Read.arguments s d c = .error f
  | argument d c => Read.argument s d c = .error f
  | blocks d c => Read.blocks s d c = .error f

/-- The cursor of a call. -/
def cursor : Call → Cursor
  | body _ _ _ _ c | block _ c | construct _ c | branches _ c | cases _ _ c | call _ _ c
  | arguments _ c | argument _ c | blocks _ c => c

/-- A construct is read at an `@`. -/
def AtMark : Call → Prop
  | construct _ c => c.startsWith "@" = true
  | _ => True

/-- **The rank of a function**: what starts with a block has a higher one than the block. -/
def rank : Call → Nat
  | arguments .. => 3
  | body .. | branches .. | argument .. | blocks .. => 2
  | block .. | construct .. | cases .. | call .. => 1

end Call

/-! ## Failures -/

section Fails

open Call Cursor

variable {α β : Type} {r : Except Failure α} {k : α → Except Failure β} {a : α} {f : Failure}

/-- The first of two steps fails. -/
theorem fails_first (h : r = .error f) : (r >>= k) = .error f := Except.bind_error.mpr (.inl h)

/-- The second of two steps fails. -/
theorem fails_second (hr : r = .ok a) (h : k a = .error f) : (r >>= k) = .error f :=
  Except.bind_error.mpr (.inr ⟨a, hr, h⟩)

variable {s s' d braces start : Nat} {inBlock : Bool} {pending : Pending} {c : Cursor} {t u : Call}

theorem fails_body (hu : u ∈ (Call.body inBlock d braces pending c).starts s) (h : u.Fails s f) :
    body (s + 1) inBlock d braces pending c = .error f := by
  rw [body]
  simp only [starts] at hu
  cases hescaped : (c.skip (Cursor.plainRun inBlock braces c.rest).1.length).escaped? with
  | some ch =>
    simp only [hescaped] at hu ⊢
    obtain rfl := List.mem_singleton.mp hu
    exact h
  | none =>
    simp only [hescaped] at hu ⊢
    split at hu
    · rename_i hat
      rw [if_pos hat]
      rcases List.mem_cons.mp hu with rfl | hu
      · exact fails_first h
      · obtain ⟨⟨n, e⟩, hn, hu⟩ := mem_after.mp hu
        obtain rfl := List.mem_singleton.mp hu
        exact fails_second hn (fails_first h)
    · cases hu

theorem fails_block (hu : u ∈ (Call.block d c).starts s) (h : u.Fails s f) :
    block (s + 1) d c = .error f := by
  rw [block]
  simp only [starts] at hu
  split at hu
  · rename_i hbrace
    obtain ⟨d', hd, hu⟩ := mem_after.mp hu
    obtain rfl := List.mem_singleton.mp hu
    simp only [hbrace, if_true]
    exact fails_second hd (fails_first h)
  · cases hu

theorem fails_construct (hu : u ∈ (Call.construct d c).starts s) (h : u.Fails s f) :
    construct (s + 1) d c = .error f := by
  rw [construct]
  simp only [starts] at hu
  cases hcomment : c.comment? with
  | some comment =>
    simp only [hcomment] at hu
    cases hu
  | none =>
    simp only [hcomment] at hu ⊢
    split at hu
    · rename_i hcolon
      obtain rfl := List.mem_singleton.mp hu
      rw [if_pos hcolon]
      exact h
    · rename_i hcolon
      rw [if_neg hcolon]
      split at hu
      · cases hu
      · rename_i hbang
        rw [if_neg hbang]
        cases hword : (c.skip 1).keyword? with
        | none =>
          rw [hword] at hu
          cases hu
        | some found =>
          obtain ⟨word, e⟩ := found
          cases word with
          | «if» =>
            simp only [hword] at hu ⊢
            obtain rfl := List.mem_singleton.mp hu
            exact fails_first h
          | «for» =>
            simp only [hword] at hu ⊢
            obtain ⟨⟨p, b⟩, hp, hu⟩ := mem_after.mp hu
            refine fails_second hp ?_
            simp only at hu ⊢
            split at hu
            · rename_i hin
              obtain ⟨⟨v, g⟩, hv, hu⟩ := mem_after.mp hu
              obtain rfl := List.mem_singleton.mp hu
              rw [if_pos hin]
              exact fails_second hv (fails_first h)
            · cases hu
          | «match» =>
            simp only [hword] at hu ⊢
            obtain ⟨⟨v, b⟩, hv, hu⟩ := mem_after.mp hu
            refine fails_second hv ?_
            simp only at hu ⊢
            split at hu
            · rename_i hbrace
              obtain ⟨d', hd, hu⟩ := mem_after.mp hu
              obtain rfl := List.mem_singleton.mp hu
              rw [if_pos hbrace]
              exact fails_second hd (fails_first h)
            · cases hu

theorem fails_branches (hu : u ∈ (Call.branches d c).starts s) (h : u.Fails s f) :
    branches (s + 1) d c = .error f := by
  rw [branches]
  obtain ⟨⟨cond, e⟩, hcond, hu⟩ := mem_after.mp hu
  refine fails_second hcond ?_
  rcases List.mem_cons.mp hu with rfl | hu
  · exact fails_first h
  · obtain ⟨⟨ns, g⟩, hns, hu⟩ := mem_after.mp hu
    refine fails_second hns ?_
    cases hmark : g.elseMark? with
    | none =>
      simp only [hmark] at hu
      cases hu
    | some next =>
      simp only [hmark] at hu ⊢
      split at hu
      · rename_i hbrace
        obtain rfl := List.mem_singleton.mp hu
        rw [if_pos hbrace]
        exact fails_first h
      · rename_i hbrace
        obtain rfl := List.mem_singleton.mp hu
        rw [if_neg hbrace]
        exact fails_first h

theorem fails_cases (hu : u ∈ (Call.cases d start c).starts s) (h : u.Fails s f) :
    cases (s + 1) d start c = .error f := by
  rw [cases]
  obtain ⟨e, he, hu⟩ := mem_after.mp hu
  refine fails_second he ?_
  split at hu
  · cases hu
  · rename_i hend
    rw [if_neg hend]
    split at hu
    · cases hu
    · rename_i hclose
      rw [if_neg hclose]
      obtain ⟨⟨p, b⟩, hp, hu⟩ := mem_after.mp hu
      obtain ⟨⟨guard, g⟩, hguard, hu⟩ := mem_after.mp hu
      refine fails_second hp (fails_second hguard ?_)
      simp only at hu ⊢
      split at hu
      · rename_i harrow
        rw [if_pos harrow]
        rcases List.mem_cons.mp hu with rfl | hu
        · exact fails_first h
        · obtain ⟨⟨ns, i⟩, hns, hu⟩ := mem_after.mp hu
          obtain ⟨j, hj, hu⟩ := mem_after.mp hu
          obtain rfl := List.mem_singleton.mp hu
          exact fails_second hns (fails_second hj (fails_first h))
      · cases hu

theorem fails_call (hu : u ∈ (Call.call d start c).starts s) (h : u.Fails s f) :
    call (s + 1) d start c = .error f := by
  rw [call]
  obtain ⟨⟨path, e⟩, hpath, hu⟩ := mem_after.mp hu
  refine fails_second hpath ?_
  simp only at hu ⊢
  split at hu
  · rename_i hparen
    rw [if_pos hparen]
    rcases List.mem_cons.mp hu with rfl | hu
    · exact fails_first h
    · obtain ⟨⟨args, g⟩, hargs, hu⟩ := mem_after.mp hu
      obtain rfl := List.mem_singleton.mp hu
      exact fails_second hargs (fails_first h)
  · cases hu

theorem fails_arguments (hu : u ∈ (Call.arguments d c).starts s) (h : u.Fails s f) :
    arguments (s + 1) d c = .error f := by
  rw [arguments]
  simp only [starts] at hu
  split at hu
  · cases hu
  · rename_i hclose
    simp only [hclose, Bool.false_eq_true, if_false]
    rcases List.mem_cons.mp hu with rfl | hu
    · exact fails_first h
    · obtain ⟨⟨arg, e⟩, harg, hu⟩ := mem_after.mp hu
      refine fails_second harg ?_
      simp only at hu ⊢
      split at hu
      · rename_i hcomma
        obtain rfl := List.mem_singleton.mp hu
        rw [if_pos hcomma]
        exact fails_first h
      · cases hu

theorem fails_argument (hu : u ∈ (Call.argument d c).starts s) (h : u.Fails s f) :
    argument (s + 1) d c = .error f := by
  rw [argument]
  simp only [starts] at hu
  split at hu
  · rename_i hbrace
    obtain rfl := List.mem_singleton.mp hu
    rw [if_pos hbrace]
    exact fails_first h
  · cases hu

theorem fails_blocks (hu : u ∈ (Call.blocks d c).starts s) (h : u.Fails s f) :
    blocks (s + 1) d c = .error f := by
  rw [blocks]
  simp only [starts] at hu
  cases hmark : c.blockMark? with
  | none =>
    simp only [hmark] at hu
    cases hu
  | some next =>
    simp only [hmark] at hu ⊢
    rcases List.mem_cons.mp hu with rfl | hu
    · exact fails_first h
    · obtain ⟨⟨ns, e⟩, hns, hu⟩ := mem_after.mp hu
      obtain rfl := List.mem_singleton.mp hu
      exact fails_second hns (fails_first h)

/-- **A call that fails makes its caller fail** in the same way. -/
theorem Call.fails_of_starts (hu : u ∈ t.starts s) (h : u.Fails s f) : t.Fails (s + 1) f := by
  cases t with
  | body => exact fails_body hu h
  | block => exact fails_block hu h
  | construct => exact fails_construct hu h
  | branches => exact fails_branches hu h
  | cases => exact fails_cases hu h
  | call => exact fails_call hu h
  | arguments => exact fails_arguments hu h
  | argument => exact fails_argument hu h
  | blocks => exact fails_blocks hu h

/-- A call that fails makes every call fail that leads to it. -/
theorem Call.LeadsTo.fails (h : LeadsTo s t s' u) (hu : u.Fails s' f) : t.Fails s f := by
  induction h with
  | refl => exact hu
  | step hstart _ ih => exact fails_of_starts hstart (ih hu)

end Fails

/-! ## Where calls read -/

section Forward

open Call Cursor

variable {s s' d braces start : Nat} {inBlock : Bool} {pending : Pending} {c : Cursor} {t u : Call}

/-- **A call follows another one** that reads at a cursor and has a rank: it is made further on, or
at the same place and of a lower rank. -/
structure Call.Follows (u : Call) (rank : Nat) (c : Cursor) : Prop where
  atMark : u.AtMark
  reaches : c.Reaches u.cursor
  lower : c.position < u.cursor.position ∨ u.rank < rank

theorem Call.Follows.of_advances {rank : Nat} (hu : u.AtMark) (h : c.Advances u.cursor) :
    u.Follows rank c := ⟨hu, h.1, .inl h.2⟩

/-- What stands between braces takes something. -/
theorem advances_block {ns : List Node} {e : Cursor} (h : block s d c = .ok (ns, e)) :
    c.Advances e :=
  have hblock := (sound s).block h
  hblock.reaches.advances_of_lt hblock.length_lt

theorem follows_body (hu : u ∈ (Call.body inBlock d braces pending c).starts s) :
    u.Follows 2 c := by
  obtain ⟨rest, hrest, -, -⟩ := plainRun_eq inBlock braces c.rest
  have hrun := (Cursor.past_skip hrest).1.reaches
  simp only [starts] at hu
  split at hu
  · obtain rfl := List.mem_singleton.mp hu
    exact .of_advances trivial (hrun.advances (past_escaped? ‹_›).1.advances)
  · split at hu
    · rename_i hat
      rcases List.mem_cons.mp hu with rfl | hu
      · exact ⟨hat, hrun, .inr (by simp [Call.rank])⟩
      · obtain ⟨⟨n, e⟩, hn, hu⟩ := mem_after.mp hu
        obtain rfl := List.mem_singleton.mp hu
        obtain ⟨e', gap, hnode, hgap, -⟩ := (sound s).construct hat hn
        obtain ⟨part, hnode⟩ := hnode.marked
        exact .of_advances trivial (hrun.advances (hnode.advances.trans_reaches hgap.reaches))
    · cases hu

theorem follows_block (hu : u ∈ (Call.block d c).starts s) : u.Follows 1 c := by
  simp only [starts] at hu
  split at hu
  · have hbrace : c.skipBlank.Past ['\x7b'] _ := Cursor.past_of_startsWith (s := "\x7b") ‹_›
    obtain ⟨d', -, hu⟩ := mem_after.mp hu
    obtain rfl := List.mem_singleton.mp hu
    exact .of_advances trivial (c.reaches_skipBlank.advances hbrace.advances)
  · cases hu

theorem follows_construct (hat : c.startsWith "@" = true)
    (hu : u ∈ (Call.construct d c).starts s) : u.Follows 1 c := by
  have hmark : c.Past ['@'] (c.skip 1) := Cursor.past_of_startsWith (s := "@") hat
  have hmark := hmark.advances
  simp only [starts] at hu
  split at hu
  · cases hu
  · split at hu
    · have hcolon := Cursor.past_of_startsWith (s := ":") ‹_›
      obtain rfl := List.mem_singleton.mp hu
      exact .of_advances trivial (hmark.trans_reaches hcolon.reaches)
    · split at hu
      · cases hu
      · split at hu
        · rename_i a hword
          obtain ⟨b, -, hpast⟩ := Cursor.past_keyword? hword
          obtain rfl := List.mem_singleton.mp hu
          exact .of_advances trivial (hmark.trans_reaches hpast.reaches)
        · rename_i a hword
          obtain ⟨b, -, hpast⟩ := Cursor.past_keyword? hword
          obtain ⟨⟨p, e⟩, hp, hu⟩ := mem_after.mp hu
          have hp := (Pattern.ends_of_read hp).reaches
          simp only at hu
          split at hu
          · have hin := (past_of_atWord (w := "in") ‹_›).reaches
            obtain ⟨⟨v, g⟩, hv, hu⟩ := mem_after.mp hu
            obtain rfl := List.mem_singleton.mp hu
            exact .of_advances trivial (hmark.trans_reaches (hpast.reaches.trans
              (a.reaches_skipBlank.trans (hp.trans (e.reaches_skipBlank.trans
                (hin.trans (ends_of_readExpression hv).reaches))))))
          · cases hu
        · rename_i a hword
          obtain ⟨b, -, hpast⟩ := Cursor.past_keyword? hword
          obtain ⟨⟨v, e⟩, hv, hu⟩ := mem_after.mp hu
          simp only at hu
          split at hu
          · have hbrace := (Cursor.past_of_startsWith (s := "\x7b") ‹_›).reaches
            obtain ⟨d', -, hu⟩ := mem_after.mp hu
            obtain rfl := List.mem_singleton.mp hu
            exact .of_advances trivial (hmark.trans_reaches (hpast.reaches.trans
              ((ends_of_readExpression hv).reaches.trans (e.reaches_skipBlank.trans hbrace))))
          · cases hu
        · cases hu

theorem follows_branches (hu : u ∈ (Call.branches d c).starts s) : u.Follows 2 c := by
  obtain ⟨⟨cond, e⟩, hcond, hu⟩ := mem_after.mp hu
  have hcond := reaches_condition hcond
  rcases List.mem_cons.mp hu with rfl | hu
  · exact ⟨trivial, hcond, .inr (by simp [Call.rank])⟩
  · obtain ⟨⟨ns, g⟩, hns, hu⟩ := mem_after.mp hu
    have hblock := hcond.advances (advances_block hns)
    simp only at hu
    split at hu
    · cases hu
    · have hnext := hblock.trans_reaches (Cursor.reaches_elseMark? ‹_›)
      split at hu <;> obtain rfl := List.mem_singleton.mp hu <;> exact .of_advances trivial hnext

theorem follows_cases (hu : u ∈ (Call.cases d start c).starts s) : u.Follows 1 c := by
  obtain ⟨e, he, hu⟩ := mem_after.mp hu
  have he := reaches_skipComments he
  split at hu
  · cases hu
  · split at hu
    · cases hu
    · obtain ⟨⟨p, b⟩, hp, hu⟩ := mem_after.mp hu
      obtain ⟨⟨guard, g⟩, hguard, hu⟩ := mem_after.mp hu
      have hguard := he.advances ((Pattern.ends_of_read hp).advances.trans_reaches
        (b.reaches_skipBlank.trans (reaches_guard? hguard)))
      simp only at hu
      split at hu
      · have harrow := hguard.trans_reaches (Cursor.past_of_startsWith (s := "=>") ‹_›).reaches
        rcases List.mem_cons.mp hu with rfl | hu
        · exact .of_advances trivial harrow
        · obtain ⟨⟨ns, i⟩, hns, hu⟩ := mem_after.mp hu
          obtain ⟨j, hj, hu⟩ := mem_after.mp hu
          obtain rfl := List.mem_singleton.mp hu
          exact .of_advances trivial (harrow.trans_reaches ((advances_block hns).1.trans
            ((reaches_skipComments hj).trans (reaches_comma j))))
      · cases hu

theorem follows_call (hu : u ∈ (Call.call d start c).starts s) : u.Follows 1 c := by
  obtain ⟨⟨path, e⟩, hpath, hu⟩ := mem_after.mp hu
  have hpath := (ends_of_readPath hpath).advances
  simp only at hu
  split at hu
  · have hparen := hpath.trans_reaches (Cursor.past_of_startsWith (s := "(") ‹_›).reaches
    rcases List.mem_cons.mp hu with rfl | hu
    · exact .of_advances trivial hparen
    · obtain ⟨⟨args, g⟩, hargs, hu⟩ := mem_after.mp hu
      obtain rfl := List.mem_singleton.mp hu
      exact .of_advances trivial (hparen.trans_reaches ((sound s).arguments hargs).reaches)
  · cases hu

theorem follows_arguments (hu : u ∈ (Call.arguments d c).starts s) : u.Follows 3 c := by
  simp only [starts] at hu
  split at hu
  · cases hu
  · rcases List.mem_cons.mp hu with rfl | hu
    · exact ⟨trivial, c.reaches_skipBlank, .inr (by simp [Call.rank])⟩
    · obtain ⟨⟨arg, e⟩, harg, hu⟩ := mem_after.mp hu
      have harg := c.reaches_skipBlank.trans ((sound s).argument harg).reaches
      simp only at hu
      split at hu
      · have hcomma : e.skipBlank.Past [','] _ := Cursor.past_of_startsWith (s := ",") ‹_›
        obtain rfl := List.mem_singleton.mp hu
        exact .of_advances trivial ((harg.trans e.reaches_skipBlank).advances hcomma.advances)
      · cases hu

theorem follows_argument (hu : u ∈ (Call.argument d c).starts s) : u.Follows 2 c := by
  simp only [starts] at hu
  split at hu
  · obtain rfl := List.mem_singleton.mp hu
    exact ⟨trivial, .refl c, .inr (by simp [Call.rank])⟩
  · cases hu

theorem follows_blocks (hu : u ∈ (Call.blocks d c).starts s) : u.Follows 2 c := by
  simp only [starts] at hu
  split at hu
  · cases hu
  · have hnext := Cursor.reaches_blockMark? ‹_›
    rcases List.mem_cons.mp hu with rfl | hu
    · exact ⟨trivial, hnext, .inr (by simp [Call.rank])⟩
    · obtain ⟨⟨ns, e⟩, hns, hu⟩ := mem_after.mp hu
      obtain rfl := List.mem_singleton.mp hu
      exact .of_advances trivial (hnext.advances (advances_block hns))

/-- **A call follows its caller.** -/
theorem Call.follows_of_starts (ht : t.AtMark) (hu : u ∈ t.starts s) :
    u.Follows t.rank t.cursor := by
  cases t with
  | body => exact follows_body hu
  | block => exact follows_block hu
  | construct => exact follows_construct ht hu
  | branches => exact follows_branches hu
  | cases => exact follows_cases hu
  | call => exact follows_call hu
  | arguments => exact follows_arguments hu
  | argument => exact follows_argument hu
  | blocks => exact follows_blocks hu

theorem Call.LeadsTo.reaches (h : LeadsTo s t s' u) (ht : t.AtMark) :
    t.cursor.Reaches u.cursor ∧ u.AtMark := by
  induction h with
  | refl s t => exact ⟨.refl _, ht⟩
  | step hstart _ ih =>
    obtain ⟨hmark, hreaches, -⟩ := follows_of_starts ht hstart
    exact ⟨hreaches.trans (ih hmark).1, (ih hmark).2⟩

end Forward

end Template.Read

/-! ## Whole texts -/

namespace Outline

open Template Template.Read Cursor

/-- **Reading a text leads to a call** with a number of steps. -/
def LeadsTo (text : List Char) (s : Nat) (u : Call) : Prop :=
  ∃ imports c ps d,
    preamble (Cursor.ofText text 0).steps (Cursor.ofText text 0) = .ok (imports, c) ∧
    Read.params c.steps [] (c.skip 2) = .ok (ps, d) ∧
    Call.LeadsTo d.skipDeclarationEnd.steps
      (.body false 0 0 ⟨d.skipDeclarationEnd.position, []⟩ d.skipDeclarationEnd) s u

variable {text : List Char} {s : Nat} {u : Call} {f : Failure}

/-- **A text is refused if one of the calls fails** that reading it leads to. -/
theorem parse_error_of_leadsTo (h : LeadsTo text s u) (hu : u.Fails s f) :
    parse text = .error f := by
  obtain ⟨imports, c, ps, d, hpreamble, hparams, hleads⟩ := h
  have hbody := hleads.fails hu
  exact fails_second hpreamble (fails_second hparams (fails_first hbody))

/-- The calls that reading a text leads to have enough steps. -/
theorem not_outOfSteps_of_leadsTo (h : LeadsTo text s u) : ¬ u.Fails s .outOfSteps := by
  intro hu
  have hadmits := failsOnly_parse text
  rw [parse_error_of_leadsTo h hu] at hadmits
  exact hadmits

/-- The calls that reading a text leads to read in it. -/
theorem in_of_leadsTo (h : LeadsTo text s u) : u.cursor.In text ∧ u.AtMark := by
  obtain ⟨imports, c, ps, d, hpreamble, hparams, hleads⟩ := h
  obtain ⟨hc, hmark⟩ := reaches_preamble hpreamble
  obtain ⟨_, hd⟩ := past_params hparams
  obtain ⟨hu, hat⟩ := hleads.reaches trivial
  have hdeclaration := (past_of_startsWith hmark).reaches.trans hd.reaches
  exact ⟨(hc.trans hdeclaration).trans (d.reaches_skipDeclarationEnd.trans hu), hat⟩

end Outline

end Stencil
