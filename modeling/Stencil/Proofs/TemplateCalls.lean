import Stencil.Proofs.ReaderCalls

/-!
# Reading a template ends

The loops that read what stands before a body go on behind a comment, an import statement or a
parameter; the functions that read bodies call one another as ranks allow. The only failure that
they have of their own, apart from the ordinary ones, is that of a brace that is nested too deeply.

* `Cursor.commentReader`, `Template.Read.preambleReader`, `Template.Read.paramsReader`: the loops.
* `typeSpan_step`: the loop over a type takes one character at a time.
* `Template.Read.Call.brace?`, `Template.Read.Call.Refuses`: the brace that a call opens itself, and
  when the call refuses it.
* `Template.Read.reader`: the functions that read bodies.
* **`Outline.parse_ends`**: reading ends on every text.
-/

namespace Stencil

open Text Expr

/-! ## Comments -/

namespace Cursor

variable {c d : Cursor} {text : String} {comment : Except Failure (String × Cursor)}

theorem ordinary_comment? (h : c.comment? = some comment) :
    FailsOnly Failure.IsOrdinary comment := by
  unfold comment? at h
  split at h
  · cases h
    unfold blockComment
    split <;> trivial
  · split at h
    · cases h
      trivial
    · cases h

/-- A comment takes something. -/
theorem advances_comment? (h : c.skipBlank.comment? = some (.ok (text, d))) : c.Advances d := by
  obtain ⟨part, hcomment⟩ := marked_of_comment? h rfl
  exact c.reaches_skipBlank.advances hcomment.advances

/-- **The loop over comments** and the white space between them. -/
def commentReader : Reader where
  Call := Cursor
  Outcome _ := Cursor
  run := skipCommentsIn
  Starts _ c d := ∃ text, c.skipBlank.comment? = some (.ok (text, d))
  cursor c := c
  rank _ := 0
  Proper _ := True
  Raises _ f := f.IsOrdinary
  rank_lt _ := by decide
  ne_outOfSteps := Failure.IsOrdinary.ne_outOfSteps
  determined {P s s' c} hP h := by
    rw [skipCommentsIn, skipCommentsIn]
    cases hcomment : c.skipBlank.comment? with
    | none => exact .ok _
    | some comment =>
      refine .seq ((ordinary_comment? hcomment).mono hP) ?_
      rintro ⟨text, d⟩ rfl
      exact h d ⟨text, hcomment⟩
  forward _ := fun ⟨_, h⟩ =>
    have hd := advances_comment? h
    ⟨trivial, hd.1, .inl hd.2⟩

theorem ordinary_skipComments (c : Cursor) : FailsOnly Failure.IsOrdinary c.skipComments :=
  Reader.failsOnly_run (R := commentReader) (t := c) (fun _ _ h => h) trivial (Nat.le_refl _)

end Cursor

namespace Template.Read

open Cursor

/-! ## What stands before a body -/

/-- **The loop over the import statements** and the comments between them. -/
def preambleReader : Reader where
  Call := Cursor
  Outcome _ := List String × Cursor
  run := preamble
  Starts _ c d := (∃ text, c.skipBlank.comment? = some (.ok (text, d))) ∨
    ∃ text, import? c.skipBlank = some (text, d)
  cursor c := c
  rank _ := 0
  Proper _ := True
  Raises _ f := f.IsOrdinary
  rank_lt _ := by decide
  ne_outOfSteps := Failure.IsOrdinary.ne_outOfSteps
  determined {P s s' c} hP h := by
    rw [preamble, preamble]
    simp only
    cases hcomment : c.skipBlank.comment? with
    | some comment =>
      refine .seq ((ordinary_comment? hcomment).mono hP) ?_
      rintro ⟨text, d⟩ rfl
      exact h d (.inl ⟨text, hcomment⟩)
    | none =>
      cases himport : import? c.skipBlank with
      | some found =>
        obtain ⟨text, d⟩ := found
        refine .bind (h d (.inr ⟨text, himport⟩)) fun _ _ => ?_
        exact .ok _
      | none =>
        simp only
        split
        · exact .ok _
        · exact .refl (hP _ trivial)
  forward {s c d} _ := by
    rintro (⟨text, h⟩ | ⟨text, h⟩)
    · have hd := advances_comment? h
      exact ⟨trivial, hd.1, .inl hd.2⟩
    · obtain ⟨part, h⟩ := marked_of_import? h
      have hd := c.reaches_skipBlank.advances h.advances
      exact ⟨trivial, hd.1, .inl hd.2⟩

section Params

variable {s position start : Nat} {c d : Cursor} {cs : List Char} {closers : List Char}
variable {string : Option OpenString} {seen : List String} {name type : String}

/-- **The loop over a type takes one character at a time**: it fails, or ends, or goes on behind the
character. -/
theorem typeSpan_step (start : Nat) (closers : List Char) (string : Option OpenString)
    (position : Nat) (ch : Char) (cs : List Char) :
    (∃ f : Failure, f.IsOrdinary ∧
        typeSpan start closers string position (ch :: cs) = .error f) ∨
      typeSpan start closers string position (ch :: cs) = .ok ([], ch :: cs) ∨
      ∃ closers' string', typeSpan start closers string position (ch :: cs) = (do
        let (span, rest) ← typeSpan start closers' string' (position + 1) cs
        return (ch :: span, rest)) := by
  cases string with
  | some open' =>
    rw [typeSpan]
    exact .inr (.inr ⟨_, _, rfl⟩)
  | none =>
    rw [typeSpan.eq_def]
    simp only
    split
    · exact .inr (.inr ⟨_, _, rfl⟩)
    · split
      · exact .inr (.inr ⟨_, _, rfl⟩)
      · split
        · split
          · split
            · exact .inr (.inl rfl)
            · exact .inl ⟨.at (.unbalancedType ch) position, trivial, rfl⟩
          · split
            · exact .inr (.inr ⟨_, _, rfl⟩)
            · exact .inl ⟨.at (.unbalancedType ch) position, trivial, rfl⟩
        · split
          · exact .inr (.inl rfl)
          · exact .inr (.inr ⟨_, _, rfl⟩)

theorem ordinary_typeSpan :
    FailsOnly Failure.IsOrdinary (typeSpan start closers string position cs) := by
  induction cs generalizing closers string position with
  | nil => cases string <;> trivial
  | cons ch cs ih =>
    rcases typeSpan_step start closers string position ch cs with ⟨f, hf, h⟩ | h | ⟨_, _, h⟩
    · rw [h]
      exact hf
    · rw [h]
      trivial
    · rw [h]
      exact ih.bind fun _ _ => trivial

theorem ordinary_paramType (c : Cursor) : FailsOnly Failure.IsOrdinary (paramType c) := by
  refine ordinary_typeSpan.bind ?_
  rintro ⟨span, rest⟩ _
  simp only
  split <;> trivial

theorem ordinary_checkParam : FailsOnly Failure.IsOrdinary (checkParam name seen position) := by
  unfold checkParam
  split
  · trivial
  · split
    · trivial
    · split <;> trivial

/-- The cursor behind a parameter, the comma after it included. -/
def afterParam (c : Cursor) : Cursor :=
  if c.skipBlank.startsWith "," then c.skipBlank.skip 1 else c.skipBlank

/-- **The loop over the parameters**, with the names of those before. -/
def paramsReader : Reader where
  Call := List String × Cursor
  Outcome _ := List Param × Cursor
  run s t := params s t.1 t.2
  Starts _ t u := ∃ word r type e, name? t.2.skipBlank.rest = some (word, r) ∧
    (t.2.skipBlank.skip word.length).skipBlank.startsWith ":" = true ∧
    paramType ((t.2.skipBlank.skip word.length).skipBlank.skip 1) = .ok (type, e) ∧
    u = (String.ofList word :: t.1, afterParam e)
  cursor t := t.2
  rank _ := 0
  Proper _ := True
  Raises _ f := f.IsOrdinary
  rank_lt _ := by decide
  ne_outOfSteps := Failure.IsOrdinary.ne_outOfSteps
  determined {P s s' t} hP h := by
    obtain ⟨seen, c⟩ := t
    simp only at h ⊢
    rw [params, params]
    simp only
    split
    · exact .ok _
    · cases hname : name? c.skipBlank.rest with
      | none => exact .refl (hP _ trivial)
      | some found =>
        obtain ⟨word, r⟩ := found
        refine .seq (ordinary_checkParam.mono hP) fun _ _ => ?_
        split
        · refine .seq ((ordinary_paramType _).mono hP) ?_
          rintro ⟨type, e⟩ htype
          refine .bind (h _ ⟨word, r, type, e, hname, ‹_›, htype, rfl⟩) fun _ _ => ?_
          exact .ok _
        · exact .refl (hP _ trivial)
  forward {s t u} _ := by
    rintro ⟨word, r, type, e, hname, hcolon, htype, rfl⟩
    have hword := t.2.reaches_skipBlank.advances (reaches_skip_of_name? hname).advances
    have hcolon := (reaches_skipBlank _).trans (past_of_startsWith (s := ":") hcolon).reaches
    have hafter : e.Reaches (afterParam e) := e.reaches_skipBlank.trans (reaches_comma _)
    have hu := hword.trans_reaches (hcolon.trans ((reaches_paramType htype).trans hafter))
    exact ⟨trivial, hu.1, .inl hu.2⟩

end Params

theorem ordinary_preamble (c : Cursor) : FailsOnly Failure.IsOrdinary (preamble c.steps c) :=
  Reader.failsOnly_run (R := preambleReader) (t := c) (fun _ _ h => h) trivial (Nat.le_refl _)

theorem ordinary_params {s : Nat} {seen : List String} {c : Cursor} (hs : c.steps ≤ s) :
    FailsOnly Failure.IsOrdinary (params s seen c) :=
  Reader.failsOnly_run (R := paramsReader) (t := (seen, c)) (fun _ _ h => h) trivial hs

/-! ## Conditions and guards -/

section Conditions

variable (c : Cursor)

theorem ordinary_readExpression : FailsOnly Failure.IsOrdinary (readExpression c) :=
  Reader.failsOnly_run (R := Expr.Read.reader) (t := .expression true 0 c) (fun _ _ h => h) trivial
    (Nat.le_refl _)

theorem ordinary_readChain : FailsOnly Failure.IsOrdinary (readChain c) := by
  unfold readChain
  split
  · exact Reader.failsOnly_run (R := Expr.Read.reader) (t := .primary false 0 c) (fun _ _ h => h)
      trivial (Nat.le_refl _)
  · exact Reader.failsOnly_run (R := Expr.Read.reader) (t := .postfixed false 0 c) (fun _ _ h => h)
      trivial (Nat.le_refl _)

theorem ordinary_readPath : FailsOnly Failure.IsOrdinary (readPath c) := by
  have hrest : FailsOnly Failure.IsOrdinary (Expr.Read.pathRest c.steps (c.peek false).2) := by
    have hle := (c.reaches_peek false).length_le
    refine Reader.failsOnly_run (R := Expr.Read.reader) (t := .pathRest (c.peek false).2)
      (s := c.steps) (fun _ _ h => h) trivial ?_
    simp only [Expr.Read.reader, Expr.Read.Call.cursor, steps]
    omega
  exact (Expr.Read.agree_path_of_rest (fun _ h => h) fun _ => .refl hrest).fails

theorem ordinary_readPattern : FailsOnly Failure.IsOrdinary (Pattern.read c) :=
  Reader.failsOnly_run (R := Pattern.Read.reader) (t := .pattern 0 c) (fun _ _ h => h) trivial
    (Nat.le_refl _)

theorem ordinary_condition : FailsOnly Failure.IsOrdinary (condition c) := by
  unfold condition
  simp only
  split
  · refine (ordinary_readPattern _).bind fun _ _ => ?_
    split
    · exact (ordinary_readExpression _).bind fun _ _ => trivial
    · trivial
  · exact (ordinary_readExpression _).bind fun _ _ => trivial

theorem ordinary_guard? : FailsOnly Failure.IsOrdinary (guard? c) := by
  unfold guard?
  split
  · exact (ordinary_readExpression _).bind fun _ _ => trivial
  · trivial

end Conditions

/-! ## Bodies -/

namespace Call

/-- What a call returns. -/
def Outcome : Call → Type
  | body .. | block .. => Body × Cursor
  | construct .. | call .. => Node × Cursor
  | branches .. => List (Condition × Body) × Option Body × Cursor
  | cases .. => List (Pattern × Option Expr × Body) × Cursor
  | arguments .. => List (Expr ⊕ Body) × Cursor
  | argument .. => (Expr ⊕ Body) × Cursor
  | blocks .. => List Body × Cursor

/-- What a call does in a number of steps. -/
def run (s : Nat) : (t : Call) → Except Failure t.Outcome
  | body inBlock d braces pending c => Read.body s inBlock d braces pending c
  | block d c => Read.block s d c
  | construct d c => Read.construct s d c
  | branches d c => Read.branches s d c
  | cases d start c => Read.cases s d start c
  | call d start c => Read.call s d start c
  | arguments d c => Read.arguments s d c
  | argument d c => Read.argument s d c
  | blocks d c => Read.blocks s d c

/-- The number of blocks that a call is told to be in. -/
def depth : Call → Nat
  | body _ d _ _ _ | block d _ | construct d _ | branches d _ | cases d _ _ | call d _ _
  | arguments d _ | argument d _ | blocks d _ => d

/-- **The brace that a call opens itself**: that of a block, or that of a match. -/
def brace? : Call → Option Nat
  | block _ c => if c.skipBlank.startsWith "\x7b" then some c.skipBlank.position else none
  | construct _ c =>
    let next := c.skip 1
    match c.comment? with
    | some _ => none
    | none =>
      if next.startsWith ":" then none
      else if next.startsWith "!" then none
      else
        match next.keyword? with
        | some (.match, c) =>
          match readExpression c with
          | .ok (_, c) => if c.skipBlank.startsWith "\x7b" then some c.skipBlank.position else none
          | .error _ => none
        | _ => none
  | _ => none

/-- **A call refuses its brace**: as many blocks as are allowed are open already. -/
def Refuses (t : Call) (f : Failure) : Prop :=
  ∃ p, t.brace? = some p ∧ ¬ t.depth < maxNesting ∧ f = .at (.blocksTooDeep maxNesting) p

theorem run_error_iff {s : Nat} {t : Call} {f : Failure} : t.run s = .error f ↔ t.Fails s f := by
  cases t <;> rfl

/-- Going one block deeper fails only if the brace is refused. -/
theorem failsOnly_enter_brace {t : Call} {p : Nat} {P : Failure → Prop} (h : t.brace? = some p)
    (hP : ∀ f, t.Refuses f → P f) : FailsOnly P (enter t.depth p) := by
  unfold enter
  split
  · trivial
  · exact hP _ ⟨p, h, ‹_›, rfl⟩

end Call

section Determined

variable {s s' d braces start : Nat} {inBlock : Bool} {pending : Pending} {c : Cursor}
variable {P : Failure → Prop}

theorem forall_mem_after {α : Type} {r : Except Failure α} {k : α → List Call} {A : Call → Prop} :
    (∀ u ∈ after r k, A u) ↔ ∀ a, r = .ok a → ∀ u ∈ k a, A u := by
  simp only [mem_after]
  exact ⟨fun h a ha u hu => h u ⟨a, ha, hu⟩, fun h u ⟨a, ha, hu⟩ => h a ha u hu⟩

theorem determined_body (h : ∀ u ∈ (Call.body inBlock d braces pending c).starts s,
      Agree P (u.run s) (u.run s')) :
    Agree P (body (s + 1) inBlock d braces pending c)
      (body (s' + 1) inBlock d braces pending c) := by
  rw [body, body]
  simp only [Call.starts] at h
  cases hescaped : (c.skip (Cursor.plainRun inBlock braces c.rest).1.length).escaped? with
  | some ch =>
    simp only [hescaped, List.forall_mem_singleton] at h ⊢
    exact h
  | none =>
    simp only [hescaped] at h ⊢
    split
    · rename_i hat
      rw [if_pos hat, List.forall_mem_cons] at h
      refine .bind h.1 ?_
      rintro ⟨n, e⟩ hn
      have hnext := forall_mem_after.mp h.2 _ hn _ (List.mem_singleton_self _)
      refine .bind hnext fun _ _ => ?_
      exact .ok _
    · exact .ok _

variable (hP : ∀ f, f.IsOrdinary → P f)
include hP

theorem determined_block (hbrace : ∀ f, (Call.block d c).Refuses f → P f)
    (h : ∀ u ∈ (Call.block d c).starts s, Agree P (u.run s) (u.run s')) :
    Agree P (block (s + 1) d c) (block (s' + 1) d c) := by
  rw [block, block]
  simp only [Call.starts] at h ⊢
  split
  · rename_i hopening
    rw [if_pos hopening] at h
    have hbrace? : (Call.block d c).brace? = some c.skipBlank.position := if_pos hopening
    refine .seq (Call.failsOnly_enter_brace hbrace? hbrace) fun d' hd => ?_
    have hbody := forall_mem_after.mp h _ hd _ (List.mem_singleton_self _)
    refine .bind hbody fun _ _ => ?_
    split
    · exact .ok _
    · exact .refl (hP _ trivial)
  · exact .refl (hP _ trivial)

theorem determined_branches
    (h : ∀ u ∈ (Call.branches d c).starts s, Agree P (u.run s) (u.run s')) :
    Agree P (branches (s + 1) d c) (branches (s' + 1) d c) := by
  rw [branches, branches]
  refine .seq ((ordinary_condition c).mono hP) ?_
  rintro ⟨cond, a⟩ hcond
  have h := forall_mem_after.mp h _ hcond
  rw [List.forall_mem_cons] at h
  refine .bind h.1 ?_
  rintro ⟨ns, b⟩ hns
  have h := forall_mem_after.mp h.2 _ hns
  simp only at h ⊢
  cases hmark : b.elseMark? with
  | none => exact .ok _
  | some next =>
    simp only [hmark] at h ⊢
    split
    · rename_i hbrace
      rw [if_pos hbrace] at h
      refine .bind (h _ (List.mem_singleton_self _)) fun _ _ => ?_
      exact .ok _
    · rename_i hbrace
      rw [if_neg hbrace] at h
      refine .bind (h _ (List.mem_singleton_self _)) fun _ _ => ?_
      exact .ok _

theorem determined_cases
    (h : ∀ u ∈ (Call.cases d start c).starts s, Agree P (u.run s) (u.run s')) :
    Agree P (cases (s + 1) d start c) (cases (s' + 1) d start c) := by
  rw [cases, cases]
  refine .seq ((ordinary_skipComments c).mono hP) fun a ha => ?_
  have h := forall_mem_after.mp h _ ha
  split
  · exact .refl (hP _ trivial)
  · rename_i hend
    rw [if_neg hend] at h
    split
    · exact .ok _
    · rename_i hclose
      rw [if_neg hclose] at h
      refine .seq ((ordinary_readPattern a).mono hP) ?_
      rintro ⟨p, b⟩ hp
      refine .seq ((ordinary_guard? _).mono hP) ?_
      rintro ⟨guard, e⟩ hguard
      have h := forall_mem_after.mp (forall_mem_after.mp h _ hp) _ hguard
      simp only at h ⊢
      split
      · rename_i harrow
        rw [if_pos harrow, List.forall_mem_cons] at h
        refine .bind h.1 ?_
        rintro ⟨ns, g⟩ hns
        refine .seq ((ordinary_skipComments g).mono hP) fun i hi => ?_
        have hnext := forall_mem_after.mp (forall_mem_after.mp h.2 _ hns) _ hi
        refine .bind (hnext _ (List.mem_singleton_self _)) fun _ _ => ?_
        exact .ok _
      · exact .refl (hP _ trivial)

theorem determined_call (h : ∀ u ∈ (Call.call d start c).starts s, Agree P (u.run s) (u.run s')) :
    Agree P (call (s + 1) d start c) (call (s' + 1) d start c) := by
  rw [call, call]
  refine .seq ((ordinary_readPath c).mono hP) ?_
  rintro ⟨path, a⟩ hpath
  have h := forall_mem_after.mp h _ hpath
  simp only at h ⊢
  split
  · rename_i hparen
    rw [if_pos hparen, List.forall_mem_cons] at h
    refine .bind h.1 ?_
    rintro ⟨args, e⟩ hargs
    have hblocks := forall_mem_after.mp h.2 _ hargs _ (List.mem_singleton_self _)
    refine .bind hblocks fun _ _ => ?_
    exact .ok _
  · exact .refl (hP _ trivial)

theorem determined_arguments
    (h : ∀ u ∈ (Call.arguments d c).starts s, Agree P (u.run s) (u.run s')) :
    Agree P (arguments (s + 1) d c) (arguments (s' + 1) d c) := by
  rw [arguments, arguments]
  simp only [Call.starts] at h ⊢
  split
  · exact .ok _
  · rename_i hclose
    rw [if_neg hclose, List.forall_mem_cons] at h
    refine .bind h.1 ?_
    rintro ⟨arg, a⟩ harg
    have h := forall_mem_after.mp h.2 _ harg
    simp only at h ⊢
    split
    · rename_i hcomma
      rw [if_pos hcomma] at h
      refine .bind (h _ (List.mem_singleton_self _)) fun _ _ => ?_
      exact .ok _
    · split
      · exact .ok _
      · exact .refl (hP _ trivial)

theorem determined_argument
    (h : ∀ u ∈ (Call.argument d c).starts s, Agree P (u.run s) (u.run s')) :
    Agree P (argument (s + 1) d c) (argument (s' + 1) d c) := by
  rw [argument, argument]
  simp only [Call.starts] at h
  split
  · rename_i hbrace
    rw [if_pos hbrace] at h
    refine .bind (h _ (List.mem_singleton_self _)) fun _ _ => ?_
    exact .ok _
  · refine .seq ((ordinary_readExpression c).mono hP) fun _ _ => ?_
    exact .ok _

omit hP in
theorem determined_blocks (h : ∀ u ∈ (Call.blocks d c).starts s, Agree P (u.run s) (u.run s')) :
    Agree P (blocks (s + 1) d c) (blocks (s' + 1) d c) := by
  rw [blocks, blocks]
  simp only [Call.starts] at h
  cases hmark : c.blockMark? with
  | none => exact .ok _
  | some next =>
    simp only [hmark, List.forall_mem_cons] at h ⊢
    refine .bind h.1 ?_
    rintro ⟨ns, e⟩ hns
    have hblocks := forall_mem_after.mp h.2 _ hns _ (List.mem_singleton_self _)
    refine .bind hblocks fun _ _ => ?_
    exact .ok _

theorem determined_construct (hbrace : ∀ f, (Call.construct d c).Refuses f → P f)
    (h : ∀ u ∈ (Call.construct d c).starts s, Agree P (u.run s) (u.run s')) :
    Agree P (construct (s + 1) d c) (construct (s' + 1) d c) := by
  have hmatch {a b : Cursor} {v : Expr} (hcomment : c.comment? = none)
      (hcolon : ¬ (c.skip 1).startsWith ":" = true) (hbang : ¬ (c.skip 1).startsWith "!" = true)
      (hword : (c.skip 1).keyword? = some (.match, a)) (hv : readExpression a = .ok (v, b))
      (hopening : b.skipBlank.startsWith "\x7b" = true) :
      (Call.construct d c).brace? = some b.skipBlank.position := by
    simp only [Call.brace?, hcomment, if_neg hcolon, if_neg hbang, hword, hv, if_pos hopening]
  rw [construct, construct]
  simp only [Call.starts] at h ⊢
  cases hcomment : c.comment? with
  | some comment =>
    refine .seq ((ordinary_comment? hcomment).mono hP) fun _ _ => ?_
    exact .ok _
  | none =>
    simp only [hcomment] at h ⊢
    split
    · rename_i hcolon
      rw [if_pos hcolon] at h
      exact h _ (List.mem_singleton_self _)
    · rename_i hcolon
      rw [if_neg hcolon] at h
      split
      · refine .seq ((ordinary_readChain _).mono hP) fun _ _ => ?_
        exact .ok _
      · rename_i hbang
        rw [if_neg hbang] at h
        cases hword : (c.skip 1).keyword? with
        | none =>
          simp only
          split
          · exact .refl (hP _ trivial)
          · split
            · refine .seq ((ordinary_readChain _).mono hP) fun _ _ => ?_
              exact .ok _
            · exact .refl (hP _ trivial)
        | some found =>
          obtain ⟨word, a⟩ := found
          cases word with
          | «if» =>
            simp only [hword] at h ⊢
            refine .bind (h _ (List.mem_singleton_self _)) fun _ _ => ?_
            exact .ok _
          | «for» =>
            simp only [hword] at h ⊢
            refine .seq ((ordinary_readPattern _).mono hP) ?_
            rintro ⟨p, b⟩ hp
            have h := forall_mem_after.mp h _ hp
            simp only at h ⊢
            split
            · rename_i hin
              rw [if_pos hin] at h
              refine .seq ((ordinary_readExpression _).mono hP) ?_
              rintro ⟨v, g⟩ hv
              have hblock := forall_mem_after.mp h _ hv _ (List.mem_singleton_self _)
              refine .bind hblock fun _ _ => ?_
              exact .ok _
            · exact .refl (hP _ trivial)
          | «match» =>
            simp only [hword] at h ⊢
            refine .seq ((ordinary_readExpression _).mono hP) ?_
            rintro ⟨v, b⟩ hv
            have h := forall_mem_after.mp h _ hv
            simp only at h ⊢
            split
            · rename_i hopening
              rw [if_pos hopening] at h
              have hbrace? := hmatch hcomment hcolon hbang hword hv hopening
              refine .seq (Call.failsOnly_enter_brace hbrace? hbrace) fun d' hd => ?_
              have hcases := forall_mem_after.mp h _ hd _ (List.mem_singleton_self _)
              refine .bind hcases fun _ _ => ?_
              exact .ok _
            · exact .refl (hP _ trivial)

end Determined

/-- **The functions that read bodies.** -/
def reader : Reader where
  Call := Call
  Outcome := Call.Outcome
  run := Call.run
  Starts s t u := u ∈ t.starts s
  cursor := Call.cursor
  rank := Call.rank
  Proper := Call.AtMark
  Raises t f := f.IsOrdinary ∨ t.Refuses f
  rank_lt t := by cases t <;> simp [Call.rank]
  ne_outOfSteps := by
    rintro t f (hf | ⟨p, -, -, rfl⟩)
    · exact hf.ne_outOfSteps
    · simp
  determined {P s s' t} hP h := by
    have hordinary f (hf : f.IsOrdinary) := hP f (.inl hf)
    have hrefuses f (hf : t.Refuses f) := hP f (.inr hf)
    cases t with
    | body => exact determined_body h
    | block => exact determined_block hordinary hrefuses h
    | construct => exact determined_construct hordinary hrefuses h
    | branches => exact determined_branches hordinary h
    | cases => exact determined_cases hordinary h
    | call => exact determined_call hordinary h
    | arguments => exact determined_arguments hordinary h
    | argument => exact determined_argument hordinary h
    | blocks => exact determined_blocks h
  forward ht h :=
    have hu := Call.follows_of_starts ht h
    ⟨hu.atMark, hu.reaches, hu.lower⟩

end Template.Read

/-! ## Whole texts -/

/-- **The functions that read a template**, but for the loop over a type. -/
def readers : List Reader :=
  [Cursor.commentReader, Template.Read.preambleReader, Template.Read.paramsReader,
    Template.Read.reader, Expr.Read.reader, Pattern.Read.reader]

namespace Outline

open Template Template.Read Cursor

variable {text : List Char} {s : Nat}

/-- **Reading a text** with a number of steps for each of its parts. -/
def parseIn (s : Nat) (text : List Char) : Except Failure Outline := do
  let (imports, c) ← preamble s (Cursor.ofText text 0)
  let (params, c) ← Read.params s [] (c.skip 2)
  let c := c.skipDeclarationEnd
  let (body, _) ← Read.body s false 0 0 ⟨c.position, []⟩ c
  return ⟨imports, params, body⟩

/-- Where a text can be read from, the steps that the whole text allows for are enough. -/
theorem size_lt_of_reaches {R : Reader} (t : R.Call)
    (h : (Cursor.ofText text 0).Reaches (R.cursor t)) (hs : 16 * text.length + 32 ≤ s) :
    R.size t < s := by
  have hle : (R.cursor t).rest.length ≤ text.length := h.length_le
  have hrank := R.rank_lt t
  unfold Reader.size
  omega

/-- With enough steps, their number makes no difference. -/
theorem agree_parseIn (hs : 16 * text.length + 32 ≤ s) :
    Agree (· ≠ .outOfSteps) (parseIn s text) (parse text) := by
  refine .bind (Reader.agree (R := preambleReader) (t := Cursor.ofText text 0)
    (fun _ _ => preambleReader.ne_outOfSteps) trivial (size_lt_of_reaches _ (.refl _) hs)
    (Reader.size_lt_steps _)) ?_
  rintro ⟨imports, c⟩ hc
  obtain ⟨hstart, hmark⟩ := reaches_preamble hc
  have hdeclaration := past_of_startsWith hmark
  have hparams : (Cursor.ofText text 0).Reaches (c.skip 2) := hstart.trans hdeclaration.reaches
  have hsize : paramsReader.size ([], c.skip 2) < c.steps := by
    have hle : (c.skip 2).rest.length ≤ c.rest.length := hdeclaration.reaches.length_le
    simp only [Reader.size, paramsReader, steps]
    omega
  refine .bind (Reader.agree (R := paramsReader) (t := ([], c.skip 2))
    (fun _ _ => paramsReader.ne_outOfSteps) trivial (size_lt_of_reaches _ hparams hs) hsize) ?_
  rintro ⟨ps, d⟩ hd
  obtain ⟨_, hpast⟩ := past_params hd
  have hbody := hparams.trans (hpast.reaches.trans d.reaches_skipDeclarationEnd)
  refine .bind (Reader.agree (R := Template.Read.reader)
    (t := .body false 0 0 ⟨d.skipDeclarationEnd.position, []⟩ d.skipDeclarationEnd)
    (fun _ _ => Template.Read.reader.ne_outOfSteps) trivial (size_lt_of_reaches _ hbody hs)
    (Reader.size_lt_steps _)) fun _ _ => ?_
  exact .ok _

/-- **Reading ends on every text.** There is a number of steps, given by the length of the text,
from which on their number makes no difference, and reading never runs out of them. Each of the
readers ends: a call of one of its functions leads to calls on in the text, and to calls of the same
function strictly further on, never behind the end of the text. The loop over a type fails, ends, or
takes a character. An expression, a chain, a pattern or a path that is read ends behind its
start. -/
theorem parse_ends (text : List Char) :
    (∀ s, 16 * text.length + 32 ≤ s → parseIn s text = parse text) ∧
      parse text ≠ .error .outOfSteps ∧
      (∀ R ∈ readers, R.Ends ∧ ∀ t u, R.Proper t → (R.cursor t).In text → R.LeadsTo t u →
        (R.cursor u).position ≤ text.length) ∧
      (∀ start closers string position,
        (∃ f, typeSpan start closers string position [] = .error f) ∧ ∀ ch cs,
          (∃ f, typeSpan start closers string position (ch :: cs) = .error f) ∨
          typeSpan start closers string position (ch :: cs) = .ok ([], ch :: cs) ∨
          ∃ closers' string', typeSpan start closers string position (ch :: cs) = (do
            let (span, rest) ← typeSpan start closers' string' (position + 1) cs
            return (ch :: span, rest))) ∧
      ∀ c c', c.In text → ((∃ e, readExpression c = .ok (e, c')) ∨
          (∃ e, readChain c = .ok (e, c')) ∨ (∃ p, Pattern.read c = .ok (p, c')) ∨
          ∃ ns, readPath c = .ok (ns, c')) →
        c.position < c'.position ∧ c'.position ≤ text.length := by
  refine ⟨fun s hs => (agree_parseIn hs).same, fun h => ?_, fun R _ => ⟨R.ends, ?_⟩, ?_, ?_⟩
  · have hagree : Agree (· ≠ .outOfSteps) (parseIn (16 * text.length + 32) text) (parse text) :=
      agree_parseIn (Nat.le_refl _)
    have hfails := hagree.fails
    rw [hagree.same, h] at hfails
    exact hfails rfl
  · intro t u ht hin hleads
    exact (hin.reaches (R.ends.reaches t u ht hleads)).position_le
  · intro start closers string position
    refine ⟨by cases string <;> exact ⟨_, rfl⟩, fun ch cs => ?_⟩
    exact (typeSpan_step start closers string position ch cs).imp_left fun ⟨f, _, h⟩ => ⟨f, h⟩
  · intro c c' hin h
    have hends : c.Ends c' := by
      rcases h with ⟨e, h⟩ | ⟨e, h⟩ | ⟨p, h⟩ | ⟨ns, h⟩
      · exact ends_of_readExpression h
      · exact ends_of_readChain h
      · exact Pattern.ends_of_read h
      · exact ends_of_readPath h
    exact ⟨hends.advances.2, (hin.reaches hends.reaches).position_le⟩

end Outline

end Stencil
