import Stencil.Proofs.Generation
import Stencil.Proofs.Layout
import Stencil.Proofs.Run

/-!
# The block structure of generated functions

Lines make up blocks by their levels: what a head opens must not be empty, further arms must carry
on a branch, and cases must stand in a selection.

* `Line.Fits`: what a line demands of the lines before it.
* `Line.IsFunction`: lines that make up one function.
* `Stmt.SoundAt`: a statement has room at a level, and its branches and selections are not empty.
* **`Gen.body_soundAt`**: generated statements are sound.
* **`Stmt.laid_linesAll`**: the lines of sound statements fit wherever a block is open.
* **`Template.isFunction_functionLines`**: the lines of a generated function make up a function.
-/

namespace Stencil

/-- The word that the head of a block starts with. -/
def Head.word? : Head → Option String
  | define .. => some "def"
  | branch true _ => some "if"
  | branch false _ => some "elif"
  | otherwise => some "else"
  | loop .. => some "for"
  | select _ => some "match"
  | case .. => some "case"
  | _ => none

section Words

variable (first : Bool) (name : String) (params : List Param) (e : Expr) (target : Pattern)
variable (subject : Operand) (guard : Option Expr)

@[simp] theorem Head.word?_define : (define name params).word? = some "def" := rfl

@[simp] theorem Head.word?_branch :
    (branch first e).word? = some (if first then "if" else "elif") := by
  cases first <;> rfl

@[simp] theorem Head.word?_otherwise : otherwise.word? = some "else" := rfl

@[simp] theorem Head.word?_loop : (loop target e).word? = some "for" := rfl

@[simp] theorem Head.word?_select : (select subject).word? = some "match" := rfl

@[simp] theorem Head.word?_case : (case target guard).word? = some "case" := rfl

end Words

theorem Head.opens_iff (h : Head) : h.opens ↔ ∃ w, h.word? = some w := by
  cases h with
  | branch first e => cases first <;> simp [opens, word?]
  | _ => simp [opens, word?]

/-- The text of a head starts with its word and ends with a colon. -/
theorem Head.code_of_word? {h : Head} {w : String} (hw : h.word? = some w) :
    ∃ rest, h.code = w ++ rest ++ ":" := by
  cases h with
  | branch first e =>
    cases first with
    | false | true =>
      obtain rfl := Option.some.inj hw
      exact ⟨" " ++ e.code, by simp [code, ← String.toList_inj]⟩
  | otherwise =>
    obtain rfl := Option.some.inj hw
    exact ⟨"", by simp [code]⟩
  | define name params =>
    obtain rfl := Option.some.inj hw
    exact ⟨" " ++ name ++ "(" ++ Names.out ++ ": Writer" ++
      String.join (params.map fun p => ", " ++ p.name ++ ": " ++ p.type) ++ ") -> None",
      by simp [code, ← String.toList_inj]⟩
  | loop target e =>
    obtain rfl := Option.some.inj hw
    exact ⟨" " ++ target.target ++ " in " ++ e.code, by simp [code, ← String.toList_inj]⟩
  | select subject =>
    obtain rfl := Option.some.inj hw
    exact ⟨" " ++ subject.code, by simp [code, ← String.toList_inj]⟩
  | case pattern guard =>
    obtain rfl := Option.some.inj hw
    cases guard with
    | none => exact ⟨" " ++ pattern.code, by simp [code, ← String.toList_inj]⟩
    | some g =>
      exact ⟨" " ++ pattern.code ++ (" if " ++ g.code), by simp [code, ← String.toList_inj]⟩
  | write _ | interpolate _ _ | evaluate _ | call _ _ | pass => cases hw

/-! ## Lines that make up a function -/

namespace Line

/-- **A line at level `i` after the lines `before` stands directly in the block that `m` opens.** -/
def Inside (before : List Line) (i : Nat) (m : Line) : Prop :=
  ∃ above between, before = above ++ m :: between ∧ m.head.opens ∧ i = m.indent + 1 ∧
    ∀ k ∈ between, i ≤ k.indent

/-- A line at level `i` may come next: it is one level deeper if a block has just been opened, and
no deeper than the last line otherwise. -/
def Follows (before : List Line) (i : Nat) : Prop :=
  ∀ l ∈ before.getLast?, if l.head.opens then i = l.indent + 1 else i ≤ l.indent

/-- **A line at level `i` carries on the branch that starts with `m`**: only deeper lines and other
arms of that branch stand between them. -/
def Continues (before : List Line) (i : Nat) (m : Line) : Prop :=
  ∃ above between, before = above ++ m :: between ∧ m.head.word? = some "if" ∧ m.indent = i ∧
    ∀ k ∈ between, i < k.indent ∨ k.indent = i ∧ k.head.word? = some "elif"

/-- **What a line demands of the lines before it**, of which there is at least one. -/
structure Fits (before : List Line) (l : Line) : Prop where
  follows : Follows before l.indent
  inside : ∃ m, Inside before l.indent m ∧
    (l.head.word? = some "case" ↔ m.head.word? = some "match")
  continues : l.head.word? = some "elif" ∨ l.head.word? = some "else" →
    ∃ m, Continues before l.indent m
  shallow : l.indent ≤ maxIndent

/-- **Lines make up one function**: the first one is its head, each other one fits the lines before
it, and no block is empty. -/
structure IsFunction (ls : List Line) : Prop where
  first : ∃ l rest, ls = l :: rest ∧ l.indent = 0 ∧ l.head.word? = some "def"
  fits : ∀ before l after, ls = before ++ l :: after → before ≠ [] → l.Fits before
  filled : ∀ before l after, ls = before ++ l :: after → l.head.opens →
    ∃ next ∈ after.head?, next.indent = l.indent + 1

/-- The last line, if there is one, opens no block. -/
def Settled (ls : List Line) : Prop := ∀ l ∈ ls.getLast?, ¬ l.head.opens

/-- Lines fit one after the other, after those in `before`. -/
def AllFit (before : List Line) : List Line → Prop
  | [] => True
  | l :: ls => l.Fits before ∧ AllFit (before ++ [l]) ls

/-- **Lines may be put after those in `before`**, and no block is left empty at their end. -/
structure Laid (before ls : List Line) : Prop where
  fits : AllFit before ls
  settled : Settled ls

/-- **A line at level `i` may come next**, and it stands directly in the block of `m`. -/
structure Ready (before : List Line) (i : Nat) (m : Line) : Prop where
  follows : Follows before i
  inside : Inside before i m

variable {before ls ls' : List Line} {i p : Nat} {l m : Line} {h : Head}

theorem settled_append (h : Settled ls) (h' : Settled ls') : Settled (ls ++ ls') := by
  intro l hl
  rw [List.getLast?_append, Option.mem_def, Option.or_eq_some_iff] at hl
  rcases hl with hl | ⟨-, hl⟩
  · exact h' l hl
  · exact h l hl

theorem allFit_append : ∀ {ls before : List Line}, AllFit before ls →
    AllFit (before ++ ls) ls' → AllFit before (ls ++ ls')
  | [], _, _, h' => by rwa [List.append_nil] at h'
  | l :: ls, before, h, h' => by
    refine ⟨h.1, allFit_append h.2 ?_⟩
    rwa [List.append_assoc]

theorem Laid.nil : Laid before [] := ⟨trivial, by simp [Settled]⟩

theorem Laid.append (h : Laid before ls) (h' : Laid (before ++ ls) ls') :
    Laid before (ls ++ ls') :=
  ⟨allFit_append h.fits h'.fits, settled_append h.settled h'.settled⟩

/-- One of the lines fits what comes before it. -/
theorem AllFit.fits : ∀ {a before b : List Line}, AllFit before (a ++ l :: b) →
    l.Fits (before ++ a)
  | [], _, _, h => by
    rw [List.append_nil]
    exact h.1
  | k :: a, before, b, h => by
    have := AllFit.fits (a := a) h.2
    rwa [List.append_assoc] at this

/-- The first line of a block may follow its head. -/
theorem ready_open (ho : l.head.opens) : Ready (before ++ [l]) (l.indent + 1) l where
  follows k hk := by
    rw [List.getLast?_concat, Option.mem_def, Option.some.injEq] at hk
    rw [← hk, if_pos ho]
  inside := ⟨before, [], rfl, ho, rfl, by simp⟩

/-- Lines of a block, none of which is left open, may be followed by another line of the block. -/
theorem Ready.after (hr : Ready before i m) (hle : ∀ k ∈ ls, i ≤ k.indent) (hs : Settled ls) :
    Ready (before ++ ls) i m where
  follows l hl := by
    rw [List.getLast?_append, Option.mem_def, Option.or_eq_some_iff] at hl
    rcases hl with hl | ⟨-, hl⟩
    · rw [if_neg (hs l hl)]
      exact hle l (List.mem_of_getLast? hl)
    · exact hr.follows l hl
  inside := by
    obtain ⟨above, between, rfl, ho, hi, hb⟩ := hr.inside
    refine ⟨above, between ++ ls, by simp, ho, hi, fun k hk => ?_⟩
    exact (List.mem_append.mp hk).elim (hb k) (hle k)

/-- Deeper lines and further arms leave a branch open. -/
theorem Continues.after (hc : Continues before i m)
    (hle : ∀ k ∈ ls, i < k.indent ∨ k.indent = i ∧ k.head.word? = some "elif") :
    Continues (before ++ ls) i m := by
  obtain ⟨above, between, rfl, hm, hi, hb⟩ := hc
  refine ⟨above, between ++ ls, by simp, hm, hi, fun k hk => ?_⟩
  exact (List.mem_append.mp hk).elim (hb k) (hle k)

/-- The first arm of a branch opens it. -/
theorem continues_open {e : Expr}
    (hle : ∀ k ∈ ls, i < k.indent ∨ k.indent = i ∧ k.head.word? = some "elif") :
    Continues (before ++ ⟨i, .branch true e, p⟩ :: ls) i ⟨i, .branch true e, p⟩ :=
  ⟨before, ls, rfl, rfl, rfl, hle⟩

/-- A line fits where one is expected. -/
theorem Ready.fits (hr : Ready before i m) (hi : i ≤ maxIndent)
    (hcase : h.word? = some "case" ↔ m.head.word? = some "match")
    (hcontinues : h.word? = some "elif" ∨ h.word? = some "else" → ∃ f, Continues before i f) :
    Fits before ⟨i, h, p⟩ :=
  ⟨hr.follows, ⟨m, hr.inside, hcase⟩, hcontinues, hi⟩

/-- A line that opens no block. -/
theorem laid_simple (hr : Ready before i m) (hi : i ≤ maxIndent) (ho : h.opens = false)
    (hm : m.head.word? ≠ some "match") : Laid before [⟨i, h, p⟩] := by
  have hw : h.word? = none := by
    rw [Option.eq_none_iff_forall_ne_some]
    intro w hw
    rw [h.opens_iff.mpr ⟨w, hw⟩] at ho
    cases ho
  refine ⟨⟨hr.fits hi (by simp [hw, hm]) (by simp [hw]), trivial⟩, fun l hl => ?_⟩
  obtain rfl : _ = l := Option.some.inj hl
  simp [ho]

/-- A head with what stands in its block, which is not empty. -/
theorem laid_cons (hfits : Fits before l) (hne : ls ≠ []) (hlaid : Laid (before ++ [l]) ls) :
    Laid before (l :: ls) := by
  refine ⟨⟨hfits, hlaid.fits⟩, fun k hk => hlaid.settled k ?_⟩
  rwa [List.getLast?_cons_of_ne_nil hne] at hk

/-- A body, which does nothing if it has no lines. -/
theorem Ready.laid_orPass (hr : Ready before i m) (hi : i ≤ maxIndent)
    (hm : m.head.word? ≠ some "match") (hl : Laid before ls) :
    Laid before (Stmt.orPass i p ls) := by
  unfold Stmt.orPass
  split
  · exact laid_simple hr hi rfl hm
  · exact hl

theorem orPass_ne_nil : Stmt.orPass i p ls ≠ [] := by
  unfold Stmt.orPass
  split
  · exact List.cons_ne_nil _ _
  · simpa using ‹¬ ls.isEmpty›

/-- Lines that fit after the head of a function make up the function with it. -/
theorem isFunction_cons (hi : l.indent = 0) (hw : l.head.word? = some "def") (hne : ls ≠ [])
    (hl : Laid [l] ls) : IsFunction (l :: ls) := by
  have hfits : ∀ before k after, l :: ls = before ++ k :: after → before ≠ [] →
      k.Fits before := by
    intro before k after he hb
    obtain ⟨b, before, rfl⟩ := List.exists_cons_of_ne_nil hb
    obtain ⟨rfl, rfl⟩ := List.cons.inj he
    exact hl.fits.fits
  refine ⟨⟨l, ls, rfl, hi, hw⟩, hfits, fun before k after he ho => ?_⟩
  cases after with
  | nil =>
    -- the last line opens no block
    have hlast : k ∈ ls.getLast? := by
      rw [← List.getLast?_cons_of_ne_nil (x := l) hne, he]
      simp
    exact absurd ho (hl.settled k hlast)
  | cons next after =>
    have hnext := (hfits (before ++ [k]) next after (by simpa using he) (by simp)).follows
    have := hnext k (by simp)
    rw [if_pos ho] at this
    exact ⟨next, rfl, this⟩

end Line

/-! ## Sound statements -/

namespace Stmt

mutual

/-- **A statement is sound at a level**: its blocks are not too deep, its branches have an arm and
its selections a case. -/
def SoundAt (i : Nat) : Stmt → Prop
  | write .. | interpolate .. | evaluate .. | call .. => True
  | define _ _ body => SoundAllAt (i + 1) body
  | branch _ arms otherwise => arms ≠ [] ∧ SoundArmsAt i arms ∧ SoundOtherwiseAt i otherwise
  | loop _ _ _ body => SoundAllAt (i + 1) body
  | select _ _ cases => cases ≠ [] ∧ SoundCasesAt (i + 1) cases

/-- The statements of a body are sound at a level, which is not too deep. -/
def SoundAllAt (i : Nat) : List Stmt → Prop
  | [] => i ≤ maxIndent
  | s :: ss => s.SoundAt i ∧ SoundAllAt i ss

/-- The arms of a branch at a level are sound. -/
def SoundArmsAt (i : Nat) : List (Expr × List Stmt) → Prop
  | [] => True
  | (_, body) :: arms => SoundAllAt (i + 1) body ∧ SoundArmsAt i arms

/-- What is done if no arm of a branch at a level is taken is sound. -/
def SoundOtherwiseAt (i : Nat) : Option (List Stmt) → Prop
  | none => True
  | some body => SoundAllAt (i + 1) body

/-- Cases at a level, which is not too deep, are sound. -/
def SoundCasesAt (i : Nat) : List (Pattern × Option Expr × List Stmt) → Prop
  | [] => i ≤ maxIndent
  | (_, _, body) :: cases => SoundAllAt (i + 1) body ∧ SoundCasesAt i cases

end

variable {i p : Nat}

theorem SoundAllAt.le : ∀ {ss : List Stmt}, SoundAllAt i ss → i ≤ maxIndent
  | [], h => by rwa [SoundAllAt] at h
  | _ :: ss, h => by
    rw [SoundAllAt] at h
    exact SoundAllAt.le h.2

theorem SoundCasesAt.le :
    ∀ {cases : List (Pattern × Option Expr × List Stmt)}, SoundCasesAt i cases → i ≤ maxIndent
  | [], h => by rwa [SoundCasesAt] at h
  | (_, _, _) :: cases, h => by
    rw [SoundCasesAt] at h
    exact SoundCasesAt.le h.2

theorem soundAllAt_append : ∀ {ss ss' : List Stmt}, SoundAllAt i ss → SoundAllAt i ss' →
    SoundAllAt i (ss ++ ss')
  | [], _, _, h' => h'
  | s :: ss, _, h, h' => by
    rw [SoundAllAt] at h
    rw [List.cons_append, SoundAllAt]
    exact ⟨h.1, soundAllAt_append h.2 h'⟩

theorem soundAllAt_single {s : Stmt} (h : s.SoundAt i) (hi : i ≤ maxIndent) :
    SoundAllAt i [s] := by
  rw [SoundAllAt, SoundAllAt]
  exact ⟨h, hi⟩

/-! ## Sound statements give lines that fit -/

/-- Below the first line of a block there are only deeper ones. -/
theorem lt_indent_body (body : List Stmt) :
    ∀ k ∈ orPass (i + 1) p (linesAll (i + 1) body), i < k.indent := by
  intro k hk
  rcases mem_orPass hk with hk | hk
  · exact le_indent_all (i + 1) body k hk
  · omega

/-- The lines of further arms leave the branch open that they carry on. -/
theorem mem_armLines_false : ∀ {arms : List (Expr × List Stmt)}, ∀ k ∈ armLines i p false arms,
    i < k.indent ∨ k.indent = i ∧ k.head.word? = some "elif"
  | [], k, hk => by
    rw [armLines] at hk
    cases hk
  | (e, body) :: arms, k, hk => by
    rw [armLines, List.cons_append, List.mem_cons, List.mem_append] at hk
    rcases hk with rfl | hk | hk
    · exact .inr ⟨rfl, rfl⟩
    · exact .inl (lt_indent_body body k hk)
    · exact mem_armLines_false k hk

open Line

variable {before : List Line} {m : Line}

/-- The arms of a branch leave it open. -/
theorem continues_armLines {arms : List (Expr × List Stmt)} (hne : arms ≠ []) :
    ∃ f, Continues (before ++ armLines i p true arms) i f := by
  obtain ⟨⟨e, body⟩, arms, rfl⟩ := List.exists_cons_of_ne_nil hne
  rw [armLines, List.cons_append]
  refine ⟨_, continues_open fun k hk => ?_⟩
  rcases List.mem_append.mp hk with hk | hk
  · exact .inl (lt_indent_body body k hk)
  · exact mem_armLines_false k hk

/-- **A head with its body**, where a line is expected. -/
theorem laid_body {h : Head} {body : List Stmt} (hr : Ready before i m)
    (hsound : SoundAllAt (i + 1) body) (ho : h.opens) (hm : h.word? ≠ some "match")
    (hcase : h.word? = some "case" ↔ m.head.word? = some "match")
    (hcontinues : h.word? = some "elif" ∨ h.word? = some "else" → ∃ f, Continues before i f)
    (hbody : Ready (before ++ [⟨i, h, p⟩]) (i + 1) ⟨i, h, p⟩ →
      Laid (before ++ [⟨i, h, p⟩]) (linesAll (i + 1) body)) :
    Laid before (⟨i, h, p⟩ :: orPass (i + 1) p (linesAll (i + 1) body)) := by
  have hfits : Fits before ⟨i, h, p⟩ := hr.fits (Nat.le_of_succ_le hsound.le) hcase hcontinues
  have hready : Ready (before ++ [⟨i, h, p⟩]) (i + 1) ⟨i, h, p⟩ := ready_open ho
  exact laid_cons hfits orPass_ne_nil (hready.laid_orPass hsound.le hm (hbody hready))

mutual

/-- The lines of a sound statement fit where one is expected that is no case. -/
theorem laid_lines : ∀ {s : Stmt} {before : List Line} {i : Nat} {m : Line}, s.SoundAt i →
    i ≤ maxIndent → Ready before i m → m.head.word? ≠ some "match" → Laid before (s.lines i)
  | write .., _, _, _, _, hi, hr, hm | interpolate .., _, _, _, _, hi, hr, hm
  | evaluate .., _, _, _, _, hi, hr, hm | call .., _, _, _, _, hi, hr, hm => by
    rw [lines]
    exact laid_simple hr hi rfl hm
  | define p name body, _, _, _, hs, _, hr, hm => by
    rw [SoundAt] at hs
    rw [lines]
    refine laid_body hr hs rfl ?_ ?_ ?_ fun hready => laid_linesAll hs hready ?_
    all_goals simp [hm]
  | branch p arms otherwise, before, i, _, hs, hi, hr, hm => by
    rw [SoundAt] at hs
    obtain ⟨hne, harms, hotherwise⟩ := hs
    have hlaid : Laid before (armLines i p true arms) := laid_armLines harms hi hr hm (by simp)
    rw [lines]
    refine hlaid.append (laid_otherwiseLines hotherwise ?_ hm (continues_armLines hne))
    exact hr.after (le_indent_arms i p true arms) hlaid.settled
  | loop p target e body, _, _, _, hs, _, hr, hm => by
    rw [SoundAt] at hs
    rw [lines]
    refine laid_body hr hs rfl ?_ ?_ ?_ fun hready => laid_linesAll hs hready ?_
    all_goals simp [hm]
  | select p subject cases, before, i, m, hs, hi, hr, hm => by
    rw [SoundAt] at hs
    obtain ⟨hne, hcases⟩ := hs
    have hfits : Fits before ⟨i, .select subject, p⟩ :=
      hr.fits hi (by simp [hm]) (by simp)
    have hready : Ready (before ++ [⟨i, .select subject, p⟩]) (i + 1) ⟨i, .select subject, p⟩ :=
      ready_open rfl
    have hlaid := laid_caseLines (p := p) hcases hready rfl
    have hlines : caseLines (i + 1) p cases ≠ [] := by
      obtain ⟨⟨pattern, guard, body⟩, cases, rfl⟩ := List.exists_cons_of_ne_nil hne
      simp [caseLines]
    rw [lines]
    exact laid_cons hfits hlines hlaid

/-- **The lines of sound statements fit** wherever statements are expected. -/
theorem laid_linesAll : ∀ {ss : List Stmt} {before : List Line} {i : Nat} {m : Line},
    SoundAllAt i ss → Ready before i m → m.head.word? ≠ some "match" →
    Laid before (linesAll i ss)
  | [], _, _, _, _, _, _ => by
    rw [linesAll]
    exact .nil
  | s :: ss, _, i, _, hs, hr, hm => by
    have hi := hs.le
    rw [SoundAllAt] at hs
    have hlaid := laid_lines hs.1 hi hr hm
    rw [linesAll]
    exact hlaid.append (laid_linesAll hs.2 (hr.after (le_indent i s) hlaid.settled) hm)

/-- The lines of arms fit where a branch may start, or goes on. -/
theorem laid_armLines : ∀ {arms : List (Expr × List Stmt)} {before : List Line} {i p : Nat}
    {first : Bool} {m : Line}, SoundArmsAt i arms → i ≤ maxIndent → Ready before i m →
    m.head.word? ≠ some "match" → (first = false → ∃ f, Continues before i f) →
    Laid before (armLines i p first arms)
  | [], _, _, _, _, _, _, _, _, _, _ => by
    rw [armLines]
    exact .nil
  | (e, body) :: arms, before, i, p, first, m, hs, hi, hr, hm, hc => by
    rw [SoundArmsAt] at hs
    have hlaid : Laid before (⟨i, .branch first e, p⟩ ::
        orPass (i + 1) p (linesAll (i + 1) body)) := by
      refine laid_body hr hs.1 rfl ?_ ?_ ?_ fun hready => laid_linesAll hs.1 hready ?_
      all_goals cases first <;> simp_all [Head.word?]
    have hready := hr.after (le_indent_block (le_indent_all (i + 1) body)) hlaid.settled
    rw [armLines]
    refine hlaid.append (laid_armLines hs.2 hi hready hm fun _ => ?_)
    cases first with
    | true =>
      exact ⟨_, continues_open fun k hk => .inl (lt_indent_body body k hk)⟩
    | false =>
      obtain ⟨f, hf⟩ := hc rfl
      refine ⟨f, hf.after fun k hk => ?_⟩
      rcases List.mem_cons.mp hk with rfl | hk
      · exact .inr ⟨rfl, rfl⟩
      · exact .inl (lt_indent_body body k hk)

/-- What is done otherwise fits after the arms of a branch. -/
theorem laid_otherwiseLines : ∀ {otherwise : Option (List Stmt)} {before : List Line} {i p : Nat}
    {m : Line}, SoundOtherwiseAt i otherwise → Ready before i m →
    m.head.word? ≠ some "match" → (∃ f, Continues before i f) →
    Laid before (otherwiseLines i p otherwise)
  | none, _, _, _, _, _, _, _, _ => by
    rw [otherwiseLines]
    exact .nil
  | some body, _, _, _, _, hs, hr, hm, hc => by
    rw [SoundOtherwiseAt] at hs
    rw [otherwiseLines]
    refine laid_body hr hs rfl ?_ ?_ (fun _ => hc) fun hready => laid_linesAll hs hready ?_
    all_goals simp [hm]

/-- Cases fit in a selection. -/
theorem laid_caseLines : ∀ {cases : List (Pattern × Option Expr × List Stmt)} {before : List Line}
    {i p : Nat} {m : Line}, SoundCasesAt i cases → Ready before i m →
    m.head.word? = some "match" → Laid before (caseLines i p cases)
  | [], _, _, _, _, _, _, _ => by
    rw [caseLines]
    exact .nil
  | (pattern, guard, body) :: cases, before, i, p, m, hs, hr, hm => by
    rw [SoundCasesAt] at hs
    have hlaid : Laid before (⟨i, .case pattern guard, p⟩ ::
        orPass (i + 1) p (linesAll (i + 1) body)) := by
      refine laid_body hr hs.1 rfl ?_ ?_ ?_ fun hready => laid_linesAll hs.1 hready ?_
      all_goals simp [hm]
    have hready := hr.after (le_indent_block (le_indent_all (i + 1) body)) hlaid.settled
    rw [caseLines]
    exact hlaid.append (laid_caseLines hs.2 hready hm)

end

end Stmt

/-! ## Generated statements are sound -/

namespace Gen

open Stmt

variable {env : Env}

theorem soundAllAt_flush {i p : Nat} {text : String} (hi : i ≤ maxIndent) :
    SoundAllAt i (flush p text) := by
  unfold flush
  split
  · rwa [SoundAllAt]
  · exact soundAllAt_single (by rw [SoundAt]; trivial) hi

/-- Arms and what is done otherwise, as one statement or as what is done in any case. -/
theorem soundAllAt_branchOf {i p : Nat} {r : List (Expr × List Stmt) × Option (List Stmt)}
    (hi : i ≤ maxIndent) (harms : SoundArmsAt i r.1)
    (hnone : r.1 = [] → ∀ ss, r.2 = some ss → SoundAllAt i ss)
    (hsome : r.1 ≠ [] → SoundOtherwiseAt i r.2) :
    SoundAllAt i (branchOf p r) := by
  obtain ⟨arms, otherwise⟩ := r
  cases arms with
  | nil =>
    cases otherwise with
    | none =>
      change SoundAllAt i []
      rwa [SoundAllAt]
    | some ss => exact hnone rfl ss rfl
  | cons arm arms =>
    refine soundAllAt_single ?_ hi
    rw [SoundAt]
    exact ⟨List.cons_ne_nil _ _, harms, hsome (List.cons_ne_nil _ _)⟩

mutual

/-- **The statements of a body are sound** at the level they are generated for. -/
theorem body_soundAt : ∀ {ns : List Node} {s : Scope} {i p k k' : Nat} {pending : String}
    {r : List Stmt}, i ≤ maxIndent → body env s i p pending ns k = .ok (r, k') → SoundAllAt i r
  | [], _, _, _, _, _, _, _, hi, h => by
    obtain ⟨rfl, -⟩ := body_nil_ok.mp h
    exact soundAllAt_flush hi
  | n :: ns, _, _, _, _, _, _, _, hi, h => by
    cases hp : n.plain? with
    | some text =>
      rw [body_cons_plain hp] at h
      exact body_soundAt hi h
    | none =>
      obtain ⟨a, k₁, b, ha, hb, rfl⟩ := (body_cons_ok hp).mp h
      exact soundAllAt_append (soundAllAt_append (soundAllAt_flush hi) (node_soundAt hi hp ha))
        (body_soundAt hi hb)

theorem node_soundAt : ∀ {n : Node} {s : Scope} {i k k' : Nat} {r : List Stmt}, i ≤ maxIndent →
    n.plain? = none → node env s i n k = .ok (r, k') → SoundAllAt i r
  | .text _ _, _, _, _, _, _, _, hp, _ | .comment _ _, _, _, _, _, _, _, hp, _ => by cases hp
  | .value p e raw, _, _, _, _, _, hi, _, h => by
    obtain ⟨e', -, rfl, -⟩ := node_value_ok.mp h
    exact soundAllAt_single (by rw [SoundAt]; trivial) hi
  | .branch p arms otherwise, _, i, _, _, _, hi, _, h => by
    obtain ⟨r, hr, rfl⟩ := node_branch_ok.mp h
    obtain ⟨harms, hnone, hsome⟩ :=
      chain_soundAt (fun hi h => alternative_soundAt hi h) hi hr
    exact soundAllAt_branchOf hi harms (hnone rfl) fun hne => hsome (.inr hne)
  | .loop p pattern e nodes, _, _, _, _, _, hi, _, h => by
    by_cases hp : pattern.simplify.isIrrefutable
    · obtain ⟨e', inner, renamed, k₁, target, body', -, -, -, hdeep, hbody, rfl⟩ :=
        (node_loop_plain_ok hp).mp h
      refine soundAllAt_single ?_ hi
      rw [SoundAt]
      exact body_soundAt hdeep hbody
    · obtain ⟨e', inner, renamed, k₁, case, body', -, -, -, hdeep, hbody, rfl⟩ :=
        (node_loop_skipping_ok hp).mp h
      refine soundAllAt_single ?_ hi
      rw [SoundAt]
      refine soundAllAt_single ?_ (by omega)
      rw [SoundAt, SoundCasesAt, SoundCasesAt]
      exact ⟨List.cons_ne_nil _ _, body_soundAt (by omega) hbody, by omega⟩
  | .cases p e [], _, _, _, _, _, hi, _, h => by
    obtain ⟨e', -, rfl, -⟩ := node_cases_nil_ok.mp h
    exact soundAllAt_single (by rw [SoundAt]; trivial) hi
  | .cases p e (arm :: arms), _, _, _, _, _, hi, _, h => by
    obtain ⟨e', cases', -, hdeep, hr, rfl⟩ := (node_cases_ok (List.cons_ne_nil _ _)).mp h
    obtain ⟨hsound, hne⟩ := cases_soundAt hdeep hr
    refine soundAllAt_single ?_ hi
    rw [SoundAt]
    exact ⟨hne (List.cons_ne_nil _ _), hsound⟩
  | .call p path args blocks, _, _, _, _, _, hi, _, h => by
    obtain ⟨defs, args', k₁, defs', contents', ha, hb, rfl⟩ := node_call_ok.mp h
    exact soundAllAt_append
      (soundAllAt_append (arguments_soundAt hi ha) (contents_soundAt hi hb))
      (soundAllAt_single (by rw [SoundAt]; trivial) hi)

theorem alternative_soundAt : ∀ {o : Option (List Node)} {s : Scope} {i p k k' : Nat}
    {r : List Stmt}, i ≤ maxIndent → alternative env s i p o k = .ok (r, k') → SoundAllAt i r
  | none, _, _, _, _, _, _, hi, h => by
    obtain ⟨rfl, -⟩ := alternative_none_ok.mp h
    rwa [SoundAllAt]
  | some nodes, _, _, _, _, _, _, hi, h => by
    rw [alternative_some] at h
    exact body_soundAt hi h

/-- Without arms of its own the chain that stands first is done in any case, at the level of the
branch; otherwise it stands one level deeper. -/
theorem chain_soundAt {s : Scope} {p : Nat} {last : Bool} {otherwise : Nat → Gen (List Stmt)}
    (ho : ∀ {i k k' r}, i ≤ maxIndent → otherwise i k = .ok (r, k') → SoundAllAt i r) :
    ∀ {arms : List (Condition × List Node)} {i k k' : Nat} {first : Bool}
      {r : List (Expr × List Stmt) × Option (List Stmt)}, i ≤ maxIndent →
    chain env s i first p last otherwise arms k = .ok (r, k') →
    SoundArmsAt i r.1 ∧ (first = true → r.1 = [] → ∀ ss, r.2 = some ss → SoundAllAt i ss) ∧
      ((first = false ∨ r.1 ≠ []) → SoundOtherwiseAt i r.2)
  | [], i, _, _, first, _, hi, h => by
    obtain ⟨-, hfirst, stmts, hs, rfl⟩ | ⟨-, rfl, -⟩ := chain_nil_ok.mp h
    · refine ⟨by rw [SoundArmsAt]; trivial, ?_, ?_⟩
      · rintro rfl - _ ⟨⟩
        exact ho hi hs
      · rintro (rfl | hne)
        · rw [SoundOtherwiseAt]
          exact ho (hfirst.resolve_left (by simp)) hs
        · exact absurd rfl hne
    · refine ⟨by rw [SoundArmsAt]; trivial, by simp, fun _ => by rw [SoundOtherwiseAt]; trivial⟩
  | (.holds e, nodes) :: arms, _, _, _, _, _, hi, h => by
    obtain ⟨e', body', k₁, arms', stmts, -, hdeep, hb, hr, rfl⟩ := chain_holds_ok.mp h
    obtain ⟨harms, -, hsome⟩ := chain_soundAt ho hi hr
    refine ⟨?_, by simp, fun _ => hsome (.inl rfl)⟩
    rw [SoundArmsAt]
    exact ⟨body_soundAt hdeep hb, harms⟩
  | (.matches pattern e, nodes) :: arms, i, _, _, first, r, hi, h => by
    obtain ⟨i', e', inner, renamed, k₁, case, body', k₂, hi', hfirst, -, -, -, hdeep, hb, h⟩ :=
      chain_matches_ok.mp h
    have hbody := body_soundAt hdeep hb
    -- the selection stands at the level of the branch or, after an arm, one level deeper
    suffices hs : ∃ cases, r = ([], some [.select p (.value e') cases]) ∧
        cases ≠ [] ∧ SoundCasesAt (i' + 1) cases by
      obtain ⟨cases, rfl, hne, hcases⟩ := hs
      have hselect : SoundAllAt i' [.select p (.value e') cases] := by
        refine soundAllAt_single ?_ (by omega)
        rw [SoundAt]
        exact ⟨hne, hcases⟩
      refine ⟨by rw [SoundArmsAt]; trivial, ?_, ?_⟩
      · rintro rfl - _ ⟨⟩
        rwa [hi'] at hselect
      · rintro (rfl | hne)
        · rw [SoundOtherwiseAt]
          rwa [hi'] at hselect
        · exact absurd rfl hne
    obtain ⟨-, rfl, -⟩ | ⟨-, arms', stmts, hrest, rfl⟩ := h
    · refine ⟨_, rfl, List.cons_ne_nil _ _, ?_⟩
      rw [SoundCasesAt, SoundCasesAt]
      exact ⟨hbody, by omega⟩
    · obtain ⟨harms, hnone, hsome⟩ := chain_soundAt ho (i := i' + 2) hdeep hrest
      refine ⟨_, rfl, List.cons_ne_nil _ _, ?_⟩
      rw [SoundCasesAt, SoundCasesAt, SoundCasesAt]
      exact ⟨hbody, soundAllAt_branchOf hdeep harms (hnone rfl) (fun hne => hsome (.inr hne)),
        by omega⟩

theorem cases_soundAt : ∀ {arms : List (Pattern × Option Expr × List Node)} {s : Scope}
    {i p k k' : Nat} {r : List (Pattern × Option Expr × List Stmt)}, i ≤ maxIndent →
    cases env s i p arms k = .ok (r, k') → SoundCasesAt i r ∧ (arms ≠ [] → r ≠ [])
  | [], _, _, _, _, _, _, hi, h => by
    obtain ⟨rfl, -⟩ := cases_nil_ok.mp h
    rw [SoundCasesAt]
    exact ⟨hi, absurd rfl⟩
  | (pattern, guard, nodes) :: arms, _, _, _, _, _, _, hi, h => by
    obtain ⟨inner, renamed, k₁, case, guard', body', k₂, -, -, -, hdeep, hb, h⟩ :=
      cases_cons_ok.mp h
    have hbody := body_soundAt hdeep hb
    obtain ⟨-, rfl, -⟩ | ⟨-, rest, hrest, rfl⟩ := h
    · rw [SoundCasesAt, SoundCasesAt]
      exact ⟨⟨hbody, hi⟩, fun _ => List.cons_ne_nil _ _⟩
    · rw [SoundCasesAt]
      exact ⟨⟨hbody, (cases_soundAt hi hrest).1⟩, fun _ => List.cons_ne_nil _ _⟩

theorem arguments_soundAt : ∀ {args : List (Expr ⊕ List Node)} {s : Scope} {i p k k' : Nat}
    {defs : List Stmt} {ops : List Operand}, i ≤ maxIndent →
    arguments env s i p args k = .ok ((defs, ops), k') → SoundAllAt i defs
  | [], _, _, _, _, _, _, _, hi, h => by
    obtain ⟨hr, -⟩ := arguments_nil_ok.mp h
    cases hr
    rwa [SoundAllAt]
  | .inl e :: args, _, _, _, _, _, _, _, hi, h => by
    obtain ⟨e', defs', args', -, ha, hr⟩ := arguments_value_ok.mp h
    cases hr
    exact arguments_soundAt hi ha
  | .inr nodes :: args, _, _, _, _, _, _, _, hi, h => by
    obtain ⟨body', k₁, defs', args', hdeep, hb, ha, hr⟩ := arguments_block_ok.mp h
    cases hr
    rw [SoundAllAt, SoundAt]
    exact ⟨body_soundAt hdeep hb, arguments_soundAt hi ha⟩

theorem contents_soundAt : ∀ {blocks : List (List Node)} {s : Scope} {i p k k' : Nat}
    {defs : List Stmt} {ops : List Operand}, i ≤ maxIndent →
    contents env s i p blocks k = .ok ((defs, ops), k') → SoundAllAt i defs
  | [], _, _, _, _, _, _, _, hi, h => by
    obtain ⟨hr, -⟩ := contents_nil_ok.mp h
    cases hr
    rwa [SoundAllAt]
  | nodes :: blocks, _, _, _, _, _, _, _, hi, h => by
    obtain ⟨body', k₁, defs', args', hdeep, hb, hd, hr⟩ := contents_cons_ok.mp h
    cases hr
    rw [SoundAllAt, SoundAt]
    exact ⟨body_soundAt hdeep hb, contents_soundAt hi hd⟩

end

end Gen

/-- **The lines of a generated function make up a function**, whose head is that of the template;
the heads of blocks are written with their words and end with a colon. -/
theorem Template.isFunction_functionLines {context : Context} {t : Template} {stmts : List Stmt}
    (h : t.stmts context = .ok stmts) :
    Line.IsFunction (t.functionLines stmts) ∧
      (t.functionLines stmts).head? = some ⟨0, .define t.function t.params, 0⟩ ∧
      ∀ l ∈ t.functionLines stmts, ∀ w, l.head.word? = some w → ∃ rest,
        l.text = String.ofList (List.replicate (4 * l.indent) ' ') ++ (w ++ rest ++ ":") := by
  obtain ⟨k, hb⟩ := Template.stmts_ok.mp h
  have hsound : Stmt.SoundAllAt 1 stmts := Gen.body_soundAt (by decide) hb
  have hready : Line.Ready [⟨0, .define t.function t.params, 0⟩] 1 _ :=
    @Line.ready_open [] ⟨0, .define t.function t.params, 0⟩ rfl
  have hlaid := Stmt.laid_linesAll hsound hready (by simp)
  have hbody := hready.laid_orPass (p := 0) hsound.le (by simp) hlaid
  refine ⟨Line.isFunction_cons rfl rfl Line.orPass_ne_nil hbody, rfl, fun l _ w hw => ?_⟩
  obtain ⟨rest, hcode⟩ := Head.code_of_word? hw
  exact ⟨rest, by rw [Line.text, hcode]⟩

/-- Blocks of every kind, some of which are empty or hold a comment only. -/
def blocksText : List Char :=
  ("@(xs: list)\n@for (_, 1) in xs {}@if xs {}@else if xs {@* c *@}@else if let (_, z) = xs {@z}" ++
    "@else {e}@match xs {Some(_) => {}, _ => {c},}@:page(xs) {d}").toList

theorem Template.isFunction_functionLines_blocks : ∃ t stmts,
    Template.parse ⟨[], "page", "html"⟩ .here "" blocksText = .ok t ∧
      t.stmts .empty = .ok stmts ∧ Line.IsFunction (t.functionLines stmts) := by
  obtain ⟨t, stmts, hparse, hs, -, -⟩ := Template.exists_of_generates
    ⟨[], "page", "html"⟩ blocksText .empty (fun _ _ => true) (by decide +kernel)
  exact ⟨t, stmts, hparse, hs, (isFunction_functionLines hs).1⟩

end Stencil
